import Torc.Route
import Torc.Queue
import Torc.StealingFlag

/-!
# A steal round

The tail of `get_next_task`: with empty queues and `internode_stealing` set, the other nodes are
asked for work one after the other.
-/

namespace Torc.StealRound

open Transition

/-- What a call of `direct_synchronous_stealing_request` meets: `termination_flag` at its beginning,
whether `receive_descriptor` gives up because `appl_finished` is set, the reply otherwise, and the
addresses that `calloc` returns for its arguments. -/
structure Attempt where
  terminationFlag : Bool := false
  applFinished : Bool := false
  reply : TorcT := {}
  mem : Nat → Int := fun _ ↦ 0

/-- `requests` lists the nodes that were sent a `DIRECT_SYNCHRONOUS_STEALING_REQUEST`. -/
structure State where
  queues : Queues TorcT := {}
  internodeStealing : Bool := false
  stealHits : Nat := 0
  requests : List Nat := []

def receiveDescriptor (me vpid : Nat) (a : Attempt) : TorcT :=
  if a.applFinished then { type := .torcNoWork } else (receiveStolen me vpid a.mem a.reply).1

def directSynchronousStealingRequest (me vpid targetNode : Nat) (a : Attempt) (s : State) :
    Option TorcT × State :=
  if a.terminationFlag then (none, s)
  else
    let s := { s with requests := s.requests ++ [targetNode] }
    let desc := receiveDescriptor me vpid a
    if desc.type = .torcNoWork then (none, s)
    else (some desc, { s with stealHits := s.stealHits + 1 })

/-- The `while` loop of `get_next_task` behind `k` attempts; none is out of fuel. -/
def stealLoop (n me vpid : Nat) (attempt : Nat → Attempt) :
    Nat → Nat → Nat → State → Option (Option TorcT × State)
  | 0, _, _, _ => none
  | fuel + 1, k, node, s =>
      if node ≠ me then
        match directSynchronousStealingRequest me vpid node (attempt k) s with
        | (some desc, s) => some (some desc, s)
        | (none, s) => stealLoop n me vpid attempt fuel (k + 1) ((node + 1) % n) s
      else some (none, s)

/-- `get_next_task` by thread `vpid` of node `me`. -/
def getNextTask (n me vpid : Nat) (attempt : Nat → Attempt) (fuel : Nat) (s : State) :
    Option (Option TorcT × State) :=
  match s.queues.nextLocal with
  | some (desc, queues) => some (some desc, { s with queues := queues })
  | none =>
      if s.internodeStealing then do
        let (desc, s) ← stealLoop n me vpid attempt fuel 0 ((me + 1) % n) s
        some (desc, if desc.isNone then { s with internodeStealing := false } else s)
      else some (none, s)

/-- The attempt gets no work from its node. -/
def Attempt.Refused (a : Attempt) : Prop :=
  a.terminationFlag = true ∨ a.applFinished = true ∨ a.reply.type = .torcNoWork

instance (a : Attempt) : Decidable a.Refused :=
  inferInstanceAs (Decidable (_ ∨ _ ∨ _))

/-- The nodes that are sent a request by the first `l` attempts. -/
def asked (n me : Nat) (attempt : Nat → Attempt) (l : Nat) : List Nat :=
  ((List.range l).filter fun d ↦ !(attempt d).terminationFlag).map (Cyclic.visited n me)

/-- A round of `l` attempts with the result `desc`. -/
structure Polled (n me vpid : Nat) (attempt : Nat → Attempt) (l : Nat) (s : State)
    (desc : Option TorcT) (s' : State) : Prop where
  length : l < n
  requests : s'.requests = s.requests ++ asked n me attempt l
  others : ∀ node ∈ asked n me attempt l, node < n ∧ node ≠ me
  once : (asked n me attempt l).Nodup
  stops : ∀ d < l, ¬(attempt d).Refused →
    d + 1 = l ∧ desc = some (receiveDescriptor me vpid (attempt d))
  work : desc ≠ none → ∃ d < l, ¬(attempt d).Refused
  noWork : desc = none → ∀ node < n, node ≠ me →
    ∃ d < l, Cyclic.visited n me d = node ∧ (attempt d).Refused ∧
      (node ∈ asked n me attempt l ∨ (attempt d).terminationFlag = true)
  cleared : s'.internodeStealing = false ↔ desc = none

/-! ## One attempt -/

variable {n me vpid l d : Nat} {attempt : Nat → Attempt} {a : Attempt} {s : State}

theorem Attempt.flag_of_not_refused (h : ¬a.Refused) : a.terminationFlag = false := by
  rw [← Bool.not_eq_true]
  exact fun htrue ↦ h (.inl htrue)

theorem receiveDescriptor_type (me vpid : Nat) (h : a.terminationFlag = false) :
    (receiveDescriptor me vpid a).type = .torcNoWork ↔ a.Refused := by
  rw [receiveDescriptor, Attempt.Refused, h]
  cases a.applFinished with
  | true => exact iff_of_true rfl (.inr (.inl rfl))
  | false =>
      rw [if_neg Bool.false_ne_true, receiveStolen_type]
      simp only [Bool.false_eq_true, false_or]

theorem directSynchronousStealingRequest_refused (node : Nat) (h : a.Refused) :
    directSynchronousStealingRequest me vpid node a s =
      (none, { s with requests := s.requests ++ if a.terminationFlag then [] else [node] }) := by
  unfold directSynchronousStealingRequest
  cases hflag : a.terminationFlag with
  | true =>
      rw [if_pos rfl, if_pos rfl, List.append_nil]
  | false =>
      have htype := (receiveDescriptor_type me vpid hflag).mpr h
      simp only [Bool.false_eq_true, if_false, if_pos htype]

theorem directSynchronousStealingRequest_work (node : Nat) (h : ¬a.Refused) :
    directSynchronousStealingRequest me vpid node a s =
      (some (receiveDescriptor me vpid a),
        { s with requests := s.requests ++ [node], stealHits := s.stealHits + 1 }) := by
  have hflag := Attempt.flag_of_not_refused h
  have htype : (receiveDescriptor me vpid a).type ≠ .torcNoWork :=
    fun htype ↦ h ((receiveDescriptor_type me vpid hflag).mp htype)
  rw [directSynchronousStealingRequest, hflag]
  simp only [Bool.false_eq_true, if_false, if_neg htype]

/-! ## The loop -/

theorem asked_succ (n me : Nat) (attempt : Nat → Attempt) (l : Nat) :
    asked n me attempt (l + 1) = asked n me attempt l ++
      if (attempt l).terminationFlag then [] else [Cyclic.visited n me l] := by
  rw [asked, List.range_succ, List.filter_append, List.map_append]
  cases hflag : (attempt l).terminationFlag <;> simp [asked, hflag]

theorem mem_asked {node : Nat} : node ∈ asked n me attempt l ↔
    ∃ d < l, (attempt d).terminationFlag = false ∧ Cyclic.visited n me d = node := by
  simp only [asked, List.mem_map, List.mem_filter, List.mem_range, Bool.not_eq_true', and_assoc]

/-- A round that is not closed yet visits neither its own node nor another one twice. -/
theorem asked_others (hself : me < n) (hl : l < n) :
    ∀ node ∈ asked n me attempt l, node < n ∧ node ≠ me := by
  intro node hnode
  obtain ⟨d, hd, -, rfl⟩ := mem_asked.mp hnode
  exact ⟨Cyclic.visited_lt hself d, Cyclic.visited_ne hself (by omega)⟩

theorem asked_once (hself : me < n) (hl : l < n) : (asked n me attempt l).Nodup := by
  apply List.Nodup.map_on
  · intro d hd e he heq
    rw [List.mem_filter, List.mem_range] at hd he
    exact Cyclic.visited_inj hself (by omega) (by omega) heq
  · exact List.nodup_range.filter _

/-- Attempts without success take the loop round the ring. -/
theorem stealLoop_refused (hself : me < n) (hl : l < n) (h : ∀ d < l, (attempt d).Refused)
    (fuel : Nat) :
    stealLoop n me vpid attempt (fuel + l) 0 (Cyclic.visited n me 0) s =
      stealLoop n me vpid attempt fuel l (Cyclic.visited n me l)
        { s with requests := s.requests ++ asked n me attempt l } := by
  -- the last attempt is split off, so that the earlier ones have to leave fuel for it
  induction l generalizing fuel with
  | zero =>
      have hnone : asked n me attempt 0 = [] := rfl
      rw [hnone, List.append_nil]
      rfl
  | succ l ih =>
      have hopen : Cyclic.visited n me l ≠ me := Cyclic.visited_ne hself hl
      have hrefused := h l (Nat.lt_succ_self l)
      have hfuel : fuel + (l + 1) = fuel + 1 + l := by omega
      rw [hfuel, ih (by omega) (fun d hd ↦ h d (by omega)), stealLoop, if_pos hopen,
        directSynchronousStealingRequest_refused _ hrefused, Cyclic.visited_succ, asked_succ,
        List.append_assoc]

theorem stealLoop_none (hself : me < n) (h : ∀ d < n - 1, (attempt d).Refused) {fuel : Nat}
    (hfuel : n ≤ fuel) :
    stealLoop n me vpid attempt fuel 0 (Cyclic.visited n me 0) s =
      some (none, { s with requests := s.requests ++ asked n me attempt (n - 1) }) := by
  obtain ⟨fuel, rfl⟩ : ∃ fuel', fuel = fuel' + 1 + (n - 1) := ⟨fuel - n, by omega⟩
  have hclosed : Cyclic.visited n me (n - 1) = me :=
    (Cyclic.visited_eq_self_iff hself (by omega)).mpr (by omega)
  rw [stealLoop_refused hself (by omega) h, stealLoop, if_neg (not_not_intro hclosed)]

theorem stealLoop_some (hself : me < n) (hd : d < n - 1) (hwork : ¬(attempt d).Refused)
    (h : ∀ e < d, (attempt e).Refused) {fuel : Nat} (hfuel : n ≤ fuel) :
    stealLoop n me vpid attempt fuel 0 (Cyclic.visited n me 0) s =
      some (some (receiveDescriptor me vpid (attempt d)),
        { s with
          requests := s.requests ++ asked n me attempt (d + 1)
          stealHits := s.stealHits + 1 }) := by
  obtain ⟨fuel, rfl⟩ : ∃ fuel', fuel = fuel' + 1 + d := ⟨fuel - 1 - d, by omega⟩
  have hopen : Cyclic.visited n me d ≠ me := Cyclic.visited_ne hself (by omega)
  have hflag := Attempt.flag_of_not_refused hwork
  rw [stealLoop_refused hself (by omega) h, stealLoop, if_pos hopen,
    directSynchronousStealingRequest_work _ hwork, asked_succ, hflag, List.append_assoc]
  rfl

/-! ## The round -/

theorem getNextTask_eq (hempty : s.queues.tasks = []) (hstealing : s.internodeStealing = true)
    {fuel : Nat} {desc : Option TorcT} {s' : State}
    (hloop : stealLoop n me vpid attempt fuel 0 (Cyclic.visited n me 0) s = some (desc, s')) :
    getNextTask n me vpid attempt fuel s =
      some (desc, if desc.isNone then { s' with internodeStealing := false } else s') := by
  have hstart : (me + 1) % n = Cyclic.visited n me 0 := rfl
  rw [getNextTask, Queues.nextLocal_of_tasks_eq_nil hempty]
  simp only [hstealing, if_true, hstart, hloop, Option.bind_eq_bind, Option.bind_some]

theorem polled_none (hself : me < n) (hall : ∀ d < n - 1, (attempt d).Refused) :
    Polled n me vpid attempt (n - 1) s none { s with
      requests := s.requests ++ asked n me attempt (n - 1)
      internodeStealing := false } where
  length := by omega
  requests := rfl
  others := asked_others hself (by omega)
  once := asked_once hself (by omega)
  stops d hd hwork := absurd (hall d hd) hwork
  work hne := absurd rfl hne
  noWork _ node hnode hne := by
    obtain ⟨d, hd, hvisited⟩ := Cyclic.exists_visited hself hnode hne
    have hd' : d < n - 1 := by omega
    refine ⟨d, hd', hvisited, hall d hd', ?_⟩
    cases hflag : (attempt d).terminationFlag with
    | true => exact .inr rfl
    | false => exact .inl (mem_asked.mpr ⟨d, hd', hflag, hvisited⟩)
  cleared := iff_of_true rfl rfl

theorem polled_some (hself : me < n) (hd : d < n - 1) (hwork : ¬(attempt d).Refused)
    (h : ∀ e < d, (attempt e).Refused) (hstealing : s.internodeStealing = true) :
    Polled n me vpid attempt (d + 1) s (some (receiveDescriptor me vpid (attempt d))) { s with
      requests := s.requests ++ asked n me attempt (d + 1)
      stealHits := s.stealHits + 1 } where
  length := by omega
  requests := rfl
  others := asked_others hself (by omega)
  once := asked_once hself (by omega)
  stops e he hne := by
    have hlast : e = d := by
      by_contra hlt
      exact hne (h e (by omega))
    rw [hlast]
    exact ⟨rfl, rfl⟩
  work _ := ⟨d, Nat.lt_succ_self d, hwork⟩
  noWork hnone := absurd hnone (Option.some_ne_none _)
  cleared := by
    refine iff_of_false ?_ (Option.some_ne_none _)
    show ¬s.internodeStealing = false
    rw [hstealing]
    exact Bool.false_ne_true.symm

/-- Whatever the other nodes reply, and on a single node too. -/
theorem steal_round (hself : me < n) (vpid : Nat) (attempt : Nat → Attempt) (s : State)
    (hempty : s.queues.tasks = []) (hstealing : s.internodeStealing = true) :
    ∃ desc s' l, (∀ fuel, n ≤ fuel →
      getNextTask n me vpid attempt fuel s = some (desc, s')) ∧
      Polled n me vpid attempt l s desc s' := by
  by_cases hall : ∀ d < n - 1, (attempt d).Refused
  · -- the loop comes back to its own node
    exact ⟨none, _, n - 1, fun fuel hfuel ↦
      getNextTask_eq hempty hstealing (stealLoop_none hself hall hfuel), polled_none hself hall⟩
  · -- the first attempt with success
    have hexists : ∃ d, d < n - 1 ∧ ¬(attempt d).Refused := by
      obtain ⟨d, hd⟩ := not_forall.mp hall
      exact ⟨d, Classical.not_imp.mp hd⟩
    obtain ⟨hfirst, hwork⟩ := Nat.find_spec hexists
    have hbefore : ∀ e < Nat.find hexists, (attempt e).Refused := by
      intro e he
      by_contra hrefused
      exact Nat.find_min hexists he ⟨by omega, hrefused⟩
    exact ⟨_, _, Nat.find hexists + 1, fun fuel hfuel ↦
      getNextTask_eq hempty hstealing (stealLoop_some hself hfirst hwork hbefore hfuel),
      polled_some hself hfirst hwork hbefore hstealing⟩

/-! ## The same with other threads -/

theorem directSynchronousStealingRequest_flag (me vpid node : Nat) (a : Attempt) (s : State) :
    (directSynchronousStealingRequest me vpid node a s).2.internodeStealing =
      s.internodeStealing := by
  unfold directSynchronousStealingRequest
  split
  · rfl
  · dsimp only
    split <;> rfl

theorem stealLoop_run {fuel k : Nat} {desc : Option TorcT} {s' : State} {σ : StealingFlag.State}
    {r : StealingFlag.Round} (hplace : σ.place vpid = .round r)
    (hflag : σ.internodeStealing = s.internodeStealing)
    (hloop : stealLoop n me vpid attempt fuel k r.node s = some (desc, s')) :
    ∃ acts σ', (StealingFlag.system n me).run σ acts = some σ' ∧
    σ'.place vpid = .outside ∧
      σ'.internodeStealing =
        (if desc.isNone then { s' with internodeStealing := false } else s').internodeStealing := by
  induction fuel generalizing k s σ r with
  | zero => cases hloop
  | succ fuel ih =>
      rw [stealLoop] at hloop
      by_cases hnode : r.node = me
      · -- the loop is left, and the flag is cleared
        rw [if_neg (not_not_intro hnode)] at hloop
        cases hloop
        have hclear : (StealingFlag.system n me).step (.clear vpid) σ =
            some { σ.move vpid .outside with internodeStealing := false } := by
          simp only [StealingFlag.system, StealingFlag.step, hplace, if_pos hnode]
        exact ⟨[.clear vpid], _, System.run_cons hclear, σ.move_place_self vpid .outside, rfl⟩
      · rw [if_pos hnode] at hloop
        have hkept := directSynchronousStealingRequest_flag me vpid r.node (attempt k) s
        split at hloop
        · rename_i found s₁ heq
          rw [heq] at hkept
          change s₁.internodeStealing = s.internodeStealing at hkept
          cases hloop
          have hask : (StealingFlag.system n me).step (.ask vpid true) σ =
              some (σ.move vpid .outside) := by
            simp only [StealingFlag.system, StealingFlag.step, hplace, if_pos hnode, if_true]
          exact ⟨[.ask vpid true], _, System.run_cons hask, σ.move_place_self vpid .outside,
            hflag.trans hkept.symm⟩
        · rename_i s₁ heq
          rw [heq] at hkept
          change s₁.internodeStealing = s.internodeStealing at hkept
          have hask : (StealingFlag.system n me).step (.ask vpid false) σ =
              some (σ.attempted n me vpid
                { r with node := (r.node + 1) % n, refused := r.refused ++ [r.node] }) := by
            simp only [StealingFlag.system, StealingFlag.step, hplace, if_pos hnode,
              Bool.false_eq_true, if_false]
          obtain ⟨acts, σ', hrun, hend⟩ :=
            ih (σ.attempted_place_self n me vpid
              { r with node := (r.node + 1) % n, refused := r.refused ++ [r.node] })
              (hflag.trans hkept.symm) hloop
          exact ⟨.ask vpid false :: acts, σ', (System.run_cons hask).trans hrun, hend⟩

/-- A call of `get_next_task` is a run of the threads' steps. -/
theorem getNextTask_run {fuel : Nat} {desc : Option TorcT} {s' : State} {σ : StealingFlag.State}
    (hplace : σ.place vpid = .outside) (hflag : σ.internodeStealing = s.internodeStealing)
    (h : getNextTask n me vpid attempt fuel s = some (desc, s')) :
    ∃ acts σ', (StealingFlag.system n me).run σ acts = some σ' ∧
    σ'.place vpid = .outside ∧
      σ'.internodeStealing = s'.internodeStealing := by
  have hdequeue : ∀ found, (StealingFlag.system n me).step (.dequeue vpid found) σ =
      some (σ.move vpid (.dequeued found)) := fun _ ↦ if_pos hplace
  -- without a round the thread is outside again behind its look at the flag
  have houtside : ∀ found, (found = true ∨ s.internodeStealing = false) →
      s'.internodeStealing = s.internodeStealing →
      ∃ acts σ', (StealingFlag.system n me).run σ acts = some σ' ∧
      σ'.place vpid = .outside ∧
        σ'.internodeStealing = s'.internodeStealing := by
    intro found hno hkept
    have hread : (StealingFlag.system n me).step (.readFlag vpid)
        (σ.move vpid (.dequeued found)) =
          some ((σ.move vpid (.dequeued found)).move vpid .outside) := by
      have hflag' :
          (σ.move vpid (.dequeued found)).internodeStealing = s.internodeStealing := hflag
      simp only [StealingFlag.system, StealingFlag.step, StealingFlag.State.move_place_self, hflag']
      rw [if_neg]
      rcases hno with htrue | hfalse
      · simp [htrue]
      · simp [hfalse]
    exact ⟨[.dequeue vpid found, .readFlag vpid], _,
      (System.run_cons (hdequeue found)).trans (System.run_cons hread),
      StealingFlag.State.move_place_self .., hflag.trans hkept.symm⟩
  unfold getNextTask at h
  split at h
  · cases h
    exact houtside true (.inl rfl) rfl
  · cases hstealing : s.internodeStealing with
    | false =>
        rw [hstealing, if_neg Bool.false_ne_true] at h
        cases h
        exact houtside false (.inr hstealing) rfl
    | true =>
        rw [hstealing, if_pos rfl] at h
        simp only [Option.bind_eq_bind, Option.bind_eq_some_iff, Option.some.injEq,
          Prod.mk.injEq] at h
        obtain ⟨⟨found, s₁⟩, hloop, rfl, rfl⟩ := h
        have hread : (StealingFlag.system n me).step (.readFlag vpid)
            (σ.move vpid (.dequeued false)) =
              some ((σ.move vpid (.dequeued false)).attempted n me vpid
                { began := σ.enables, node := (me + 1) % n }) := by
          have hflag' : (σ.move vpid (.dequeued false)).internodeStealing = true :=
            hflag.trans hstealing
          simp only [StealingFlag.system, StealingFlag.step, StealingFlag.State.move_place_self,
            hflag']
          rfl
        obtain ⟨acts, σ', hrun, hend⟩ :=
          stealLoop_run ((σ.move vpid (.dequeued false)).attempted_place_self n me vpid
            { began := σ.enables, node := (me + 1) % n }) hflag hloop
        exact ⟨.dequeue vpid false :: .readFlag vpid :: acts, σ',
          (System.run_cons (hdequeue false)).trans ((System.run_cons hread).trans hrun), hend⟩

/-- The first node that is asked has no work, and all others have some. -/
def firstRefuses (d : Nat) : Attempt :=
  { reply := { type := if d = 0 then .torcNoWork else .unset } }

/-- Node 2 of four asks node 3 in vain, gets a task from node 0 and leaves node 1 alone. -/
theorem steal_round_sample :
    ∃ desc s' l, Polled 4 2 0 firstRefuses l { internodeStealing := true } desc s' ∧
      desc.isSome = true ∧ s'.requests = [3, 0] ∧ s'.internodeStealing = true := by
  have hself : 2 < 4 := by decide
  obtain ⟨desc, s', l, hrun, h⟩ :=
    steal_round hself 0 firstRefuses { internodeStealing := true } rfl rfl
  have hend : (getNextTask 4 2 0 firstRefuses 4 { internodeStealing := true }).map
      (fun r ↦ (r.1.isSome, r.2.requests, r.2.internodeStealing)) =
      some (true, [3, 0], true) := by
    decide
  rw [hrun 4 (Nat.le_refl 4), Option.map_some, Option.some.injEq, Prod.mk.injEq,
    Prod.mk.injEq] at hend
  exact ⟨desc, s', l, h, hend⟩

end Torc.StealRound
