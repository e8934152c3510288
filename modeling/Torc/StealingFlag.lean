import Torc.Lib.Cyclic
import Torc.Lib.Transition

/-!
# The stealing flag

`get_next_task` reads `internode_stealing`, asks the other nodes for work and clears the flag when
none of them has any.  Other threads of the node and its server set and clear the flag at any time.
-/

namespace Torc.StealingFlag

open Transition

/-- The steal attempts of one call: how many enables came before its read of the flag, the loop
variable `node`, and the nodes that returned no work. -/
structure Round where
  began : Nat
  node : Nat
  refused : List Nat := []
  deriving DecidableEq

/-- Where a thread is: outside of `get_next_task` or about to look into the local queues, behind
these with or without a task, and in the `while` loop. -/
inductive Place
  | outside
  | dequeued (found : Bool)
  | round (r : Round)
  deriving DecidableEq

/-- `enables` counts the writes of 1.  `inForce` is set by each of them, until a disable or until a
round that began behind it has got no work from any other node. -/
structure State where
  internodeStealing : Bool := false
  place : Nat → Place := fun _ ↦ .outside
  enables : Nat := 0
  inForce : Bool := false

/-- `enable` and `disable` are `torc_i_enable_stealing`, `torc_i_disable_stealing`, the stores of
`torc_enable_stealing` and `torc_disable_stealing`, and those of the server. -/
inductive Act
  | enable
  | disable
  | dequeue (v : Nat) (found : Bool)
  | readFlag (v : Nat)
  | ask (v : Nat) (work : Bool)
  | clear (v : Nat)
  deriving DecidableEq

/-- No other node had work for the round. -/
def Round.AllRefused (n selfNode : Nat) (r : Round) : Prop :=
  ∀ node < n, node ≠ selfNode → node ∈ r.refused

instance (n selfNode : Nat) (r : Round) : Decidable (r.AllRefused n selfNode) :=
  inferInstanceAs (Decidable (∀ node < n, _ → _))

def State.move (s : State) (v : Nat) (p : Place) : State :=
  { s with place := Function.update s.place v p }

/-- Thread `v` goes on with a round. -/
def State.attempted (n selfNode : Nat) (s : State) (v : Nat) (r : Round) : State :=
  { s.move v (.round r) with
    inForce := s.inForce && !decide (r.began = s.enables ∧ r.AllRefused n selfNode) }

@[simp] theorem State.move_place_self (s : State) (v : Nat) (p : Place) :
    (s.move v p).place v = p :=
  Function.update_self ..

@[simp] theorem State.attempted_place_self (n selfNode : Nat) (s : State) (v : Nat) (r : Round) :
    (s.attempted n selfNode v r).place v = .round r :=
  Function.update_self ..

/-- Node `selfNode` of `n`. -/
def step (n selfNode : Nat) : Act → State → Option State
  | .enable, s =>
      some { s with internodeStealing := true, enables := s.enables + 1, inForce := true }
  | .disable, s => some { s with internodeStealing := false, inForce := false }
  | .dequeue v found, s =>
      if s.place v = .outside then some (s.move v (.dequeued found)) else none
  | .readFlag v, s =>
      match s.place v with
      | .dequeued found =>
          -- with a task from the local queues there is no round
          if s.internodeStealing ∧ !found then
            some (s.attempted n selfNode v { began := s.enables, node := (selfNode + 1) % n })
          else some (s.move v .outside)
      | _ => none
  | .ask v work, s =>
      match s.place v with
      | .round r =>
          if r.node ≠ selfNode then
            -- `direct_synchronous_stealing_request`, also without a request when terminating
            if work then some (s.move v .outside)
            else some (s.attempted n selfNode v
              { r with node := (r.node + 1) % n, refused := r.refused ++ [r.node] })
          else none
      | _ => none
  | .clear v, s =>
      match s.place v with
      | .round r =>
          -- without another look at the flag
          if r.node = selfNode then
            some { s.move v .outside with internodeStealing := false }
          else none
      | _ => none

def system (n selfNode : Nat) : System State Act where
  init s := s = {}
  step := step n selfNode

/-- A thread that clears the flag has read it after the last enable, or the flag is not set. -/
def ReadSince (a : Act) (s : State) : Prop :=
  ∀ v, a = .clear v → ∀ r, s.place v = .round r →
    r.began = s.enables ∨ s.internodeStealing = false

/-- The end of a round that began behind the last enable and got no work from any other node. -/
def EndsRound (n selfNode : Nat) (a : Act) (s : State) : Prop :=
  ∃ v r, a = .clear v ∧ s.place v = .round r ∧ r.began = s.enables ∧ r.AllRefused n selfNode

/-! ## What a round has done so far -/

/-- The nodes that returned no work are those from `selfNode + 1` up to the loop variable. -/
structure Round.Walk (n selfNode : Nat) (r : Round) : Prop where
  node : r.node = Cyclic.visited n selfNode r.refused.length
  refused : ∀ d < r.refused.length, Cyclic.visited n selfNode d ∈ r.refused
  length : r.refused.length < n

variable {n selfNode v : Nat} {r : Round} {s s' : State} {a : Act}

theorem Round.Walk.begin (hself : selfNode < n) (began : Nat) :
    Round.Walk n selfNode { began := began, node := (selfNode + 1) % n } where
  node := rfl
  refused d hd := absurd hd (Nat.not_lt_zero d)
  length := Nat.zero_lt_of_lt hself

theorem Round.Walk.next (hself : selfNode < n) (h : r.Walk n selfNode)
    (hnode : r.node ≠ selfNode) :
    Round.Walk n selfNode
      { r with node := (r.node + 1) % n, refused := r.refused ++ [r.node] } := by
  have hlen : (r.refused ++ [r.node]).length = r.refused.length + 1 := List.length_append
  refine ⟨?_, fun d hd ↦ ?_, ?_⟩
  · show (r.node + 1) % n = Cyclic.visited n selfNode (r.refused ++ [r.node]).length
    rw [hlen, Cyclic.visited_succ, ← h.node]
  · simp only [hlen] at hd
    by_cases hlast : d = r.refused.length
    · rw [hlast, ← h.node]
      exact List.mem_append_right _ List.mem_cons_self
    · exact List.mem_append_left _ (h.refused d (by omega))
  · -- otherwise all other nodes had been asked before
    have hopen : ¬ r.refused.length + 1 = n := by
      intro hall
      rw [← Cyclic.visited_eq_self_iff hself h.length, ← h.node] at hall
      exact hnode hall
    simp only [hlen]
    have hlt := h.length
    omega

/-- When the loop is left all other nodes have been asked. -/
theorem Round.Walk.allRefused (hself : selfNode < n) (h : r.Walk n selfNode)
    (hnode : r.node = selfNode) :
    r.AllRefused n selfNode := by
  have hall : r.refused.length + 1 = n :=
    (Cyclic.visited_eq_self_iff hself h.length).mp (h.node.symm.trans hnode)
  intro node hlt hne
  obtain ⟨d, hd, rfl⟩ := Cyclic.exists_visited hself hlt hne
  exact h.refused d (by omega)

/-! ## Every run -/

/-- An enable in force has left the flag set, and no round that began behind it has ended. -/
structure Inv (n selfNode : Nat) (s : State) : Prop where
  flag : s.inForce = true → s.internodeStealing = true
  began : ∀ v r, s.place v = .round r → r.began ≤ s.enables
  walk : ∀ v r, s.place v = .round r → r.Walk n selfNode
  ended : ∀ v r, s.place v = .round r → r.began = s.enables → r.AllRefused n selfNode →
    s.inForce = false

theorem State.move_place {p : Place} (h : (s.move v p).place = s'.place) {w : Nat} :
    s'.place w = if w = v then p else s.place w := by
  rw [← h]
  exact Function.update_apply ..

/-- A thread that is in no round afterwards. -/
theorem Inv.move (h : Inv n selfNode s) {p : Place} (hp : ∀ r, p ≠ .round r) :
    Inv n selfNode (s.move v p) := by
  have hback : ∀ w r, (s.move v p).place w = .round r → s.place w = .round r := by
    intro w r hr
    rw [State.move_place rfl] at hr
    split at hr
    · exact absurd hr (hp r)
    · exact hr
  exact ⟨h.flag, fun w r hr ↦ h.began w r (hback w r hr),
    fun w r hr ↦ h.walk w r (hback w r hr),
    fun w r hr ↦ h.ended w r (hback w r hr)⟩

theorem Inv.attempted (h : Inv n selfNode s) (hbegan : r.began ≤ s.enables)
    (hwalk : r.Walk n selfNode) :
    Inv n selfNode (s.attempted n selfNode v r) := by
  have hback : ∀ w q, (s.attempted n selfNode v r).place w = .round q →
      q = r ∨ s.place w = .round q := by
    intro w q hq
    have hplace : (s.attempted n selfNode v r).place = (s.move v (.round r)).place := rfl
    rw [State.move_place hplace.symm] at hq
    split at hq
    · exact .inl (Place.round.inj hq).symm
    · exact .inr hq
  have hforce : (s.attempted n selfNode v r).inForce =
      (s.inForce && !decide (r.began = s.enables ∧ r.AllRefused n selfNode)) := rfl
  refine ⟨fun hin ↦ ?_, fun w q hq ↦ ?_, fun w q hq ↦ ?_, fun w q hq hnow hall ↦ ?_⟩
  · rw [hforce, Bool.and_eq_true] at hin
    exact h.flag hin.1
  · rcases hback w q hq with rfl | hq
    · exact hbegan
    · exact h.began w q hq
  · rcases hback w q hq with rfl | hq
    · exact hwalk
    · exact h.walk w q hq
  · rw [hforce]
    rcases hback w q hq with rfl | hq
    · have hdone : decide (q.began = s.enables ∧ q.AllRefused n selfNode) = true :=
        decide_eq_true ⟨hnow, hall⟩
      rw [hdone, Bool.not_true, Bool.and_false]
    · rw [h.ended w q hq hnow hall, Bool.false_and]

/-- What a step does: it stores the flag, takes a thread to a place outside of a round, begins a
round or goes on with it, or ends it. -/
inductive StepOf (n selfNode : Nat) (s : State) : Act → State → Prop
  | enable : StepOf n selfNode s .enable
      { s with internodeStealing := true, enables := s.enables + 1, inForce := true }
  | disable : StepOf n selfNode s .disable { s with internodeStealing := false, inForce := false }
  | move (a : Act) (v : Nat) (p : Place) (hp : ∀ r, p ≠ .round r) :
      StepOf n selfNode s a (s.move v p)
  | begin (a : Act) (v : Nat) : StepOf n selfNode s a
      (s.attempted n selfNode v { began := s.enables, node := (selfNode + 1) % n })
  | next (a : Act) (v : Nat) (r : Round) (hr : s.place v = .round r) (hnode : r.node ≠ selfNode) :
      StepOf n selfNode s a (s.attempted n selfNode v
        { r with node := (r.node + 1) % n, refused := r.refused ++ [r.node] })
  | clear (v : Nat) (r : Round) (hr : s.place v = .round r) (hnode : r.node = selfNode) :
      StepOf n selfNode s (.clear v) { s.move v .outside with internodeStealing := false }

theorem stepOf (hs : step n selfNode a s = some s') : StepOf n selfNode s a s' := by
  cases a with
  | enable =>
      cases hs
      exact .enable
  | disable =>
      cases hs
      exact .disable
  | dequeue v found =>
      obtain ⟨-, heq⟩ := Option.ite_none_right_eq_some.mp hs
      cases heq
      exact .move _ v _ nofun
  | readFlag v =>
      simp only [step] at hs
      split at hs
      · split at hs
        · cases hs
          exact .begin _ v
        · cases hs
          exact .move _ v _ nofun
      · cases hs
  | ask v work =>
      simp only [step] at hs
      split at hs
      · rename_i r hr
        obtain ⟨hnode, heq⟩ := Option.ite_none_right_eq_some.mp hs
        split at heq
        · cases heq
          exact .move _ v _ nofun
        · cases heq
          exact .next _ v r hr hnode
      · cases hs
  | clear v =>
      simp only [step] at hs
      split at hs
      · rename_i r hr
        obtain ⟨hnode, heq⟩ := Option.ite_none_right_eq_some.mp hs
        cases heq
        exact .clear v r hr hnode
      · cases hs

theorem Inv.step (hself : selfNode < n) (h : Inv n selfNode s) (hok : ReadSince a s)
    (hs : step n selfNode a s = some s') : Inv n selfNode s' := by
  cases stepOf hs with
  | enable =>
      refine ⟨fun _ ↦ rfl, fun w r hr ↦ Nat.le_succ_of_le (h.began w r hr), h.walk,
        fun w r hr hnow _ ↦ ?_⟩
      -- every round began before
      have hle : r.began ≤ s.enables := h.began w r hr
      have hnow' : r.began = s.enables + 1 := hnow
      omega
  | disable => exact ⟨fun hin ↦ (nomatch hin), h.began, h.walk, fun _ _ _ _ _ ↦ rfl⟩
  | move _ v p hp => exact h.move hp
  | begin _ v => exact h.attempted (Nat.le_refl _) (.begin hself _)
  | next _ v r hr hnode => exact h.attempted (h.began v r hr) ((h.walk v r hr).next hself hnode)
  | clear v r hr hnode =>
      -- nothing is in force, so that the flag may be cleared
      have hforce : s.inForce = false := by
        rcases hok v rfl r hr with hnow | hflag
        · exact h.ended v r hr hnow ((h.walk v r hr).allRefused hself hnode)
        · exact Bool.eq_false_iff.mpr fun hin ↦
            Bool.false_ne_true (hflag.symm.trans (h.flag hin))
      have hmove : Inv n selfNode (s.move v .outside) := h.move nofun
      exact ⟨fun hin ↦ absurd (hforce.symm.trans hin) Bool.false_ne_true, hmove.began,
        hmove.walk, fun _ _ _ _ _ ↦ hforce⟩

theorem Inv.cleared (hself : selfNode < n) (h : Inv n selfNode s) (hok : ReadSince a s)
    (hs : StealingFlag.step n selfNode a s = some s') (hset : s.internodeStealing = true)
    (hclear : s'.internodeStealing = false) : a = .disable ∨ EndsRound n selfNode a s := by
  have hstill : s'.internodeStealing = s.internodeStealing →
      a = .disable ∨ EndsRound n selfNode a s := by
    intro heq
    cases hset.symm.trans (heq.symm.trans hclear)
  cases stepOf hs with
  | enable => cases hclear
  | disable => exact .inl rfl
  | move _ v p hp => exact hstill rfl
  | begin _ v => exact hstill rfl
  | next _ v r hr hnode => exact hstill rfl
  | clear v r hr hnode =>
      have hnow : r.began = s.enables :=
        (hok v rfl r hr).resolve_right fun hflag ↦ by
          cases hset.symm.trans hflag
      exact .inr ⟨v, r, rfl, hr, hnow, (h.walk v r hr).allRefused hself hnode⟩

/-- In a run in which every thread that clears a set flag has read it after the last enable, the
flag stays set while an enable is in force, and what clears it is a disable or the end of a complete
round that began behind that enable. -/
theorem enable_kept (hself : selfNode < n) (hs : (system n selfNode).ReachableIf ReadSince s) :
    (s.inForce = true → s.internodeStealing = true) ∧
      ∀ a s', ReadSince a s → (system n selfNode).step a s = some s' →
      s.internodeStealing = true →
        s'.internodeStealing = false → a = .disable ∨ EndsRound n selfNode a s := by
  have hinv : Inv n selfNode s := by
    refine hs.invariant _ (fun s hinit ↦ ?_) fun s s' a h hok hstep ↦ h.step hself hok hstep
    obtain rfl : s = {} := hinit
    exact ⟨fun h ↦ (nomatch h), fun v r h ↦ (nomatch h), fun v r h ↦ (nomatch h),
      fun _ _ _ _ _ ↦ rfl⟩
  exact ⟨hinv.flag, fun a s' hok hstep hset hclear ↦ hinv.cleared hself hok hstep hset hclear⟩

instance (a : Act) (s : State) : Decidable (ReadSince a s) :=
  match a with
  | .clear v =>
      match hp : s.place v with
      | .round r =>
          decidable_of_iff (r.began = s.enables ∨ s.internodeStealing = false)
            ⟨fun h w hw q hq ↦ by
              cases hw
              cases hp.symm.trans hq
              exact h, fun h ↦ h v rfl r hp⟩
      | .outside => isTrue fun w hw q hq ↦ by
          cases hw
          cases hp.symm.trans hq
      | .dequeued _ => isTrue fun w hw q hq ↦ by
          cases hw
          cases hp.symm.trans hq
  | .enable => isTrue fun _ h ↦ by cases h
  | .disable => isTrue fun _ h ↦ by cases h
  | .dequeue _ _ => isTrue fun _ h ↦ by cases h
  | .readFlag _ => isTrue fun _ h ↦ by cases h
  | .ask _ _ => isTrue fun _ h ↦ by cases h

/-- A round that found no work on node 1, and another enable behind it. -/
theorem enable_kept_sample :
    ∃ s : State, (system 2 0).ReachableIf ReadSince s ∧ s.inForce = true ∧
      s.internodeStealing = true := by
  have hend : ((system 2 0).runIf (fun a s ↦ decide (ReadSince a s)) {}
      [.enable, .dequeue 3 false, .readFlag 3, .ask 3 false, .clear 3, .enable]).map
        State.inForce = some true := by decide
  obtain ⟨s, hs, hforce⟩ :=
    System.ReachableIf.eval (fun _ _ ↦ of_decide_eq_true) (.init rfl) hend
  exact ⟨s, hs, hforce, (enable_kept (by decide) hs).1 hforce⟩

/-- Thread 3 has read the flag when the server sets it again; its round then clears it. -/
theorem not_enable_kept :
    ∃ s : State, (system 2 0).Reachable s ∧ s.inForce = true ∧
    s.internodeStealing = false := by
  have hend : ((system 2 0).run {}
      [.enable, .dequeue 3 false, .readFlag 3, .enable, .ask 3 false, .clear 3]).map
        (fun s ↦ (s.inForce, s.internodeStealing)) = some (true, false) := by decide
  obtain ⟨s, hs, heq⟩ := System.Reachable.eval (.init rfl) hend
  exact ⟨s, hs, congrArg Prod.fst heq, congrArg Prod.snd heq⟩

end Torc.StealingFlag
