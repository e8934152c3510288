import Torc.Waiting.Safety

/-!
# What holds in every run

The counters, the returns of the waits and the owners of the parent descriptors.
-/

namespace Torc.Waiting

open Transition Messages

variable {workers : List Nat} {descSize : Nat} {s s' : State}

/-! ## Runs -/

theorem Inv.init : Inv {} := by
  have hstack : ∀ i v f, f ∈ ({} : Tasks).stack i v →
      i = 0 ∧ v = 0 ∧ f = { task := 0, addr := 0 } := by
    intro i v f hf
    have hf' : f ∈ if i = 0 ∧ v = 0 then [({ task := 0, addr := 0 } : Frame)] else [] := hf
    split at hf'
    · rename_i hiv
      exact ⟨hiv.1, hiv.2, List.mem_singleton.mp hf'⟩
    · cases hf'
  have hstatus :
      ∀ k st, ({} : Tasks).status k = st → st = .running 0 0 ∧ k = 0 ∨ st = .unborn := by
    intro k st hst
    have hst' : (if k = 0 then Status.running 0 0 else .unborn) = st := hst
    split at hst'
    · rename_i hk
      exact .inl ⟨hst'.symm, hk⟩
    · exact .inr hst'.symm
  refine
    { pool := fun i ↦ List.nodup_nil
      free := fun i a ha ↦ absurd ha List.not_mem_nil
      owned := fun i a k hown ↦ ?owned
      born := fun k ↦ ?born
      taskId := fun k hk ↦ ?taskId
      orphan := fun k _ _ ↦ rfl
      idle := fun k i a hk ↦ ?idle
      frame := fun i v f hf ↦ ?frame
      nodup := fun i v ↦ ?nodup
      unique := fun i v j w f hf g hg _ ↦ ?unique
      parent := fun k p _ hcreator ↦ nomatch hcreator }
  case owned =>
    have hown' : (if i = 0 ∧ a = 0 then some 0 else none) = some k := hown
    split at hown'
    · rename_i hia
      show a < 1
      omega
    · cases hown'
  case born =>
    show ¬ (if k = 0 then Status.running 0 0 else .unborn) = .unborn ↔ k < 1
    by_cases hk : k = 0
    · simp [hk]
    · rw [if_neg hk]
      exact ⟨fun hc ↦ absurd rfl hc, fun hc ↦ by omega⟩
  case taskId =>
    show 0 = k
    have hk' : k < 1 := hk
    omega
  case idle =>
    rcases hk with hk | hk <;> rcases hstatus k _ hk with ⟨hc, -⟩ | hc <;> cases hc
  case frame =>
    obtain ⟨rfl, rfl, rfl⟩ := hstack i v f hf
    exact ⟨rfl, .inl rfl, fun _ hc ↦ Ctl.noConfusion hc, rfl, fun _ ↦ rfl⟩
  case nodup =>
    show ((if i = 0 ∧ v = 0 then [({ task := 0, addr := 0 } : Frame)] else []).map
      Frame.task).Nodup
    split
    · exact List.nodup_singleton _
    · exact List.nodup_nil
  case unique =>
    obtain ⟨rfl, rfl, -⟩ := hstack i v f hf
    obtain ⟨rfl, rfl, -⟩ := hstack j w g hg
    exact ⟨rfl, rfl⟩

theorem Good.init : Good {} where
  tasks := Inv.init
  answers := by
    refine ⟨fun k ⟨r, hk⟩ ↦ ?_, fun k _ r ↦ ?_⟩
    · have hk' : (if k = 0 then Status.running 0 0 else .unborn) = .answering r := hk
      split at hk' <;> cases hk'
    · cases r with
      | calls i v => rfl
      | flight c =>
          simp only [contents]
          split <;> rfl
      | server i => rfl
  call _ _ _ _ _ hd := nomatch hd
  flight _ _ _ _ hd := nomatch hd
  server _ _ hd := nomatch hd
  body _ := .inl rfl
  receiving _ _ hd := nomatch hd
  arrived k r hk := by
    have hk' : (if k = 0 then Status.running 0 0 else .unborn) = .done r := hk
    split at hk' <;> cases hk'

theorem good_of_reachable
    (h : (system workers descSize).ReachableIf
      (fun a s ↦ Waits a s ∧ Matched a s) s) : Good s :=
  h.invariant Good (fun s hs ↦ by rw [show s = {} from hs]; exact Good.init)
    fun _ _ _ hgood hok hs ↦ hgood.step hok.1 hok.2 hs

/-! ## The messages in a run -/

theorem expects_of_inv (h : Messages.Inv s.msgs) (i v : Nat) : Expects s i v :=
  fun _ _ _ _ _ _ _ _ hops hnet ↦ h.payload_matches hops hnet

theorem matched_of_inv (h : Messages.Inv s.msgs) (a : Act) : Matched a s := by
  cases a with
  | net a =>
      cases a with
      | advance i v mem => exact expects_of_inv h i v
      | _ => trivial
  | _ => trivial

theorem msgs_cleanup (h : Messages.Inv s.msgs) {i v : Nat} (hfree : Free workers s i v)
    (hs : cleanup s i v = some s') : Messages.Inv s'.msgs := by
  obtain ⟨hthread, hv, hops⟩ := hfree
  have hmay : mayEnter workers s.msgs i v := by
    rw [mayEnter, hops, decide_eq_true hthread, decide_eq_true hv]
    rfl
  unfold Waiting.cleanup at hs
  split at hs
  · rename_i f l hstack
    obtain ⟨t, -, heq⟩ := Option.map_eq_some_iff.mp hs
    split at heq
    · cases heq
      have hsend : sendable (s.tasks.desc f.task).homenode (s.tasks.desc f.task) .torcAnswer :=
        decide_eq_true rfl
      have hinv := h.step_send hmay hsend fun hc ↦ absurd hc hv
      rw [hops] at hinv
      exact hinv
    · cases heq
      exact h
  · cases hs

theorem msgs_serve (h : Messages.Inv s.msgs) {k i addr : Nat} (hs : serve s k i addr = some s') :
    Messages.Inv s'.msgs := by
  unfold Waiting.serve at hs
  split at hs
  · rename_i hguard
    obtain ⟨t, -, rfl⟩ := Option.map_eq_some_iff.mp hs
    exact h.enter_body hguard.1
  · cases hs

theorem msgs_finish (h : Messages.Inv s.msgs) {i : Nat}
    (hok : Messages.Permitted (.finish i) s.msgs) (hs : finish s i = some s') :
    Messages.Inv s'.msgs := by
  unfold Waiting.finish at hs
  split at hs
  · obtain ⟨m, hm, rfl⟩ := Option.map_eq_some_iff.mp hs
    exact h.step_finish hok hm
  · cases hs

theorem msgs_satisfy (h : Messages.Inv s.msgs) {i : Nat} (hs : satisfy s i = some s') :
    Messages.Inv s'.msgs := by
  unfold Waiting.satisfy at hs
  split at hs
  · split at hs
    · cases hs
      exact h
    · cases hs
  · cases hs

theorem msgs_netStep (h : Messages.Inv s.msgs) {a : Messages.Act}
    (hok : Messages.Permitted a s.msgs) (hs : netStep workers descSize s a = some s') :
    Messages.Inv s'.msgs := by
  have hmap : ∀ {o : Option Messages.State},
      (Messages.system workers).step a s.msgs = o →
      (o.map fun m ↦ { s with msgs := m }) = some s' → Messages.Inv s'.msgs := by
    intro o ho hs'
    obtain ⟨m, hm, rfl⟩ := Option.map_eq_some_iff.mp hs'
    exact h.step hok (ho.trans hm)
  cases a with
  | send i v node desc type =>
      simp only [Waiting.netStep] at hs
      split at hs
      · exact hmap rfl hs
      · cases hs
  | broadcast i v node buffer count btype => exact hmap rfl hs
  | request i v node => exact hmap rfl hs
  | reply i work => exact hmap rfl hs
  | finish i => cases hs
  | advance i v mem =>
      simp only [Waiting.netStep, Waiting.advance] at hs
      split at hs
      · rename_i src tag uid arg count rest d hops hd
        split at hs
        · rename_i hv
          subst hv
          split at hs
          · cases hs
          · rename_i p l hnet
            rw [if_pos (h.payload_matches hops hnet)] at hs
            cases hs
            exact h.recv hops hnet
        · exact hmap rfl hs
      · exact hmap rfl hs
  | receive i src mem =>
      simp only [Waiting.netStep, Waiting.receive] at hs
      split at hs
      · obtain ⟨m, hm, heq⟩ := Option.map_eq_some_iff.mp hs
        have hinv : Messages.Inv m := h.step hok hm
        split at heq
        · split at heq <;> (cases heq; exact hinv)
        · cases heq
          exact hinv
      · cases hs

theorem msgs_step {a : Act} (h : Messages.Inv s.msgs) (hok : WorkersSend a s)
    (hs : (system workers descSize).step a s = some s') : Messages.Inv s'.msgs := by
  simp only [system] at hs
  split at hs
  · cases hs
  · cases a with
    | body i v a =>
        simp only [threadStep] at hs
        split at hs
        · obtain ⟨t, -, rfl⟩ := Option.map_eq_some_iff.mp hs
          exact h
        · cases hs
    | move a =>
        obtain ⟨t, -, rfl⟩ := Option.map_eq_some_iff.mp hs
        exact h
    | cleanup i v =>
        simp only [threadStep] at hs
        split at hs
        · rename_i hfree
          exact msgs_cleanup h hfree hs
        · cases hs
    | serve k i addr =>
        simp only [threadStep] at hs
        split at hs
        · exact msgs_serve h hs
        · cases hs
    | detach i work heap cs =>
        simp only [threadStep] at hs
        split at hs
        · obtain ⟨t, -, rfl⟩ := Option.map_eq_some_iff.mp hs
          exact h
        · cases hs
    | finish i =>
        simp only [threadStep] at hs
        split at hs
        · exact msgs_finish h hok hs
        · cases hs
    | satisfy i => exact msgs_satisfy h hs
    | net a => exact msgs_netStep h hok hs

/-- When only workers send payloads, every receive gets what it is for. -/
theorem matched_of_workersSend
    (h : (system workers descSize).ReachableIf (fun a s ↦ Waits a s ∧ WorkersSend a s) s) :
    (system workers descSize).ReachableIf (fun a s ↦ Waits a s ∧ Matched a s) s ∧
      Messages.Inv s.msgs := by
  induction h with
  | init h =>
      refine ⟨.init h, ?_⟩
      rw [show _ = ({} : State) from h]
      exact inv_init
  | step _ hok hs ih =>
      exact ⟨.step ih.1 ⟨hok.1, matched_of_inv ih.2 _⟩ hs, msgs_step ih.2 hok.2 hs⟩

/-! ## Waits -/

/-- Task `k` has the descriptor at `a` of node `i`, on a stack, in a queue or at the server;
`pending` says whether it has spawned since its last wait began. -/
def Live (t : Tasks) (i a k : Nat) (pending : Bool) : Prop :=
  (∃ v, ∃ f ∈ t.stack i v, f.addr = a ∧ f.task = k ∧ f.pending = pending) ∨
    (t.status k = .ready i a ∨ t.status k = .served i a) ∧ pending = false

/-- Task `k` has executed, and the results that another node sent have been written. -/
def Finished (s : State) (k : Nat) : Prop :=
  ∃ r, s.tasks.status k = .done r ∧
    (r ≠ (s.tasks.desc k).homenode → ∀ m ∈ results (s.tasks.desc k), (k, m.1) ∈ s.written)

/-- Every counter counts the open children and the spawns since the last wait, and when a wait
returns all children that its task has spawned are finished. -/
structure WaitSafe (workers : List Nat) (descSize : Nat) (s : State) : Prop where
  counter : ∀ i a k pending, Live s.tasks i a k pending →
    s.tasks.ndep i a = s.tasks.openChildren k + (if pending then 1 else 0) ∧
      0 ≤ s.tasks.ndep i a
  returns : ∀ i v s', (system workers descSize).step (.body i v .poll) s = some s' →
    ∀ f ∈ (s'.tasks.stack i v).head?, f.ctl = .running →
      ∀ k, k < s.tasks.issued → s.tasks.creator k = some f.task → Finished s k

theorem Good.counter (h : Good s) {i a k : Nat} {pending : Bool}
    (hlive : Live s.tasks i a k pending) :
    s.tasks.ndep i a = s.tasks.openChildren k + (if pending then 1 else 0) := by
  rcases hlive with ⟨v, f, hf, rfl, rfl, rfl⟩ | ⟨hstatus, rfl⟩
  · exact (h.tasks.frame i v f hf).count.1
  · -- a task that has not begun has spawned nothing
    have hnone : s.tasks.openChildren k = 0 := by
      refine h.tasks.openChildren_eq_zero (h.tasks.no_frame ?_ ?_)
      · intro j w
        rcases hstatus with hc | hc <;> (rw [hc]; exact Status.noConfusion)
      · rcases hstatus with hc | hc <;> rw [hc] <;> rfl
    rw [(h.tasks.idle k i a hstatus).2, hnone]
    rfl

-- a task that tests its counter has not spawned since its wait began
theorem pollCtl_pending {c : Nat} {x : Int × Ctl} {ctl : Ctl} {m : Int} {p : Bool}
    (h : pollCtl m ctl = some x) (hok : ctl.Ok p c) : p = false := by
  cases ctl with
  | check w => exact hok
  | locked => exact hok
  | noWork => exact hok
  | _ => cases h

/-- The top task has no open children when its wait returns. -/
theorem Good.poll_openChildren (h : Good s) {i v : Nat} {t : Tasks}
    (ht : s.tasks.poll i v = some t) {f : Frame} (hf : f ∈ (t.stack i v).head?)
    (hctl : f.ctl = .running) : s.tasks.openChildren f.task = 0 := by
  unfold Tasks.poll at ht
  split at ht
  · rename_i k a p ctl rest hstack
    obtain ⟨⟨n, ctl'⟩, hpoll, heq⟩ := Option.map_eq_some_iff.mp ht
    cases heq
    rw [setStack_self] at hf
    cases hf
    have hcount := (h.tasks.frame i v _ (Inv.top_mem hstack)).count
    have hcount' := hcount.poll hpoll
    subst hctl
    exact hcount'.2 (pollCtl_pending hpoll hcount.2)
  · cases ht

theorem Good.finished (h : Good s) {k p : Nat} (hnone : s.tasks.openChildren p = 0)
    (hk : k < s.tasks.issued) (hp : s.tasks.creator k = some p) : Finished s k := by
  obtain ⟨r, hr⟩ := done_of_openChildren hnone hk hp
  exact ⟨r, hr, h.arrived k r hr⟩

theorem Good.waitSafe (h : Good s) : WaitSafe workers descSize s where
  counter i a k pending hlive := by
    have hcount := h.counter hlive
    refine ⟨hcount, ?_⟩
    split at hcount <;> omega
  returns i v s' hs f hf hctl k hk hp := by
    simp only [system] at hs
    split at hs
    · cases hs
    · simp only [threadStep] at hs
      split at hs
      · obtain ⟨t, ht, rfl⟩ := Option.map_eq_some_iff.mp hs
        exact h.finished (h.poll_openChildren ht hf hctl) hk hp
      · cases hs

/-- The three critical sections in which worker `v` of node `i` spawns. -/
def spawnRun (i v : Nat) (r : Routine) (cs : List CArg) : List Act :=
  [.body i v .startSpawn, .body i v (.countChild r 8 { mem := fun _ ↦ 0, brk := 0 } cs),
    .body i v .createChild]

/-- A result of 1000 elements. -/
def resultArg : CArg := ⟨1000, ⟨0, .double⟩, .res, 4096⟩

/-- The program waits for a child that a worker of node 1 executes, up to the arrival of the
result. -/
def awayRun : List Act :=
  spawnRun 0 0 .task [resultArg] ++ [.body 0 0 (.startWait .waitall), .move (.depart 1 true),
    .move (.hold 1), .move (.arrive 1 1 1), .body 1 0 (.execute 1), .cleanup 1 0,
    .net (.advance 1 0 fun _ ↦ 0), .net (.advance 1 0 fun _ ↦ 0),
    .net (.receive 0 1 fun _ ↦ 0),
    .net (.advance 0 maxNvps fun _ ↦ 0)]

def waitsCheck : Act → State → Bool
  | .cleanup i v, s => (s.tasks.stack i v).head?.all fun f ↦ !f.pending
  | _, _ => true

def workersSendCheck : Act → State → Bool
  | .finish _, _ => false
  | .net a, s => workersOnly a s.msgs
  | _, _ => true

theorem waits_of_check (a : Act) (s : State) (h : waitsCheck a s = true) : Waits a s := by
  cases a with
  | cleanup i v =>
      intro f hf
      have hall : (s.tasks.stack i v).head?.all (fun f ↦ !f.pending) = true := h
      rw [Option.mem_def.mp hf] at hall
      exact Bool.not_eq_true' _ |>.mp hall
  | _ => trivial

theorem workersSend_of_check (a : Act) (s : State) (h : workersSendCheck a s = true) :
    WorkersSend a s := by
  cases a with
  | finish i => exact absurd h Bool.false_ne_true
  | net a => exact workersOnly_permitted a s.msgs h
  | _ => trivial

theorem waits_workersSend_of_check (a : Act) (s : State)
    (h : (waitsCheck a s && workersSendCheck a s) = true) : Waits a s ∧ WorkersSend a s := by
  rw [Bool.and_eq_true] at h
  exact ⟨waits_of_check a s h.1, workersSend_of_check a s h.2⟩

/-- A server executes the child; a stealing request of its node gets to the home node between the
answer and the result and is received in the place of the result. -/
def lostRun : List Act :=
  spawnRun 0 0 .taskDirect [resultArg] ++ [.body 0 0 (.startWait .waitall),
    .move (.depart 1 true), .move (.hold 1), .serve 1 1 1, .finish 1,
    .net (.advance 1 maxNvps fun _ ↦ 0), .net (.request 1 0 0), .net (.advance 1 0 fun _ ↦ 0),
    .net (.receive 0 1 fun _ ↦ 0), .net (.advance 0 maxNvps fun _ ↦ 0), .satisfy 0]

/-- The address `parent` that `_torc_depsatisfy` gets on node `i` for task `k` is that of the task
that counted `k`, and in no pool; a task that no one counted has none. -/
def ActsOnCreator (t : Tasks) (i k : Nat) (parent : Option Nat) : Prop :=
  match parent with
  | some a => ∃ p, t.creator k = some p ∧ t.owner i a = some p ∧ a ∉ t.reuseQ i
  | none => t.creator k = none

/-- From its creation to its completion a task has its creator as parent; `cleanup` and `answer` are
the two calls of `_torc_depsatisfy`. -/
structure ParentsKept (s : State) : Prop where
  untilDone : ∀ k, k < s.tasks.issued → (s.tasks.status k).isDone = false →
    ActsOnCreator s.tasks (s.tasks.desc k).homenode k (s.tasks.desc k).parent
  cleanup : ∀ i v, ∀ f ∈ (s.tasks.stack i v).head?, f.ctl = .running → f.task ≠ 0 →
    (s.tasks.desc f.task).homenode = i →
      ActsOnCreator s.tasks i f.task (s.tasks.desc f.task).parent
  answer : ∀ i d, s.handling i = some d → ActsOnCreator s.tasks i d.taskId d.parent

theorem Inv.actsOnCreator {t : Tasks} (h : Inv t) {k : Nat} (hk : k < t.issued)
    (hopen : (t.status k).isDone = false) :
    ActsOnCreator t (t.desc k).homenode k (t.desc k).parent := by
  cases hcreator : t.creator k with
  | none =>
      rw [h.orphan k hk hcreator]
      exact hcreator
  | some p =>
      obtain ⟨v, f, hf, rfl, hparent⟩ := h.parent k p hk hcreator hopen
      have hown := (h.frame _ v f hf).owner
      rw [hparent]
      refine ⟨f.task, hcreator, hown, fun hpool ↦ ?_⟩
      have hfree := (h.free _ f.addr (List.mem_append_left _ hpool)).2
      rw [hown] at hfree
      cases hfree

theorem Good.parentsKept (h : Good s) : ParentsKept s where
  untilDone _ hk hopen := h.tasks.actsOnCreator hk hopen
  cleanup i v f hf hctl _ hhome := by
    have hmem : f ∈ s.tasks.stack i v := List.mem_of_mem_head? hf
    have hrun : s.tasks.status f.task = .running i v :=
      (h.tasks.frame i v f hmem).status.resolve_right fun hc ↦ by
        rw [hctl] at hc
        exact Ctl.noConfusion hc.1
    have hk : f.task < s.tasks.issued := (h.tasks.born _).mp (by rw [hrun]; nofun)
    rw [← hhome]
    exact h.tasks.actsOnCreator hk (by rw [hrun]; rfl)
  answer i d hd := by
    obtain ⟨hlt, ⟨r, hk⟩, hhome, hparent, -⟩ := h.handled hd
    rw [hparent, hhome]
    exact h.tasks.actsOnCreator hlt (by rw [hk]; rfl)

/-- Task 1 spawns task 2 and returns without a wait; the program spawns task 3, which gets the
descriptor of task 1, and executes task 2. -/
def strayRun : List Act :=
  spawnRun 0 0 .task [] ++ [.body 0 0 (.startWait .waitall), .body 0 0 .poll,
    .body 0 0 (.execute 1)] ++ spawnRun 0 0 .task [] ++ [.cleanup 0 0, .body 0 0 .release,
    .body 0 0 .poll] ++ spawnRun 0 0 .task [] ++ [.body 0 0 (.startWait .waitall),
    .body 0 0 .poll, .body 0 0 (.execute 2)]

end Torc.Waiting
