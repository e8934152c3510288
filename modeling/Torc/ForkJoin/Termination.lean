import Torc.ForkJoin.Invariant
import Mathlib.Tactic.Ring

/-!
# Termination of fork-join programs

Every step of the worker uses up a part of the tree of bodies, and a waiting task with outstanding
children always finds one of them queued.
-/

namespace Torc.ForkJoin

open Transition

theorem step_cases {s s' : State} (h : step s = some s') :
    ∃ f rest, s.stack = f :: rest ∧
      ((∃ child body, f.ctl = .running ∧ f.task.body = .spawn child body ∧
          s' = torcTask s f rest child body) ∨
        (∃ body, f.ctl = .running ∧ f.task.body = .wait body ∧
          s' = { s with
            ndep := beginWait s.ndep f.task.addr
            stack := { f with task := { f.task with body := body }, ctl := .blocked } :: rest }) ∨
        (f.ctl = .running ∧ f.task.body = .done ∧ rest ≠ [] ∧ s' = torcCleanup s f rest) ∨
        (f.ctl = .blocked ∧ s.ndep f.task.addr ≤ 0 ∧
          s' = { s with stack := { f with ctl := .running } :: rest }) ∨
        (∃ t queues, f.ctl = .blocked ∧ s.queues.nextLocal = some (t, queues) ∧
          s' = { s with
            queues := queues
            stack := ⟨t, 0, .running⟩ :: f :: rest
            executed := s.executed ++ [t.path] }) ∨
        (f.ctl = .blocked ∧ 0 < s.ndep f.task.addr ∧ s.queues.nextLocal = none)) := by
  unfold step at h
  split at h
  · cases h
  · rename_i f rest hstack
    refine ⟨f, rest, hstack, ?_⟩
    split at h
    · rename_i child body hctl hbody
      cases h
      exact .inl ⟨child, body, hctl, hbody, rfl⟩
    · rename_i body hctl hbody
      cases h
      exact .inr (.inl ⟨body, hctl, hbody, rfl⟩)
    · rename_i hctl hbody
      split at h
      · cases h
      · rename_i hrest
        cases h
        exact .inr (.inr (.inl ⟨hctl, hbody, fun hnil ↦ hrest (by rw [hnil]; rfl), rfl⟩))
    · rename_i hctl
      split at h
      · rename_i hn
        cases h
        exact .inr (.inr (.inr (.inl ⟨hctl, hn, rfl⟩)))
      · rename_i hn
        split at h
        · rename_i t queues hnext
          cases h
          exact .inr (.inr (.inr (.inr (.inl ⟨t, queues, hctl, hnext, rfl⟩))))
        · rename_i hnext
          exact .inr (.inr (.inr (.inr (.inr ⟨hctl, by omega, hnext⟩))))

/-! ## Progress -/

/-- A wait that sees outstanding children finds a task. -/
theorem Inv.blocked_finds_task {s : State} (h : Inv s.config) {f : Frame} {rest : List Frame}
    (hs : s.stack = f :: rest) (hctl : f.ctl = .blocked) (hn : 0 < s.ndep f.task.addr) :
    s.queues.nextLocal ≠ none := by
  intro hnone
  have hempty : s.queues.tasks = [] := Queues.tasks_eq_nil_iff.mpr (Queues.nextLocal_eq_none hnone)
  have hok := h.frames f (by show f ∈ s.stack; rw [hs]; exact List.mem_cons_self)
  unfold FrameOk at hok
  rw [hctl] at hok
  have hk : s.ndep f.task.addr = (s.config.children f.task.addr : Nat) := hok.2
  have hzero : s.config.children f.task.addr = 0 := by
    rw [h.children_top hs]
    show (s.queues.tasks.map Task.parent).count _ = 0
    rw [hempty]
    rfl
  omega

/-- When the program itself has no outstanding child and runs nothing else, no task is queued. -/
theorem Inv.queues_empty {s : State} (h : Inv s.config) {f : Frame} (hs : s.stack = [f])
    (hzero : s.config.children f.task.addr = 0) : s.queues.tasks = [] := by
  rw [h.children_top hs, List.count_eq_zero] at hzero
  apply List.eq_nil_iff_forall_not_mem.mpr
  intro t ht
  -- the only running task is the parent of every queued one
  obtain ⟨a, hmem, ha⟩ : ∃ a ∈ stackAddrs s.stack, t.parent = some a := h.queuedParent t ht
  rw [hs] at hmem
  obtain rfl : a = f.task.addr := List.mem_singleton.mp hmem
  exact hzero (ha ▸ List.mem_map_of_mem ht)

theorem Inv.root_wait_returns {s : State} (h : Inv s.config) {f : Frame} (hs : s.stack = [f])
    (hctl : f.ctl = .blocked) (hn : s.ndep f.task.addr ≤ 0) : s.queues.tasks = [] := by
  have hok := h.frames f (by show f ∈ s.stack; rw [hs]; exact List.mem_cons_self)
  unfold FrameOk at hok
  rw [hctl] at hok
  have hk : s.ndep f.task.addr = (s.config.children f.task.addr : Nat) := hok.2
  exact h.queues_empty hs (by omega)

/-- The worker stops only when the program has returned. -/
theorem Inv.stopped {s : State} (h : Inv s.config) (hs : ForkJoin.step s = none) :
    ∃ f, s.stack = [f] ∧ f.ctl = .running ∧ f.task.body = .done := by
  unfold ForkJoin.step at hs
  split at hs
  · rename_i hnil
    exact absurd hnil h.notEmpty
  · rename_i f rest hstack
    split at hs
    · cases hs
    · cases hs
    · rename_i hctl hbody
      split at hs
      · rename_i hrest
        obtain rfl := List.isEmpty_iff.mp hrest
        exact ⟨f, hstack, hctl, hbody⟩
      · cases hs
    · split at hs
      · cases hs
      · split at hs <;> cases hs

theorem Inv.stopped_queues {s : State} (h : Inv s.config) {f : Frame} (hs : s.stack = [f])
    (hctl : f.ctl = .running) (hbody : f.task.body = .done) : s.queues.tasks = [] := by
  have hok := h.frames f (by show f ∈ s.stack; rw [hs]; exact List.mem_cons_self)
  unfold FrameOk at hok
  rw [hctl] at hok
  obtain ⟨pending, hj, -, hk⟩ := hok
  rw [hbody] at hj
  exact h.queues_empty hs (hk hj)

/-! ## The measure -/

def Body.size : Body → Nat
  | .done => 1
  | .spawn child rest => child.size + rest.size + 2
  | .wait rest => rest.size + 2

def Frame.weight (f : Frame) : Nat :=
  match f.ctl with
  | .running => f.task.body.size
  | .blocked => f.task.body.size + 1

def Task.weight (t : Task) : Nat :=
  t.body.size + 1

def State.weight (s : State) : Nat :=
  (s.stack.map Frame.weight).sum + (s.queues.tasks.map Task.weight).sum

theorem weight_of_perm {l l' : List Task} {t : Task} (h : l.Perm (t :: l')) :
    (l.map Task.weight).sum = t.weight + (l'.map Task.weight).sum := by
  rw [(h.map Task.weight).sum_eq, List.map_cons, List.sum_cons]

/-! ## What is left to execute -/

/-- The tasks not yet started: those queued, and those that queued and running tasks will spawn. -/
def State.remaining (s : State) : List (List Nat) :=
  s.stack.flatMap (fun f ↦ f.task.body.tasks f.task.path f.next) ++
    s.queues.tasks.flatMap fun t ↦ t.path :: t.body.tasks t.path 0

theorem Body.mem_tasks {b : Body} {path x : List Nat} {k : Nat} (hx : x ∈ b.tasks path k) :
    ∃ j q, k ≤ j ∧ x = path ++ j :: q := by
  induction b generalizing path k with
  | done => cases hx
  | spawn child rest ihc ihr =>
      simp only [Body.tasks, List.mem_append, List.mem_cons] at hx
      rcases hx with (rfl | hc) | hr
      · exact ⟨k, [], Nat.le_refl k, rfl⟩
      · obtain ⟨j, q, _, rfl⟩ := ihc hc
        exact ⟨k, j :: q, Nat.le_refl k, by rw [List.append_assoc]; rfl⟩
      · obtain ⟨j, q, hj, rfl⟩ := ihr hr
        exact ⟨j, q, by omega, rfl⟩
  | wait rest ih => exact ih hx

/-- The places of a tree are pairwise different. -/
theorem Body.tasks_nodup (b : Body) (path : List Nat) (k : Nat) : (b.tasks path k).Nodup := by
  induction b generalizing path k with
  | done => exact List.nodup_nil
  | spawn child rest ihc ihr =>
      rw [Body.tasks, List.nodup_append, List.nodup_cons]
      refine ⟨⟨fun hmem ↦ ?_, ihc _ _⟩, ihr _ _, fun x hx y hy hxy ↦ ?_⟩
      · obtain ⟨j, q, _, heq⟩ := Body.mem_tasks hmem
        have hlen := congrArg List.length heq
        simp at hlen
      · -- a place in the subtree of child `k` is not in one of a later child
        obtain ⟨j, q, hj, rfl⟩ := Body.mem_tasks hy
        rcases List.mem_cons.mp hx with rfl | hx'
        · have heq := List.append_cancel_left hxy
          cases heq
          omega
        · obtain ⟨i, r, _, rfl⟩ := Body.mem_tasks hx'
          rw [List.append_assoc] at hxy
          have heq := List.append_cancel_left hxy
          cases heq
          omega
  | wait rest ih => exact ih path k

/-! ## One step -/

theorem torcTask_tasks (s : State) (f : Frame) (rest : List Frame) (child body : Body) :
    (torcTask s f rest child body).queues.tasks.Perm
      (childTask f (torcGetReusedDesc s.reuseQ s.fresh).1 child :: s.queues.tasks) :=
  Queues.torcToIRqEnd_tasks _ _ _

theorem Inv.step {s s' : State} (h : Inv s.config) (hs : step s = some s') : Inv s'.config := by
  obtain ⟨f, rest, hstack, hcases⟩ := step_cases hs
  rcases hcases with ⟨child, body, hctl, hbody, rfl⟩ | ⟨body, hctl, hbody, rfl⟩ |
    ⟨hctl, hbody, hrest, rfl⟩ | ⟨hctl, hn, rfl⟩ | ⟨t, queues, hctl, hnext, rfl⟩ |
    ⟨hctl, hn, hnext⟩
  · exact (h.spawn hstack hctl hbody rfl).perm (torcTask_tasks s f rest child body).symm
  · exact h.block hstack hctl hbody
  · exact h.finish hstack hctl hbody hrest
  · exact h.wake hstack hctl hn
  · exact h.pick hstack hctl (Queues.nextLocal_tasks hnext)
  · exact absurd hnext (h.blocked_finds_task hstack hctl hn)

theorem weight_step {s s' : State} (h : Inv s.config) (hs : step s = some s') :
    s'.weight < s.weight := by
  obtain ⟨f, rest, hstack, hcases⟩ := step_cases hs
  unfold State.weight
  rw [hstack, List.map_cons, List.sum_cons]
  rcases hcases with ⟨child, body, hctl, hbody, rfl⟩ | ⟨body, hctl, hbody, rfl⟩ |
    ⟨hctl, hbody, -, rfl⟩ | ⟨hctl, hn, rfl⟩ | ⟨t, queues, hctl, hnext, rfl⟩ |
      ⟨hctl, hn, hnext⟩
  · rw [weight_of_perm (torcTask_tasks s f rest child body)]
    have hw : f.task.body.size = child.size + body.size + 2 := by
      rw [hbody]
      rfl
    simp only [torcTask, List.map_cons, List.sum_cons, Frame.weight, hctl, hw, Task.weight,
      childTask]
    omega
  · simp only [List.map_cons, List.sum_cons, Frame.weight, hctl, hbody, Body.size]
    omega
  · simp only [torcCleanup, Frame.weight, hctl, hbody, Body.size]
    omega
  · simp only [List.map_cons, List.sum_cons, Frame.weight, hctl]
    omega
  · rw [weight_of_perm (Queues.nextLocal_tasks hnext)]
    simp only [List.map_cons, List.sum_cons, Frame.weight, Task.weight]
    omega
  · exact absurd hnext (h.blocked_finds_task hstack hctl hn)

/-- A step moves a task from those remaining to those executed or leaves both alone. -/
theorem remaining_step {s s' : State} (h : Inv s.config) (hs : step s = some s') :
    (s'.executed ++ s'.remaining).Perm (s.executed ++ s.remaining) := by
  obtain ⟨f, rest, hstack, hcases⟩ := step_cases hs
  unfold State.remaining
  rw [hstack, List.flatMap_cons]
  rcases hcases with ⟨child, body, hctl, hbody, rfl⟩ | ⟨body, hctl, hbody, rfl⟩ |
    ⟨hctl, hbody, -, rfl⟩ | ⟨hctl, hn, rfl⟩ | ⟨t, queues, hctl, hnext, rfl⟩ |
      ⟨hctl, hn, hnext⟩
  · -- the child and its descendants move from the body to the queue
    have hq := (torcTask_tasks s f rest child body).flatMap_right
      fun t ↦ t.path :: t.body.tasks t.path 0
    apply List.Perm.append_left
    refine (hq.append_left _).trans ?_
    rw [List.perm_iff_count, hbody]
    intro x
    simp only [torcTask, childTask, Body.tasks, List.flatMap_cons, List.count_append,
      List.count_cons]
    omega
  · rw [hbody]
    exact List.Perm.refl _
  · rw [hbody]
    exact List.Perm.refl _
  · exact List.Perm.refl _
  · have hq := (Queues.nextLocal_tasks hnext).flatMap_right
      fun t ↦ t.path :: t.body.tasks t.path 0
    rw [List.append_assoc]
    apply List.Perm.append_left
    refine List.Perm.trans ?_ (hq.append_left _).symm
    rw [List.perm_iff_count]
    intro x
    simp only [List.count_append, List.count_cons, List.flatMap_cons, List.count_nil]
    omega
  · exact absurd hnext (h.blocked_finds_task hstack hctl hn)

/-! ## The whole run -/

def machine (level : Int) (stealing : Bool) (root : Body) : System State Unit where
  init s := s = start level stealing root
  step _ := step

theorem start_inv {root : Body} (hroot : root.Joins false) (level : Int) (stealing : Bool) :
    Inv (start level stealing root).config where
  notEmpty := List.cons_ne_nil _ _
  nodup := List.nodup_singleton 0
  below a ha := by
    obtain rfl : a = 0 := List.mem_singleton.mp ha
    exact Nat.one_pos
  nested := ⟨fun a ha ↦ absurd ha.symm (Option.some_ne_none a), trivial⟩
  queuedParent t ht := absurd ht List.not_mem_nil
  queuedIdle t ht := absurd ht List.not_mem_nil
  frames f hf := by
    obtain rfl := List.mem_singleton.mp hf
    exact ⟨false, hroot, rfl, fun _ ↦ rfl⟩
  waiting f hf := absurd hf List.not_mem_nil

theorem start_log (level : Int) (stealing : Bool) (root : Body) :
    (start level stealing root).executed ++ (start level stealing root).remaining =
      root.tasks [] 0 := by
  have hq : (start level stealing root).queues.tasks = [] := rfl
  rw [State.remaining, hq]
  simp [start]

theorem reachable_inv {level : Int} {stealing : Bool} {root : Body} (hroot : root.Joins false)
    {s : State} (h : (machine level stealing root).Reachable s) :
    Inv s.config ∧ (s.executed ++ s.remaining).Perm (root.tasks [] 0) := by
  refine h.invariant
    (fun s ↦ Inv s.config ∧ (s.executed ++ s.remaining).Perm (root.tasks [] 0))
    (fun s hs ↦ ?_) fun s s' _ hinv _ hs ↦ ?_
  · obtain rfl : s = start level stealing root := hs
    exact ⟨start_inv hroot level stealing, by rw [start_log]⟩
  · exact ⟨hinv.1.step hs, (remaining_step hinv.1 hs).trans hinv.2⟩

/-- The run of a fork-join program: it ends, having executed every task of the tree once; a wait
with outstanding children never finds the queues empty; and when the program's own wait returns all
queues are empty. -/
structure RunsToEnd (level : Int) (stealing : Bool) (root : Body) : Prop where
  bounded : ∀ as s, (machine level stealing root).run (start level stealing root) as = some s →
    as.length ≤ root.size
  ends : ∃ as s f, (machine level stealing root).run (start level stealing root) as = some s ∧
    s.stack = [f] ∧ f.ctl = .running ∧ f.task.body = .done
  once : ∀ s, (machine level stealing root).Reachable s → step s = none →
    s.executed.Perm (root.tasks [] 0) ∧ s.executed.Nodup
  finds : ∀ s f rest, (machine level stealing root).Reachable s → s.stack = f :: rest →
    f.ctl = .blocked → 0 < s.ndep f.task.addr → s.queues.nextLocal ≠ none
  empties : ∀ s f, (machine level stealing root).Reachable s → s.stack = [f] →
    f.ctl = .blocked → s.ndep f.task.addr ≤ 0 →
      s.queues.privateGrq = [] ∧ ∀ i < 10, s.queues.publicGrq i = []

theorem start_weight (level : Int) (stealing : Bool) (root : Body) :
    (start level stealing root).weight = root.size := by
  have hq : (start level stealing root).queues.tasks = [] := rfl
  rw [State.weight, hq]
  simp [start, Frame.weight]

theorem runsToEnd (level : Int) (stealing : Bool) (root : Body) (hroot : root.Joins false) :
    RunsToEnd level stealing root := by
  have hmeasure : ∀ s s' (a : Unit), Inv s.config →
      (machine level stealing root).step a s = some s' →
        Inv s'.config ∧ s'.weight < s.weight :=
    fun s s' _ h hs ↦ ⟨h.step hs, weight_step h hs⟩
  have hstart := start_inv hroot level stealing
  constructor
  · intro as s hrun
    have hle := System.length_run_le (fun s ↦ Inv s.config) State.weight hmeasure hstart hrun
    rw [start_weight] at hle
    omega
  · obtain ⟨as, s, hrun, hend⟩ :=
      System.exists_run_to_end (fun s ↦ Inv s.config) State.weight hmeasure hstart
    have hreach : (machine level stealing root).Reachable s :=
      System.Reachable.run (.init rfl) hrun
    obtain ⟨f, hf⟩ := (reachable_inv hroot hreach).1.stopped (hend ())
    exact ⟨as, s, f, hrun, hf⟩
  · intro s hreach hstop
    obtain ⟨hinv, hlog⟩ := reachable_inv hroot hreach
    obtain ⟨f, hs, hctl, hbody⟩ := hinv.stopped hstop
    have hnone : s.remaining = [] := by
      rw [State.remaining, hs, hinv.stopped_queues hs hctl hbody, List.flatMap_singleton, hbody]
      rfl
    rw [hnone, List.append_nil] at hlog
    exact ⟨hlog, hlog.nodup_iff.mpr (root.tasks_nodup [] 0)⟩
  · intro s f rest hreach hs hctl hn
    exact (reachable_inv hroot hreach).1.blocked_finds_task hs hctl hn
  · intro s f hreach hs hctl hn
    exact Queues.tasks_eq_nil_iff.mp ((reachable_inv hroot hreach).1.root_wait_returns hs hctl hn)

/-- Two rounds of spawns, the first child spawning a child of its own. -/
def sampleProgram : Body :=
  .spawn (.spawn .done (.wait .done)) (.spawn .done (.wait (.spawn .done (.wait .done))))

theorem runsToEnd_sample : RunsToEnd 0 true sampleProgram :=
  runsToEnd 0 true sampleProgram ⟨⟨rfl, rfl⟩, rfl, rfl, rfl⟩

end Torc.ForkJoin
