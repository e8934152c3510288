import Torc.Route
import Torc.Create
import Torc.Numbering
import Torc.Lib.Transition
import Mathlib.Algebra.BigOperators.Group.Finset.Piecewise
import Mathlib.Data.List.Perm.Basic

/-!
# Created and executed

The creation routines count in `created`, `_torc_execute` in `executed`.  Between the two a task
changes its place and its node in any way.
-/

namespace Torc.TaskCounts

open Transition

/-- Counters are indexed by node and worker.  `waiting` are the descriptors in queues and messages,
`running` those that are executed; `detached` counts the calls of `torc_task_detached`. -/
structure State where
  created : Nat → Nat → Nat := fun _ _ ↦ 0
  executed : Nat → Nat → Nat := fun _ _ ↦ 0
  waiting : List Held := []
  running : List Held := []
  detached : Nat := 0

/-- The descriptors are named by their positions in the two lists. -/
inductive Act
  | create (r : Routine) (who : Creator) (taskId work : Nat) (h : ByteHeap) (cs : List CArg)
  | move (k : Nat) (hop : Hop)
  | execute (k vp : Nat)
  | executeDirectly (k : Nat)
  | finish (k : Nat)

def Act.detached : Act → Bool
  | .create .taskDetached _ _ _ _ _ => true
  | _ => false

def increment (count : Nat → Nat → Nat) (node vp : Nat) : Nat → Nat → Nat :=
  Function.update count node (Function.update (count node) vp (count node vp + 1))

/-- `workers` are the numbers of workers of the nodes. -/
def step (workers : List Nat) : Act → State → Option State
  | .create r who taskId work h cs, s =>
      -- the caller's descriptor has the id of its worker
      if 0 ≤ who.self.vpId ∧ who.self.vpId.toNat < workers.getD who.me 0 then
        (r.create who taskId work h cs).map fun c ↦
          { s with
            created :=
              if c.counted then increment s.created who.me who.self.vpId.toNat else s.created
            waiting := ⟨who.me, c.desc⟩ :: s.waiting
            detached := s.detached +
              if (Act.create r who taskId work h cs).detached then 1 else 0 }
      else none
  | .move k hop, s => s.waiting[k]?.map fun held ↦
      { s with waiting := hop.land held :: s.waiting.eraseIdx k }
  | .execute k vp, s => s.waiting[k]?.bind fun held ↦
      -- `_torc_execute` by a worker of the node
      if vp < workers.getD held.node 0 then
        -- a stolen task counts where it is executed
        some { s with
          executed := if held.desc.rteType = 1 then increment s.executed held.node vp
            else s.executed
          waiting := s.waiting.eraseIdx k
          running := ⟨held.node, { held.desc with vpId := vp }⟩ :: s.running }
      else none
  | .executeDirectly k, s => s.waiting[k]?.bind fun held ↦
      -- by the server, with nothing around `_torc_core_execution`
      if held.desc.rteType = rteDirect then
        some { s with waiting := s.waiting.eraseIdx k, running := held :: s.running }
      else none
  | .finish k, s => s.running[k]?.map fun _ ↦ { s with running := s.running.eraseIdx k }

def system (workers : List Nat) : System State Act where
  init s := s = {}
  step := step workers

/-- The sum over all workers of all nodes. -/
def total (workers : List Nat) (count : Nat → Nat → Nat) : Nat :=
  ∑ node ∈ Finset.range workers.length,
  ∑ vp ∈ Finset.range (workers.getD node 0), count node vp

def visible (held : Held) : Bool :=
  held.desc.rteType == 1

/-- No more tasks are executed than were created, and as many when none is under way. -/
structure Balanced (workers : List Nat) (s : State) : Prop where
  executed_le : total workers s.executed ≤ total workers s.created
  quiet : s.waiting = [] → s.running = [] → total workers s.executed = total workers s.created

/-! ## The sums -/

variable {workers : List Nat} {s s' : State} {a : Act} {count : Nat → Nat → Nat} {node vp : Nat}

theorem increment_apply (n v : Nat) :
    increment count node vp n v = count n v + if n = node ∧ v = vp then 1 else 0 := by
  unfold increment
  by_cases hn : n = node
  · subst hn
    rw [Function.update_self]
    by_cases hv : v = vp
    · subst hv
      rw [Function.update_self, if_pos ⟨rfl, rfl⟩]
    · rw [Function.update_of_ne hv, if_neg fun h ↦ hv h.2, Nat.add_zero]
  · rw [Function.update_of_ne hn, if_neg fun h ↦ hn h.1, Nat.add_zero]

theorem lt_of_worker (hvp : vp < workers.getD node 0) : node < workers.length := by
  by_contra hnode
  rw [List.getD_eq_getElem?_getD, List.getElem?_eq_none (by omega)] at hvp
  cases hvp

theorem total_increment (hvp : vp < workers.getD node 0) :
    total workers (increment count node vp) = total workers count + 1 := by
  have hinner : ∀ n ∈ Finset.range workers.length,
      (∑ v ∈ Finset.range (workers.getD n 0), if n = node ∧ v = vp then 1 else 0) =
        if n = node then 1 else 0 := by
    intro n _
    by_cases hn : n = node
    · subst hn
      simp only [true_and, if_true, Finset.sum_ite_eq', Finset.mem_range, if_pos hvp]
    · simp only [hn, false_and, if_false, Finset.sum_const_zero]
  have hone : (∑ n ∈ Finset.range workers.length, if n = node then 1 else 0) = 1 := by
    rw [Finset.sum_ite_eq', if_pos (Finset.mem_range.mpr (lt_of_worker hvp))]
  simp only [total, increment_apply, Finset.sum_add_distrib]
  rw [Finset.sum_congr rfl hinner, hone]

theorem total_increment_if {p : Prop} [Decidable p] (hvp : vp < workers.getD node 0) :
    total workers (if p then increment count node vp else count) =
      total workers count + if p then 1 else 0 := by
  split
  · exact total_increment hvp
  · rfl

theorem countP_visible_cons (held : Held) (l : List Held) :
    (held :: l).countP visible = l.countP visible + if held.desc.rteType = 1 then 1 else 0 := by
  simp only [List.countP_cons, visible, beq_iff_eq]

theorem countP_visible_eraseIdx {l : List Held} {k : Nat} {held : Held} (hk : l[k]? = some held) :
    l.countP visible =
      (l.eraseIdx k).countP visible + if held.desc.rteType = 1 then 1 else 0 := by
  obtain ⟨hlt, rfl⟩ := List.getElem?_eq_some_iff.mp hk
  rw [← countP_visible_cons]
  exact (List.getElem_cons_eraseIdx_perm hlt).symm.countP_eq _

/-! ## Every run -/

/-- A routine counts where it stores the `rte_type` of a visible task, but for
`torc_task_detached`. -/
theorem counted_or_detached {r : Routine} {who : Creator} {taskId work : Nat} {h : ByteHeap}
    {cs : List CArg} {c : Creation} (hc : r.create who taskId work h cs = some c) :
    ((if c.counted then 1 else 0) +
        if (Act.create r who taskId work h cs).detached then 1 else 0) =
      if c.desc.rteType = 1 then 1 else 0 := by
  have hpair : ∀ b : Bool, ((if (!b) = true then 1 else 0) + 0) =
      if (if b then 2 else 1) = 1 then 1 else 0 := by decide
  cases r with
  | task =>
      obtain ⟨as, h', -, -, rfl⟩ := createWith_some hc
      exact hpair _
  | taskEx invisible =>
      obtain ⟨as, h', -, -, rfl⟩ := createWith_some hc
      exact hpair _
  | createf =>
      obtain ⟨as, h', -, -, rfl⟩ := createWith_some hc
      exact hpair _
  | taskf type =>
      obtain ⟨as, h', -, -, rfl⟩ := createWith_some hc
      exact hpair _
  | taskDetached =>
      obtain ⟨as, h', -, -, rfl⟩ := createWith_some hc
      rfl
  | taskDirect =>
      obtain ⟨as, h', -, -, rfl⟩ := createWith_some hc
      rfl

/-- Every visible task has been executed or waits, and was counted or is detached. -/
def Ledger (workers : List Nat) (s : State) : Prop :=
  total workers s.executed + s.waiting.countP visible = total workers s.created + s.detached

theorem Ledger.step (h : Ledger workers s) (hs : step workers a s = some s') :
    Ledger workers s' := by
  unfold Ledger at h ⊢
  cases a with
  | create r who taskId work heap cs =>
      obtain ⟨⟨-, hvp⟩, heq⟩ := Option.ite_none_right_eq_some.mp hs
      obtain ⟨c, hc, rfl⟩ := Option.map_eq_some_iff.mp heq
      have hone := counted_or_detached hc
      simp only [countP_visible_cons, total_increment_if hvp]
      omega
  | move k hop =>
      obtain ⟨held, hk, rfl⟩ := Option.map_eq_some_iff.mp hs
      have hcount := countP_visible_eraseIdx hk
      simp only [countP_visible_cons, (hop.land_same held).rteType]
      omega
  | execute k vp =>
      obtain ⟨held, hk, heq⟩ := Option.bind_eq_some_iff.mp hs
      obtain ⟨hvp, heq⟩ := Option.ite_none_right_eq_some.mp heq
      cases heq
      have hcount := countP_visible_eraseIdx hk
      simp only [total_increment_if hvp]
      omega
  | executeDirectly k =>
      obtain ⟨held, hk, heq⟩ := Option.bind_eq_some_iff.mp hs
      obtain ⟨hrte, heq⟩ := Option.ite_none_right_eq_some.mp heq
      cases heq
      have hcount := countP_visible_eraseIdx hk
      rw [hrte, if_neg (by decide)] at hcount
      simp only
      omega
  | finish k =>
      obtain ⟨held, hk, rfl⟩ := Option.map_eq_some_iff.mp hs
      exact h

theorem ledger_init : Ledger workers {} := by
  have hzero : total workers (fun _ _ ↦ 0) = 0 := by
    simp only [total, Finset.sum_const_zero]
  show total workers (fun _ _ ↦ 0) + 0 = total workers (fun _ _ ↦ 0) + 0
  rw [hzero]

theorem step_detached (hs : step workers a s = some s') (ha : a.detached = false) :
    s'.detached = s.detached := by
  cases a with
  | create r who taskId work heap cs =>
      obtain ⟨-, heq⟩ := Option.ite_none_right_eq_some.mp hs
      obtain ⟨c, -, rfl⟩ := Option.map_eq_some_iff.mp heq
      simp only [ha, Bool.false_eq_true, if_false, Nat.add_zero]
  | move k hop =>
      obtain ⟨held, -, rfl⟩ := Option.map_eq_some_iff.mp hs
      rfl
  | execute k vp =>
      obtain ⟨held, -, heq⟩ := Option.bind_eq_some_iff.mp hs
      obtain ⟨-, heq⟩ := Option.ite_none_right_eq_some.mp heq
      cases heq
      rfl
  | executeDirectly k =>
      obtain ⟨held, -, heq⟩ := Option.bind_eq_some_iff.mp hs
      obtain ⟨-, heq⟩ := Option.ite_none_right_eq_some.mp heq
      cases heq
      rfl
  | finish k =>
      obtain ⟨held, -, rfl⟩ := Option.map_eq_some_iff.mp hs
      rfl

theorem Ledger.balanced (h : Ledger workers s) (hdetached : s.detached = 0) :
    Balanced workers s := by
  unfold Ledger at h
  refine ⟨by omega, fun hwaiting _ ↦ ?_⟩
  rw [hwaiting, List.countP_nil] at h
  omega

/-- The worker 0 of a node. -/
def countingCreator : Creator :=
  { me := 0, table := [] }

/-- Node 0 creates a task that node 1 steals and executes. -/
def stolenTask (r : Routine) : List Act :=
  [.create r countingCreator 1 0 ⟨fun _ ↦ 0, 100⟩ [], .move 0 (.insert false 0),
    .move 0 (.steal 1 0 fun _ ↦ 0), .execute 0 0, .finish 0]

/-- Two nodes with one worker each. -/
theorem total_two (count : Nat → Nat → Nat) : total [1, 1] count = count 0 0 + count 1 0 := by
  simp [total, Finset.sum_range_succ]

end Torc.TaskCounts
