import Torc.Startup.Node
import Torc.Lib.Rounds

/-!
# What is ready when

Every thread counts itself in `created_workers`, and worker 0 only behind the exchange of the worker
counts, so that no thread is in its scheduler loop before the tables of all nodes are complete.
-/

namespace Torc.Startup

open Transition

variable {threadSafe : Bool} {workers : List Nat} {s s' : State} {nd nd' : Node} {n k i v : Nat}
  {c : Call}

/-! ## The collective operations -/

/-- The collective operations in the order in which every node starts them. -/
def order : List Call :=
  [.allgather, .barrier, .synchronize, .ready]

theorem MainCtl.started_le (ctl : MainCtl) : ctl.started ≤ order.length := by
  unfold MainCtl.started
  split_ifs <;> decide

theorem length_take_started (ctl : MainCtl) : (order.take ctl.started).length = ctl.started := by
  rw [List.length_take, Nat.min_eq_left ctl.started_le]

/-- A node that is to start an operation has left all that it has started. -/
theorem MainCtl.left_call (c : Call) : (MainCtl.call c).left = (MainCtl.call c).started := by
  cases c <;> rfl

theorem MainCtl.left_inside (c : Call) : (MainCtl.inside c).left = (MainCtl.call c).left := by
  cases c <;> rfl

theorem MainCtl.started_inside (c : Call) :
    (MainCtl.inside c).started = (MainCtl.call c).started + 1 := by
  cases c <;> rfl

theorem Call.started_after (c : Call) : c.after.started = (MainCtl.inside c).started := by
  cases c <;> rfl

theorem Call.left_after (c : Call) : c.after.left = (MainCtl.inside c).started := by
  cases c <;> rfl

theorem order_call (c : Call) :
    order.take (MainCtl.call c).started ++ [c] = order.take (MainCtl.inside c).started := by
  cases c <;> rfl

theorem Local.started (h : Local threadSafe n k nd nd') :
    nd'.main.started = nd.main.started ∧ nd'.main.left = nd.main.left := by
  cases h with
  | rqInit hctl | startServer hctl | startWorker hctl | workersStarted hctl | fill hctl
  | filled hctl | count hctl | waited hctl =>
      simp [hctl, MainCtl.started, MainCtl.left, MainCtl.stage]
  | @enterSafe sec hctl | @enter sec hctl | @leave sec hctl =>
      cases sec <;>
        simp [hctl, MainCtl.started, MainCtl.left, MainCtl.stage, Section.first, Section.after]
  | workerCount | workerLoop | poll | polled => exact ⟨rfl, rfl⟩

/-! ## Steps of worker 0 in a collective operation -/

theorem Node.Locked.call (h : nd.Locked threadSafe) (hctl : nd.main = .call c) :
    Node.Locked threadSafe { nd with main := .inside c } := by
  cases c <;> apply h.congr <;> simp [hctl, MainCtl.InSection, MainCtl.stage]

theorem Node.Locked.complete (h : nd.Locked threadSafe) (hctl : nd.main = .inside c)
    (gathered : Nat → Nat) :
    Node.Locked threadSafe { nd with gathered := gathered, main := c.after } := by
  cases c <;> apply h.congr <;> simp [hctl, MainCtl.InSection, MainCtl.stage, Call.after]

theorem Node.Counts.call (h : nd.Counts k) (hctl : nd.main = .call c) :
    Node.Counts k { nd with main := .inside c } := by
  cases c <;> apply h.congr <;> simp [hctl, MainCtl.stage, MainCtl.begun]

theorem Node.Counts.complete (h : nd.Counts k) (hctl : nd.main = .inside c)
    (gathered : Nat → Nat) :
    Node.Counts k { nd with gathered := gathered, main := c.after } := by
  cases c <;> apply h.congr <;> simp [hctl, MainCtl.stage, MainCtl.begun, Call.after]

theorem Node.Tables.call (h : nd.Tables workers) (hctl : nd.main = .call c) :
    Node.Tables workers { nd with main := .inside c } := by
  cases c <;> apply h.congr <;> simp [hctl, MainCtl.stage, MainCtl.filled]

theorem Node.Tables.complete (h : nd.Tables workers) (hctl : nd.main = .inside c)
    (gathered : Nat → Nat) (hgathered : ∀ j < workers.length, gathered j = workers.getD j 0) :
    Node.Tables workers { nd with
      gathered := if c = .allgather then gathered else nd.gathered
      main := c.after } where
  server hnodes _ := h.server hnodes (by rw [hctl]; cases c <;> simp [MainCtl.stage])
  gathered _ j hj := by
    by_cases hc : c = .allgather
    · rw [if_pos hc]
      exact hgathered j hj
    · rw [if_neg hc]
      apply h.gathered _ j hj
      rw [hctl]
      cases c <;> simp_all [MainCtl.stage]
  info j hj := by
    cases c <;> simp [MainCtl.filled, MainCtl.stage, Call.after] at hj
    all_goals exact h.info j (by simp [hctl, MainCtl.filled, MainCtl.stage, hj])

/-! ## All nodes -/

structure Inv (threadSafe : Bool) (workers : List Nat) (s : State) : Prop where
  locked : ∀ i < workers.length, (s.node i).Locked threadSafe
  counts : ∀ i < workers.length, (s.node i).Counts (workers.getD i 0)
  tables : ∀ i < workers.length, (s.node i).Tables workers
  calls : ∀ i < workers.length, s.calls i = order.take (s.node i).main.started
  sent : ∀ i < workers.length, s.calls i ≠ [] → s.sent i = workers.getD i 0
  rounds : Rounds workers.length (fun i ↦ (s.calls i).length) (fun i ↦ (s.node i).main.left)

namespace Inv

theorem init : Inv threadSafe workers {} where
  locked _ _ := ⟨by simp [MainCtl.InSection], by simp, by simp⟩
  counts _ _ := {
    range v hv := by cases hv
    born v := by
      simp [MainCtl.begun]
      omega
    created := by
      rw [Node.counted,
        Finset.filter_false_of_mem fun v _ ↦ by simp [Node.Counted, MainCtl.stage]]
      rfl
    full := by simp [MainCtl.stage] }
  tables _ _ := ⟨by simp [MainCtl.stage], by simp [MainCtl.stage],
    by simp [MainCtl.filled, MainCtl.stage]⟩
  calls _ _ := rfl
  sent _ _ hcalls := absurd rfl hcalls
  rounds := ⟨fun _ _ ↦ Nat.zero_le _, fun _ _ _ _ ↦ Nat.zero_le _⟩

theorem setNode_forall {p : Nat → Node → Prop} (h : ∀ j < n, p j (s.node j)) (hnd : p i nd) :
    ∀ j < n, p j ((s.setNode i nd).node j) := by
  intro j hj
  by_cases hji : j = i
  · subst hji
    rw [State.node_setNode_self]
    exact hnd
  · rw [State.node_setNode_of_ne hji]
    exact h j hj

/-- What is read off each node, when one of them changes. -/
theorem map_setNode {α : Type} (f : Nat → Node → α) (s : State) (i : Nat) (nd : Node) :
    (fun j ↦ f j ((s.setNode i nd).node j)) =
      Function.update (fun j ↦ f j (s.node j)) i (f i nd) := by
  funext j
  by_cases hji : j = i
  · subst hji
    rw [State.node_setNode_self, Function.update_self]
  · rw [State.node_setNode_of_ne hji, Function.update_of_ne hji]

theorem pos (hpos : ∀ w ∈ workers, 0 < w) (hi : i < workers.length) : 0 < workers.getD i 0 := by
  rw [List.getD_eq_getElem _ _ hi]
  exact hpos _ (List.getElem_mem hi)

theorem length_calls (h : Inv threadSafe workers s) (hi : i < workers.length) :
    (s.calls i).length = (s.node i).main.started := by
  rw [h.calls i hi, length_take_started]

theorem setNode (h : Inv threadSafe workers s) (hpos : ∀ w ∈ workers, 0 < w)
    (hi : i < workers.length)
    (hlocal : Local threadSafe workers.length (workers.getD i 0) (s.node i) nd) :
    Inv threadSafe workers (s.setNode i nd) where
  locked := setNode_forall h.locked ((h.locked i hi).step hlocal)
  counts := setNode_forall (p := fun j nd ↦ nd.Counts (workers.getD j 0)) h.counts
    ((h.counts i hi).step (pos hpos hi) hlocal)
  tables := setNode_forall h.tables ((h.tables i hi).step hlocal)
  calls := by
    apply setNode_forall (p := fun j nd ↦ s.calls j = order.take nd.main.started) h.calls
    rw [hlocal.started.1]
    exact h.calls i hi
  sent := h.sent
  rounds := by
    rw [map_setNode fun _ nd ↦ nd.main.left, hlocal.started.2, Function.update_eq_self]
    exact h.rounds

theorem call (h : Inv threadSafe workers s) (hi : i < workers.length)
    (hctl : (s.node i).main = .call c) :
    Inv threadSafe workers ((s.setMain i (.inside c)).start i c
      (if c = .allgather then workers.getD i 0 else s.sent i)) where
  locked := setNode_forall h.locked ((h.locked i hi).call hctl)
  counts := setNode_forall (p := fun j nd ↦ nd.Counts (workers.getD j 0)) h.counts
    ((h.counts i hi).call hctl)
  tables := setNode_forall h.tables ((h.tables i hi).call hctl)
  calls j hj := by
    by_cases hji : j = i
    · subst hji
      simp only [State.start, State.setMain, Function.update_self, State.node_setNode_self]
      rw [← order_call, ← hctl]
      exact congrArg (· ++ [c]) (h.calls j hj)
    · simp only [State.start, State.setMain, Function.update_of_ne hji,
        State.node_setNode_of_ne hji]
      exact h.calls j hj
  sent j hj hcalls := by
    by_cases hji : j = i
    · subst hji
      simp only [State.start, Function.update_self]
      by_cases hc : c = .allgather
      · rw [if_pos hc]
      · rw [if_neg hc]
        apply h.sent j hj
        rw [h.calls j hj, hctl]
        revert hc
        cases c <;> decide
    · simp only [State.start, State.setMain, Function.update_of_ne hji] at hcalls ⊢
      exact h.sent j hj hcalls
  rounds := by
    have hleft : (s.calls i).length = (s.node i).main.left := by
      rw [h.length_calls hi, hctl, MainCtl.left_call]
    have hrounds := h.rounds.start hi hleft
    have hcalls : (fun j ↦ (((s.setMain i (.inside c)).start i c
        (if c = .allgather then workers.getD i 0 else s.sent i)).calls j).length) =
          Function.update (fun j ↦ (s.calls j).length) i ((s.calls i).length + 1) := by
      funext j
      by_cases hji : j = i
      · subst hji
        simp [State.start, State.setMain, State.setNode]
      · simp [State.start, State.setMain, State.setNode, hji]
    have hsame := map_setNode (fun _ nd ↦ nd.main.left) s i { s.node i with main := .inside c }
    rw [MainCtl.left_inside, ← hctl, Function.update_eq_self] at hsame
    rw [hcalls]
    exact hsame ▸ hrounds

/-- The node has everything that was sent when it completes an operation, the first one included. -/
theorem sent_of_complete (h : Inv threadSafe workers s) (hi : i < workers.length)
    (hctl : (s.node i).main = .inside c) (hall : Complete workers s i) :
    ∀ j < workers.length, s.sent j = workers.getD j 0 := by
  intro j hj
  apply h.sent j hj
  intro hnone
  have hle := hall j hj
  rw [h.length_calls hi, hctl, hnone, MainCtl.started_inside] at hle
  exact absurd hle (Nat.not_succ_le_zero _)

theorem complete (h : Inv threadSafe workers s) (hi : i < workers.length)
    (hctl : (s.node i).main = .inside c) (hall : Complete workers s i) :
    Inv threadSafe workers (s.setNode i { s.node i with
      gathered := if c = .allgather then s.sent else (s.node i).gathered
      main := c.after }) where
  locked := setNode_forall h.locked ((h.locked i hi).complete hctl _)
  counts := setNode_forall (p := fun j nd ↦ nd.Counts (workers.getD j 0)) h.counts
    ((h.counts i hi).complete hctl _)
  tables := setNode_forall h.tables
    ((h.tables i hi).complete hctl _ (h.sent_of_complete hi hctl hall))
  calls := by
    apply setNode_forall (p := fun j nd ↦ s.calls j = order.take nd.main.started) h.calls
    rw [Call.started_after, ← hctl]
    exact h.calls i hi
  sent := h.sent
  rounds := by
    rw [map_setNode fun _ nd ↦ nd.main.left, Call.left_after, ← hctl, ← h.length_calls hi]
    exact h.rounds.complete hi hall

theorem step (h : Inv threadSafe workers s) (hpos : ∀ w ∈ workers, 0 < w)
    (hstep : Step threadSafe workers s s') : Inv threadSafe workers s' := by
  cases hstep with
  | same => exact h
  | node hi hlocal => exact h.setNode hpos hi hlocal
  | call hi hctl => exact h.call hi hctl
  | complete hi hctl hall => exact h.complete hi hctl hall

end Inv

theorem inv_of_reachable (hpos : ∀ w ∈ workers, 0 < w)
    (hr : (system threadSafe workers).Reachable s) : Inv threadSafe workers s := by
  apply System.ReachableIf.invariant (Inv threadSafe workers) _ _ hr
  · intro s hs
    rw [hs]
    exact Inv.init
  · intro s s' a h _ hs
    exact h.step hpos (step_cases hs)

end Torc.Startup
