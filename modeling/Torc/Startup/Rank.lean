import Torc.Startup.Ready
import Mathlib.Algebra.Order.BigOperators.Group.Finset
import Mathlib.Algebra.Order.Ring.Nat
import Mathlib.Order.Interval.Finset.Nat

/-!
# How far the initialisation has got

No thread goes back, and only the servers and waiting threads can act without going on.
-/

namespace Torc.Startup

open Transition

variable {threadSafe : Bool} {workers : List Nat} {s s' : State} {nd nd' : Node} {n k i : Nat}
  {c : Call}

/-- The rounds that worker 0 has left in a loop. -/
def MainCtl.rounds (n k : Nat) : MainCtl → Nat
  | .startWorker v => k - v
  | .fill j => n - j
  | _ => 0

def MainCtl.rank (n k : Nat) (ctl : MainCtl) : Nat :=
  (20 - ctl.stage) * (n + k + 1) + ctl.rounds n k

def WorkerCtl.rank : WorkerCtl → Nat
  | .unborn => 3
  | .count => 2
  | .wait => 1
  | .loop => 0

def Node.rank (n k : Nat) (nd : Node) : Nat :=
  nd.main.rank n k + ∑ v ∈ Finset.Ico 1 k, (nd.worker v).rank

/-- What is left of the initialisation on all nodes. -/
def State.rank (workers : List Nat) (s : State) : Nat :=
  ∑ i ∈ Finset.range workers.length, (s.node i).rank workers.length (workers.getD i 0)

theorem sum_update_lt {t : Finset Nat} (f : Nat → Nat) {x : Nat} (hi : i ∈ t) (hx : x < f i) :
    ∑ j ∈ t, Function.update f i x j < ∑ j ∈ t, f j := by
  apply Finset.sum_lt_sum
  · intro j _
    by_cases hji : j = i
    · subst hji
      rw [Function.update_self]
      exact hx.le
    · rw [Function.update_of_ne hji]
  · refine ⟨i, hi, ?_⟩
    rw [Function.update_self]
    exact hx

theorem Node.rank_lt_of_main (hworker : nd'.worker = nd.worker)
    (hmain : nd'.main.rank n k < nd.main.rank n k) : nd'.rank n k < nd.rank n k := by
  unfold Node.rank
  rw [hworker]
  omega

theorem Node.rank_lt_of_worker {v : Nat} {ctl : WorkerCtl} (hv : 0 < v ∧ v < k)
    (hworker : nd'.worker = Function.update nd.worker v ctl) (hctl : ctl.rank < (nd.worker v).rank)
    (hmain : nd'.main.rank n k ≤ nd.main.rank n k) : nd'.rank n k < nd.rank n k := by
  have hsum : ∑ u ∈ Finset.Ico 1 k, (nd'.worker u).rank <
      ∑ u ∈ Finset.Ico 1 k, (nd.worker u).rank := by
    have hmap : (fun u ↦ (nd'.worker u).rank) =
        Function.update (fun u ↦ (nd.worker u).rank) v ctl.rank := by
      rw [hworker]
      exact Function.comp_update WorkerCtl.rank nd.worker v ctl
    have hlt := sum_update_lt (fun u ↦ (nd.worker u).rank) (Finset.mem_Ico.mpr hv) hctl
    rwa [← hmap] at hlt
  unfold Node.rank
  omega

/-! ## Steps -/

/-- The threads of the node are where they were, its server apart. -/
structure Node.Same (nd nd' : Node) : Prop where
  main : nd'.main = nd.main
  worker : nd'.worker = nd.worker
  createdWorkers : nd'.createdWorkers = nd.createdWorkers

structure State.Same (s s' : State) : Prop where
  node : ∀ i, (s.node i).Same (s'.node i)
  calls : s'.calls = s.calls

theorem Local.rank (h : Local threadSafe n k nd nd') (hcounts : nd.Counts k) (hk : 0 < k) :
    nd'.rank n k < nd.rank n k ∨ nd.Same nd' := by
  cases h with
  | rqInit hctl | startServer hctl | workersStarted hctl | filled hctl | count hctl
  | waited hctl =>
      left
      refine Node.rank_lt_of_main (by rfl) ?_
      simp only [hctl, MainCtl.rank, MainCtl.stage, MainCtl.rounds]
      omega
  | fill hctl hj =>
      left
      refine Node.rank_lt_of_main (by rfl) ?_
      simp only [hctl, MainCtl.rank, MainCtl.stage, MainCtl.rounds]
      omega
  | @enterSafe sec hctl | @enter sec hctl | @leave sec hctl =>
      left
      refine Node.rank_lt_of_main (by rfl) ?_
      cases sec <;> simp only [hctl, MainCtl.rank, MainCtl.stage, MainCtl.rounds, Section.first,
        Section.after] <;> omega
  | @startWorker v hctl hv =>
      have hunborn : nd.worker v = .unborn := by
        by_contra hborn
        have hlt := ((hcounts.born v).mp hborn).2
        simp [hctl, MainCtl.begun] at hlt
      left
      refine Node.rank_lt_of_worker ⟨(hcounts.range v hctl).1, hv⟩ (by rfl)
        (by rw [hunborn]; decide) ?_
      simp only [hctl, MainCtl.rank, MainCtl.stage, MainCtl.rounds]
      omega
  | @workerCount v hctl | @workerLoop v hctl =>
      have hborn := (hcounts.born v).mp (by rw [hctl]; decide)
      left
      exact Node.rank_lt_of_worker ⟨hborn.1, hborn.2.trans_le (hcounts.begun_le hk)⟩ (by rfl)
        (by rw [hctl]; decide) le_rfl
  | poll | polled => exact .inr ⟨rfl, rfl, rfl⟩

theorem rank_setNode_lt (hi : i < workers.length)
    (h : nd.rank workers.length (workers.getD i 0) <
      (s.node i).rank workers.length (workers.getD i 0)) :
    (s.setNode i nd).rank workers < s.rank workers := by
  have hlt := sum_update_lt (fun j ↦ (s.node j).rank workers.length (workers.getD j 0))
    (Finset.mem_range.mpr hi) h
  rw [← Inv.map_setNode fun j nd ↦ nd.rank workers.length (workers.getD j 0)] at hlt
  exact hlt

theorem Node.Same.setNode (h : (s.node i).Same nd) : s.Same (s.setNode i nd) where
  node j := by
    by_cases hji : j = i
    · subst hji
      rw [State.node_setNode_self]
      exact h
    · rw [State.node_setNode_of_ne hji]
      exact ⟨rfl, rfl, rfl⟩
  calls := rfl

theorem Step.rank (h : Step threadSafe workers s s') (hinv : Inv threadSafe workers s)
    (hpos : ∀ w ∈ workers, 0 < w) : s'.rank workers < s.rank workers ∨ s.Same s' := by
  cases h with
  | same => exact .inr ⟨fun _ ↦ ⟨rfl, rfl, rfl⟩, rfl⟩
  | @node i nd hi hlocal =>
      rcases hlocal.rank (hinv.counts i hi) (Inv.pos hpos hi) with hlt | hsame
      · exact .inl (rank_setNode_lt hi hlt)
      · exact .inr hsame.setNode
  | @call i c hi hctl =>
      left
      apply rank_setNode_lt hi
      refine Node.rank_lt_of_main (by rfl) ?_
      cases c <;> simp only [hctl, MainCtl.rank, MainCtl.stage, MainCtl.rounds] <;> omega
  | @complete i c hi hctl =>
      left
      apply rank_setNode_lt hi
      refine Node.rank_lt_of_main (by rfl) ?_
      cases c <;> simp only [hctl, MainCtl.rank, MainCtl.stage, MainCtl.rounds, Call.after] <;>
        omega

theorem State.Same.rank (h : s.Same s') : s'.rank workers = s.rank workers := by
  apply Finset.sum_congr rfl
  intro i _
  rw [Node.rank, Node.rank, (h.node i).main, (h.node i).worker]

/-! ## The end -/

theorem MainCtl.loop_of_rank {ctl : MainCtl} (h : ctl.rank n k = 0) : ctl = .loop := by
  have hstage : (20 - ctl.stage) * (n + k + 1) = 0 := (Nat.add_eq_zero_iff.mp h).1
  rcases Nat.mul_eq_zero.mp hstage with hend | hzero
  · cases ctl with
    | loop => rfl
    | enterCs sec | leaveCs sec => cases sec <;> simp [MainCtl.stage] at hend
    | call c | inside c => cases c <;> simp [MainCtl.stage] at hend
    | _ => simp [MainCtl.stage] at hend
  · cases hzero

theorem WorkerCtl.loop_of_rank {ctl : WorkerCtl} (h : ctl.rank = 0) : ctl = .loop := by
  cases ctl <;> first | rfl | cases h

theorem main_of_rank (h : s.rank workers = 0) (hi : i < workers.length) :
    (s.node i).main = .loop := by
  have hnode := Finset.sum_eq_zero_iff.mp h i (Finset.mem_range.mpr hi)
  exact MainCtl.loop_of_rank (Nat.add_eq_zero_iff.mp hnode).1

theorem inLoop_of_rank (h : s.rank workers = 0) (hi : i < workers.length) {v : Nat}
    (hv : v < workers.getD i 0) : s.InLoop i v := by
  by_cases hzero : v = 0
  · exact .inl ⟨hzero, main_of_rank h hi⟩
  · have hnode := Nat.add_eq_zero_iff.mp (Finset.sum_eq_zero_iff.mp h i (Finset.mem_range.mpr hi))
    have hmem : v ∈ Finset.Ico 1 (workers.getD i 0) :=
      Finset.mem_Ico.mpr ⟨Nat.pos_of_ne_zero hzero, hv⟩
    exact .inr (WorkerCtl.loop_of_rank (Finset.sum_eq_zero_iff.mp hnode.2 v hmem))

end Torc.Startup
