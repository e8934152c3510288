import Torc.Lib.Consecutive
import Torc.Descriptor
import Mathlib.Algebra.Order.Ring.Nat

/-!
# Worker numbering

Global worker ids run through the nodes in order.  A cluster is given by the list of worker counts
that `_torc_comm_init` gathers in `node_info`, one entry per node.
-/

namespace Torc

/-- Every node has workers, no more than the arrays of `MAX_NVPS` entries have room for; their ids
are tags below that of the servers. -/
structure Layout where
  workers : List Nat
  nodes : 0 < workers.length
  counts : ∀ w ∈ workers, 0 < w ∧ w ≤ maxNvps

theorem Layout.pos (L : Layout) : ∀ w ∈ L.workers, 0 < w :=
  fun w hw ↦ (L.counts w hw).1

theorem Layout.le (L : Layout) : ∀ w ∈ L.workers, w ≤ maxNvps :=
  fun w hw ↦ (L.counts w hw).2

def oneNode : Layout where
  workers := [1]
  nodes := by decide
  counts := by decide

def twoNodes : Layout where
  workers := [1, 1]
  nodes := by decide
  counts := by decide

def unequalNodes : Layout where
  workers := [2, 1]
  nodes := by decide
  counts := by decide

def torcTotalNumThreads (workers : List Nat) : Nat :=
  workers.sum

/-- The loop of `global_thread_id_to_node_id` from node `i` on; none is its `Error`. -/
def nodeOfThreadFrom (g : Nat) : List Nat → Nat → Nat → Option Nat
  | [], _, _ => none
  | w :: ws, sum, i => if g < sum + w then some i else nodeOfThreadFrom g ws (sum + w) (i + 1)

def globalThreadIdToNodeId (workers : List Nat) (g : Nat) : Option Nat :=
  nodeOfThreadFrom g workers 0 0

/-- The sum over the nodes before `node`, as `local_thread_id_to_global_thread_id` and
`global_thread_id_to_local_thread_id` compute it. -/
def threadsBefore (workers : List Nat) (node : Nat) : Nat :=
  (workers.take node).sum

def localThreadIdToGlobalThreadId (workers : List Nat) (me l : Nat) : Nat :=
  threadsBefore workers me + l

def globalThreadIdToLocalThreadId (workers : List Nat) (g : Nat) : Option Nat :=
  (globalThreadIdToNodeId workers g).map fun node ↦ g - threadsBefore workers node

theorem nodeOfThreadFrom_replicate {w : Nat} (hw : 0 < w) {n i : Nat} (hi : i < n)
    (sum k : Nat) : nodeOfThreadFrom (sum + i * w) (List.replicate n w) sum k = some (k + i) := by
  induction n generalizing i sum k with
  | zero => omega
  | succ n ih =>
      rw [List.replicate_succ, nodeOfThreadFrom]
      cases i with
      | zero =>
          rw [if_pos (by omega)]
          rfl
      | succ i =>
          have hshift : sum + (i + 1) * w = sum + w + i * w := by
            rw [Nat.succ_mul]
            omega
          rw [hshift, if_neg (by omega), ih (Nat.lt_of_succ_lt_succ hi)]
          congr 1
          omega

/-- Where all nodes have as many workers, the multiples of that number are the nodes' first
workers. -/
theorem globalThreadIdToNodeId_uniform {n w i : Nat} (hw : 0 < w) (hi : i < n) :
    globalThreadIdToNodeId (List.replicate n w) (i * w) = some i := by
  have hrun := nodeOfThreadFrom_replicate hw hi 0 0
  rwa [Nat.zero_add, Nat.zero_add] at hrun

/-! ## Blocks of ids -/

variable {workers : List Nat} {g k l : Nat}

/-- The loop finds the block of the id. -/
theorem nodeOfThreadFrom_eq_some_iff {ws : List Nat} {sum i : Nat} (hsum : sum ≤ g) :
    nodeOfThreadFrom g ws sum i = some k ↔ ∃ j, k = i + j ∧
    Consecutive.Owns ws j (g - sum) := by
  induction ws generalizing sum i with
  | nil =>
      constructor
      · intro h
        cases h
      · intro h
        obtain ⟨j, -, hj⟩ := h
        cases hj.lt_length
  | cons w ws ih =>
      rw [nodeOfThreadFrom]
      -- the loop returns at the first block that ends behind the id
      by_cases hlt : g < sum + w
      · rw [if_pos hlt, Option.some.injEq]
        have hfirst : Consecutive.Owns (w :: ws) 0 (g - sum) :=
          Consecutive.owns_cons_zero.mpr (by omega)
        constructor
        · intro hk
          exact ⟨0, by omega, hfirst⟩
        · intro h
          obtain ⟨j, hk, hj⟩ := h
          have hzero : j = 0 := hj.unique hfirst
          omega
      · rw [if_neg hlt, ih (by omega)]
        have hrest : w ≤ g - sum := by omega
        have hshift : g - (sum + w) = g - sum - w := by omega
        rw [hshift]
        constructor
        · intro h
          obtain ⟨j, hk, hj⟩ := h
          exact ⟨j + 1, by omega, (Consecutive.owns_cons_succ hrest).mpr hj⟩
        · intro h
          obtain ⟨j, hk, hj⟩ := h
          cases j with
          | zero =>
              have hw := Consecutive.owns_cons_zero.mp hj
              omega
          | succ j => exact ⟨j, by omega, (Consecutive.owns_cons_succ hrest).mp hj⟩

theorem globalThreadIdToNodeId_eq_some_iff :
    globalThreadIdToNodeId workers g = some k ↔ Consecutive.Owns workers k g := by
  rw [globalThreadIdToNodeId, nodeOfThreadFrom_eq_some_iff (Nat.zero_le g), Nat.sub_zero]
  constructor
  · intro h
    obtain ⟨j, hk, hj⟩ := h
    rw [hk, Nat.zero_add]
    exact hj
  · intro h
    exact ⟨k, (Nat.zero_add k).symm, h⟩

/-- An id and its place on its node. -/
theorem globalThreadIdToLocalThreadId_eq (h : Consecutive.Owns workers k g) :
    globalThreadIdToLocalThreadId workers g = some (g - threadsBefore workers k) := by
  rw [globalThreadIdToLocalThreadId, globalThreadIdToNodeId_eq_some_iff.mpr h, Option.map_some]

/-- The ids and the pairs of a node and one of its workers, one to one and block by block. -/
structure NumberedInBlocks (workers : List Nat) : Prop where
  located : ∀ g < torcTotalNumThreads workers,
    ∃ k, ∃ hk : k < workers.length, ∃ l < workers[k],
    globalThreadIdToNodeId workers g = some k ∧
    globalThreadIdToLocalThreadId workers g = some l ∧
      localThreadIdToGlobalThreadId workers k l = g
  covered : ∀ k (hk : k < workers.length), ∀ l < workers[k], ∃! g,
    g < torcTotalNumThreads workers ∧ globalThreadIdToNodeId workers g = some k ∧
      globalThreadIdToLocalThreadId workers g = some l
  block : ∀ k (hk : k < workers.length) (g : Nat), globalThreadIdToNodeId workers g = some k ↔
    threadsBefore workers k ≤ g ∧ g < threadsBefore workers k + workers[k]
  first : threadsBefore workers 0 = 0
  next : ∀ k (hk : k < workers.length),
    threadsBefore workers (k + 1) = threadsBefore workers k + workers[k]

theorem owns_localThreadIdToGlobalThreadId_iff (hk : k < workers.length) :
    Consecutive.Owns workers k (localThreadIdToGlobalThreadId workers k l) ↔ l < workers[k] :=
  Consecutive.owns_start_add_iff hk

/-- The three loops are inverse to each other for all numbers of workers, some of which may even
be 0. -/
theorem numbered_in_blocks (workers : List Nat) : NumberedInBlocks workers where
  located g hg := by
    obtain ⟨k, hown⟩ := Consecutive.exists_owns hg
    have hback : localThreadIdToGlobalThreadId workers k (g - threadsBefore workers k) = g :=
      Nat.add_sub_of_le hown.1
    refine ⟨k, hown.lt_length, g - threadsBefore workers k, ?_,
      globalThreadIdToNodeId_eq_some_iff.mpr hown, globalThreadIdToLocalThreadId_eq hown, hback⟩
    rw [← owns_localThreadIdToGlobalThreadId_iff, hback]
    exact hown
  covered k hk l hl := by
    have hown := (owns_localThreadIdToGlobalThreadId_iff hk).mpr hl
    refine ⟨localThreadIdToGlobalThreadId workers k l, ⟨hown.lt_sum,
      globalThreadIdToNodeId_eq_some_iff.mpr hown, ?_⟩, fun g h ↦ ?_⟩
    · rw [globalThreadIdToLocalThreadId_eq hown, localThreadIdToGlobalThreadId,
        Nat.add_sub_cancel_left]
    · obtain ⟨-, hnode, hlocal⟩ := h
      have hg := globalThreadIdToNodeId_eq_some_iff.mp hnode
      rw [globalThreadIdToLocalThreadId_eq hg, Option.some.injEq] at hlocal
      have hle : threadsBefore workers k ≤ g := hg.1
      rw [localThreadIdToGlobalThreadId]
      omega
  block k hk g := by
    rw [globalThreadIdToNodeId_eq_some_iff, Consecutive.Owns, Consecutive.start_succ hk]
    rfl
  first := rfl
  next k hk := Consecutive.start_succ hk

/-- Two workers on node 0, three on node 1. -/
example : (List.range 6).map (globalThreadIdToNodeId [2, 3]) =
    [some 0, some 0, some 1, some 1, some 1, none] := by decide

end Torc
