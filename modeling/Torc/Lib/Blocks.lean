import Mathlib.Data.List.Perm.Basic

/-!
# Blocks that are allocated and freed

A ledger of the blocks that are allocated, and of those that were freed when they were not.  A block
that is allocated twice is in it twice, so nothing depends on the addresses that an allocator gives.
-/

namespace Blocks

variable {K : Type*}

structure Ledger (K : Type*) where
  live : List K := []
  stray : List K := []

def Ledger.alloc (l : Ledger K) (k : K) : Ledger K :=
  { l with live := k :: l.live }

def Ledger.free [DecidableEq K] (l : Ledger K) (k : K) : Ledger K :=
  if k ∈ l.live then { l with live := l.live.erase k } else { l with stray := k :: l.stray }

/-- Every block was freed as often as it was allocated. -/
def Ledger.Balanced (l : Ledger K) : Prop :=
  l.live = [] ∧ l.stray = []

/-- The live blocks are those of the list and no free went wrong. -/
structure Ledger.Holds (l : Ledger K) (ks : List K) : Prop where
  live : l.live.Perm ks
  stray : l.stray = []

variable {l : Ledger K} {k : K} {ks rest : List K}

theorem Ledger.Holds.perm (h : l.Holds ks) (hperm : ks.Perm rest) : l.Holds rest :=
  ⟨h.live.trans hperm, h.stray⟩

theorem Ledger.Holds.balanced_iff (h : l.Holds ks) : l.Balanced ↔ ks = [] := by
  unfold Ledger.Balanced
  rw [h.stray, and_iff_left rfl]
  constructor
  · intro hlive
    have hperm := h.live
    rw [hlive] at hperm
    exact hperm.symm.eq_nil
  · rintro rfl
    exact h.live.eq_nil

theorem Ledger.Holds.alloc (h : l.Holds ks) (k : K) : (l.alloc k).Holds (k :: ks) :=
  ⟨h.live.cons k, h.stray⟩

theorem Ledger.Holds.alloc_all (h : l.Holds rest) :
    (ks.foldl Ledger.alloc l).Holds (ks ++ rest) := by
  induction ks generalizing l rest with
  | nil => exact h
  | cons k ks ih => exact (ih (h.alloc k)).perm List.perm_middle

variable [DecidableEq K]

theorem Ledger.Holds.free (h : l.Holds (k :: ks)) : (l.free k).Holds ks := by
  have hmem : k ∈ l.live := h.live.mem_iff.mpr List.mem_cons_self
  unfold Ledger.free
  rw [if_pos hmem]
  refine ⟨?_, h.stray⟩
  show (l.live.erase k).Perm ks
  have hperm := h.live.erase k
  rwa [List.erase_cons_head] at hperm

theorem Ledger.Holds.free_all (h : l.Holds (ks ++ rest)) : (ks.foldl Ledger.free l).Holds rest := by
  induction ks generalizing l with
  | nil => exact h
  | cons k ks ih => exact ih h.free

end Blocks
