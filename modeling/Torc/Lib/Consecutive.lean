import Mathlib.Algebra.Order.BigOperators.Group.List
import Mathlib.Algebra.Order.Ring.Nat
import Mathlib.Data.Nat.Find

/-!
# Consecutive blocks

The natural numbers below a sum cut into consecutive blocks of given sizes, which may be empty.
-/

namespace Consecutive

variable {sizes : List Nat} {s j k g l : Nat}

/-- The first number of block `k`. -/
def start (sizes : List Nat) (k : Nat) : Nat :=
  (sizes.take k).sum

/-- Block `k` has the number `g`. -/
def Owns (sizes : List Nat) (k g : Nat) : Prop :=
  start sizes k ≤ g ∧ g < start sizes (k + 1)

instance (sizes : List Nat) (k g : Nat) : Decidable (Owns sizes k g) :=
  inferInstanceAs (Decidable (_ ∧ _))

theorem start_succ (hk : k < sizes.length) : start sizes (k + 1) = start sizes k + sizes[k] :=
  List.sum_take_succ sizes k hk

theorem start_mono : Monotone (start sizes) :=
  List.monotone_sum_take sizes

/-- Behind the last block there is nothing. -/
theorem start_of_length_le (hk : sizes.length ≤ k) : start sizes k = sizes.sum := by
  rw [start, List.take_of_length_le hk]

theorem owns_cons_zero : Owns (s :: sizes) 0 g ↔ g < s := by
  simp [Owns, start]

theorem owns_cons_succ (hg : s ≤ g) : Owns (s :: sizes) (k + 1) g ↔ Owns sizes k (g - s) := by
  simp only [Owns, start, List.take_succ_cons, List.sum_cons]
  omega

theorem Owns.lt_length (h : Owns sizes k g) : k < sizes.length := by
  obtain ⟨hle, hlt⟩ := h
  by_contra hk
  rw [start_of_length_le (by omega)] at hle hlt
  omega

theorem Owns.lt_sum (h : Owns sizes k g) : g < sizes.sum := by
  have hend : start sizes (k + 1) ≤ start sizes sizes.length := start_mono h.lt_length
  rw [start_of_length_le (Nat.le_refl _)] at hend
  exact Nat.lt_of_lt_of_le h.2 hend

/-- Blocks have no number in common and stand in the order of their numbers. -/
theorem Owns.le_of_le {g' : Nat} (h : Owns sizes j g) (h' : Owns sizes k g') (hg : g ≤ g') :
    j ≤ k := by
  by_contra hlt
  have hend : start sizes (k + 1) ≤ start sizes j := start_mono (by omega)
  have hfirst := h.1
  have hlast := h'.2
  omega

theorem Owns.unique (h : Owns sizes j g) (h' : Owns sizes k g) : j = k :=
  Nat.le_antisymm (h.le_of_le h' (Nat.le_refl g)) (h'.le_of_le h (Nat.le_refl g))

/-- The number `l` of block `k`. -/
theorem owns_start_add_iff (hk : k < sizes.length) :
    Owns sizes k (start sizes k + l) ↔ l < sizes[k] := by
  rw [Owns, start_succ hk]
  omega

theorem exists_owns (hg : g < sizes.sum) : ∃ k, Owns sizes k g := by
  have hend : ∃ k, g < start sizes (k + 1) := by
    refine ⟨sizes.length, ?_⟩
    rw [start_of_length_le (Nat.le_succ _)]
    exact hg
  -- the first block that ends behind `g`
  refine ⟨Nat.find hend, ?_, Nat.find_spec hend⟩
  cases hfirst : Nat.find hend with
  | zero => exact Nat.zero_le g
  | succ k => exact Nat.le_of_not_lt (Nat.find_min hend (by omega))

/-! ## Counting by blocks -/

theorem countP_interval_succ (l : List Nat) (s len : Nat) :
    (l.countP fun g ↦ decide (s ≤ g ∧ g < s + (len + 1))) =
      (l.countP fun g ↦ decide (s ≤ g ∧ g < s + len)) + l.count (s + len) := by
  induction l with
  | nil => rfl
  | cons x l ih =>
      simp only [List.countP_cons, List.count_cons, decide_eq_true_eq, beq_iff_eq, ih]
      split <;> split <;> split <;> omega

/-- A list that has every number of an interval equally often. -/
theorem countP_interval {l : List Nat} {len m : Nat}
    (hl : ∀ g, s ≤ g → g < s + len → l.count g = m) :
    (l.countP fun g ↦ decide (s ≤ g ∧ g < s + len)) = m * len := by
  induction len with
  | zero =>
      rw [Nat.mul_zero, List.countP_eq_zero]
      intro g _
      rw [decide_eq_true_eq]
      omega
  | succ len ih =>
      have hlast : l.count (s + len) = m := hl _ (by omega) (by omega)
      rw [countP_interval_succ, ih fun g hle hlt ↦ hl g hle (by omega), hlast, Nat.mul_succ]

theorem countP_owns {l : List Nat} {m : Nat} (hk : k < sizes.length)
    (hl : ∀ g < sizes.sum, l.count g = m) :
    (l.countP fun g ↦ decide (Owns sizes k g)) = m * sizes[k] := by
  have hend : start sizes k + sizes[k] ≤ sizes.sum := by
    rw [← start_succ hk, ← start_of_length_le (Nat.le_refl sizes.length)]
    exact start_mono hk
  simp only [Owns, start_succ hk]
  exact countP_interval fun g _ hlt ↦ hl g (by omega)

end Consecutive
