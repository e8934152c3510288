import Mathlib.Logic.Function.Basic
import Mathlib.Order.Nat

/-!
# Collective operations

Processes that go through a sequence of operations, each of which a process completes only when all
of them have started it.
-/

/-- Of `n` processes, process `i` has started `started i` operations and completed `left i` of
them. -/
structure Rounds (n : Nat) (started left : Nat → Nat) : Prop where
  started_le : ∀ i < n, started i ≤ left i + 1
  left_le : ∀ i < n, ∀ j < n, left i ≤ started j

namespace Rounds

variable {n : Nat} {started left : Nat → Nat} {i : Nat}

theorem start (h : Rounds n started left) (hi : i < n) (hleft : started i = left i) :
    Rounds n (Function.update started i (started i + 1)) left where
  started_le j hj := by
    by_cases hji : j = i
    · subst hji
      rw [Function.update_self, hleft]
    · rw [Function.update_of_ne hji]
      exact h.started_le j hj
  left_le j hj l hl := by
    by_cases hli : l = i
    · subst hli
      rw [Function.update_self]
      exact Nat.le_succ_of_le (h.left_le j hj l hi)
    · rw [Function.update_of_ne hli]
      exact h.left_le j hj l hl

theorem complete (h : Rounds n started left) (hi : i < n)
    (hall : ∀ j < n, started i ≤ started j) :
    Rounds n started (Function.update left i (started i)) where
  started_le j hj := by
    by_cases hji : j = i
    · subst hji
      rw [Function.update_self]
      exact Nat.le_succ _
    · rw [Function.update_of_ne hji]
      exact h.started_le j hj
  left_le j hj l hl := by
    by_cases hji : j = i
    · subst hji
      rw [Function.update_self]
      exact hall l hl
    · rw [Function.update_of_ne hji]
      exact h.left_le j hj l hl

/-- Some process is behind none of the others. -/
theorem exists_last (started : Nat → Nat) (hn : 0 < n) :
    ∃ i < n, ∀ j < n, started i ≤ started j := by
  induction n with
  | zero => exact absurd hn (Nat.lt_irrefl 0)
  | succ n ih =>
      by_cases hzero : n = 0
      · subst hzero
        refine ⟨0, Nat.one_pos, fun j hj ↦ ?_⟩
        rw [Nat.lt_one_iff.mp hj]
      · obtain ⟨i, hi, hmin⟩ := ih (Nat.pos_of_ne_zero hzero)
        rcases Nat.le_total (started i) (started n) with hle | hle
        · refine ⟨i, Nat.lt_succ_of_lt hi, fun j hj ↦ ?_⟩
          rcases Nat.lt_succ_iff_lt_or_eq.mp hj with hlt | rfl
          · exact hmin j hlt
          · exact hle
        · refine ⟨n, Nat.lt_succ_self n, fun j hj ↦ ?_⟩
          rcases Nat.lt_succ_iff_lt_or_eq.mp hj with hlt | rfl
          · exact hle.trans (hmin j hlt)
          · exact le_rfl

end Rounds
