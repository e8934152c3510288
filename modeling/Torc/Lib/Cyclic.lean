import Mathlib.Data.Int.CardIntervalMod

/-!
# Going round a ring

The positions `0` to `n - 1` visited one after the other from the successor of one of them.
-/

namespace Cyclic

variable {n a b c d m N : Nat}

/-- The position visited after `d` others. -/
def visited (n a d : Nat) : Nat :=
  (a + 1 + d) % n

theorem visited_succ (n a d : Nat) : visited n a (d + 1) = (visited n a d + 1) % n := by
  rw [visited, visited, Nat.mod_add_mod, Nat.add_assoc (a + 1)]

/-- Before the ring is closed the positions run to its end and on from its beginning. -/
theorem visited_eq (ha : a < n) (hd : d < n) :
    visited n a d = if a + 1 + d < n then a + 1 + d else a + 1 + d - n := by
  unfold visited
  split
  · exact Nat.mod_eq_of_lt ‹_›
  · rw [Nat.mod_eq_sub_mod (by omega), Nat.mod_eq_of_lt (by omega)]

/-- The first position comes up again when all others have been visited. -/
theorem visited_eq_self_iff (ha : a < n) (hd : d < n) : visited n a d = a ↔ d + 1 = n := by
  rw [visited_eq ha hd]
  split <;> omega

theorem visited_ne (ha : a < n) (hd : d + 1 < n) : visited n a d ≠ a := by
  intro heq
  have hclosed : d + 1 = n := (visited_eq_self_iff ha (by omega)).mp heq
  omega

theorem visited_lt (ha : a < n) (d : Nat) : visited n a d < n :=
  Nat.mod_lt _ (Nat.zero_lt_of_lt ha)

theorem visited_inj (ha : a < n) (hd : d < n) (hc : c < n)
    (h : visited n a d = visited n a c) : d = c := by
  rw [visited_eq ha hd, visited_eq ha hc] at h
  split at h <;> split at h <;> omega

theorem exists_visited (ha : a < n) (hb : b < n) (hne : b ≠ a) :
    ∃ d, d + 1 < n ∧ visited n a d = b := by
  by_cases hlt : a < b
  · refine ⟨b - a - 1, by omega, ?_⟩
    rw [visited_eq ha (by omega)]
    split <;> omega
  · refine ⟨n + b - a - 1, by omega, ?_⟩
    rw [visited_eq ha (by omega)]
    split <;> omega

/-! ## Whole turns -/

/-- The first `N` positions from `a` on. -/
def tour (n a N : Nat) : List Nat :=
  (List.range N).map fun k ↦ (a + k) % n

theorem tour_succ (n a N : Nat) : tour n a (N + 1) = tour n a N ++ [(a + N) % n] := by
  rw [tour, List.range_succ, List.map_append]
  rfl

theorem tour_cons (ha : a < n) (N : Nat) :
    tour n a (N + 1) = a :: tour n ((a + 1) % n) N := by
  rw [tour, List.range_succ_eq_map, List.map_cons, List.map_map, Nat.add_zero, Nat.mod_eq_of_lt ha]
  congr 1
  apply List.map_congr_left
  intro k _
  show (a + (k + 1)) % n = ((a + 1) % n + k) % n
  rw [Nat.mod_add_mod, Nat.add_right_comm, Nat.add_assoc]

theorem getElem_tour {k : Nat} (hk : k < (tour n a N).length) : (tour n a N)[k] = (a + k) % n := by
  simp only [tour, List.getElem_map, List.getElem_range]

theorem count_tour_eq_count (n a b N : Nat) :
    (tour n a N).count b = N.count fun k ↦ (a + k) % n = b := by
  induction N with
  | zero => rfl
  | succ N ih =>
      rw [tour_succ, List.count_append, ih, Nat.count_succ, List.count_singleton]
      simp only [beq_iff_eq]

/-- The position `b` comes `b - a` steps behind `a`, and then every `n` steps. -/
theorem count_tour (hb : b < n) :
    (tour n a N).count b = N / n + if (b + (n - a % n)) % n < N % n then 1 else 0 := by
  have hn : 0 < n := Nat.zero_lt_of_lt hb
  have hmod : ∀ k, (a + k) % n = b ↔ k ≡ b + (n - a % n) [MOD n] := by
    intro k
    have ha : a % n < n := Nat.mod_lt a hn
    have hshift : (a + k) % n = b ↔ a + k ≡ a + (b + (n - a % n)) [MOD n] := by
      -- the two summands that contain `a` add up to a multiple of `n`
      have hround : a + (b + (n - a % n)) = b + n * (a / n + 1) := by
        have hdiv := Nat.div_add_mod a n
        rw [Nat.mul_succ]
        omega
      rw [hround, Nat.ModEq, Nat.add_mul_mod_self_left, Nat.mod_eq_of_lt hb]
    rw [hshift]
    exact Nat.ModEq.add_iff_left rfl
  rw [count_tour_eq_count, ← Nat.count_modEq_card N hn]
  simp only [hmod]

theorem count_tour_le (hb : b < n) (hc : c < n) :
    (tour n a N).count b ≤ (tour n a N).count c + 1 := by
  rw [count_tour hb, count_tour hc]
  split <;> split <;> omega

theorem count_tour_mul (hb : b < n) : (tour n a (m * n)).count b = m := by
  have hn : 0 < n := Nat.zero_lt_of_lt hb
  rw [count_tour hb, Nat.mul_mod_left, Nat.mul_div_cancel m hn]
  rfl

end Cyclic
