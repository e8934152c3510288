import Mathlib.Data.Nat.Find
import Mathlib.Data.List.Basic

/-!
# Stacks of frames that begin one after the other

Every frame is put on top of one of several stacks when it begins.  The frame that began last of all
those on any stack is on top of its own, so that no ring of frames can wait for each other where
each waits for one that began after it.
-/

namespace NestedStacks

variable {ι τ : Type*} {stack : ι → List τ} {began : τ → Nat}

/-- In each stack the later frames are on top. -/
def Sorted (stack : ι → List τ) (began : τ → Nat) : Prop :=
  ∀ i, (stack i).Pairwise fun t u ↦ began u < began t

/-- Some frame on top of a stack began after all frames under the others. -/
theorem Sorted.exists_latest (h : Sorted stack began) {N : Nat}
    (hbound : ∀ i, ∀ t ∈ stack i, began t < N) {i : ι} {t : τ} (ht : t ∈ stack i) :
    ∃ j u rest, stack j = u :: rest ∧ ∀ k, ∀ w ∈ stack k, began w ≤ began u := by
  -- the times at which frames began are bounded, so that one of them is the greatest
  have hmax : ∃ n, (∃ j, ∃ u ∈ stack j, began u = n) ∧
      ∀ k, ∀ w ∈ stack k, began w ≤ n := by
    classical
    refine ⟨Nat.findGreatest (fun n ↦ ∃ j, ∃ u ∈ stack j, began u = n) N, ?_, ?_⟩
    · exact Nat.findGreatest_spec (P := fun n ↦ ∃ j, ∃ u ∈ stack j, began u = n)
        (Nat.le_of_lt (hbound i t ht)) ⟨i, t, ht, rfl⟩
    · intro k w hw
      exact Nat.le_findGreatest (Nat.le_of_lt (hbound k w hw)) ⟨k, w, hw, rfl⟩
  obtain ⟨n, ⟨j, u, hu, rfl⟩, hle⟩ := hmax
  cases hstack : stack j with
  | nil =>
      rw [hstack] at hu
      cases hu
  | cons top rest =>
      rw [hstack] at hu
      rcases List.mem_cons.mp hu with rfl | hrest
      · exact ⟨j, u, rest, hstack, hle⟩
      · -- a frame below another one began before it
        have hsorted := h j
        rw [hstack, List.pairwise_cons] at hsorted
        have hlt := hsorted.1 u hrest
        have htop := hle j top (by rw [hstack]; exact List.mem_cons_self)
        omega

end NestedStacks
