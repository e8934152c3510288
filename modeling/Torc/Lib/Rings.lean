import Mathlib.Data.Set.Basic
import Mathlib.Logic.Relation

/-!
# Rings of waiting

A ring of a relation is a nonempty set in which everything is related to something of the set; among
finitely many things these are the sets that contain a cycle.
-/

namespace Rings

variable {α : Type*} {r r' : α → α → Prop}

def IsRing (r : α → α → Prop) (S : Set α) : Prop :=
  S.Nonempty ∧ ∀ a ∈ S, ∃ b ∈ S, r a b

def RingFree (r : α → α → Prop) : Prop :=
  ∀ S, ¬ IsRing r S

theorem ringFree_of_forall (h : ∀ a b, ¬ r a b) : RingFree r := by
  rintro S ⟨⟨a, ha⟩, hS⟩
  obtain ⟨b, -, hab⟩ := hS a ha
  exact h a b hab

theorem RingFree.mono (h : RingFree r) (hle : ∀ a b, r' a b → r a b) : RingFree r' := by
  rintro S ⟨hne, hS⟩
  refine h S ⟨hne, fun a ha ↦ ?_⟩
  obtain ⟨b, hb, hab⟩ := hS a ha
  exact ⟨b, hb, hle a b hab⟩

/-- New edges from `i` close no ring when they go to where `i` cannot be reached from. -/
theorem RingFree.add (h : RingFree r) (i : α)
    (hnew : ∀ a b, r' a b → r a b ∨ a = i ∧ ¬ Relation.ReflTransGen r b i) :
    RingFree r' := by
  rintro S ⟨hne, hS⟩
  have hold : ∀ a ∈ S, a ≠ i → ∃ b ∈ S, r a b := by
    intro a ha hai
    obtain ⟨b, hb, hab⟩ := hS a ha
    exact ⟨b, hb, (hnew a b hab).resolve_right fun hc ↦ hai hc.1⟩
  by_cases hi : i ∈ S
  · obtain ⟨b, hb, hib⟩ := hS i hi
    rcases hnew i b hib with hib | ⟨-, hreach⟩
    · refine h S ⟨hne, fun a ha ↦ ?_⟩
      by_cases hai : a = i
      · exact ⟨b, hb, hai ▸ hib⟩
      · exact hold a ha hai
    · -- what `b` reaches inside the ring is a ring without `i`
      refine h {x | x ∈ S ∧ Relation.ReflTransGen r b x} ⟨⟨b, hb, .refl⟩, ?_⟩
      rintro x ⟨hx, hbx⟩
      have hxi : x ≠ i := by
        rintro rfl
        exact hreach hbx
      obtain ⟨y, hy, hxy⟩ := hold x hx hxi
      exact ⟨y, ⟨hy, hbx.tail hxy⟩, hxy⟩
  · refine h S ⟨hne, fun a ha ↦ hold a ha ?_⟩
    rintro rfl
    exact hi ha

/-- New edges into `j` close no ring when they come from what cannot be reached from `j`. -/
theorem RingFree.addInto (h : RingFree r) (j : α)
    (hnew : ∀ a b, r' a b → r a b ∨ b = j ∧ ¬ Relation.ReflTransGen r j a) :
    RingFree r' := by
  rintro S ⟨hne, hS⟩
  by_cases hj : j ∈ S
  · -- what `j` reaches inside the ring is a ring of old edges
    refine h {x | x ∈ S ∧ Relation.ReflTransGen r j x} ⟨⟨j, hj, .refl⟩, ?_⟩
    rintro x ⟨hx, hjx⟩
    obtain ⟨y, hy, hxy⟩ := hS x hx
    rcases hnew x y hxy with hxy | ⟨-, hreach⟩
    · exact ⟨y, ⟨hy, hjx.tail hxy⟩, hxy⟩
    · exact absurd hjx hreach
  · refine h S ⟨hne, fun a ha ↦ ?_⟩
    obtain ⟨b, hb, hab⟩ := hS a ha
    refine ⟨b, hb, (hnew a b hab).resolve_right fun hc ↦ hj ?_⟩
    rw [← hc.1]
    exact hb

end Rings
