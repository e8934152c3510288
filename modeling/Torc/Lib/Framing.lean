import Mathlib.Data.List.Basic

/-!
# Framed streams

A stream of headers, each followed by the items that it announces.  Its receiver has taken a prefix,
and `pending` lists the items that it has still to take before the next header.
-/

namespace Framing

variable {H B : Type*} {body : H → List B} {pending : List B} {l : List (H ⊕ B)}

def frame (body : H → List B) (h : H) : List (H ⊕ B) :=
  .inl h :: (body h).map .inr

/-- The stream is the pending items and then whole frames. -/
def Framed (body : H → List B) (pending : List B) (l : List (H ⊕ B)) : Prop :=
  ∃ hs : List H, l = pending.map .inr ++ hs.flatMap (frame body)

theorem Framed.nil : Framed body [] [] :=
  ⟨[], rfl⟩

/-- The sender sends one more frame. -/
theorem Framed.append (hf : Framed body pending l) (h : H) :
    Framed body pending (l ++ frame body h) := by
  obtain ⟨hs, rfl⟩ := hf
  refine ⟨hs ++ [h], ?_⟩
  rw [List.append_assoc, List.flatMap_append, List.flatMap_singleton]

/-- A receiver without pending items that takes a header has those of the header pending. -/
theorem Framed.header {h : H} (hf : Framed body [] (.inl h :: l)) : Framed body (body h) l := by
  obtain ⟨hs, heq⟩ := hf
  cases hs with
  | nil => cases heq
  | cons h' hs =>
      obtain ⟨hh, hl⟩ := List.cons.inj heq
      cases hh
      exact ⟨hs, hl⟩

/-- A receiver with pending items takes the first of them. -/
theorem Framed.item {b : B} {x : H ⊕ B} (hf : Framed body (b :: pending) (x :: l)) :
    x = .inr b ∧ Framed body pending l := by
  obtain ⟨hs, heq⟩ := hf
  obtain ⟨hx, hl⟩ := List.cons.inj heq
  exact ⟨hx, hs, hl⟩

end Framing
