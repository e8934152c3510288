import Mathlib.Logic.Function.Basic

/-!
# Updates at two arguments

`Function.update f i (Function.update (f i) j x)` is `f` with the value `x` at `i` and `j`.
-/

namespace Update

variable {α β γ : Type*} [DecidableEq α] [DecidableEq β]

theorem update_update_self (f : α → β → γ) (i : α) (j : β) (x : γ) :
    Function.update f i (Function.update (f i) j x) i j = x := by
  rw [Function.update_self, Function.update_self]

theorem update_update_of_ne (f : α → β → γ) {i i' : α} {j j' : β} (x : γ)
    (h : ¬ (i' = i ∧ j' = j)) :
    Function.update f i (Function.update (f i) j x) i' j' = f i' j' := by
  by_cases hi : i' = i
  · subst hi
    rw [Function.update_self, Function.update_of_ne fun hj ↦ h ⟨rfl, hj⟩]
  · rw [Function.update_of_ne hi]

end Update
