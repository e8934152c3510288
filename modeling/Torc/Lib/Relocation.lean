import Mathlib.Logic.Function.Basic

/-!
# Programs over relocatable cells

A program reads and writes cells; a layout says at which location of a store each cell lives.  Two
layouts that keep the written cells apart from all others cannot be told apart by a program: from
stores that agree on the cells it may read, it leaves the same contents in them.
-/

namespace Relocation

variable {C L L' V : Type*}

inductive Prog (C V : Type*)
  | done
  | read (c : C) (k : V → Prog C V)
  | write (c : C) (v : V) (k : Prog C V)

def Prog.run [DecidableEq L] (layout : C → L) : Prog C V → (L → V) → L → V
  | .done, m => m
  | .read c k, m => (k (m (layout c))).run layout m
  | .write c v k, m => k.run layout (Function.update m (layout c) v)

/-- What a caller promises about a program: it stays within `live`, writes only `writable` cells,
reads a cell of `out` only after writing it and has written all of `out` when it ends.  `written`
holds of the cells written so far. -/
def Prog.Respects [DecidableEq L] (layout : C → L) (live writable out : C → Prop) :
    Prog C V → (C → Prop) → (L → V) → Prop
  | .done, written, _ => ∀ c, out c → written c
  | .read c k, written, m =>
      live c ∧ (out c → written c) ∧
        (k (m (layout c))).Respects layout live writable out written m
  | .write c v k, written, m =>
      live c ∧ writable c ∧
        k.Respects layout live writable out (fun c' ↦ written c' ∨ c' = c)
          (Function.update m (layout c) v)

/-- No writable cell shares its location with another live cell. -/
def Apart (layout : C → L) (live writable : C → Prop) : Prop :=
  ∀ c c', live c → writable c → live c' → layout c = layout c' → c = c'

theorem Apart.update_other [DecidableEq L] {layout : C → L} {live writable : C → Prop}
    (h : Apart layout live writable) {c c' : C} (hc : live c) (hw : writable c) (hc' : live c')
    (hne : c' ≠ c) (m : L → V) (v : V) :
    Function.update m (layout c) v (layout c') = m (layout c') := by
  apply Function.update_of_ne
  intro heq
  exact hne (h c c' hc hw hc' heq.symm).symm

/-- Two stores agree on every live cell that is not an unwritten cell of `out`. -/
def Agree (layout : C → L) (layout' : C → L') (live out written : C → Prop) (m : L → V)
    (m' : L' → V) : Prop :=
  ∀ c, live c → (out c → written c) → m (layout c) = m' (layout' c)

theorem Agree.write [DecidableEq L] [DecidableEq L'] {layout : C → L} {layout' : C → L'}
    {live writable out written : C → Prop} (h : Apart layout live writable)
    (h' : Apart layout' live writable) {m : L → V} {m' : L' → V}
    (ha : Agree layout layout' live out written m m') {c : C} (hc : live c) (hw : writable c)
    (v : V) :
    Agree layout layout' live out (fun c' ↦ written c' ∨ c' = c)
      (Function.update m (layout c) v) (Function.update m' (layout' c) v) := by
  intro c' hc' hwritten
  by_cases hcc : c' = c
  · subst hcc
    simp only [Function.update_self]
  · rw [h.update_other hc hw hc' hcc, h'.update_other hc hw hc' hcc]
    exact ha c' hc' fun ho ↦ (hwritten ho).resolve_right hcc

/-- The relocation theorem. -/
theorem Prog.run_agree [DecidableEq L] [DecidableEq L'] {layout : C → L} {layout' : C → L'}
    {live writable out : C → Prop} (h : Apart layout live writable)
    (h' : Apart layout' live writable) (p : Prog C V) {written : C → Prop} {m : L → V}
    {m' : L' → V} (ha : Agree layout layout' live out written m m')
    (hp : p.Respects layout live writable out written m) {c : C} (hc : live c) :
    p.run layout m (layout c) = p.run layout' m' (layout' c) := by
  induction p generalizing written m m' with
  | done => exact ha c hc (hp c)
  | read c₀ k ih =>
      obtain ⟨hlive, hout, hk⟩ := hp
      have heq : m (layout c₀) = m' (layout' c₀) := ha c₀ hlive hout
      simp only [Prog.run]
      rw [← heq]
      exact ih _ ha hk
  | write c₀ v k ih =>
      obtain ⟨hlive, hw, hk⟩ := hp
      exact ih (ha.write h h' hlive hw v) hk

/-- A program leaves every location alone at which no writable cell lives. -/
theorem Prog.run_frame [DecidableEq L] {layout : C → L} {live writable out : C → Prop}
    (p : Prog C V) {written : C → Prop} {m : L → V}
    (hp : p.Respects layout live writable out written m) {x : L}
    (hx : ∀ c, live c → writable c → layout c ≠ x) : p.run layout m x = m x := by
  induction p generalizing written m with
  | done => rfl
  | read c k ih => exact ih _ hp.2.2
  | write c v k ih =>
      rw [Prog.run, ih hp.2.2]
      exact Function.update_of_ne (hx c hp.1 hp.2.1).symm v m

end Relocation
