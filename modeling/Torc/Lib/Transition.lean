import Mathlib.Data.List.ReduceOption
import Mathlib.Logic.Function.Basic

/-!
# Transition systems with partial steps

A system takes one action at a time and an action that is not enabled has no successor.
`ReachableIf ok` are the states of the runs whose actions all satisfy the side condition `ok` in the
state they are taken in; `Reachable` puts no condition on a run.
-/

namespace Transition

structure System (S A : Type*) where
  init : S → Prop
  step : A → S → Option S

namespace System

variable {S A : Type*} {sys : System S A} {ok ok' : A → S → Prop}

inductive ReachableIf (sys : System S A) (ok : A → S → Prop) : S → Prop
  | init {s : S} (h : sys.init s) : ReachableIf sys ok s
  | step {s s' : S} {a : A} (h : ReachableIf sys ok s) (hok : ok a s)
      (hs : sys.step a s = some s') : ReachableIf sys ok s'

def Reachable (sys : System S A) : S → Prop :=
  sys.ReachableIf fun _ _ ↦ True

/-- The invariant rule: what holds initially and is kept by every permitted step holds of every
state of every permitted run. -/
theorem ReachableIf.invariant (Inv : S → Prop) (hinit : ∀ s, sys.init s → Inv s)
    (hstep : ∀ s s' a, Inv s → ok a s → sys.step a s = some s' → Inv s') {s : S}
    (h : sys.ReachableIf ok s) : Inv s := by
  induction h with
  | init h => exact hinit _ h
  | step _ hok hs ih => exact hstep _ _ _ ih hok hs

theorem ReachableIf.mono (hle : ∀ a s, ok a s → ok' a s) {s : S} (h : sys.ReachableIf ok s) :
    sys.ReachableIf ok' s := by
  induction h with
  | init h => exact .init h
  | step _ hok hs ih => exact .step ih (hle _ _ hok) hs

/-- Take the actions of a list one after the other. -/
def run (sys : System S A) : S → List A → Option S
  | s, [] => some s
  | s, a :: as => (sys.step a s).bind fun s' ↦ run sys s' as

theorem run_cons {s s' : S} {a : A} {as : List A} (hs : sys.step a s = some s') :
    sys.run s (a :: as) = sys.run s' as := by
  rw [run, hs, Option.bind_some]

theorem Reachable.run {s s' : S} {as : List A} (h : sys.Reachable s)
    (hrun : sys.run s as = some s') : sys.Reachable s' := by
  induction as generalizing s with
  | nil =>
      cases hrun
      exact h
  | cons a as ih =>
      simp only [System.run] at hrun
      cases hs : sys.step a s with
      | none => simp [hs] at hrun
      | some s₁ =>
          simp only [hs, Option.bind_some] at hrun
          exact ih (.step h trivial hs) hrun

/-- What a run is evaluated to holds of a reachable state. -/
theorem Reachable.eval {α : Type*} {f : S → α} {x : α} {s : S} {as : List A}
    (h : sys.Reachable s) (hend : (sys.run s as).map f = some x) :
    ∃ s', sys.Reachable s' ∧ f s' = x := by
  obtain ⟨s', hrun, hx⟩ := Option.map_eq_some_iff.mp hend
  exact ⟨s', h.run hrun, hx⟩

/-- A measure that every step from an `Inv` state decreases bounds the length of every run. -/
theorem length_run_le (Inv : S → Prop) (μ : S → Nat)
    (hstep : ∀ s s' a, Inv s → sys.step a s = some s' → Inv s' ∧ μ s' < μ s) {s s' : S}
    {as : List A} (hs : Inv s) (hrun : sys.run s as = some s') : as.length + μ s' ≤ μ s := by
  induction as generalizing s with
  | nil =>
      cases hrun
      simp
  | cons a as ih =>
      simp only [System.run] at hrun
      cases ha : sys.step a s with
      | none => simp [ha] at hrun
      | some s₁ =>
          simp only [ha, Option.bind_some] at hrun
          obtain ⟨hs₁, hlt⟩ := hstep s s₁ a hs ha
          have hle := ih hs₁ hrun
          rw [List.length_cons]
          omega

/-- Under such a measure some run cannot be continued. -/
theorem exists_run_to_end (Inv : S → Prop) (μ : S → Nat)
    (hstep : ∀ s s' a, Inv s → sys.step a s = some s' → Inv s' ∧ μ s' < μ s) {s : S}
    (hs : Inv s) : ∃ as s', sys.run s as = some s' ∧ ∀ a, sys.step a s' = none := by
  by_cases hend : ∀ a, sys.step a s = none
  · exact ⟨[], s, rfl, hend⟩
  · obtain ⟨a, ha⟩ := not_forall.mp hend
    obtain ⟨s₁, hs₁⟩ := Option.ne_none_iff_exists'.mp ha
    obtain ⟨hinv, hlt⟩ := hstep s s₁ a hs hs₁
    obtain ⟨as, s', hrun, hend'⟩ := exists_run_to_end Inv μ hstep hinv
    exact ⟨a :: as, s', (run_cons hs₁).trans hrun, hend'⟩
termination_by μ s

/-- From a state of an invariant under which some step is always possible there are runs of every
length. -/
theorem exists_run_of_progress (Inv : S → Prop)
    (hstep : ∀ s, Inv s → ∃ a s', sys.step a s = some s' ∧ Inv s') {s : S} (hs : Inv s)
    (N : Nat) : ∃ as s', as.length = N ∧ sys.run s as = some s' := by
  induction N generalizing s with
  | zero => exact ⟨[], s, rfl, rfl⟩
  | succ N ih =>
      obtain ⟨a, s₁, ha, hs₁⟩ := hstep s hs
      obtain ⟨as, s', hlen, hrun⟩ := ih hs₁
      exact ⟨a :: as, s', by rw [List.length_cons, hlen], (run_cons ha).trans hrun⟩

/-- Take the actions of a list, each only where `ok` permits it. -/
def runIf (sys : System S A) (ok : A → S → Bool) : S → List A → Option S
  | s, [] => some s
  | s, a :: as => if ok a s then (sys.step a s).bind fun s' ↦ runIf sys ok s' as else none

theorem ReachableIf.runIf {c : A → S → Bool} (hc : ∀ a s, c a s = true → ok a s) {s s' : S}
    {as : List A} (h : sys.ReachableIf ok s) (hrun : sys.runIf c s as = some s') :
    sys.ReachableIf ok s' := by
  induction as generalizing s with
  | nil =>
      cases hrun
      exact h
  | cons a as ih =>
      simp only [System.runIf] at hrun
      split at hrun
      · rename_i hok
        cases hs : sys.step a s with
        | none => simp [hs] at hrun
        | some s₁ =>
            simp only [hs, Option.bind_some] at hrun
            exact ih (.step h (hc _ _ hok) hs) hrun
      · cases hrun

theorem ReachableIf.eval {c : A → S → Bool} (hc : ∀ a s, c a s = true → ok a s) {α : Type*}
    {f : S → α} {x : α} {s : S} {as : List A} (h : sys.ReachableIf ok s)
    (hend : (sys.runIf c s as).map f = some x) : ∃ s', sys.ReachableIf ok s' ∧ f s' = x := by
  obtain ⟨s', hrun, hx⟩ := Option.map_eq_some_iff.mp hend
  exact ⟨s', h.runIf hc hrun, hx⟩

/-! ## What can be reached from a state -/

/-- Some run whose actions are all permitted ends in the second state. -/
def LeadsTo (sys : System S A) (c : A → S → Bool) (s s' : S) : Prop :=
  ∃ as, sys.runIf c s as = some s'

theorem LeadsTo.refl (sys : System S A) (c : A → S → Bool) (s : S) : sys.LeadsTo c s s :=
  ⟨[], rfl⟩

theorem LeadsTo.head {c : A → S → Bool} {s s₁ s' : S} {a : A} (hok : c a s = true)
    (hs : sys.step a s = some s₁) (h : sys.LeadsTo c s₁ s') : sys.LeadsTo c s s' := by
  obtain ⟨as, hrun⟩ := h
  refine ⟨a :: as, ?_⟩
  rw [System.runIf, if_pos hok, hs, Option.bind_some]
  exact hrun

theorem LeadsTo.single {c : A → S → Bool} {s s' : S} {a : A} (hok : c a s = true)
    (hs : sys.step a s = some s') : sys.LeadsTo c s s' :=
  (LeadsTo.refl sys c s').head hok hs

theorem LeadsTo.trans {c : A → S → Bool} {s s₁ s' : S} (h : sys.LeadsTo c s s₁)
    (h' : sys.LeadsTo c s₁ s') : sys.LeadsTo c s s' := by
  obtain ⟨as, hrun⟩ := h
  induction as generalizing s with
  | nil =>
      cases hrun
      exact h'
  | cons a as ih =>
      simp only [System.runIf] at hrun
      split at hrun
      case isTrue hok =>
        cases hs : sys.step a s with
        | none => simp [hs] at hrun
        | some s₂ =>
            simp only [hs, Option.bind_some] at hrun
            exact (ih hrun).head hok hs
      case isFalse => cases hrun

/-- Where every state of an invariant leads to the goal or to one with a smaller measure, it leads
to the goal. -/
theorem exists_leadsTo_of_lt (sys : System S A) (c : A → S → Bool) (Inv Goal : S → Prop)
    (μ : S → Nat)
    (hstep : ∀ s, Inv s → ∃ s', sys.LeadsTo c s s' ∧
      (Goal s' ∨ Inv s' ∧ μ s' < μ s)) {s : S}
    (hs : Inv s) : ∃ s', sys.LeadsTo c s s' ∧ Goal s' := by
  obtain ⟨s₁, hlead, hgoal | ⟨hinv, hlt⟩⟩ := hstep s hs
  · exact ⟨s₁, hlead, hgoal⟩
  · obtain ⟨s', hlead', hgoal⟩ := exists_leadsTo_of_lt sys c Inv Goal μ hstep hinv
    exact ⟨s', hlead.trans hlead', hgoal⟩
termination_by μ s

/-! ## Refinement -/

section Refinement

variable {T B : Type*} {abs : System T B} {f : S → T}

/-- Seen through `f`, every action of the run from `s` is one action of `abs` or changes nothing:
`bs` says which. -/
structure Refines (sys : System S A) (abs : System T B) (f : S → T) (s : S) (as : List A)
    (bs : List (Option B)) : Prop where
  length : bs.length = as.length
  run : ∀ n s', sys.run s (as.take n) = some s' →
    abs.run (f s) (bs.take n).reduceOption = some (f s')

theorem Refines.nil (s : S) : sys.Refines abs f s [] [] where
  length := rfl
  run n s' hrun := by
    rw [List.take_nil] at hrun
    cases hrun
    rw [List.take_nil]
    rfl

theorem Refines.cons {s s₁ : S} {a : A} {as : List A} {o : Option B} {bs : List (Option B)}
    (hs : sys.step a s = some s₁)
    (ho : match o with | some b => abs.step b (f s) = some (f s₁) | none => f s₁ = f s)
    (h : sys.Refines abs f s₁ as bs) : sys.Refines abs f s (a :: as) (o :: bs) where
  length := by rw [List.length_cons, List.length_cons, h.length]
  run n s' hrun := by
    cases n with
    | zero =>
        cases hrun
        rfl
    | succ n =>
        rw [List.take_succ_cons, run_cons hs] at hrun
        have hrest := h.run n s' hrun
        rw [List.take_succ_cons]
        cases o with
        | none =>
            rw [List.reduceOption_cons_of_none, ← ho]
            exact hrest
        | some b =>
            rw [List.reduceOption_cons_of_some, run_cons ho]
            exact hrest

/-- Where each step under an invariant is one of `abs` or changes nothing, every run refines. -/
theorem exists_refines (Inv : S → Prop)
    (hstep : ∀ s s' a, Inv s → sys.step a s = some s' →
      Inv s' ∧ (f s' = f s ∨ ∃ b, abs.step b (f s) = some (f s'))) {s s' : S} {as : List A}
    (hs : Inv s) (hrun : sys.run s as = some s') : ∃ bs, sys.Refines abs f s as bs := by
  induction as generalizing s with
  | nil => exact ⟨[], .nil s⟩
  | cons a as ih =>
      simp only [System.run, Option.bind_eq_some_iff] at hrun
      obtain ⟨s₁, ha, hrun⟩ := hrun
      obtain ⟨hs₁, hsame | ⟨b, hb⟩⟩ := hstep s s₁ a hs ha
      · obtain ⟨bs, hbs⟩ := ih hs₁ hrun
        exact ⟨none :: bs, hbs.cons ha hsame⟩
      · obtain ⟨bs, hbs⟩ := ih hs₁ hrun
        exact ⟨some b :: bs, hbs.cons ha hb⟩

end Refinement

end System

end Transition
