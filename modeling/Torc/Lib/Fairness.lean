import Mathlib.Data.Nat.Init
import Mathlib.Order.Nat
import Mathlib.Tactic.Choose
import Torc.Lib.Transition

/-!
# Fair runs

Every action of an infinite run belongs to a thread or to none.  The run is fair to a thread that
acts again and again unless there is a time from which on it never can.
-/

namespace Transition

variable {S A T : Type*} {sys : System S A}

structure Run (sys : System S A) where
  state : Nat → S
  act : Nat → A
  step : ∀ n, sys.step (act n) (state n) = some (state (n + 1))

/-- The thread has an action that is enabled. -/
def System.CanAct (sys : System S A) (thread : A → Option T) (θ : T) (s : S) : Prop :=
  ∃ a s', thread a = some θ ∧ sys.step a s = some s'

namespace Run

variable {r : Run sys} {thread : A → Option T} {P Q Q' : S → Prop}

/-- Strong fairness to every thread. -/
def Fair (r : Run sys) (thread : A → Option T) : Prop :=
  ∀ θ, (∀ n, ∃ m, n ≤ m ∧ sys.CanAct thread θ (r.state m)) →
    ∀ n, ∃ m, n ≤ m ∧ thread (r.act m) = some θ

/-- Whenever the first holds, the second holds then or later. -/
def Leads (r : Run sys) (P Q : S → Prop) : Prop :=
  ∀ n, P (r.state n) → ∃ m, n ≤ m ∧ Q (r.state m)

theorem reachable (r : Run sys) (h : sys.init (r.state 0)) (n : Nat) :
    sys.Reachable (r.state n) := by
  induction n with
  | zero => exact .init h
  | succ n ih => exact .step ih trivial (r.step n)

/-- The run from time `n` on. -/
def drop (r : Run sys) (n : Nat) : Run sys where
  state m := r.state (n + m)
  act m := r.act (n + m)
  step m := r.step (n + m)

theorem Fair.drop (h : r.Fair thread) (n : Nat) : (r.drop n).Fair thread := by
  intro θ hcan m
  obtain ⟨m', hm', hact⟩ := h θ (fun l ↦ by
    obtain ⟨m', hm', hcan'⟩ := hcan l
    exact ⟨n + m', by omega, hcan'⟩) (n + m)
  refine ⟨m' - n, by omega, ?_⟩
  show thread (r.act (n + (m' - n))) = some θ
  rw [Nat.add_sub_cancel' (by omega)]
  exact hact

theorem Leads.mono (h : r.Leads P Q) (hle : ∀ n, Q (r.state n) → Q' (r.state n)) :
    r.Leads P Q' := by
  intro n hn
  obtain ⟨m, hm, hq⟩ := h n hn
  exact ⟨m, hm, hle m hq⟩

/-- What leads to something impossible never holds. -/
theorem Leads.never (h : r.Leads P Q) (hq : ∀ n, ¬ Q (r.state n)) (n : Nat) :
    ¬ P (r.state n) := by
  intro hn
  obtain ⟨m, -, hm⟩ := h n hn
  exact hq m hm

/-- A measure that no step raises and each step of one thread lowers, for as long as this thread can
always act once more. -/
theorem Fair.leads_of_lt (h : r.Fair thread) (θ : T) (μ : S → Nat)
    (hstep : ∀ n, P (r.state n) → Q (r.state (n + 1)) ∨ P (r.state (n + 1)) ∧
      μ (r.state (n + 1)) ≤ μ (r.state n) ∧
      (thread (r.act n) = some θ → μ (r.state (n + 1)) < μ (r.state n)))
    (hcan : ∀ n, (∀ m, n ≤ m → P (r.state m)) →
      ∃ m, n ≤ m ∧ sys.CanAct thread θ (r.state m)) : r.Leads P Q := by
  intro n hn
  by_contra hnever
  have hno : ∀ m, n ≤ m → ¬ Q (r.state m) := fun m hm hq ↦ hnever ⟨m, hm, hq⟩
  have hkeep : ∀ m, n ≤ m → P (r.state m) := by
    intro m hm
    induction m, hm using Nat.le_induction with
    | base => exact hn
    | succ m hm ih => exact ((hstep m ih).resolve_left (hno (m + 1) (by omega))).1
  have hle : ∀ m, n ≤ m → ∀ l, m ≤ l → μ (r.state l) ≤ μ (r.state m) := by
    intro m hm l hl
    induction l, hl using Nat.le_induction with
    | base => exact le_rfl
    | succ l hl ih =>
        have hsucc := ((hstep l (hkeep l (by omega))).resolve_left (hno (l + 1) (by omega))).2.1
        exact hsucc.trans ih
  have hacts := h θ fun l ↦ by
    obtain ⟨m, hm, hcan'⟩ := hcan (max n l) fun m hm ↦ hkeep m (by omega)
    exact ⟨m, by omega, hcan'⟩
  -- the thread acts more often than the measure can become less
  have hlower : ∀ d m, n ≤ m → μ (r.state m) = d → False := by
    intro d
    induction d using Nat.strongRecOn with
    | ind d ih =>
        intro m hm hd
        obtain ⟨l, hl, hact⟩ := hacts m
        have hlt := ((hstep l (hkeep l (by omega))).resolve_left (hno (l + 1) (by omega))).2.2 hact
        have hbefore := hle m hm l hl
        exact ih (μ (r.state (l + 1))) (by omega) (l + 1) (by omega) rfl
  exact hlower _ n le_rfl rfl

/-- One step of one thread is enough, which the others cannot prevent for ever. -/
theorem Fair.leads (h : r.Fair thread) (θ : T)
    (hstep : ∀ n, P (r.state n) → Q (r.state (n + 1)) ∨
      P (r.state (n + 1)) ∧ thread (r.act n) ≠ some θ)
    (hcan : ∀ n, (∀ m, n ≤ m → P (r.state m)) →
      ∃ m, n ≤ m ∧ sys.CanAct thread θ (r.state m)) : r.Leads P Q := by
  apply h.leads_of_lt θ (fun _ ↦ 0) _ hcan
  intro n hn
  rcases hstep n hn with hq | ⟨hp, hne⟩
  · exact .inl hq
  · exact .inr ⟨hp, le_rfl, fun heq ↦ absurd heq hne⟩

/-- A measure that becomes less again and again until the goal is there. -/
theorem exists_of_lt (r : Run sys) (μ : S → Nat) (Goal : S → Prop)
    (hlt : ∀ n, ¬ Goal (r.state n) → ∃ m, n ≤ m ∧ μ (r.state m) < μ (r.state n)) :
    ∃ n, Goal (r.state n) := by
  have hgoal : ∀ d n, μ (r.state n) = d → ∃ m, Goal (r.state m) := by
    intro d
    induction d using Nat.strongRecOn with
    | ind d ih =>
        intro n hd
        by_cases hn : Goal (r.state n)
        · exact ⟨n, hn⟩
        · obtain ⟨m, -, hm⟩ := hlt n hn
          exact ih (μ (r.state m)) (by omega) m rfl
  exact hgoal _ 0 rfl

/-! ## Runs with a given end -/

/-- One more action in front. -/
def cons (r : Run sys) (s : S) (a : A) (hs : sys.step a s = some (r.state 0)) : Run sys where
  state
    | 0 => s
    | n + 1 => r.state n
  act
    | 0 => a
    | n + 1 => r.act n
  step n := by
    cases n with
    | zero => exact hs
    | succ n => exact r.step n

/-- A sequence of actions each of which can be taken wherever `P` holds, and keeps it. -/
theorem exists_of_forever {s : S} (α : Nat → A) (hs : P s)
    (hstep : ∀ n s, P s → ∃ s', sys.step (α n) s = some s' ∧ P s') :
    ∃ r : Run sys, r.state 0 = s ∧ ∀ n, r.act n = α n ∧ P (r.state n) := by
  choose next hnext using hstep
  let states : Nat → {s // P s} := fun n ↦
    n.rec ⟨s, hs⟩ fun n t ↦ ⟨next n t.1 t.2, (hnext n t.1 t.2).2⟩
  refine ⟨⟨fun n ↦ (states n).1, α, fun n ↦ ?_⟩, rfl,
    fun n ↦ ⟨rfl, (states n).2⟩⟩
  exact (hnext n (states n).1 (states n).2).1

/-- A finite run before such a sequence. -/
theorem exists_of_run {s s' : S} {as : List A} (α : Nat → A) (hrun : sys.run s as = some s')
    (hs : P s') (hstep : ∀ n s, P s → ∃ s', sys.step (α n) s = some s' ∧ P s') :
    ∃ r : Run sys, r.state 0 = s ∧
      ∀ n, r.act (as.length + n) = α n ∧ P (r.state (as.length + n)) := by
  induction as generalizing s with
  | nil =>
      cases hrun
      obtain ⟨r, hstart, hforever⟩ := exists_of_forever α hs hstep
      refine ⟨r, hstart, fun n ↦ ?_⟩
      rw [List.length_nil, Nat.zero_add]
      exact hforever n
  | cons b as ih =>
      simp only [System.run] at hrun
      cases hb : sys.step b s with
      | none => simp [hb] at hrun
      | some s₁ =>
          simp only [hb, Option.bind_some] at hrun
          obtain ⟨r, hstart, hend⟩ := ih hrun
          refine ⟨r.cons s b (hb.trans (congrArg some hstart.symm)), rfl, fun n ↦ ?_⟩
          rw [List.length_cons, Nat.succ_add]
          exact hend n

/-- Each thread acts again and again or, from some time on, cannot act. -/
theorem fair_of_recurring {N : Nat}
    (h : ∀ θ, (∀ n, ∃ m, n ≤ m ∧ thread (r.act m) = some θ) ∨
      ∀ n, N ≤ n → ¬ sys.CanAct thread θ (r.state n)) : r.Fair thread := by
  intro θ hcan
  rcases h θ with hacts | hstop
  · exact hacts
  · obtain ⟨m, hm, hact⟩ := hcan N
    exact absurd hact (hstop m hm)

end Run

end Transition
