import Torc.Waiting.Counting

/-!
# The exits of the waiting loops

One task, its counter and its open children, with the three waits and the routines that count a
child.  A child can complete at any moment on any thread, so what the scheduler loop of the task
executes makes no difference here.
-/

namespace Torc.WaitExit

open ForkJoin (beginWait depsatisfy)
open Waiting (Wait startSpawn pollCtl FrameOk)

/-- In a body, a creation routine, `_torc_block` or `_torc_block2`; or in the loop of
`torc_waitall3`. -/
inductive Place
  | task (ctl : Waiting.Ctl)
  | waitall3
  deriving DecidableEq

/-- `ndep` is indexed by descriptor address; `opened` counts the children that are not completed. -/
structure State where
  ndep : Nat → Int := fun _ ↦ 0
  opened : Nat := 0
  place : Place := .task .running

inductive Act
  | startSpawn
  | torcDepadd
  | childDone
  | startWait (w : Wait)
  | startWaitall3
  | poll
  | schedulerLoop (work : Bool)
  deriving DecidableEq

/-- Where `_torc_block` and `_torc_block2` go on after `_torc_scheduler_loop(1)`; the second looks
at the counter when no work was done. -/
def afterLoop (work : Bool) : Wait → Waiting.Ctl
  | .waitall => .check .waitall
  | .waitall2 => if work then .check .waitall2 else .noWork

/-- One round of a waiting loop. -/
def poll (self : Nat) (s : State) : Option State :=
  match s.place with
  | .task ctl =>
      (pollCtl (s.ndep self) ctl).map fun r ↦
        { s with ndep := Function.update s.ndep self r.1, place := .task r.2 }
  | .waitall3 => some (if s.ndep self = 0 then { s with place := .task .running } else s)

/-- `self` is the address of the task's descriptor. -/
def step (self : Nat) : Act → State → Option State
  | .startSpawn, s =>
      if s.place = .task .running then
        some { s with ndep := startSpawn s.ndep self, place := .task .started }
      else none
  | .torcDepadd, s =>
      if s.place = .task .started then
        some
          { ndep := Waiting.torcDepadd s.ndep self 1
            opened := s.opened + 1
            place := .task .running }
      else none
  | .childDone, s =>
      if 0 < s.opened then
        some { s with ndep := depsatisfy s.ndep (some self), opened := s.opened - 1 }
      else none
  | .startWait w, s =>
      if s.place = .task .running then
        some { s with ndep := beginWait s.ndep self, place := .task (.check w) }
      else none
  | .startWaitall3, s =>
      -- the counter is decremented and not clamped
      if s.place = .task .running then
        some { s with ndep := Waiting.torcDepadd s.ndep self (-1), place := .waitall3 }
      else none
  | .poll, s => poll self s
  | .schedulerLoop work, s =>
      match s.place with
      | .task (.polling w) => some { s with place := .task (afterLoop work w) }
      | _ => none

/-- What the counter has to satisfy for a loop to be left. -/
def exitTest (n : Int) : Place → Prop
  | .task (.check .waitall) | .task (.polling .waitall) => n ≤ 0
  | .task (.check .waitall2) | .task (.polling .waitall2) | .task .locked | .task .noWork => n = 0
  | .waitall3 => n = 0
  | .task _ => True

def CanLeave (self : Nat) (s : State) : Prop :=
  s.opened = 0 → exitTest (s.ndep self) s.place

/-- The counter fits the loop in every state of the history. -/
def ExitTestsHold (self : Nat) (s : State) : List Act → Prop
  | [] => CanLeave self s
  | a :: acts => CanLeave self s ∧ ∀ s', step self a s = some s' → ExitTestsHold self s' acts

/-- Every `torc_waitall3` of the history begins with a positive counter. -/
def CountedWaits (self : Nat) (s : State) : List Act → Prop
  | [] => True
  | a :: acts => ∀ s', step self a s = some s' →
      (a = .startWaitall3 → 0 < s.ndep self) ∧ CountedWaits self s' acts

/-! ## The counter in a history -/

variable {self : Nat} {s s' : State} {a : Act}

/-- `pending` says whether the task has spawned since its last wait began. -/
def Counts (self : Nat) (s : State) (pending : Bool) : Prop :=
  match s.place with
  | .task ctl => FrameOk ⟨0, self, pending, ctl⟩ (s.ndep self) s.opened
  | .waitall3 => pending = false ∧ s.ndep self = s.opened

theorem Counts.canLeave {pending : Bool} (h : Counts self s pending) : CanLeave self s := by
  intro hopened
  unfold Counts at h
  cases hplace : s.place with
  | waitall3 =>
      rw [hplace] at h
      show s.ndep self = 0
      rw [h.2, hopened]
      rfl
  | task ctl =>
      rw [hplace, hopened] at h
      obtain ⟨hn, hok⟩ := h
      -- inside a loop nothing is pending
      have hzero : pending = false → s.ndep self = 0 := by
        rintro rfl
        simpa using hn
      cases ctl with
      | check w =>
          have h0 := hzero hok
          cases w <;> simp only [exitTest] <;> omega
      | polling w =>
          have h0 := hzero hok
          cases w <;> simp only [exitTest] <;> omega
      | locked => exact hzero hok
      | noWork => exact hzero hok
      | _ => trivial

theorem Counts.startSpawn {pending : Bool} (h : Counts self s pending)
    (hplace : s.place = .task .running) :
    Counts self { s with ndep := startSpawn s.ndep self, place := .task .started } true := by
  simp only [Counts, hplace] at h
  have hok := h.startSpawn
  show FrameOk _ (Waiting.startSpawn s.ndep self self) s.opened
  unfold Waiting.startSpawn
  by_cases hzero : s.ndep self = 0
  · rw [if_pos hzero] at hok ⊢
    rw [Function.update_self]
    exact hok
  · rw [if_neg hzero] at hok ⊢
    exact hok

theorem Counts.torcDepadd {pending : Bool} (h : Counts self s pending)
    (hplace : s.place = .task .started) :
    Counts self ⟨Waiting.torcDepadd s.ndep self 1, s.opened + 1, .task .running⟩ pending := by
  simp only [Counts, hplace] at h
  obtain ⟨hn, hpending⟩ := h
  refine ⟨?_, fun hp ↦ ?_⟩
  · show Function.update s.ndep self (s.ndep self + 1) self = _
    rw [Function.update_self, hn]
    push_cast
    omega
  · have hpending' : pending = true := hpending
    rw [hpending'] at hp
    cases hp

theorem Counts.childDone {pending : Bool} (h : Counts self s pending) (hopen : 0 < s.opened) :
    Counts self { s with ndep := depsatisfy s.ndep (some self), opened := s.opened - 1 }
      pending := by
  have hndep : depsatisfy s.ndep (some self) self = s.ndep self - 1 := Function.update_self ..
  have hcast : ((s.opened - 1 : Nat) : Int) = s.opened - 1 := by omega
  unfold Counts at h ⊢
  cases hplace : s.place with
  | waitall3 =>
      rw [hplace] at h
      simp only [hndep, hcast, h.2, h.1, and_self]
  | task ctl =>
      rw [hplace] at h
      obtain ⟨hn, hok⟩ := h
      refine ⟨?_, ?_⟩
      · show depsatisfy s.ndep (some self) self = ((s.opened - 1 : Nat) : Int) + _
        rw [hndep, hn, hcast]
        omega
      · -- a task with open children is not about to return
        cases ctl with
        | running =>
            intro hp
            have := hok hp
            show s.opened - 1 = 0
            omega
        | leaving =>
            have := hok.2
            omega
        | _ => exact hok

theorem Counts.startWait {pending : Bool} (h : Counts self s pending)
    (hplace : s.place = .task .running) (w : Wait) :
    Counts self { s with ndep := beginWait s.ndep self, place := .task (.check w) } false := by
  simp only [Counts, hplace] at h
  have hok := h.startWait w
  show FrameOk _ (beginWait s.ndep self self) s.opened
  unfold beginWait
  rw [Function.update_self]
  exact hok

/-- A positive counter has its hidden unit, which `torc_waitall3` takes away. -/
theorem Counts.startWaitall3 {pending : Bool} (h : Counts self s pending)
    (hplace : s.place = .task .running) (hpos : 0 < s.ndep self) :
    Counts self { s with ndep := Waiting.torcDepadd s.ndep self (-1), place := .waitall3 }
      false := by
  simp only [Counts, hplace] at h
  obtain ⟨hn, hok⟩ := h
  refine ⟨rfl, ?_⟩
  show Function.update s.ndep self (s.ndep self + -1) self = s.opened
  rw [Function.update_self]
  cases pending with
  | true =>
      simp only [↓reduceIte] at hn
      omega
  | false =>
      have hzero : s.opened = 0 := hok rfl
      simp only [hzero, Bool.false_eq_true, ↓reduceIte] at hn
      omega

/-- Without one the counter becomes negative, and no child is left to complete. -/
theorem Counts.not_canLeave {pending : Bool} (h : Counts self s pending)
    (hplace : s.place = .task .running) (hpos : ¬ 0 < s.ndep self) :
    ¬ CanLeave self
      { s with ndep := Waiting.torcDepadd s.ndep self (-1), place := .waitall3 } := by
  simp only [Counts, hplace] at h
  obtain ⟨hn, -⟩ := h
  have hopened : s.opened = 0 := by split at hn <;> omega
  intro hleave
  have hexit : Function.update s.ndep self (s.ndep self + -1) self = 0 := hleave hopened
  rw [Function.update_self] at hexit
  omega

theorem Counts.poll {pending : Bool} (h : Counts self s pending) (hs : poll self s = some s') :
    Counts self s' pending := by
  unfold WaitExit.poll at hs
  cases hplace : s.place with
  | waitall3 =>
      simp only [Counts, hplace] at h
      simp only [hplace, Option.some.injEq] at hs
      subst hs
      by_cases hzero : s.ndep self = 0
      · rw [if_pos hzero]
        obtain ⟨rfl, hn⟩ := h
        have hopened : s.opened = 0 := by omega
        refine ⟨?_, fun _ ↦ hopened⟩
        show s.ndep self = s.opened + 0
        omega
      · rw [if_neg hzero]
        simp only [Counts, hplace]
        exact h
  | task ctl =>
      simp only [Counts, hplace] at h
      simp only [hplace, Option.map_eq_some_iff] at hs
      obtain ⟨r, hpoll, rfl⟩ := hs
      show FrameOk _ (Function.update s.ndep self r.1 self) s.opened
      rw [Function.update_self]
      exact h.poll hpoll

theorem Counts.schedulerLoop {pending : Bool} {w : Wait} (h : Counts self s pending)
    (hplace : s.place = .task (.polling w)) (work : Bool) :
    Counts self { s with place := .task (afterLoop work w) } pending := by
  simp only [Counts, hplace] at h
  refine ⟨h.1, ?_⟩
  cases w with
  | waitall => exact h.2
  | waitall2 => cases work <;> exact h.2

/-- The counter stays right as long as `torc_waitall3` begins with a positive one. -/
theorem Counts.step {pending : Bool} (h : Counts self s pending)
    (hcond : a = .startWaitall3 → 0 < s.ndep self) (hs : step self a s = some s') :
    ∃ pending', Counts self s' pending' := by
  cases a with
  | startSpawn =>
      obtain ⟨hplace, heq⟩ := Option.ite_none_right_eq_some.mp hs
      cases heq
      exact ⟨true, h.startSpawn hplace⟩
  | torcDepadd =>
      obtain ⟨hplace, heq⟩ := Option.ite_none_right_eq_some.mp hs
      cases heq
      exact ⟨pending, h.torcDepadd hplace⟩
  | childDone =>
      obtain ⟨hopen, heq⟩ := Option.ite_none_right_eq_some.mp hs
      cases heq
      exact ⟨pending, h.childDone hopen⟩
  | startWait w =>
      obtain ⟨hplace, heq⟩ := Option.ite_none_right_eq_some.mp hs
      cases heq
      exact ⟨false, h.startWait hplace w⟩
  | startWaitall3 =>
      obtain ⟨hplace, heq⟩ := Option.ite_none_right_eq_some.mp hs
      cases heq
      exact ⟨false, h.startWaitall3 hplace (hcond rfl)⟩
  | poll => exact ⟨pending, h.poll hs⟩
  | schedulerLoop work =>
      simp only [WaitExit.step] at hs
      split at hs
      · rename_i w hplace
        cases hs
        exact ⟨pending, h.schedulerLoop hplace work⟩
      · cases hs

theorem Counts.countedWaits_iff {pending : Bool} (h : Counts self s pending) (acts : List Act) :
    ExitTestsHold self s acts ↔ CountedWaits self s acts := by
  induction acts generalizing s pending with
  | nil => exact ⟨fun _ ↦ trivial, fun _ ↦ h.canLeave⟩
  | cons a acts ih =>
      simp only [ExitTestsHold, CountedWaits]
      constructor
      · rintro ⟨-, hrest⟩ s' hs
        have hcond : a = .startWaitall3 → 0 < s.ndep self := by
          rintro rfl
          by_contra hpos
          obtain ⟨hplace, heq⟩ := Option.ite_none_right_eq_some.mp hs
          have hnext := hrest s' hs
          cases heq
          refine h.not_canLeave hplace hpos ?_
          cases acts with
          | nil => exact hnext
          | cons _ _ => exact hnext.1
        obtain ⟨pending', h'⟩ := h.step hcond hs
        exact ⟨hcond, (ih h').mp (hrest s' hs)⟩
      · intro hrest
        refine ⟨h.canLeave, fun s' hs ↦ ?_⟩
        obtain ⟨hcond, hwaits⟩ := hrest s' hs
        obtain ⟨pending', h'⟩ := h.step hcond hs
        exact (ih h').mpr hwaits

/-- A history never finds a loop that it cannot leave exactly when each `torc_waitall3` of it begins
with something counted. -/
theorem exitTestsHold_iff (self : Nat) (acts : List Act) :
    ExitTestsHold self {} acts ↔ CountedWaits self {} acts := by
  have hstart : Counts self {} false := ⟨rfl, fun _ ↦ rfl⟩
  exact hstart.countedWaits_iff acts

/-- `torc_waitall3` in a task that has spawned nothing: the counter is -1 and stays so. -/
theorem not_exitTestsHold :
    ¬ ExitTestsHold 0 {} [.startWaitall3] ∧
      ∃ s, step 0 .startWaitall3 {} = some s ∧ s.ndep 0 = -1 ∧ s.opened = 0 ∧
        step 0 .poll s = some s := by
  refine ⟨fun h ↦ ?_, _, rfl, rfl, rfl, rfl⟩
  have hexit : (-1 : Int) = 0 := (h.2 _ rfl) rfl
  cases hexit

end Torc.WaitExit
