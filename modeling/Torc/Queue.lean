import Mathlib.Logic.Function.Basic
import Mathlib.Data.List.Basic
import Mathlib.Data.List.Nodup
import Mathlib.Tactic.IntervalCases

/-!
# The ready queues of a node

`private_grq` and the ten queues `public_grq`, head first.  The locked part of each queue operation
is one step.
-/

namespace Torc

structure Queues (T : Type) where
  privateGrq : List T := []
  publicGrq : Nat → List T := fun _ ↦ []

/-- The public queue for a task of this level. -/
def rqIndex (level : Int) : Nat :=
  if level ≤ 1 then 0 else if 11 ≤ level then 9 else (level - 1).toNat

theorem rqIndex_lt (level : Int) : rqIndex level < 10 := by
  unfold rqIndex
  split
  · decide
  · split
    · decide
    · omega

namespace Queues

variable {T : Type}

def setPublic (q : Queues T) (i : Nat) (l : List T) : Queues T :=
  { q with publicGrq := Function.update q.publicGrq i l }

@[simp] theorem setPublic_self (q : Queues T) (i : Nat) (l : List T) :
    (q.setPublic i l).publicGrq i = l := by
  show Function.update q.publicGrq i l i = l
  rw [Function.update_self]

def torcToIPq (q : Queues T) (t : T) : Queues T :=
  { q with privateGrq := t :: q.privateGrq }

def torcToIPqEnd (q : Queues T) (t : T) : Queues T :=
  { q with privateGrq := q.privateGrq ++ [t] }

def torcIPqDequeue (q : Queues T) : Option (T × Queues T) :=
  match q.privateGrq with
  | [] => none
  | t :: rest => some (t, { q with privateGrq := rest })

def torcToIRq (q : Queues T) (level : Int) (t : T) : Queues T :=
  q.setPublic (rqIndex level) (t :: q.publicGrq (rqIndex level))

def torcToIRqEnd (q : Queues T) (level : Int) (t : T) : Queues T :=
  q.setPublic (rqIndex level) (q.publicGrq (rqIndex level) ++ [t])

def torcIRqDequeue (q : Queues T) (i : Nat) : Option (T × Queues T) :=
  match q.publicGrq i with
  | [] => none
  | t :: rest => some (t, q.setPublic i rest)

/-- The four insertions, as the nested branches of the server choose them. -/
def insertAt (q : Queues T) (insertPrivate insertInFront : Bool) (level : Int) (t : T) : Queues T :=
  if insertPrivate then
    if insertInFront then q.torcToIPq t else q.torcToIPqEnd t
  else
    if insertInFront then q.torcToIRq level t else q.torcToIRqEnd level t

/-- The loop over public queues of `get_next_task` and of the steal handler. -/
def firstOf (q : Queues T) : List Nat → Option (T × Queues T)
  | [] => none
  | i :: is =>
      match q.torcIRqDequeue i with
      | some r => some r
      | none => firstOf q is

/-- `get_next_task` as far as the queues of the node go: the private one, then the public ones from
the deepest level up. -/
def nextLocal (q : Queues T) : Option (T × Queues T) :=
  match q.torcIPqDequeue with
  | some r => some r
  | none => q.firstOf [9, 8, 7, 6, 5, 4, 3, 2, 1, 0]

/-- All queued tasks. -/
def tasks (q : Queues T) : List T :=
  q.privateGrq ++ (List.range 10).flatMap q.publicGrq

/-! ## What the operations do to the queued tasks -/

/-- Changing one list of a family by one element changes the concatenation by that element. -/
theorem flatMap_update_perm {f : Nat → List T} {l : List T} {t : T} {is : List Nat}
    (hnodup : is.Nodup) {i : Nat} (hi : i ∈ is) (hl : l.Perm (t :: f i)) :
    (is.flatMap (Function.update f i l)).Perm (t :: is.flatMap f) := by
  induction is with
  | nil => cases hi
  | cons j is ih =>
      rw [List.flatMap_cons, List.flatMap_cons]
      rw [List.nodup_cons] at hnodup
      by_cases hj : j = i
      · -- the changed list is the first one, and no other
        subst hj
        have hrest : is.flatMap (Function.update f j l) = is.flatMap f := by
          apply List.flatMap_congr
          intro k hk
          apply Function.update_of_ne
          rintro rfl
          exact hnodup.1 hk
        rw [hrest, Function.update_self]
        exact hl.append_right _
      · have hi' : i ∈ is := (List.mem_cons.mp hi).resolve_left fun h ↦ hj h.symm
        rw [Function.update_of_ne hj]
        exact ((ih hnodup.2 hi').append_left (f j)).trans List.perm_middle

theorem tasks_setPublic_perm {q : Queues T} {i : Nat} (hi : i < 10) {l : List T} {t : T}
    (hl : l.Perm (t :: q.publicGrq i)) : (q.setPublic i l).tasks.Perm (t :: q.tasks) := by
  have hp := flatMap_update_perm List.nodup_range (List.mem_range.mpr hi) hl
  exact (hp.append_left q.privateGrq).trans List.perm_middle

theorem torcToIPq_tasks (q : Queues T) (t : T) : (q.torcToIPq t).tasks.Perm (t :: q.tasks) :=
  List.Perm.refl _

theorem torcToIPqEnd_tasks (q : Queues T) (t : T) :
    (q.torcToIPqEnd t).tasks.Perm (t :: q.tasks) := by
  show ((q.privateGrq ++ [t]) ++ _).Perm (t :: (q.privateGrq ++ _))
  rw [List.append_assoc]
  exact List.perm_middle

theorem torcToIRq_tasks (q : Queues T) (level : Int) (t : T) :
    (q.torcToIRq level t).tasks.Perm (t :: q.tasks) :=
  tasks_setPublic_perm (rqIndex_lt level) (List.Perm.refl _)

theorem torcToIRqEnd_tasks (q : Queues T) (level : Int) (t : T) :
    (q.torcToIRqEnd level t).tasks.Perm (t :: q.tasks) := by
  apply tasks_setPublic_perm (rqIndex_lt level)
  exact List.perm_append_singleton t _

theorem insertAt_tasks (q : Queues T) (insertPrivate insertInFront : Bool) (level : Int) (t : T) :
    (q.insertAt insertPrivate insertInFront level t).tasks.Perm (t :: q.tasks) := by
  cases insertPrivate <;> cases insertInFront
  · exact q.torcToIRqEnd_tasks level t
  · exact q.torcToIRq_tasks level t
  · exact q.torcToIPqEnd_tasks t
  · exact q.torcToIPq_tasks t

theorem torcIPqDequeue_tasks {q q' : Queues T} {t : T} (h : q.torcIPqDequeue = some (t, q')) :
    q.tasks = t :: q'.tasks := by
  unfold torcIPqDequeue at h
  split at h
  · cases h
  · rename_i hq
    cases h
    unfold tasks
    rw [hq]
    rfl

theorem torcIRqDequeue_tasks {q q' : Queues T} {i : Nat} (hi : i < 10) {t : T}
    (h : q.torcIRqDequeue i = some (t, q')) : q.tasks.Perm (t :: q'.tasks) := by
  unfold torcIRqDequeue at h
  split at h
  · cases h
  · rename_i rest hq
    cases h
    -- putting the task back gives the old queues
    have hback : (q.setPublic i rest).setPublic i (t :: rest) = q := by
      unfold setPublic
      rw [Function.update_idem, ← hq, Function.update_eq_self]
    have hperm : (t :: rest).Perm (t :: (q.setPublic i rest).publicGrq i) := by
      rw [setPublic_self]
    have hp := tasks_setPublic_perm hi hperm
    rwa [hback] at hp

theorem firstOf_tasks {q q' : Queues T} {is : List Nat} (his : ∀ i ∈ is, i < 10) {t : T}
    (h : q.firstOf is = some (t, q')) : q.tasks.Perm (t :: q'.tasks) := by
  induction is with
  | nil => cases h
  | cons i is ih =>
      unfold firstOf at h
      split at h
      · rename_i r hr
        cases h
        exact torcIRqDequeue_tasks (his i List.mem_cons_self) hr
      · exact ih (fun j hj ↦ his j (List.mem_cons_of_mem i hj)) h

theorem nextLocal_tasks {q q' : Queues T} {t : T} (h : q.nextLocal = some (t, q')) :
    q.tasks.Perm (t :: q'.tasks) := by
  unfold nextLocal at h
  split at h
  · rename_i r hr
    cases h
    rw [torcIPqDequeue_tasks hr]
  · exact firstOf_tasks (by decide) h

theorem firstOf_eq_none {q : Queues T} {is : List Nat} (h : q.firstOf is = none) {i : Nat}
    (hi : i ∈ is) : q.publicGrq i = [] := by
  induction is with
  | nil => cases hi
  | cons j is ih =>
      unfold firstOf at h
      split at h
      · cases h
      · rename_i hj
        rcases List.mem_cons.mp hi with rfl | hi'
        · unfold torcIRqDequeue at hj
          split at hj
          · assumption
          · cases hj
        · exact ih h hi'

/-- `get_next_task` with nowhere to steal from comes back empty only from empty queues. -/
theorem nextLocal_eq_none {q : Queues T} (h : q.nextLocal = none) :
    q.privateGrq = [] ∧ ∀ i < 10, q.publicGrq i = [] := by
  unfold nextLocal at h
  split at h
  · cases h
  · rename_i hp
    constructor
    · unfold torcIPqDequeue at hp
      split at hp
      · assumption
      · cases hp
    · intro i hi
      apply firstOf_eq_none h
      interval_cases i <;> decide

theorem nextLocal_of_tasks_eq_nil {q : Queues T} (h : q.tasks = []) : q.nextLocal = none := by
  cases hnext : q.nextLocal with
  | none => rfl
  | some r =>
      have hperm : ([] : List T).Perm (r.1 :: r.2.tasks) := by
        rw [← h]
        exact nextLocal_tasks hnext
      exact absurd hperm.nil_eq (List.cons_ne_nil _ _).symm

theorem tasks_eq_nil_iff {q : Queues T} :
    q.tasks = [] ↔ q.privateGrq = [] ∧ ∀ i < 10, q.publicGrq i = [] := by
  unfold tasks
  rw [List.append_eq_nil_iff, List.flatMap_eq_nil_iff]
  simp only [List.mem_range]

/-! ## What holds of all queued tasks -/

section

variable {P : T → Prop} {q q' : Queues T} {t : T}

def All (P : T → Prop) (q : Queues T) : Prop :=
  (∀ t ∈ q.privateGrq, P t) ∧ ∀ i, ∀ t ∈ q.publicGrq i, P t

theorem All.setPublic (h : q.All P) {i : Nat} {l : List T} (hl : ∀ t ∈ l, P t) :
    (q.setPublic i l).All P := by
  refine ⟨h.1, fun j t ht ↦ ?_⟩
  by_cases hj : j = i
  · subst hj
    rw [setPublic_self] at ht
    exact hl t ht
  · have hother : (q.setPublic i l).publicGrq j = q.publicGrq j := Function.update_of_ne hj _ _
    rw [hother] at ht
    exact h.2 j t ht

theorem All.torcToIPq (h : q.All P) (ht : P t) : (q.torcToIPq t).All P :=
  ⟨List.forall_mem_cons.mpr ⟨ht, h.1⟩, h.2⟩

theorem All.torcToIPqEnd (h : q.All P) (ht : P t) : (q.torcToIPqEnd t).All P :=
  ⟨List.forall_mem_append.mpr ⟨h.1, List.forall_mem_singleton.mpr ht⟩, h.2⟩

theorem All.torcToIRq (h : q.All P) (level : Int) (ht : P t) : (q.torcToIRq level t).All P :=
  h.setPublic (List.forall_mem_cons.mpr ⟨ht, h.2 _⟩)

theorem All.torcToIRqEnd (h : q.All P) (level : Int) (ht : P t) :
    (q.torcToIRqEnd level t).All P :=
  h.setPublic (List.forall_mem_append.mpr ⟨h.2 _, List.forall_mem_singleton.mpr ht⟩)

theorem All.torcIPqDequeue (h : q.All P) (hq : q.torcIPqDequeue = some (t, q')) :
    P t ∧ q'.All P := by
  unfold Queues.torcIPqDequeue at hq
  split at hq
  · cases hq
  · rename_i rest hrest
    cases hq
    have hall := h.1
    rw [hrest, List.forall_mem_cons] at hall
    exact ⟨hall.1, hall.2, h.2⟩

theorem All.torcIRqDequeue (h : q.All P) {i : Nat} (hq : q.torcIRqDequeue i = some (t, q')) :
    P t ∧ q'.All P := by
  unfold Queues.torcIRqDequeue at hq
  split at hq
  · cases hq
  · rename_i rest hrest
    cases hq
    have hall := h.2 i
    rw [hrest, List.forall_mem_cons] at hall
    exact ⟨hall.1, h.setPublic hall.2⟩

end

end Queues

end Torc
