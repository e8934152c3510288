import Torc.Lib.DoublyLinked
import Torc.Lib.Transition

/-!
# The queues of `queues.h`

`_enqueue_head`, `_enqueue_tail`, `_dequeue` and `_dequeue_end` on descriptors that carry their own
links.  The part of a macro between `_lock_acquire` and `_lock_release` is one step; the test of
`_dequeue` before it is another.
-/

namespace Torc

open Transition DoublyLinked

section

variable {A : Type*}

structure Ends (A : Type*) where
  head : Option A := none
  tail : Option A := none

def Ends.mirror (q : Ends A) : Ends A :=
  ⟨q.tail, q.head⟩

/-- The queue `q` holds the descriptors of `l`. -/
def Holds (m : Links A) (q : Ends A) (l : List A) : Prop :=
  Represents m q.head q.tail l

/-- The links of all nodes but those of `l` are the same. -/
def Frame (m m' : Links A) (l : List A) : Prop :=
  ∀ b ∉ l, m'.prev b = m.prev b ∧ m'.next b = m.next b

variable {m m' : Links A} {q : Ends A} {l : List A} {e : A}

theorem holds_mirror : Holds m.mirror q.mirror l.reverse ↔ Holds m q l :=
  represents_mirror

theorem Frame.mirror (h : Frame m.mirror m'.mirror l.reverse) : Frame m m' l := by
  intro b hb
  obtain ⟨hnext, hprev⟩ := h b fun hc ↦ hb (List.mem_reverse.mp hc)
  exact ⟨hprev, hnext⟩

variable [DecidableEq A]

/-- The locked part of `_enqueue_head`. -/
def enqueueHead (m : Links A) (q : Ends A) (e : A) : Links A × Ends A :=
  let m := (m.setPrev e none).setNext e q.head
  match q.head with
  | none => (m, ⟨some e, some e⟩)
  -- `head` is what `e->next` is
  | some h => (m.setPrev h (some e), ⟨some e, q.tail⟩)

/-- The locked part of `_enqueue_tail`. -/
def enqueueTail (m : Links A) (q : Ends A) (e : A) : Links A × Ends A :=
  let m := (m.setNext e none).setPrev e q.tail
  match q.tail with
  | none => (m, ⟨some e, some e⟩)
  | some t => (m.setNext t (some e), ⟨q.head, some e⟩)

/-- The locked part of `_dequeue`, which yields `q.head`. -/
def dequeue (m : Links A) (q : Ends A) : Links A × Ends A :=
  match q.head with
  | none => (m, q)
  | some h =>
      match m.next h with
      | none => (m, ⟨none, none⟩)
      | some a => (m.setPrev a none, ⟨some a, q.tail⟩)

/-- The locked part of `_dequeue_end`, which yields `q.tail`. -/
def dequeueEnd (m : Links A) (q : Ends A) : Links A × Ends A :=
  match q.tail with
  | none => (m, q)
  | some t =>
      match m.prev t with
      | none => (m, ⟨none, none⟩)
      | some a => (m.setNext a none, ⟨q.head, some a⟩)

theorem enqueueTail_mirror (m : Links A) (q : Ends A) (e : A) :
    enqueueHead m.mirror q.mirror e =
      ((enqueueTail m q e).1.mirror, (enqueueTail m q e).2.mirror) := by
  unfold enqueueHead enqueueTail
  cases htail : q.tail <;> simp only [Ends.mirror, htail] <;> rfl

theorem dequeueEnd_mirror (m : Links A) (q : Ends A) :
    dequeue m.mirror q.mirror =
      ((dequeueEnd m q).1.mirror, (dequeueEnd m q).2.mirror) := by
  unfold dequeue dequeueEnd
  cases htail : q.tail with
  | none => simp only [Ends.mirror, htail]
  | some t =>
      simp only [Ends.mirror, htail]
      show (match m.prev t with | none => _ | some a => _) = _
      cases m.prev t <;> rfl

theorem enqueueHead_holds (h : Holds m q l) (he : e ∉ l) :
    Holds (enqueueHead m q e).1 (enqueueHead m q e).2 (e :: l) := by
  unfold enqueueHead
  cases l with
  | nil =>
      have hhead : q.head = none := h.head
      simp only [hhead]
      exact .single (Function.update_self ..) (Function.update_self ..)
  | cons a l =>
      have hhead : q.head = some a := h.head
      simp only [hhead]
      unfold Holds at h
      rw [hhead] at h
      exact h.push he

theorem enqueueTail_holds (h : Holds m q l) (he : e ∉ l) :
    Holds (enqueueTail m q e).1 (enqueueTail m q e).2 (l ++ [e]) := by
  have hmirror : Holds m.mirror q.mirror l.reverse := holds_mirror.mpr h
  have hpush := enqueueHead_holds hmirror fun hc ↦ he (List.mem_reverse.mp hc)
  rw [enqueueTail_mirror] at hpush
  rw [← holds_mirror, List.reverse_append]
  exact hpush

theorem dequeue_holds (h : Holds m q l) :
    Holds (dequeue m q).1 (dequeue m q).2 l.tail := by
  unfold dequeue
  cases l with
  | nil =>
      have hhead : q.head = none := h.head
      simp only [hhead]
      exact h
  | cons e l =>
      have hhead : q.head = some e := h.head
      obtain ⟨-, hnext, -⟩ := h.linked
      simp only [hhead]
      cases l with
      | nil =>
          have hnone : m.next e = none := hnext
          simp only [hnone]
          exact represents_nil
      | cons a l =>
          have hsome : m.next e = some a := hnext
          simp only [hsome]
          unfold Holds at h
          have hpop := h.pop
          rw [hsome] at hpop
          exact hpop

theorem dequeueEnd_holds (h : Holds m q l) :
    Holds (dequeueEnd m q).1 (dequeueEnd m q).2 l.dropLast := by
  have hmirror : Holds m.mirror q.mirror l.reverse := holds_mirror.mpr h
  have hpop := dequeue_holds hmirror
  rw [dequeueEnd_mirror] at hpop
  rw [← holds_mirror, ← List.tail_reverse]
  exact hpop

/-! ## Descriptors of other queues -/

theorem enqueueHead_frame (h : Holds m q l) (e : A) :
    Frame m (enqueueHead m q e).1 (e :: l) := by
  intro b hb
  have hbe : b ≠ e := fun hc ↦ hb (hc ▸ List.mem_cons_self)
  unfold enqueueHead
  cases hhead : q.head with
  | none => exact ⟨Function.update_of_ne hbe .., Function.update_of_ne hbe ..⟩
  | some a =>
      have hba : b ≠ a := by
        rintro rfl
        have hmem : b ∈ l := List.mem_of_mem_head? (h.head.symm.trans hhead)
        exact hb (List.mem_cons_of_mem _ hmem)
      refine ⟨?_, Function.update_of_ne hbe ..⟩
      show Function.update (Function.update m.prev e none) a (some e) b = m.prev b
      rw [Function.update_of_ne hba, Function.update_of_ne hbe]

theorem enqueueTail_frame (h : Holds m q l) (e : A) :
    Frame m (enqueueTail m q e).1 (l ++ [e]) := by
  have hframe := enqueueHead_frame (holds_mirror.mpr h) e
  rw [enqueueTail_mirror] at hframe
  apply Frame.mirror
  rw [List.reverse_append]
  exact hframe

theorem dequeue_frame (h : Holds m q l) : Frame m (dequeue m q).1 l := by
  intro b hb
  unfold dequeue
  cases hhead : q.head with
  | none => exact ⟨rfl, rfl⟩
  | some e =>
      cases hnext : m.next e with
      | none =>
          simp only [hnext]
          exact ⟨trivial, trivial⟩
      | some a =>
          simp only [hnext]
          refine ⟨Function.update_of_ne ?_ .., rfl⟩
          rintro rfl
          -- the node after the first one is in the queue
          cases l with
          | nil => exact absurd (h.head.symm.trans hhead) (by simp)
          | cons e' l =>
              obtain rfl : e' = e := Option.some.inj (h.head.symm.trans hhead)
              have hb' : l.head? = some b := by
                rw [← hnext, h.linked.2.1, Option.or_none]
              exact hb (List.mem_cons_of_mem _ (List.mem_of_mem_head? hb'))

theorem dequeueEnd_frame (h : Holds m q l) : Frame m (dequeueEnd m q).1 l := by
  have hframe := dequeue_frame (holds_mirror.mpr h)
  rw [dequeueEnd_mirror] at hframe
  exact hframe.mirror

end

/-! ## Threads -/

/-- What a thread does: a locked section, or the test in front of the one of `_dequeue`.  `write` is
any assignment to the links of a descriptor that is in no queue. -/
inductive QueueAct (T Q A : Type*)
  | enqueueHead (t : T) (q : Q) (e : A)
  | enqueueTail (t : T) (q : Q) (e : A)
  | test (t : T) (q : Q)
  | dequeue (t : T)
  | dequeueEnd (t : T) (q : Q)
  | write (e : A) (next prev : Option A)

/-- The queues of a node; `passed t` is the queue whose test thread `t` has passed. -/
structure QueueState (T Q A : Type*) where
  links : Links A
  ends : Q → Ends A
  passed : T → Option Q

/-- The sequences that the queues stand for. -/
structure Deques (T Q A : Type*) where
  items : Q → List A
  passed : T → Option Q

section

variable {T Q A : Type*} [DecidableEq T] [DecidableEq Q] [DecidableEq A]

def QueueState.set (s : QueueState T Q A) (q : Q) (r : Links A × Ends A) : QueueState T Q A :=
  { s with links := r.1, ends := Function.update s.ends q r.2 }

def queueStep : QueueAct T Q A → QueueState T Q A → Option (QueueState T Q A)
  | .enqueueHead t q e, s =>
      if s.passed t = none then some (s.set q (enqueueHead s.links (s.ends q) e)) else none
  | .enqueueTail t q e, s =>
      if s.passed t = none then some (s.set q (enqueueTail s.links (s.ends q) e)) else none
  | .test t q, s =>
      if s.passed t = none then
        if (s.ends q).head = none then some s
        else some { s with passed := Function.update s.passed t (some q) }
      else none
  | .dequeue t, s => (s.passed t).map fun q ↦
      { s.set q (dequeue s.links (s.ends q)) with passed := Function.update s.passed t none }
  | .dequeueEnd t q, s =>
      if s.passed t = none then some (s.set q (dequeueEnd s.links (s.ends q))) else none
  | .write e next prev, s => some { s with links := (s.links.setNext e next).setPrev e prev }

/-- What the caller has when the macro ends with this step: a descriptor or none; the outer none is
for the steps that do not end a `_dequeue` or `_dequeue_end`. -/
def yields : QueueAct T Q A → QueueState T Q A → Option (Option A)
  | .test _ q, s => if (s.ends q).head = none then some none else none
  | .dequeue t, s => (s.passed t).map fun q ↦ (s.ends q).head
  | .dequeueEnd _ q, s => some (s.ends q).tail
  | _, _ => none

/-- `_queue_init` of all queues; the links of the descriptors hold anything. -/
def queueInit (links : Links A) : QueueState T Q A :=
  { links := links, ends := fun _ ↦ {}, passed := fun _ ↦ none }

def Deques.set (s : Deques T Q A) (q : Q) (l : List A) : Deques T Q A :=
  { s with items := Function.update s.items q l }

/-- Push and pop at both ends. -/
def dequeStep : QueueAct T Q A → Deques T Q A → Option (Deques T Q A)
  | .enqueueHead t q e, s => if s.passed t = none then some (s.set q (e :: s.items q)) else none
  | .enqueueTail t q e, s => if s.passed t = none then some (s.set q (s.items q ++ [e])) else none
  | .test t q, s =>
      if s.passed t = none then
        if s.items q = [] then some s
        else some { s with passed := Function.update s.passed t (some q) }
      else none
  | .dequeue t, s => (s.passed t).map fun q ↦
      { s.set q (s.items q).tail with passed := Function.update s.passed t none }
  | .dequeueEnd t q, s =>
      if s.passed t = none then some (s.set q (s.items q).dropLast) else none
  | .write _ _ _, s => some s

def Deques.yields : QueueAct T Q A → Deques T Q A → Option (Option A)
  | .test _ q, s => if s.items q = [] then some none else none
  | .dequeue t, s => (s.passed t).map fun q ↦ (s.items q).head?
  | .dequeueEnd _ q, s => some (s.items q).getLast?
  | _, _ => none

/-- The queue that a step ends a `_dequeue` or `_dequeue_end` of. -/
def QueueAct.source (passed : T → Option Q) : QueueAct T Q A → Option Q
  | .test _ q | .dequeueEnd _ q => some q
  | .dequeue t => passed t
  | _ => none

/-- The pointers and the sequences side by side. -/
def queueLockstep (links : Links A) :
    System (QueueState T Q A × Deques T Q A) (QueueAct T Q A) where
  init s := s = (queueInit links, ⟨fun _ ↦ [], fun _ ↦ none⟩)
  step act s :=
    (queueStep act s.1).bind fun s₁ ↦ (dequeStep act s.2).map fun s₂ ↦ (s₁, s₂)

/-- A descriptor that is enqueued, or whose links are assigned to, is in no queue. -/
def Loose : QueueAct T Q A → QueueState T Q A × Deques T Q A → Prop
  | .enqueueHead _ _ e, s | .enqueueTail _ _ e, s | .write e _ _, s => ∀ q, e ∉ s.2.items q
  | _, _ => True

/-! ## Refinement -/

structure Refines (s : QueueState T Q A) (a : Deques T Q A) : Prop where
  holds : ∀ q, Holds s.links (s.ends q) (a.items q)
  apart : ∀ q q' b, b ∈ a.items q → b ∈ a.items q' → q = q'
  passed : s.passed = a.passed

variable {links : Links A} {s s' : QueueState T Q A} {a a' : Deques T Q A} {act : QueueAct T Q A}

omit [DecidableEq T] [DecidableEq A] in
/-- A locked section on `q` that touches no links but those of `touched`. -/
theorem Refines.set (h : Refines s a) {q : Q} {r : Links A × Ends A} {l touched : List A}
    (hholds : Holds r.1 r.2 l) (hframe : Frame s.links r.1 touched)
    (htouched : ∀ b ∈ touched, b ∈ a.items q ∨ ∀ q, b ∉ a.items q)
    (hl : ∀ b ∈ l, b ∈ a.items q ∨ ∀ q, b ∉ a.items q) :
    Refines (s.set q r) (a.set q l) := by
  have hitems : ∀ q', q' ≠ q → (a.set q l).items q' = a.items q' :=
    fun q' hq ↦ Function.update_of_ne hq ..
  have hself : (a.set q l).items q = l := Function.update_self ..
  -- what is in another queue is neither in `l` nor touched
  have hother : ∀ q' b, q' ≠ q → b ∈ a.items q' → b ∉ l ∧ b ∉ touched := by
    intro q' b hq hb
    constructor
    · intro hc
      rcases hl b hc with hin | hno
      · exact hq (h.apart q' q b hb hin)
      · exact hno q' hb
    · intro hc
      rcases htouched b hc with hin | hno
      · exact hq (h.apart q' q b hb hin)
      · exact hno q' hb
  refine ⟨fun q' ↦ ?_, fun q₁ q₂ b h₁ h₂ ↦ ?_, h.passed⟩
  · by_cases hq : q' = q
    · subst hq
      show Holds r.1 (Function.update s.ends q' r.2 q') _
      rw [hself, Function.update_self]
      exact hholds
    · show Holds r.1 (Function.update s.ends q r.2 q') _
      rw [hitems q' hq, Function.update_of_ne hq]
      exact (h.holds q').congr fun b hb ↦ hframe b (hother q' b hq hb).2
  · by_cases hq₁ : q₁ = q <;> by_cases hq₂ : q₂ = q
    · rw [hq₁, hq₂]
    · rw [hq₁, hself] at h₁
      rw [hitems q₂ hq₂] at h₂
      exact absurd h₁ (hother q₂ b hq₂ h₂).1
    · rw [hitems q₁ hq₁] at h₁
      rw [hq₂, hself] at h₂
      exact absurd h₂ (hother q₁ b hq₁ h₁).1
    · rw [hitems q₁ hq₁] at h₁
      rw [hitems q₂ hq₂] at h₂
      exact h.apart q₁ q₂ b h₁ h₂

omit [DecidableEq T] [DecidableEq Q] [DecidableEq A] in
theorem Refines.setPassed (h : Refines s a) (passed : T → Option Q) :
    Refines { s with passed := passed } { a with passed := passed } :=
  ⟨h.holds, h.apart, rfl⟩

omit [DecidableEq T] [DecidableEq Q] [DecidableEq A] in
theorem Refines.head_eq_none (h : Refines s a) (q : Q) :
    (s.ends q).head = none ↔ a.items q = [] :=
  Represents.head_eq_none (h.holds q)

theorem Refines.step (h : Refines s a) (hloose : Loose act (s, a))
    (hs : queueStep act s = some s') (ha : dequeStep act a = some a') : Refines s' a' := by
  have hin : ∀ q, ∀ b ∈ a.items q, b ∈ a.items q ∨ ∀ q, b ∉ a.items q :=
    fun _ _ hb ↦ .inl hb
  cases act with
  | enqueueHead t q e =>
      simp only [queueStep, Option.ite_none_right_eq_some, Option.some.injEq] at hs
      simp only [dequeStep, Option.ite_none_right_eq_some, Option.some.injEq] at ha
      obtain ⟨-, rfl⟩ := hs
      obtain ⟨-, rfl⟩ := ha
      have hmem : ∀ b ∈ e :: a.items q, b ∈ a.items q ∨ ∀ q, b ∉ a.items q := by
        intro b hb
        rcases List.mem_cons.mp hb with rfl | hb
        · exact .inr hloose
        · exact .inl hb
      exact h.set (enqueueHead_holds (h.holds q) (hloose q)) (enqueueHead_frame (h.holds q) e)
        hmem hmem
  | enqueueTail t q e =>
      simp only [queueStep, Option.ite_none_right_eq_some, Option.some.injEq] at hs
      simp only [dequeStep, Option.ite_none_right_eq_some, Option.some.injEq] at ha
      obtain ⟨-, rfl⟩ := hs
      obtain ⟨-, rfl⟩ := ha
      have hmem : ∀ b ∈ a.items q ++ [e], b ∈ a.items q ∨ ∀ q, b ∉ a.items q := by
        intro b hb
        rcases List.mem_append.mp hb with hb | hb
        · exact .inl hb
        · rw [List.mem_singleton.mp hb]
          exact .inr hloose
      exact h.set (enqueueTail_holds (h.holds q) (hloose q)) (enqueueTail_frame (h.holds q) e)
        hmem hmem
  | test t q =>
      -- both take the same branch: the queue is empty when its head is null
      simp only [queueStep] at hs
      simp only [dequeStep, ← h.passed, ← h.head_eq_none] at ha
      split at hs
      · rename_i hpassed
        rw [if_pos hpassed] at ha
        split at hs
        · rename_i hempty
          rw [if_pos hempty] at ha
          cases hs
          cases ha
          exact h
        · rename_i hempty
          rw [if_neg hempty] at ha
          cases hs
          cases ha
          exact h.setPassed _
      · cases hs
  | dequeue t =>
      obtain ⟨q, hq, rfl⟩ := Option.map_eq_some_iff.mp hs
      obtain ⟨q', hq', rfl⟩ := Option.map_eq_some_iff.mp ha
      obtain rfl : q = q' := by
        rw [h.passed, hq'] at hq
        exact (Option.some.inj hq).symm
      rw [h.passed]
      have hset := h.set (dequeue_holds (h.holds q)) (dequeue_frame (h.holds q)) (hin q)
        fun b hb ↦ .inl (List.mem_of_mem_tail hb)
      exact hset.setPassed _
  | dequeueEnd t q =>
      simp only [queueStep, Option.ite_none_right_eq_some, Option.some.injEq] at hs
      simp only [dequeStep, Option.ite_none_right_eq_some, Option.some.injEq] at ha
      obtain ⟨-, rfl⟩ := hs
      obtain ⟨-, rfl⟩ := ha
      exact h.set (dequeueEnd_holds (h.holds q)) (dequeueEnd_frame (h.holds q)) (hin q)
        fun b hb ↦ .inl (List.dropLast_subset _ hb)
  | write e next prev =>
      cases hs
      cases ha
      -- no queue has `e`, so no link that a queue follows changes
      refine ⟨fun q ↦ (h.holds q).congr fun b hb ↦ ?_, h.apart, h.passed⟩
      have hbe : b ≠ e := fun hc ↦ hloose q (hc ▸ hb)
      exact ⟨Function.update_of_ne hbe .., Function.update_of_ne hbe ..⟩

omit [DecidableEq T] [DecidableEq Q] [DecidableEq A] in
theorem Refines.yields (h : Refines s a) (act : QueueAct T Q A) :
    yields act s = a.yields act := by
  cases act with
  | test t q =>
      simp only [Torc.yields, Deques.yields, h.head_eq_none]
  | dequeue t =>
      simp only [Torc.yields, Deques.yields, h.passed, (h.holds _).head]
  | dequeueEnd t q =>
      simp only [Torc.yields, Deques.yields, (h.holds q).tail]
  | _ => rfl

omit [DecidableEq T] [DecidableEq Q] [DecidableEq A] in
theorem Deques.empty_of_yields (h : a.yields act = some none) :
    ∃ q, act.source a.passed = some q ∧ a.items q = [] := by
  cases act with
  | test t q =>
      refine ⟨q, rfl, ?_⟩
      by_contra hne
      simp only [Deques.yields, if_neg hne] at h
      cases h
  | dequeue t =>
      obtain ⟨q, hq, hhead⟩ := Option.map_eq_some_iff.mp h
      exact ⟨q, hq, List.head?_eq_none_iff.mp hhead⟩
  | dequeueEnd t q => exact ⟨q, rfl, List.getLast?_eq_none_iff.mp (Option.some.inj h)⟩
  | _ => cases h

theorem Refines.isSome_step (h : Refines s a) (act : QueueAct T Q A) :
    (queueStep act s).isSome = (dequeStep act a).isSome := by
  cases act with
  | test t q =>
      simp only [queueStep, dequeStep, h.passed, h.head_eq_none]
      split
      · split <;> rfl
      · rfl
  | dequeue t => simp only [queueStep, dequeStep, h.passed, Option.isSome_map]
  | write e next prev => rfl
  | _ =>
      simp only [queueStep, dequeStep, h.passed]
      split <;> rfl

/-- The end pointers and the links in both directions show the sequence `l`. -/
structure WellFormed (m : Links A) (q : Ends A) (l : List A) : Prop where
  ends : q.head = none ↔ q.tail = none
  forward : Visits m.next q.head l
  backward : Visits m.prev q.tail l.reverse
  nodup : l.Nodup

omit [DecidableEq A] in
theorem Holds.wellFormed {m : Links A} {q : Ends A} {l : List A} (h : Holds m q l) :
    WellFormed m q l where
  ends := (Represents.head_eq_none h).trans (Represents.tail_eq_none h).symm
  forward := Represents.visits h
  backward := Represents.visits_prev h
  nodup := h.nodup

theorem refines_of_reachable {x : QueueState T Q A × Deques T Q A}
    (h : (queueLockstep links).ReachableIf Loose x) : Refines x.1 x.2 := by
  refine h.invariant (fun x ↦ Refines x.1 x.2) (fun x hx ↦ ?_) fun x x' act hx hloose hs ↦ ?_
  · obtain rfl : x = (queueInit links, ⟨fun _ ↦ [], fun _ ↦ none⟩) := hx
    exact ⟨fun _ ↦ represents_nil, fun _ _ _ hb ↦ absurd hb List.not_mem_nil, rfl⟩
  · obtain ⟨s₁, hs₁, hmap⟩ := Option.bind_eq_some_iff.mp hs
    obtain ⟨a₁, ha₁, rfl⟩ := Option.map_eq_some_iff.mp hmap
    exact hx.step hloose hs₁ ha₁

/-- Whatever the threads do, the queues are well formed and hold the sequences of the abstract
queues, and each step is possible and yields what it does there; nothing is yielded only by an empty
queue. -/
theorem queue_refines_deque (links : Links A) (s : QueueState T Q A) (a : Deques T Q A)
    (h : (queueLockstep links).ReachableIf Loose (s, a)) :
    (∀ q, WellFormed s.links (s.ends q) (a.items q)) ∧
      (∀ q q' b, b ∈ a.items q → b ∈ a.items q' → q = q') ∧
      ∀ act, (queueStep act s).isSome = (dequeStep act a).isSome ∧
        yields act s = a.yields act ∧
        (yields act s = some none → ∃ q, act.source s.passed = some q ∧ a.items q = []) := by
  have href : Refines s a := refines_of_reachable h
  refine ⟨fun q ↦ (href.holds q).wellFormed, href.apart, fun act ↦
    ⟨href.isSome_step act, href.yields act, fun hnone ↦ ?_⟩⟩
  rw [href.yields] at hnone
  rw [href.passed]
  exact Deques.empty_of_yields hnone

end

/-- The links of descriptors that were never in a queue. -/
def strayLinks : Links Nat :=
  ⟨fun a ↦ some (a + 1), fun a ↦ some (a + 2)⟩

/-- Two threads on two queues: the first loses the only descriptor to the second one between its
test and its lock, and the descriptor goes into the other queue. -/
def raceRun : List (QueueAct Nat Bool Nat) :=
  [.enqueueTail 0 true 7, .test 0 true, .dequeueEnd 1 true, .enqueueHead 1 false 5,
    .enqueueTail 1 false 7, .enqueueHead 1 false 9]

def looseCheck : QueueAct Nat Bool Nat → QueueState Nat Bool Nat × Deques Nat Bool Nat → Bool
  | .enqueueHead _ _ e, s | .enqueueTail _ _ e, s | .write e _ _, s =>
      decide (∀ q, e ∉ s.2.items q)
  | _, _ => true

theorem loose_of_check (act : QueueAct Nat Bool Nat)
    (s : QueueState Nat Bool Nat × Deques Nat Bool Nat) (h : looseCheck act s = true) :
    Loose act s := by
  have hcheck : ∀ e, decide (∀ q, e ∉ s.2.items q) = true → ∀ q, e ∉ s.2.items q :=
    fun _ hc ↦ of_decide_eq_true hc
  cases act with
  | enqueueHead t q e => exact hcheck e h
  | enqueueTail t q e => exact hcheck e h
  | write e next prev => exact hcheck e h
  | _ => trivial

theorem queue_refines_deque_sample :
    ∃ s a, (queueLockstep strayLinks).ReachableIf Loose (s, a) ∧ a.items false = [9, 5, 7] ∧
      yields (.dequeue 0) s = some none ∧
      WellFormed s.links (s.ends false) (a.items false) := by
  have hend : ((queueLockstep strayLinks).runIf looseCheck
      (queueInit strayLinks, ⟨fun _ ↦ [], fun _ ↦ none⟩) raceRun).map
        (fun x ↦ (x.2.items false, yields (.dequeue 0) x.1)) = some ([9, 5, 7], some none) := by
    decide
  obtain ⟨⟨s, a⟩, hreach, hs⟩ := System.ReachableIf.eval loose_of_check (.init rfl) hend
  obtain ⟨hitems, hyields⟩ := Prod.mk.inj hs
  exact ⟨s, a, hreach, hitems, hyields, (queue_refines_deque strayLinks s a hreach).1 false⟩

end Torc
