import Mathlib.Logic.Function.Basic
import Mathlib.Data.List.Nodup

/-!
# Doubly linked lists

Nodes with a link in both directions, and the lists that a pair of end pointers stands for.  What is
said of one end holds of the other in the mirrored memory.
-/

namespace DoublyLinked

/-- The link fields of all nodes. -/
structure Links (A : Type*) where
  next : A → Option A
  prev : A → Option A

variable {A : Type*}

def Links.mirror (m : Links A) : Links A :=
  ⟨m.prev, m.next⟩

section

variable [DecidableEq A]

def Links.setNext (m : Links A) (a : A) (x : Option A) : Links A :=
  { m with next := Function.update m.next a x }

def Links.setPrev (m : Links A) (a : A) (x : Option A) : Links A :=
  { m with prev := Function.update m.prev a x }

end

/-- The nodes of `l` are linked in this order, between `p` and `n`. -/
def Linked (m : Links A) : Option A → List A → Option A → Prop
  | _, [], _ => True
  | p, a :: l, n => m.prev a = p ∧ m.next a = l.head?.or n ∧ Linked m (some a) l n

/-- The end pointers `head` and `tail` stand for `l`. -/
structure Represents (m : Links A) (head tail : Option A) (l : List A) : Prop where
  head : head = l.head?
  tail : tail = l.getLast?
  linked : Linked m none l none
  nodup : l.Nodup

/-- The walk along `f` from a pointer meets these nodes and ends at a null pointer. -/
inductive Visits (f : A → Option A) : Option A → List A → Prop
  | stop : Visits f none []
  | visit {a : A} {l : List A} (h : Visits f (f a) l) : Visits f (some a) (a :: l)

variable {m m' : Links A} {p n head tail : Option A} {l l' : List A} {a e : A}

/-- Only the links of the nodes of `l` matter. -/
theorem Linked.congr (h : Linked m p l n)
    (hsame : ∀ a ∈ l, m'.prev a = m.prev a ∧ m'.next a = m.next a) : Linked m' p l n := by
  induction l generalizing p with
  | nil => trivial
  | cons a l ih =>
      obtain ⟨hprev, hnext, hrest⟩ := h
      have ha := hsame a List.mem_cons_self
      exact ⟨ha.1.trans hprev, ha.2.trans hnext,
        ih hrest fun b hb ↦ hsame b (List.mem_cons_of_mem _ hb)⟩

theorem linked_append : Linked m p (l ++ l') n ↔
    Linked m p l (l'.head?.or n) ∧ Linked m (l.getLast?.or p) l' n := by
  induction l generalizing p with
  | nil => simp [Linked]
  | cons a l ih =>
      have hlast : (a :: l).getLast?.or p = l.getLast?.or (some a) := by
        rw [List.getLast?_cons]
        cases l.getLast? <;> rfl
      have hhead : (l ++ l').head?.or n = l.head?.or (l'.head?.or n) := by
        rw [List.head?_append, Option.or_assoc]
      rw [List.cons_append, Linked, Linked, ih, hlast, hhead]
      simp only [and_assoc]

/-- Read from the other end, the list is reversed. -/
theorem Linked.mirror (h : Linked m p l n) : Linked m.mirror n l.reverse p := by
  induction l generalizing p with
  | nil => trivial
  | cons a l ih =>
      obtain ⟨hprev, hnext, hrest⟩ := h
      rw [List.reverse_cons, linked_append]
      refine ⟨ih hrest, ?_, hprev, trivial⟩
      rw [List.getLast?_reverse]
      exact hnext

theorem Represents.mirror (h : Represents m head tail l) :
    Represents m.mirror tail head l.reverse where
  head := by rw [List.head?_reverse, h.tail]
  tail := by rw [List.getLast?_reverse, h.head]
  linked := h.linked.mirror
  nodup := List.nodup_reverse.mpr h.nodup

theorem represents_mirror :
    Represents m.mirror tail head l.reverse ↔ Represents m head tail l := by
  constructor
  · intro h
    have hback := h.mirror
    rw [List.reverse_reverse] at hback
    exact hback
  · exact Represents.mirror

theorem Represents.congr (h : Represents m head tail l)
    (hsame : ∀ a ∈ l, m'.prev a = m.prev a ∧ m'.next a = m.next a) :
    Represents m' head tail l :=
  ⟨h.head, h.tail, h.linked.congr hsame, h.nodup⟩

theorem represents_nil : Represents m none none [] :=
  ⟨rfl, rfl, trivial, List.nodup_nil⟩

/-! ## Walks -/

theorem Linked.visits (h : Linked m p l none) : Visits m.next l.head? l := by
  induction l generalizing p with
  | nil => exact .stop
  | cons a l ih =>
      obtain ⟨-, hnext, hrest⟩ := h
      rw [Option.or_none] at hnext
      refine .visit ?_
      rw [hnext]
      exact ih hrest

theorem Represents.visits (h : Represents m head tail l) : Visits m.next head l := by
  rw [h.head]
  exact h.linked.visits

theorem Represents.visits_prev (h : Represents m head tail l) :
    Visits m.prev tail l.reverse :=
  h.mirror.visits

theorem Represents.head_eq_none (h : Represents m head tail l) : head = none ↔ l = [] := by
  rw [h.head, List.head?_eq_none_iff]

theorem Represents.tail_eq_none (h : Represents m head tail l) : tail = none ↔ l = [] := by
  rw [h.tail, List.getLast?_eq_none_iff]

/-! ## The first node -/

/-- A node in front of an empty list. -/
theorem Represents.single (hprev : m.prev e = none) (hnext : m.next e = none) :
    Represents m (some e) (some e) [e] :=
  ⟨rfl, rfl, ⟨hprev, hnext, trivial⟩, List.nodup_singleton e⟩

section

variable [DecidableEq A]

/-- A node in front of `a`, which is linked back to it. -/
theorem Represents.push (h : Represents m (some a) tail (a :: l)) (he : e ∉ a :: l) :
    Represents (((m.setPrev e none).setNext e (some a)).setPrev a (some e)) (some e) tail
      (e :: a :: l) := by
  have hea : e ≠ a := fun hc ↦ he (hc ▸ List.mem_cons_self)
  obtain ⟨-, hnext, hrest⟩ := h.linked
  obtain ⟨hal, -⟩ := List.nodup_cons.mp h.nodup
  refine ⟨rfl, ?_, ⟨?_, ?_, ?_, ?_, ?_⟩, List.nodup_cons.mpr ⟨he, h.nodup⟩⟩
  · rw [h.tail, List.getLast?_cons_cons]
  · show Function.update (Function.update m.prev e none) a (some e) e = none
    rw [Function.update_of_ne hea, Function.update_self]
  · exact Function.update_self ..
  · exact Function.update_self ..
  · show Function.update m.next e (some a) a = _
    rw [Function.update_of_ne hea.symm, hnext]
  · -- the links of the other nodes are as they were
    refine hrest.congr fun b hb ↦ ⟨?_, ?_⟩
    · show Function.update (Function.update m.prev e none) a (some e) b = m.prev b
      rw [Function.update_of_ne, Function.update_of_ne]
      · rintro rfl
        exact he (List.mem_cons_of_mem _ hb)
      · rintro rfl
        exact hal hb
    · show Function.update m.next e (some a) b = m.next b
      rw [Function.update_of_ne]
      rintro rfl
      exact he (List.mem_cons_of_mem _ hb)

/-- The second node becomes the first. -/
theorem Represents.pop (h : Represents m head tail (e :: a :: l)) :
    Represents (m.setPrev a none) (m.next e) tail (a :: l) := by
  obtain ⟨-, hnext, -, hnext', hrest⟩ := h.linked
  obtain ⟨-, hnodup⟩ := List.nodup_cons.mp h.nodup
  refine ⟨?_, ?_, ⟨?_, ?_, ?_⟩, hnodup⟩
  · rw [hnext]
    rfl
  · rw [h.tail, List.getLast?_cons_cons]
  · exact Function.update_self ..
  · exact hnext'
  · refine hrest.congr fun b hb ↦ ⟨?_, rfl⟩
    refine Function.update_of_ne ?_ ..
    rintro rfl
    exact (List.nodup_cons.mp hnodup).1 hb

end

end DoublyLinked
