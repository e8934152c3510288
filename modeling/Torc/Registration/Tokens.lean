import Torc.Registration.Machine
import Mathlib.Data.List.Perm.Basic

/-!
# One token for every node

While a call of `torc_register_task` is in progress, each node that its loop has reached has one
token of it: a task at the node or on its way there, or an entry in the node's table.
-/

namespace Torc.Registration

variable {workers : List Nat} {internal : Nat → Nat} {s s' : State}

/-- The registrations that wait for node `i`. -/
def tokens (tasks : List Task) (i : Nat) : Nat :=
  tasks.countP fun t ↦ t.call.isSome && t.node == i

def pending (tasks : List Task) : Nat :=
  tasks.countP fun t ↦ t.call.isSome

def entries (table : List Entry) (id : Nat) : Nat :=
  table.countP fun e ↦ e.call == some id

/-- No call is in progress; the tables have `L` entries. -/
structure Idle (n : Nat) (s : State) (L : Nat) : Prop where
  calls : s.calls = []
  task : ∀ t ∈ s.tasks, t.call = none
  answers : s.answers = []
  length : ∀ i < n, (s.table i).length = L

/-- Call `c` is the only one in progress; the tables had `L` entries when it began. -/
structure InProgress (workers : List Nat) (internal : Nat → Nat) (s : State)
    (c : Call) (L : Nat) : Prop where
  calls : s.calls = [c]
  fresh : c.id ∉ s.returned
  id_lt : c.id < s.issued
  next_le : c.next ≤ workers.length
  reaches : ReachesEveryNode workers c.node
  address : ∀ i < workers.length, internal i = internal c.node
  room : L < maxTorcTasks
  task : ∀ t ∈ s.tasks, ∀ id, t.call = some id → id = c.id ∧ t.node < workers.length ∧
    t.desc.work = internal c.node ∧ t.desc.workId = -1
  answer : ∀ id ∈ s.answers, id = c.id
  ndep : c.ndep = pending s.tasks + s.answers.length
  token : ∀ i < workers.length,
    tokens s.tasks i + entries (s.table i) c.id = if i < c.next then 1 else 0
  table : ∀ i < workers.length, ∃ old new, s.table i = old ++ new ∧ old.length = L ∧
    (∀ e ∈ old, e.call ≠ some c.id) ∧ ∀ e ∈ new, e.call = some c.id

structure Inv (workers : List Nat) (internal : Nat → Nat) (s : State) : Prop where
  known : ∀ i < workers.length, ∀ e ∈ s.table i, ∀ id, e.call = some id → id < s.issued
  past : ∀ id ∈ s.returned, id < s.issued
  done : ∀ id ∈ s.returned, Registered workers.length s id
  phase : (∃ L, Idle workers.length s L) ∨ ∃ c L, InProgress workers internal s c L

/-! ## Lists of tasks -/

theorem perm_eraseIdx {α : Type*} {l : List α} {k : Nat} {a : α} (h : l[k]? = some a) :
    l.Perm (a :: l.eraseIdx k) := by
  obtain ⟨hk, rfl⟩ := List.getElem?_eq_some_iff.mp h
  exact (List.getElem_cons_eraseIdx_perm hk).symm

theorem tokens_cons (t : Task) (l : List Task) (i : Nat) :
    tokens (t :: l) i = tokens l i + if t.call.isSome ∧ t.node = i then 1 else 0 := by
  simp only [tokens, List.countP_cons, Bool.and_eq_true, beq_iff_eq]

theorem pending_cons (t : Task) (l : List Task) :
    pending (t :: l) = pending l + if t.call.isSome then 1 else 0 := by
  simp only [pending, List.countP_cons]

theorem tokens_eraseIdx {l : List Task} {k : Nat} {t : Task} (hk : l[k]? = some t) (i : Nat) :
    tokens l i = tokens (l.eraseIdx k) i + if t.call.isSome ∧ t.node = i then 1 else 0 := by
  rw [← tokens_cons]
  exact (perm_eraseIdx hk).countP_eq _

theorem pending_eraseIdx {l : List Task} {k : Nat} {t : Task} (hk : l[k]? = some t) :
    pending l = pending (l.eraseIdx k) + if t.call.isSome then 1 else 0 := by
  rw [← pending_cons]
  exact (perm_eraseIdx hk).countP_eq _

/-- Without registrations there are no tokens. -/
theorem tokens_eq_zero {l : List Task} (h : ∀ t ∈ l, t.call = none) (i : Nat) :
    tokens l i = 0 := by
  rw [tokens, List.countP_eq_zero]
  intro t ht
  rw [h t ht]
  exact Bool.false_ne_true

theorem pending_eq_zero {l : List Task} (h : ∀ t ∈ l, t.call = none) : pending l = 0 := by
  rw [pending, List.countP_eq_zero]
  intro t ht
  rw [h t ht]
  decide

theorem entries_eq_zero {table : List Entry} {id : Nat} (h : ∀ e ∈ table, e.call ≠ some id) :
    entries table id = 0 := by
  rw [entries, List.countP_eq_zero]
  intro e he
  rw [beq_iff_eq]
  exact h e he

theorem entries_eq_length {table : List Entry} {id : Nat} (h : ∀ e ∈ table, e.call = some id) :
    entries table id = table.length := by
  rw [entries, List.countP_eq_length]
  intro e he
  rw [beq_iff_eq]
  exact h e he

/-- In a table of old and new entries the number of new ones is the number of entries of the
call. -/
theorem entries_append {old new : List Entry} {id : Nat} (hold : ∀ e ∈ old, e.call ≠ some id)
    (hnew : ∀ e ∈ new, e.call = some id) : entries (old ++ new) id = new.length := by
  rw [entries, List.countP_append]
  change entries old id + entries new id = new.length
  rw [entries_eq_zero hold, entries_eq_length hnew, Nat.zero_add]

/-- Other entries at the end of a table leave the entry of a call where it is. -/
theorem Registered.append {n id : Nat} (h : Registered n s id)
    (htable : ∀ i < n, ∃ new, s'.table i = s.table i ++ new ∧
      ∀ e ∈ new, e.call ≠ some id) :
    Registered n s' id := by
  obtain ⟨k, hk⟩ := h
  refine ⟨k, fun i hi m ↦ ?_⟩
  obtain ⟨new, heq, hnew⟩ := htable i hi
  rw [← hk i hi m, heq]
  constructor
  · rintro ⟨e, he, hcall⟩
    rcases Nat.lt_or_ge m (s.table i).length with hm | hm
    · rw [List.getElem?_append_left hm] at he
      exact ⟨e, he, hcall⟩
    · rw [List.getElem?_append_right hm] at he
      exact absurd hcall (hnew e (List.mem_of_getElem? he))
  · rintro ⟨e, he, hcall⟩
    rw [List.getElem?_append_left (List.getElem?_eq_some_iff.mp he).1]
    exact ⟨e, he, hcall⟩

end Torc.Registration
