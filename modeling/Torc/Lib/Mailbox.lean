import Mathlib.Data.List.Basic

/-!
# Messages in flight

A list of messages in the order in which they were sent.  A receive from a channel takes the oldest
message of that channel, so that the messages of one channel do not overtake each other.
-/

namespace Mailbox

variable {C A : Type*} [DecidableEq C]

structure Letter (C A : Type*) where
  chan : C
  content : A

/-- The oldest message of channel `c`, and the others. -/
def take (c : C) : List (Letter C A) → Option (A × List (Letter C A))
  | [] => none
  | m :: net =>
      if m.chan = c then some (m.content, net)
      else (take c net).map fun (x, rest) ↦ (x, m :: rest)

theorem take_cons_self (m : Letter C A) (net : List (Letter C A)) :
    take m.chan (m :: net) = some (m.content, net) :=
  if_pos rfl

/-- The messages before the one that is taken are those of other channels. -/
theorem take_split {c : C} {net rest : List (Letter C A)} {x : A}
    (h : take c net = some (x, rest)) :
    ∃ l l', net = l ++ ⟨c, x⟩ :: l' ∧ rest = l ++ l' ∧ ∀ m ∈ l, m.chan ≠ c := by
  induction net generalizing rest with
  | nil => cases h
  | cons m net ih =>
      rw [take] at h
      by_cases hm : m.chan = c
      · rw [if_pos hm] at h
        cases h
        subst hm
        exact ⟨[], net, rfl, rfl, nofun⟩
      · rw [if_neg hm] at h
        obtain ⟨⟨y, rest'⟩, htake, heq⟩ := Option.map_eq_some_iff.mp h
        cases heq
        obtain ⟨l, l', hnet, hrest, hl⟩ := ih htake
        refine ⟨m :: l, l', by rw [hnet]; rfl, by rw [hrest]; rfl, ?_⟩
        intro m' hm'
        rcases List.mem_cons.mp hm' with rfl | hmem
        · exact hm
        · exact hl m' hmem

theorem mem_of_take {c : C} {net rest : List (Letter C A)} {x : A}
    (h : take c net = some (x, rest)) : ⟨c, x⟩ ∈ net := by
  obtain ⟨l, l', rfl, -⟩ := take_split h
  exact List.mem_append_right _ List.mem_cons_self

theorem mem_of_mem_rest {c : C} {net rest : List (Letter C A)} {x : A}
    (h : take c net = some (x, rest)) {m : Letter C A} (hm : m ∈ rest) : m ∈ net := by
  obtain ⟨l, l', rfl, rfl, -⟩ := take_split h
  rcases List.mem_append.mp hm with hl | hl
  · exact List.mem_append_left _ hl
  · exact List.mem_append_right _ (List.mem_cons_of_mem _ hl)

/-! ## One channel -/

/-- The contents of the messages of one channel, the oldest first. -/
def queue (c : C) (net : List (Letter C A)) : List A :=
  (net.filter (·.chan = c)).map (·.content)

theorem queue_append (c : C) (net net' : List (Letter C A)) :
    queue c (net ++ net') = queue c net ++ queue c net' := by
  simp [queue]

theorem mem_queue {c : C} {x : A} {net : List (Letter C A)} :
    x ∈ queue c net ↔ ⟨c, x⟩ ∈ net := by
  constructor
  · intro hx
    obtain ⟨⟨c', y⟩, hm, rfl⟩ := List.mem_map.mp hx
    obtain ⟨hmem, hc⟩ := List.mem_filter.mp hm
    obtain rfl := of_decide_eq_true hc
    exact hmem
  · intro hm
    exact List.mem_map.mpr ⟨⟨c, x⟩, List.mem_filter.mpr ⟨hm, decide_eq_true rfl⟩, rfl⟩

theorem queue_eq_cons_of_take {c : C} {net rest : List (Letter C A)} {x : A}
    (h : take c net = some (x, rest)) : queue c net = x :: queue c rest := by
  obtain ⟨l, l', rfl, rfl, hl⟩ := take_split h
  have hnone : queue c l = [] := by
    rw [queue, List.map_eq_nil_iff, List.filter_eq_nil_iff]
    exact fun m hm hc ↦ hl m hm (of_decide_eq_true hc)
  rw [queue_append, queue_append, hnone]
  simp [queue]

theorem queue_take_of_ne {c c' : C} {net rest : List (Letter C A)} {x : A}
    (h : take c net = some (x, rest)) (hne : c ≠ c') : queue c' rest = queue c' net := by
  obtain ⟨l, l', rfl, rfl, -⟩ := take_split h
  rw [queue_append, queue_append]
  simp [queue, hne]

theorem exists_take {c : C} {net : List (Letter C A)} {x : A} {l : List A}
    (h : queue c net = x :: l) : ∃ rest, take c net = some (x, rest) := by
  induction net with
  | nil => cases h
  | cons m net ih =>
      by_cases hm : m.chan = c
      · have hcons : queue c (m :: net) = m.content :: queue c net := by
          simp [queue, hm]
        rw [hcons] at h
        obtain ⟨rfl, -⟩ := List.cons.inj h
        exact ⟨net, if_pos hm⟩
      · have hskip : queue c (m :: net) = queue c net := by
          simp [queue, hm]
        rw [hskip] at h
        obtain ⟨rest, hrest⟩ := ih h
        refine ⟨m :: rest, ?_⟩
        rw [take, if_neg hm, hrest]
        rfl

end Mailbox
