import Torc.Lib.Ledger

/-!
# Tokens that change their label

A ledger whose entries show the label of their token.  A token gets another label only when it
moves, so that no entry shows an old one.
-/

namespace Ledger

variable {P T L : Type*}

/-- `l'` is `l` with the entry `e` at `p`. -/
structure Adds (l l' : P → List (T × L)) (e : T × L) (p : P) : Prop where
  perm : (l' p).Perm (e :: l p)
  others : ∀ r, r ≠ p → l' r = l r

/-- The tokens of the entries. -/
def tokens (l : P → List (T × L)) : P → List T :=
  fun p ↦ (l p).map Prod.fst

variable {l l' mid : P → List (T × L)} {t : T} {a b : L} {p q : P}

theorem Adds.mem (h : Adds l l' (t, a) p) : (t, a) ∈ l' p :=
  h.perm.mem_iff.mpr List.mem_cons_self

/-- What the old ledger has at a place, the new one has there. -/
theorem Adds.mem_of_mem (h : Adds l l' (t, a) p) {r : P} {e : T × L} (he : e ∈ l r) :
    e ∈ l' r := by
  by_cases hr : r = p
  · subst hr
    exact h.perm.mem_iff.mpr (List.mem_cons_of_mem _ he)
  · rwa [h.others r hr]

theorem Adds.eq_or_mem (h : Adds l l' (t, a) p) {r : P} {e : T × L} (he : e ∈ l' r) :
    r = p ∧ e = (t, a) ∨ e ∈ l r := by
  by_cases hr : r = p
  · subst hr
    exact (List.mem_cons.mp (h.perm.mem_iff.mp he)).imp (⟨rfl, ·⟩) id
  · rw [h.others r hr] at he
    exact .inr he

variable [DecidableEq P] [DecidableEq T]

/-- Every issued token is in one entry, which shows its label. -/
structure Labelled (issued : T → Prop) (label : T → L) (l : P → List (T × L)) : Prop where
  located : Located issued (tokens l)
  shows : ∀ p, ∀ e ∈ l p, label e.1 = e.2

variable {issued issued' : T → Prop} {label label' : T → L}

theorem Adds.issues (h : Adds l l' (t, a) p) : Issues (tokens l) (tokens l') t p := by
  apply Issues.of_perm (h.perm.map Prod.fst)
  intro r hr
  exact congrArg (List.map Prod.fst) (h.others r hr)

theorem Adds.takes (h : Adds l l' (t, a) p) : Takes (tokens l') (tokens l) t p := by
  apply Takes.of_perm (h.perm.map Prod.fst)
  intro r hr
  exact (congrArg (List.map Prod.fst) (h.others r hr)).symm

/-- An entry that leaves was the only one of its token. -/
theorem Labelled.ne_of_mem (h : Labelled issued label l) (hout : Adds mid l (t, a) p) {r : P}
    {e : T × L} (he : e ∈ mid r) : e.1 ≠ t := by
  intro heq
  have hleft : Located (fun x ↦ issued x ∧ x ≠ t) (tokens mid) :=
    h.located.retires hout.takes fun _ ↦ Iff.rfl
  have hmem : e.1 ∈ tokens mid r := List.mem_map_of_mem he
  exact (hleft.issued_of_mem hmem).2 heq

/-- A token moves from `p` to `q` and has another label there. -/
theorem Labelled.moves (h : Labelled issued label l) (hout : Adds mid l (t, a) p)
    (hin : Adds mid l' (t, b) q) (hlabel : ∀ x, x ≠ t → label' x = label x)
    (ht : label' t = b) :
    Labelled issued label' l' where
  located := h.located.moves (hout.takes.moves hin.issues)
  shows r e he := by
    rcases hin.eq_or_mem he with ⟨-, rfl⟩ | hmid
    · exact ht
    · rw [hlabel e.1 (h.ne_of_mem hout hmid)]
      exact h.shows r e (hout.mem_of_mem hmid)

theorem Labelled.issues (h : Labelled issued label l) (hin : Adds l l' (t, b) q)
    (hnew : ¬ issued t) (hissued : ∀ x, issued' x ↔ issued x ∨ x = t)
    (hlabel : ∀ x, x ≠ t → label' x = label x) (ht : label' t = b) :
    Labelled issued' label' l' where
  located := h.located.issues hin.issues hnew hissued
  shows r e he := by
    rcases hin.eq_or_mem he with ⟨-, rfl⟩ | hold
    · exact ht
    · have hne : e.1 ≠ t := by
        intro heq
        have hmem : e.1 ∈ tokens l r := List.mem_map_of_mem hold
        exact hnew (heq ▸ h.located.issued_of_mem hmem)
      rw [hlabel e.1 hne]
      exact h.shows r e hold

theorem Labelled.retires (h : Labelled issued label l) (hout : Adds l' l (t, a) p)
    (hissued : ∀ x, issued' x ↔ issued x ∧ x ≠ t)
    (hlabel : ∀ x, x ≠ t → label' x = label x) : Labelled issued' label' l' where
  located := h.located.retires hout.takes hissued
  shows r e he := by
    rw [hlabel e.1 (h.ne_of_mem hout he)]
    exact h.shows r e (hout.mem_of_mem he)

/-- The label of a token says in which entry it is. -/
theorem Labelled.exists_entry (h : Labelled issued label l) (ht : issued t) :
    ∃ p, (t, label t) ∈ l p := by
  obtain ⟨p, hp⟩ := h.located.at_one t ht
  obtain ⟨e, he, rfl⟩ := List.mem_map.mp hp.mem
  refine ⟨p, ?_⟩
  rw [h.shows p e he]
  exact he

theorem Labelled.issued_of_mem (h : Labelled issued label l) {e : T × L} (he : e ∈ l p) :
    issued e.1 :=
  h.located.issued_of_mem (List.mem_map_of_mem he)

end Ledger
