import Torc.Parallel.Fair

/-!
# Levels

How deep the tasks of a program are nested, and what that says about the queues that they go
through.
-/

namespace Torc.Parallel

open Transition
open Cluster (IsWorker)

variable {β : Type}

/-- The children of the body are nested at most `d` deep. -/
def Body.Nests : Body β → Nat → Prop
  | .ret _, _ => True
  | .spawn _ child rest, d => 0 < d ∧ child.Nests (d - 1) ∧ rest.Nests d
  | .waitall rest, d => ∀ vars, (rest vars).Nests d

namespace Tasks

variable {t t' : Tasks β} {root : Body β} {d k me : Nat}

/-- What is left of a body, and what it has been, is nested no deeper than its level leaves room
for. -/
structure Nested (d : Nat) (t : Tasks β) : Prop where
  level : ∀ k < t.issued, ∀ p ∈ (t.desc k).parent, (t.desc k).level = (t.desc p).level + 1
  nonneg : ∀ k < t.issued, 0 ≤ (t.desc k).level
  body : ∀ k < t.issued, ∃ e : Nat, (t.desc k).level + e = d ∧ (t.desc k).body.Nests e
  code : ∀ k < t.issued, ∃ e : Nat, (t.desc k).level + e = d ∧ (t.frame k).code.Nests e

namespace Nested

theorem start (h : root.Nests d) : (Tasks.start root).Nested d where
  level _ _ _ hp := by cases hp
  nonneg _ _ := le_rfl
  body _ _ := ⟨d, zero_add _, h⟩
  code _ _ := ⟨d, zero_add _, h⟩

theorem level_le (h : t.Nested d) (hk : k < t.issued) : (t.desc k).level ≤ d := by
  obtain ⟨e, he, -⟩ := h.code k hk
  omega

/-- The body of task `k` goes on with `f`. -/
theorem setFrame (h : t.Nested d) {f : Frame β}
    (hf : ∀ e, (t.frame k).code.Nests e → f.code.Nests e) : (t.setFrame k f).Nested d where
  level := h.level
  nonneg := h.nonneg
  body := h.body
  code j hj := by
    obtain ⟨e, he, hcode⟩ := h.code j hj
    refine ⟨e, he, ?_⟩
    by_cases hjk : j = k
    · subst hjk
      simpa [Tasks.setFrame] using hf e hcode
    · simpa [Tasks.setFrame, Function.update_of_ne hjk] using hcode

theorem createChild (h : t.Nested d) (hinv : t.Inv root) (hk : k < t.issued) {queue : Option Nat}
    {child rest : Body β} (hcode : (t.frame k).code = .spawn queue child rest) :
    (t.createChild k me child rest).Nested d := by
  obtain ⟨e, he, hnests⟩ := h.code k hk
  rw [hcode] at hnests
  obtain ⟨hpos, hchild, hrest⟩ := hnests
  have hlevel : (t.desc k).level + 1 + (e - 1 : Nat) = d := by omega
  have hold : ∀ j < t.issued, (t.createChild k me child rest).desc j = t.desc j :=
    fun j hj ↦ createChild_desc_of_lt hj
  constructor
  · intro j hj p hp
    rcases Nat.lt_succ_iff_lt_or_eq.mp hj with hlt | rfl
    · rw [hold j hlt] at hp ⊢
      rw [hold p ((hinv.parent_lt j hlt p hp).trans hlt)]
      exact h.level j hlt p hp
    · rw [createChild_desc_new] at hp ⊢
      cases hp
      rw [hold k hk]
  · intro j hj
    rcases Nat.lt_succ_iff_lt_or_eq.mp hj with hlt | rfl
    · rw [hold j hlt]
      exact h.nonneg j hlt
    · rw [createChild_desc_new]
      exact Int.le_add_one (h.nonneg k hk)
  · intro j hj
    rcases Nat.lt_succ_iff_lt_or_eq.mp hj with hlt | rfl
    · rw [hold j hlt]
      exact h.body j hlt
    · rw [createChild_desc_new]
      exact ⟨e - 1, hlevel, hchild⟩
  · intro j hj
    rcases Nat.lt_succ_iff_lt_or_eq.mp hj with hlt | rfl
    · rw [hold j hlt]
      by_cases hjk : j = k
      · subst hjk
        rw [createChild_frame_self hlt]
        exact ⟨e, he, hrest⟩
      · rw [createChild_frame_of_ne hlt.ne hjk]
        exact h.code j hlt
    · rw [createChild_desc_new, createChild_frame_new]
      exact ⟨e - 1, hlevel, hchild⟩

theorem bodyStep (h : t.Nested d) (hinv : t.Inv root) (hk : k < t.issued)
    (hstep : BodyStep t k me t') : t'.Nested d := by
  cases hstep with
  | startSpawn hctl hcode =>
      have hset := h.setFrame (k := k) (f := { t.frame k with pending := true, ctl := .started })
        fun _ ↦ id
      exact ⟨hset.level, hset.nonneg, hset.body, hset.code⟩
  | countChild hctl =>
      have hset := h.setFrame (k := k) (f := { t.frame k with ctl := .counted }) fun _ ↦ id
      exact ⟨hset.level, hset.nonneg, hset.body, hset.code⟩
  | createChild hctl hcode => exact h.createChild hinv hk hcode
  | beginWait hctl hcode =>
      have hset := h.setFrame (k := k) (f := { t.frame k with pending := false, ctl := .blocked })
        fun _ ↦ id
      exact ⟨hset.level, hset.nonneg, hset.body, hset.code⟩
  | endWait hctl hcode hndep =>
      apply h.setFrame
      intro e he
      rw [hcode] at he
      exact he _
  | complete | answer => exact ⟨h.level, h.nonneg, h.body, h.code⟩

theorem step (h : t.Nested d) (hinv : t.Inv root) (hstep : Step t t') : t'.Nested d := by
  cases hstep with
  | body hk hbody =>
      apply h.bodyStep hinv _ hbody
      apply hinv.lt_issued
      rw [hk]
      intro hc
      cases hc
  | execute | complete => exact ⟨h.level, h.nonneg, h.body, h.code⟩

/-- Up to ten levels, a queue holds the children of one level only. -/
theorem rqIndex_level (h : t.Nested d) (hd : d ≤ 10) (hk : k < t.issued) {p : Nat}
    (hp : p < t.issued) (hparent : (t.desc k).parent = some p) :
    (rqIndex (t.desc k).level : Int) = (t.desc p).level := by
  have hlevel := h.level k hk p hparent
  have hle := h.level_le hk
  have hnonneg := h.nonneg p hp
  unfold rqIndex
  split_ifs <;> omega

end Nested

/-! ## Chains of parents -/

/-- The stack is a chain when each body on it is that of a child of the one below. -/
def Chained (t : Tasks β) (stack : List Nat) : Prop :=
  stack.IsChain fun k p ↦ (t.desc k).parent = some p

theorem Nested.level_lt_of_chained (h : t.Nested d) {stack : List Nat} (hchain : t.Chained stack)
    (hborn : ∀ k ∈ stack, k < t.issued) :
    stack.Pairwise fun k p ↦ (t.desc p).level < (t.desc k).level := by
  have htrans : Trans (fun k p : Nat ↦ (t.desc p).level < (t.desc k).level)
      (fun k p : Nat ↦ (t.desc p).level < (t.desc k).level)
      (fun k p : Nat ↦ (t.desc p).level < (t.desc k).level) :=
    ⟨fun hab hbc ↦ Int.lt_trans hbc hab⟩
  apply List.isChain_iff_pairwise.mp
  apply hchain.imp_of_mem_imp
  intro k p hk _ hparent
  have hlevel := h.level k (hborn k hk) p hparent
  omega

/-- The levels along a chain differ by one. -/
theorem Nested.length_le (h : t.Nested d) {k : Nat} {stack : List Nat}
    (hchain : t.Chained (k :: stack)) (hborn : ∀ j ∈ k :: stack, j < t.issued) :
    (stack.length : Int) ≤ (t.desc k).level := by
  induction stack generalizing k with
  | nil => exact h.nonneg k (hborn k List.mem_cons_self)
  | cons p stack ih =>
      obtain ⟨hparent, hrest⟩ := List.isChain_cons_cons.mp hchain
      have hle := ih hrest fun j hj ↦ hborn j (List.mem_cons_of_mem k hj)
      have hlevel := h.level k (hborn k List.mem_cons_self) p hparent
      rw [List.length_cons]
      omega

end Tasks

end Torc.Parallel
