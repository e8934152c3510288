import Mathlib.Data.List.Count

/-!
# Tokens and places

A ledger gives the tokens held at each place.  Steps move one copy of one token, issue a new token
or leave every count alone; each of them keeps every issued token in exactly one place.  A log
that gets a token when it enters a marked place has it once or not at all.
-/

namespace Ledger

variable {P T : Type*} [DecidableEq P] [DecidableEq T]

/-- One copy of `t` leaves `p` and arrives at `q`. -/
def Moves (l l' : P → List T) (t : T) (p q : P) : Prop :=
  ∀ x r, (l' r).count x + (if x = t ∧ r = p then 1 else 0) =
    (l r).count x + if x = t ∧ r = q then 1 else 0

/-- A new token `t` appears at `q`. -/
def Issues (l l' : P → List T) (t : T) (q : P) : Prop :=
  ∀ x r, (l' r).count x = (l r).count x + if x = t ∧ r = q then 1 else 0

def Stays (l l' : P → List T) : Prop :=
  ∀ x r, (l' r).count x = (l r).count x

/-- `t` is at `p`, once, and nowhere else. -/
def OnlyAt (l : P → List T) (t : T) (p : P) : Prop :=
  ∀ r, (l r).count t = if r = p then 1 else 0

/-- Every issued token is in exactly one place and no other token is anywhere. -/
structure Located (issued : T → Prop) (l : P → List T) : Prop where
  at_one : ∀ t, issued t → ∃ p, OnlyAt l t p
  fresh : ∀ t, ¬ issued t → ∀ r, (l r).count t = 0

variable {l l' : P → List T} {t x : T} {p q : P} {issued : T → Prop}

theorem OnlyAt.mem (h : OnlyAt l t p) : t ∈ l p := by
  rw [← List.count_pos_iff, h p, if_pos rfl]
  exact Nat.one_pos

theorem OnlyAt.eq_of_mem (h : OnlyAt l t p) (hq : t ∈ l q) : q = p := by
  by_contra hne
  have hc := h q
  rw [if_neg hne] at hc
  exact absurd hq (List.count_eq_zero.mp hc)

/-- The token that moves was at the place it leaves, unless the move is a no-op. -/
theorem Moves.mem_source (h : Moves l l' t p q) (hne : p ≠ q) : t ∈ l p := by
  have hc := h t p
  rw [if_pos ⟨rfl, rfl⟩, if_neg (fun hp ↦ hne hp.2)] at hc
  rw [← List.count_pos_iff]
  omega

theorem OnlyAt.moves_other (h : OnlyAt l x p) {p' q' : P} (hm : Moves l l' t p' q')
    (hx : x ≠ t) : OnlyAt l' x p := by
  intro r
  have hc := hm x r
  rw [if_neg (fun h ↦ hx h.1), if_neg (fun h ↦ hx h.1)] at hc
  have ho := h r
  omega

theorem OnlyAt.moves (h : OnlyAt l t p) {p' : P} (hm : Moves l l' t p' q) (hne : p' ≠ q) :
    OnlyAt l' t q := by
  have hp : p' = p := h.eq_of_mem (hm.mem_source hne)
  subst hp
  intro r
  have hc := hm t r
  have ho := h r
  simp only [true_and] at hc
  omega

theorem OnlyAt.stays (h : OnlyAt l t p) (hs : Stays l l') : OnlyAt l' t p := by
  intro r
  rw [hs t r, h r]

theorem OnlyAt.issues_other (h : OnlyAt l x p) (hi : Issues l l' t q) (hx : x ≠ t) :
    OnlyAt l' x p := by
  intro r
  have hc := hi x r
  rw [if_neg (fun h ↦ hx h.1)] at hc
  have ho := h r
  omega

theorem Located.stays (h : Located issued l) (hs : Stays l l') : Located issued l' where
  at_one t ht := (h.at_one t ht).imp fun _ hp ↦ hp.stays hs
  fresh t ht r := by rw [hs t r, h.fresh t ht r]

theorem Located.moves (h : Located issued l) (hm : Moves l l' t p q) : Located issued l' := by
  by_cases hpq : p = q
  · subst hpq
    refine h.stays fun x r ↦ ?_
    have hc := hm x r
    omega
  · refine ⟨fun x hx ↦ ?_, fun x hx r ↦ ?_⟩
    · obtain ⟨p', hp'⟩ := h.at_one x hx
      by_cases hxt : x = t
      · subst hxt
        exact ⟨q, hp'.moves hm hpq⟩
      · exact ⟨p', hp'.moves_other hm hxt⟩
    · have hxt : x ≠ t := by
        intro hxt
        have hmem := hm.mem_source hpq
        rw [← hxt] at hmem
        exact absurd hmem (List.count_eq_zero.mp (h.fresh x hx p))
      have hc := hm x r
      rw [if_neg (fun h ↦ hxt h.1), if_neg (fun h ↦ hxt h.1)] at hc
      have h0 := h.fresh x hx r
      omega

/-- Issuing a token that was not issued before. -/
theorem Located.issues {issued' : T → Prop} (h : Located issued l) (hi : Issues l l' t q)
    (hnew : ¬ issued t) (hissued : ∀ x, issued' x ↔ issued x ∨ x = t) :
    Located issued' l' := by
  refine ⟨fun x hx ↦ ?_, fun x hx r ↦ ?_⟩
  · by_cases hxt : x = t
    · subst hxt
      refine ⟨q, fun r ↦ ?_⟩
      have hc := hi x r
      have h0 := h.fresh x hnew r
      simp only [true_and] at hc
      omega
    · have hold : issued x := ((hissued x).mp hx).resolve_right hxt
      obtain ⟨p', hp'⟩ := h.at_one x hold
      exact ⟨p', hp'.issues_other hi hxt⟩
  · have hxt : x ≠ t := fun hxt ↦ hx ((hissued x).mpr (.inr hxt))
    have hold : ¬ issued x := fun ho ↦ hx ((hissued x).mpr (.inl ho))
    have hc := hi x r
    rw [if_neg (fun h ↦ hxt h.1)] at hc
    have h0 := h.fresh x hold r
    omega

theorem Located.issued_of_mem (h : Located issued l) (ht : t ∈ l p) : issued t := by
  by_contra hno
  exact absurd ht (List.count_eq_zero.mp (h.fresh t hno p))

/-! ## Moves in two halves -/

/-- One copy of `t` leaves `p`. -/
def Takes (l l' : P → List T) (t : T) (p : P) : Prop :=
  ∀ x r, (l' r).count x + (if x = t ∧ r = p then 1 else 0) = (l r).count x

/-- A token that leaves the place it is at and is no longer issued. -/
theorem Located.retires {issued' : T → Prop} (h : Located issued l)
    (ht : Takes l l' t p)
    (hissued : ∀ x, issued' x ↔ issued x ∧ x ≠ t) : Located issued' l' := by
  refine ⟨fun x hx ↦ ?_, fun x hx r ↦ ?_⟩
  · obtain ⟨hold, hxt⟩ := (hissued x).mp hx
    obtain ⟨q, hq⟩ := h.at_one x hold
    refine ⟨q, fun r ↦ ?_⟩
    have hc := ht x r
    rw [if_neg fun hc ↦ hxt hc.1, Nat.add_zero] at hc
    rw [hc, hq r]
  · have hc := ht x r
    by_cases hxt : x = t
    · subst hxt
      -- its only copy was at `p`
      have hmem : x ∈ l p := by
        have hp := ht x p
        rw [if_pos ⟨rfl, rfl⟩] at hp
        rw [← List.count_pos_iff]
        omega
      by_cases hold : issued x
      · obtain ⟨q, hq⟩ := h.at_one x hold
        obtain rfl := hq.eq_of_mem hmem
        have ho := hq r
        simp only [true_and] at hc
        omega
      · exact absurd hmem (List.count_eq_zero.mp (h.fresh x hold p))
    · have hold : ¬ issued x := fun ho ↦ hx ((hissued x).mpr ⟨ho, hxt⟩)
      have h0 := h.fresh x hold r
      omega

theorem Takes.moves {l₁ l₂ : P → List T} (h : Takes l l₁ t p) (h' : Issues l₁ l₂ t q) :
    Moves l l₂ t p q := by
  intro x r
  have h₁ := h x r
  have h₂ := h' x r
  omega

-- in the next two lemmas one place changes and all others are left as they are

theorem Takes.of_perm (hp : (l p).Perm (t :: l' p)) (hother : ∀ r, r ≠ p → l' r = l r) :
    Takes l l' t p := by
  intro x r
  by_cases hr : r = p
  · subst hr
    rw [hp.count_eq, List.count_cons]
    simp only [beq_iff_eq, and_true, @eq_comm _ t x]
  · rw [if_neg fun h ↦ hr h.2, hother r hr, Nat.add_zero]

theorem Issues.of_perm (hq : (l' q).Perm (t :: l q)) (hother : ∀ r, r ≠ q → l' r = l r) :
    Issues l l' t q := by
  intro x r
  by_cases hr : r = q
  · subst hr
    rw [hq.count_eq, List.count_cons]
    simp only [beq_iff_eq, and_true, @eq_comm _ t x]
  · rw [if_neg fun h ↦ hr h.2, hother r hr, Nat.add_zero]

/-- The copy may also arrive first. -/
theorem Issues.moves {l₁ l₂ : P → List T} (h : Issues l l₁ t q) (h' : Takes l₁ l₂ t p) :
    Moves l l₂ t p q := by
  intro x r
  have h₁ := h x r
  have h₂ := h' x r
  omega

theorem Moves.of_perm (hp : (l p).Perm (t :: l' p)) (hq : (l' q).Perm (t :: l q)) (hpq : p ≠ q)
    (hother : ∀ r, r ≠ p → r ≠ q → l' r = l r) : Moves l l' t p q := by
  intro x r
  by_cases hrp : r = p
  · subst hrp
    rw [hp.count_eq, List.count_cons, if_neg fun h : x = t ∧ r = q ↦ hpq h.2]
    simp only [beq_iff_eq, and_true, @eq_comm _ t x, Nat.add_zero]
  · by_cases hrq : r = q
    · subst hrq
      rw [hq.count_eq, List.count_cons, if_neg fun h : x = t ∧ r = p ↦ hrp h.2]
      simp only [beq_iff_eq, and_true, @eq_comm _ t x, Nat.add_zero]
    · rw [hother r hrp hrq, if_neg fun h ↦ hrp h.2, if_neg fun h ↦ hrq h.2]

theorem Stays.moves {l₁ l₂ : P → List T} (h : Stays l l₁) (h' : Moves l₁ l₂ t p q) :
    Moves l l₂ t p q := by
  intro x r
  rw [← h x r]
  exact h' x r

omit [DecidableEq P] in
theorem Stays.trans {l₁ l₂ : P → List T} (h : Stays l l₁) (h' : Stays l₁ l₂) :
    Stays l l₂ :=
  fun x r ↦ (h' x r).trans (h x r)

/-! ## Logs -/

/-- Every token is located, and `log` has the tokens of marked places once and no others. -/
structure Tracked (issued : T → Prop) (marked : P → Bool) (log : List T) (l : P → List T) :
    Prop where
  located : Located issued l
  logged : ∀ t p, OnlyAt l t p → log.count t = if marked p then 1 else 0
  unlogged : ∀ t, ¬ issued t → log.count t = 0

variable {marked : P → Bool} {log : List T}

theorem OnlyAt.unique (h : OnlyAt l t p) (h' : OnlyAt l t q) : p = q :=
  h'.eq_of_mem h.mem

theorem Located.issued_of_onlyAt (h : Located issued l) (ht : OnlyAt l t p) : issued t :=
  h.issued_of_mem ht.mem

/-- Where a token of the new ledger was before a move. -/
theorem Located.before_move (h : Located issued l) (hm : Moves l l' t p q) (hne : p ≠ q)
    {r : P} (hx : OnlyAt l' x r) :
    (x ≠ t ∧ OnlyAt l x r) ∨ (x = t ∧ r = q ∧ OnlyAt l t p) := by
  obtain ⟨r₀, hr₀⟩ := h.at_one x ((h.moves hm).issued_of_onlyAt hx)
  by_cases hxt : x = t
  · subst hxt
    have hp : p = r₀ := hr₀.eq_of_mem (hm.mem_source hne)
    subst hp
    exact .inr ⟨rfl, hx.unique (hr₀.moves hm hne), hr₀⟩
  · have hr : r₀ = r := (hr₀.moves_other hm hxt).unique hx
    subst hr
    exact .inl ⟨hxt, hr₀⟩

theorem Tracked.stays (h : Tracked issued marked log l) (hs : Stays l l') :
    Tracked issued marked log l' where
  located := h.located.stays hs
  logged t p ht := by
    obtain ⟨r, hr⟩ := h.located.at_one t ((h.located.stays hs).issued_of_onlyAt ht)
    have heq : r = p := (hr.stays hs).unique ht
    subst heq
    exact h.logged t r hr
  unlogged := h.unlogged

theorem Tracked.moves (h : Tracked issued marked log l) (hm : Moves l l' t p q)
    (hmark : marked p = marked q) : Tracked issued marked log l' := by
  by_cases hpq : p = q
  · subst hpq
    refine h.stays fun x r ↦ ?_
    have hc := hm x r
    omega
  · refine ⟨h.located.moves hm, fun x r hx ↦ ?_, h.unlogged⟩
    rcases h.located.before_move hm hpq hx with ⟨_, hr⟩ | ⟨rfl, rfl, hp⟩
    · exact h.logged x r hr
    · rw [← hmark]
      exact h.logged x p hp

/-- A token that enters a marked place is logged. -/
theorem Tracked.mark (h : Tracked issued marked log l) (hm : Moves l l' t p q)
    (hp : marked p = false) (hq : marked q = true) :
    Tracked issued marked (log ++ [t]) l' := by
  have hpq : p ≠ q := by
    rintro rfl
    rw [hp] at hq
    cases hq
  have hcount : ∀ x, (log ++ [t]).count x = log.count x + if x = t then 1 else 0 := by
    intro x
    rw [List.count_append, List.count_singleton]
    simp only [beq_iff_eq, @eq_comm _ t x]
  refine ⟨h.located.moves hm, fun x r hx ↦ ?_, fun x hx ↦ ?_⟩
  · rw [hcount]
    rcases h.located.before_move hm hpq hx with ⟨hxt, hr⟩ | ⟨rfl, rfl, hr⟩
    · rw [if_neg hxt, Nat.add_zero]
      exact h.logged x r hr
    · have h0 := h.logged x p hr
      rw [hp] at h0
      rw [h0, hq]
      simp
  · have hxt : x ≠ t := by
      rintro rfl
      have hmem := hm.mem_source hpq
      exact absurd hmem (List.count_eq_zero.mp (h.located.fresh x hx p))
    rw [hcount, if_neg hxt, h.unlogged x hx]

theorem Tracked.issues {issued' : T → Prop} (h : Tracked issued marked log l)
    (hi : Issues l l' t q) (hnew : ¬ issued t) (hissued : ∀ x, issued' x ↔ issued x ∨ x = t)
    (hq : marked q = false) : Tracked issued' marked log l' := by
  have hloc := h.located.issues hi hnew hissued
  refine ⟨hloc, fun x r hx ↦ ?_,
    fun x hx ↦ h.unlogged x fun ho ↦ hx ((hissued x).mpr (.inl ho))⟩
  rcases (hissued x).mp (hloc.issued_of_onlyAt hx) with hold | rfl
  · have hxt : x ≠ t := by
      rintro rfl
      exact hnew hold
    obtain ⟨r₀, hr₀⟩ := h.located.at_one x hold
    have heq : r₀ = r := (hr₀.issues_other hi hxt).unique hx
    subst heq
    exact h.logged x r₀ hr₀
  · -- the new token is at `q`, which is not marked, and was never logged
    have hmem : x ∈ l' q := by
      rw [← List.count_pos_iff, hi x q, if_pos ⟨rfl, rfl⟩]
      omega
    have heq : q = r := hx.eq_of_mem hmem
    subst heq
    rw [hq]
    exact h.unlogged x hnew

theorem Tracked.count_le_one (h : Tracked issued marked log l) (t : T) : log.count t ≤ 1 := by
  by_cases ht : issued t
  · obtain ⟨p, hp⟩ := h.located.at_one t ht
    rw [h.logged t p hp]
    split <;> omega
  · rw [h.unlogged t ht]
    omega

/-- When nothing is at an unmarked place, every issued token has been logged once. -/
theorem Tracked.count_eq_one (h : Tracked issued marked log l)
    (hempty : ∀ p, marked p = false → l p = []) (ht : issued t) : log.count t = 1 := by
  obtain ⟨p, hp⟩ := h.located.at_one t ht
  have hmark : marked p = true := by
    cases hm : marked p with
    | true => rfl
    | false =>
        have hmem := hp.mem
        rw [hempty p hm] at hmem
        cases hmem
  rw [h.logged t p hp, hmark]
  rfl

end Ledger
