import Torc.Waiting.Pools

/-!
# Steps of the tasks

A task takes a descriptor, gives it up, and its body spawns and waits: each of these keeps the
invariant of `Torc.Waiting.Counting`.
-/

namespace Torc.Waiting

open ForkJoin (beginWait)

variable {t : Tasks} {i v k a : Nat} {p : Bool} {rest : List Frame}

/-! ## Tasks and their descriptors -/

/-- A task that neither runs nor has run is on no stack. -/
theorem Inv.no_frame (h : Inv t) (hrun : ∀ i v, t.status k ≠ .running i v)
    (hover : (t.status k).isOver = false) : ∀ i v, ∀ f ∈ t.stack i v, f.task ≠ k := by
  rintro i v f hf rfl
  rcases (h.frame i v f hf).status with hst | ⟨-, hst⟩
  · exact hrun i v hst
  · rw [hover] at hst
    cases hst

/-- A task changes its status, but is not completed by that. -/
theorem Inv.setStatus (h : Inv t) {st : Status} (hborn : t.status k ≠ .unborn)
    (hst : st ≠ .unborn) (hdone : st.isDone = (t.status k).isDone)
    (hnot : t.status k ≠ .counted)
    (hidle : ∀ i a, st = .ready i a ∨ st = .served i a → t.owner i a = some k ∧
      t.ndep i a = 0)
    (hframe : ∀ i v, ∀ f ∈ t.stack i v, f.task = k →
      st = .running i v ∨ f.ctl = .leaving ∧ st.isOver = true) : Inv (t.setStatus k st) := by
  refine { h with
    born := fun j ↦ ?born
    idle := fun j b a hj ↦ ?idle
    frame := fun j w f hf ↦ ?frame
    parent := fun j q hj hq hopen ↦ ?parent }
  case born =>
    by_cases hj : j = k
    · subst hj
      rw [setStatus_self]
      exact ⟨fun _ ↦ (h.born j).mp hborn, fun _ ↦ hst⟩
    · rw [setStatus_other t st hj]
      exact h.born j
  case idle =>
    by_cases hjk : j = k
    · subst hjk
      rw [setStatus_self] at hj
      exact hidle b a hj
    · rw [setStatus_other t st hjk] at hj
      exact h.idle j b a hj
  case frame =>
    have hsits := h.frame j w f hf
    refine
      { owner := hsits.owner
        status := ?status
        counted := fun c hc ↦ ?counted
        count := ?count }
    case status =>
      by_cases htask : f.task = k
      · rw [htask, setStatus_self]
        exact hframe j w f hf htask
      · rw [setStatus_other t st htask]
        exact hsits.status
    case counted =>
      obtain ⟨hcounted, hcreator⟩ := hsits.counted c hc
      refine ⟨?_, hcreator⟩
      rw [setStatus_other t st]
      -- a counted task keeps its status
      · exact hcounted
      · rintro rfl
        exact hnot hcounted
    case count =>
      rw [openChildren_setStatus hdone]
      exact hsits.count
  case parent =>
    refine h.parent j q hj hq ?_
    by_cases hjk : j = k
    -- no child is opened or closed
    · subst hjk
      rw [setStatus_self, hdone] at hopen
      exact hopen
    · rw [setStatus_other t st hjk] at hopen
      exact hopen

/-- A task without a descriptor gets one. -/
theorem Inv.take (h : Inv t) (hl : Loose t i a) {st : Status}
    (hk : t.status k = .counted ∨ t.status k = .transit)
    (hst : st = .ready i a ∨ st = .served i a)
    (hcounted : ∀ j w, ∀ f ∈ t.stack j w, f.ctl ≠ .counted k) : Inv (t.take i a k st) := by
  have hborn : k < t.issued := (h.born k).mp (by rcases hk with hk | hk <;> rw [hk] <;> nofun)
  have hrun : ∀ i v, t.status k ≠ .running i v := by
    intro i v
    rcases hk with hk | hk <;> rw [hk] <;> nofun
  have hover : (t.status k).isOver = false := by rcases hk with hk | hk <;> rw [hk] <;> rfl
  have hdone : st.isDone = (t.status k).isDone := by
    rcases hst with rfl | rfl <;> rcases hk with hk | hk <;> rw [hk] <;> rfl
  have hself : (t.take i a k st).status k = st := Function.update_self ..
  have hother : ∀ {j}, j ≠ k → (t.take i a k st).status j = t.status j :=
    fun hj ↦ Function.update_of_ne hj ..
  -- the address had no owner, so every task keeps its own
  have howner : ∀ j b q, t.owner j b = some q →
      (t.take i a k st).owner j b = some q ∧ (t.take i a k st).ndep j b = t.ndep j b := by
    intro j b q hown
    have hne : ¬ (j = i ∧ b = a) := by
      rintro ⟨rfl, rfl⟩
      rw [hl.owner] at hown
      cases hown
    exact ⟨(set₂_other _ _ _ _ hne).trans hown, set₂_other _ _ _ _ hne⟩
  refine { h with
    free := fun j b hb ↦ ⟨(h.free j b hb).1, ?free⟩
    owned := fun j b q hq ↦ ?owned
    born := fun j ↦ ?born
    idle := fun j b c hj ↦ ?idle
    frame := fun j w f hf ↦ ?frame
    parent := fun j q hj hq hopen ↦ ?parent }
  case free =>
    -- `reuse_q` does not have the address that is taken
    refine (set₂_other _ _ _ _ ?_).trans (h.free j b hb).2
    rintro ⟨rfl, rfl⟩
    exact hl.notMem hb
  case owned =>
    by_cases hpos : j = i ∧ b = a
    · rw [hpos.1, hpos.2]
      exact hl.lt
    · have hq' : t.owner j b = some q := (set₂_other _ _ _ _ hpos).symm.trans hq
      exact h.owned j b q hq'
  case born =>
    by_cases hj : j = k
    · subst hj
      rw [hself]
      exact ⟨fun _ ↦ hborn, fun _ ↦ by rcases hst with rfl | rfl <;> nofun⟩
    · rw [hother hj]
      exact h.born j
  case idle =>
    by_cases hjk : j = k
    · subst hjk
      rw [hself] at hj
      have hpos : b = i ∧ c = a := by
        -- the task is ready or served where its descriptor is
        rcases hst with rfl | rfl <;> rcases hj with hj | hj <;> cases hj <;> exact ⟨rfl, rfl⟩
      rw [hpos.1, hpos.2]
      exact ⟨set₂_self .., set₂_self ..⟩
    · rw [hother hjk] at hj
      obtain ⟨hown, hzero⟩ := h.idle j b c hj
      exact ⟨(howner b c j hown).1, (howner b c j hown).2.trans hzero⟩
  case frame =>
    have hsits := h.frame j w f hf
    have hne : f.task ≠ k := h.no_frame hrun hover j w f hf
    obtain ⟨hown, hndep⟩ := howner j f.addr f.task hsits.owner
    refine { owner := hown, status := ?status, counted := fun c hc ↦ ?counted, count := ?count }
    case status =>
      -- the frames are those of other tasks
      rw [hother hne]
      exact hsits.status
    case counted =>
      rw [hother fun hck ↦ hcounted j w f hf (by rw [hc, hck])]
      exact hsits.counted c hc
    case count =>
      rw [hndep, openChildren_congr t (t.take i a k st) rfl rfl fun c ↦ ?_]
      · exact hsits.count
      · by_cases hc : c = k
        · subst hc
          rw [hself, hdone]
        · rw [hother hc]
  case parent =>
    refine h.parent j q hj hq ?_
    by_cases hjk : j = k
    · subst hjk
      rw [hself, hdone] at hopen
      exact hopen
    · rw [hother hjk] at hopen
      exact hopen

/-- A task that is in no queue and on no stack gives up its descriptor. -/
theorem Inv.leave (h : Inv t) (hown : t.owner i a = some k)
    (hidle : ∀ j b, t.status k ≠ .ready j b ∧ t.status k ≠ .served j b)
    (hframe : ∀ j w, ∀ f ∈ t.stack j w, f.task ≠ k) :
    Inv (t.leave i a) ∧ Loose (t.leave i a) i a := by
  -- only the address that is given up loses its owner
  have hkeep :
      ∀ j b q, t.owner j b = some q → q ≠ k → (t.leave i a).owner j b = some q := by
    intro j b q hq hne
    refine (set₂_other _ _ _ _ ?_).trans hq
    rintro ⟨rfl, rfl⟩
    rw [hown] at hq
    exact hne (Option.some.inj hq).symm
  have hold : ∀ {j b q}, (t.leave i a).owner j b = some q → t.owner j b = some q := by
    intro j b q hq
    by_cases hpos : j = i ∧ b = a
    · obtain ⟨rfl, rfl⟩ := hpos
      have hself : (t.leave j b).owner j b = none := set₂_self ..
      rw [hself] at hq
      cases hq
    · exact (set₂_other _ _ _ _ hpos).symm.trans hq
  refine ⟨{ h with
      free := fun j b hb ↦ ⟨(h.free j b hb).1, ?free⟩
      owned := fun j b q hq ↦ h.owned j b q (hold hq)
      idle := fun j b c hj ↦ ?idle
      frame := fun j w f hf ↦ ?frame },
    { notMem := fun hmem ↦ ?notMem, owner := set₂_self .., lt := h.owned i a k hown }⟩
  case free =>
    -- an address without an owner stays without one
    cases ho : (t.leave i a).owner j b with
    | none => rfl
    | some q =>
        have hfree := (h.free j b hb).2
        rw [hold ho] at hfree
        cases hfree
  case idle =>
    obtain ⟨hown', hzero⟩ := h.idle j b c hj
    refine ⟨hkeep b c j hown' ?_, hzero⟩
    -- the task is in no queue, so no idle task uses the address
    rintro rfl
    rcases hj with hj | hj
    · exact (hidle b c).1 hj
    · exact (hidle b c).2 hj
  case frame =>
    have hsits := h.frame j w f hf
    exact
      { owner := hkeep j f.addr f.task hsits.owner (hframe j w f hf)
        status := hsits.status
        counted := hsits.counted
        count := hsits.count }
  case notMem =>
    have hfree := (h.free i a hmem).2
    rw [hown] at hfree
    cases hfree

/-- A task that waits in a queue leaves its node. -/
theorem Inv.depart (h : Inv t) {back : Bool} {t' : Tasks} (hs : t.depart k back = some t') :
    Inv t' := by
  unfold Tasks.depart at hs
  split at hs
  · rename_i i a hk
    have hframe : ∀ j w, ∀ f ∈ t.stack j w, f.task ≠ k :=
      h.no_frame (by rw [hk]; nofun) (by rw [hk]; rfl)
    have hinv : Inv (t.setStatus k .transit) :=
      h.setStatus (by rw [hk]; nofun) nofun (by rw [hk]; rfl) (by rw [hk]; nofun)
        (fun j b hc ↦ by rcases hc with hc | hc <;> cases hc)
        fun j w f hf htask ↦ absurd htask (hframe j w f hf)
    obtain ⟨hleft, hl⟩ := hinv.leave (h.idle k i a (.inl hk)).1
      (by rw [setStatus_self]; exact fun _ _ ↦ ⟨nofun, nofun⟩) hframe
    cases hs
    cases back with
    | false => exact hleft
    | true => exact hleft.put hl
  · cases hs

/-- The task that leaves the stack has no open children. -/
theorem Inv.pop (h : Inv t) (hs : t.stack i v = ⟨k, a, p, .leaving⟩ :: rest) :
    Inv (t.setStack i v rest) ∧
    ∀ j w, ∀ f ∈ (t.setStack i v rest).stack j w, f.task ≠ k := by
  have htop := h.frame i v _ (Inv.top_mem hs)
  have hmem : ∀ j w, ∀ f ∈ (t.setStack i v rest).stack j w, f ∈ t.stack j w ∧
      f.task ≠ k := by
    intro j w f hf
    by_cases hpos : j = i ∧ w = v
    · obtain ⟨rfl, rfl⟩ := hpos
      rw [setStack_self] at hf
      exact h.rest_ne hs hf
    · rw [setStack_other t _ hpos] at hf
      refine ⟨hf, fun heq ↦ hpos ?_⟩
      exact h.unique j w i v f hf _ (Inv.top_mem hs) heq
  refine ⟨{ h with
      frame := fun j w f hf ↦ (h.frame j w f (hmem j w f hf).1).congr rfl rfl rfl rfl rfl
      nodup := h.nodup_setStack (List.nodup_cons.mp (h.nodup_stack hs)).2
      unique := fun j w j' w' f hf g hg ↦
        h.unique j w j' w' f (hmem j w f hf).1 g (hmem j' w' g hg).1
      parent := fun c q hc hq hopen ↦ ?parent },
    fun j w f hf ↦ (hmem j w f hf).2⟩
  case parent =>
    obtain ⟨u, f, hf, htask, haddr⟩ := h.parent c q hc hq hopen
    -- a task that leaves has no open children
    have hne : f.task ≠ k := by
      intro heq
      have hpos : 0 < t.openChildren q := openChildren_pos hc hq hopen
      have hzero : t.openChildren k = 0 := htop.count.2.2
      rw [← htask, heq] at hpos
      omega
    refine ⟨u, f, ?_, htask, haddr⟩
    by_cases hpos : (t.desc c).homenode = i ∧ u = v
    · have hf' : f ∈ t.stack i v := by rwa [← hpos.1, ← hpos.2]
      rw [hs] at hf'
      show f ∈ (t.setStack i v rest).stack (t.desc c).homenode u
      rw [hpos.1, hpos.2, setStack_self]
      rcases List.mem_cons.mp hf' with rfl | hf'
      · exact absurd rfl hne
      · exact hf'
    · show f ∈ (t.setStack i v rest).stack (t.desc c).homenode u
      rw [setStack_other t _ hpos]
      exact hf

theorem Inv.release (h : Inv t) {t' : Tasks} (hs : t.release i v = some t') : Inv t' := by
  unfold Tasks.release at hs
  split at hs
  · rename_i k a p rest hstack
    cases hs
    have htop := h.frame i v _ (Inv.top_mem hstack)
    obtain ⟨hinv, hframe⟩ := h.pop hstack
    have hidle : ∀ j b, t.status k ≠ .ready j b ∧ t.status k ≠ .served j b := by
      intro j b
      -- what leaves the stack is over, or still running
      rcases htop.status with hst | ⟨-, hst⟩
      · rw [show t.status k = .running i v from hst]
        exact ⟨nofun, nofun⟩
      · constructor <;> intro hc <;> rw [show t.status _ = _ from hc] at hst <;> cases hst
    obtain ⟨hleft, hl⟩ := hinv.leave htop.owner hidle hframe
    exact hleft.put hl
  · cases hs

/-! ## Bodies -/

theorem Inv.startSpawn (h : Inv t) {t' : Tasks} (hs : t.startSpawn i v = some t') : Inv t' := by
  unfold Tasks.startSpawn at hs
  split at hs
  · rename_i k a p rest hstack
    cases hs
    have hok := (h.frame i v _ (Inv.top_mem hstack)).count.startSpawn
    refine h.setTop hstack nofun _ (fun b hb ↦ ?_) nofun ?_
    · simp only [Waiting.startSpawn]
      split
      · exact Function.update_of_ne hb ..
      · rfl
    · have hself : Waiting.startSpawn (t.ndep i) a a =
          if t.ndep i a = 0 then 1 else t.ndep i a := by
        simp only [Waiting.startSpawn]
        split
        · exact Function.update_self ..
        · rfl
      rw [hself]
      exact hok
  · cases hs

theorem Inv.startWait (h : Inv t) {t' : Tasks} {w : Wait} (hs : t.startWait i v w = some t') :
    Inv t' := by
  unfold Tasks.startWait at hs
  split at hs
  · rename_i k a p rest hstack
    cases hs
    have hok := (h.frame i v _ (Inv.top_mem hstack)).count.startWait w
    refine h.setTop hstack nofun _ (fun b hb ↦ ?_) (by cases w <;> nofun) ?_
    · exact Function.update_of_ne hb ..
    · rw [show beginWait (t.ndep i) a a =
        if t.ndep i a - 1 < 0 then 0 else t.ndep i a - 1 from Function.update_self ..]
      exact hok
  · cases hs

theorem pollCtl_not_counted {n n' : Int} {ctl ctl' : Ctl}
    (h : pollCtl n ctl = some (n', ctl')) (c : Nat) : ctl' ≠ .counted c := by
  unfold pollCtl at h
  split at h
  · cases h
    split <;> nofun
  · cases h
    split <;> nofun
  · split at h <;> cases h <;> nofun
  · cases h
    split <;> nofun
  · cases h

theorem Inv.poll (h : Inv t) {t' : Tasks} (hs : t.poll i v = some t') : Inv t' := by
  unfold Tasks.poll at hs
  split at hs
  · rename_i k a p ctl rest hstack
    obtain ⟨⟨n, ctl'⟩, hpoll, heq⟩ := Option.map_eq_some_iff.mp hs
    cases heq
    have hok := (h.frame i v _ (Inv.top_mem hstack)).count.poll hpoll
    refine h.setTop hstack ?_ _ (fun b hb ↦ Function.update_of_ne hb ..)
      (fun c hc ↦ absurd hc (pollCtl_not_counted hpoll c)) ?_
    · rintro rfl
      cases hpoll
    · rw [Function.update_self]
      exact hok
  · cases hs

theorem setNdep_eq_self (t : Tasks) (i : Nat) : t.setNdep i (t.ndep i) = t := by
  rw [Tasks.setNdep, Function.update_eq_self]

/-- A step that leaves the counter alone. -/
theorem Inv.setCtl (h : Inv t) {ctl ctl' : Ctl} (hs : t.stack i v = ⟨k, a, p, ctl⟩ :: rest)
    (hnot : ctl ≠ .leaving) (hcounted : ∀ c, ctl' ≠ .counted c)
    (hok : ctl'.Ok p (t.openChildren k)) : Inv (t.setStack i v (⟨k, a, p, ctl'⟩ :: rest)) := by
  have hcount := (h.frame i v _ (Inv.top_mem hs)).count
  have hinv : Inv ((t.setNdep i (t.ndep i)).setStack i v (⟨k, a, p, ctl'⟩ :: rest)) :=
    h.setTop hs hnot (t.ndep i) (fun _ _ ↦ rfl) (fun c hc ↦ absurd hc (hcounted c))
      ⟨hcount.1, hok⟩
  rwa [setNdep_eq_self] at hinv

theorem Inv.idling (h : Inv t) {t' : Tasks} (hs : t.idle i v = some t') : Inv t' := by
  unfold Tasks.idle at hs
  split at hs
  · rename_i k a p rest hstack
    cases hs
    exact h.setCtl hstack nofun nofun (h.frame i v _ (Inv.top_mem hstack)).count.2
  · rename_i k a p rest hstack
    cases hs
    exact h.setCtl hstack nofun nofun (h.frame i v _ (Inv.top_mem hstack)).count.2
  · cases hs

end Torc.Waiting
