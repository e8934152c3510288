import Torc.Waiting.Steps

/-!
# New tasks

A child is counted by its parent before it is created.  The creation of a child, of a detached task
and the arrival of a task from another node keep the invariant of `Torc.Waiting.Counting`.
-/

namespace Torc.Waiting

variable {t : Tasks} {i v k a : Nat} {p : Bool} {rest : List Frame}

theorem Inv.born_of_sits (h : Inv t) {f : Frame} (hf : f ∈ t.stack i v) :
    t.status f.task ≠ .unborn := by
  intro hst
  rcases (h.frame i v f hf).status with hrun | ⟨-, hover⟩
  · rw [hst] at hrun
    cases hrun
  · rw [hst] at hover
    cases hover

section

variable {desc : TorcT} {creator : Option Nat}

theorem issue_old (t : Tasks) (desc : TorcT) (creator : Option Nat) {j : Nat}
    (hj : j < t.issued) : (t.issue desc creator).status j = t.status j ∧
      (t.issue desc creator).creator j = t.creator j ∧
      (t.issue desc creator).desc j = t.desc j := by
  have hne : j ≠ t.issued := Nat.ne_of_lt hj
  exact ⟨Function.update_of_ne hne .., Function.update_of_ne hne ..,
    Function.update_of_ne hne ..⟩

theorem issue_new (t : Tasks) (desc : TorcT) (creator : Option Nat) :
    (t.issue desc creator).status t.issued = .counted ∧
      (t.issue desc creator).creator t.issued = creator ∧
      (t.issue desc creator).desc t.issued = desc :=
  ⟨Function.update_self .., Function.update_self .., Function.update_self ..⟩

theorem Inv.issue_born (h : Inv t) (desc : TorcT) (creator : Option Nat) (j : Nat) :
    (t.issue desc creator).status j ≠ .unborn ↔ j < (t.issue desc creator).issued := by
  show _ ↔ j < t.issued + 1
  by_cases hj : j = t.issued
  · subst hj
    rw [(issue_new t desc creator).1]
    exact ⟨fun _ ↦ Nat.lt_succ_self _, fun _ ↦ nofun⟩
  · rw [show (t.issue desc creator).status j = t.status j from Function.update_of_ne hj ..,
      h.born j]
    omega

theorem Inv.issue_taskId (h : Inv t) (creator : Option Nat) (hid : desc.taskId = t.issued)
    (j : Nat) (hj : j < (t.issue desc creator).issued) :
    ((t.issue desc creator).desc j).taskId = j := by
  rcases Nat.lt_succ_iff_lt_or_eq.mp hj with hj | rfl
  · rw [(issue_old t desc creator hj).2.2]
    exact h.taskId j hj
  · rw [(issue_new t desc creator).2.2]
    exact hid

theorem Inv.issue_orphan (h : Inv t) (hparent : creator = none → desc.parent = none) (j : Nat)
    (hj : j < (t.issue desc creator).issued) (hnone : (t.issue desc creator).creator j = none) :
    ((t.issue desc creator).desc j).parent = none := by
  rcases Nat.lt_succ_iff_lt_or_eq.mp hj with hj | rfl
  · rw [(issue_old t desc creator hj).2.1] at hnone
    rw [(issue_old t desc creator hj).2.2]
    exact h.orphan j hj hnone
  · rw [(issue_new t desc creator).2.1] at hnone
    rw [(issue_new t desc creator).2.2]
    exact hparent hnone

theorem issue_idle (t : Tasks) (desc : TorcT) (creator : Option Nat) {j b c : Nat}
    (hj : (t.issue desc creator).status j = .ready b c ∨
      (t.issue desc creator).status j = .served b c) :
    t.status j = .ready b c ∨ t.status j = .served b c := by
  by_cases hne : j = t.issued
  · subst hne
    rw [(issue_new t desc creator).1] at hj
    rcases hj with hj | hj <;> cases hj
  -- the new task has the status of a counted one
  · rwa [show (t.issue desc creator).status j = t.status j from Function.update_of_ne hne ..] at hj

/-- What does not depend on the counter of a frame. -/
theorem Inv.issue_sits (h : Inv t) (desc : TorcT) (creator : Option Nat) {f : Frame}
    (hf : f ∈ t.stack i v) :
    ((t.issue desc creator).status f.task = .running i v ∨
      f.ctl = .leaving ∧ ((t.issue desc creator).status f.task).isOver = true) ∧
    ∀ c, f.ctl = .counted c → (t.issue desc creator).status c = .counted ∧
      (t.issue desc creator).creator c = some f.task := by
  have hsits := h.frame i v f hf
  refine ⟨?_, fun c hc ↦ ?_⟩
  -- a task on a stack is an old one
  · rw [(issue_old t desc creator ((h.born _).mp (h.born_of_sits hf))).1]
    exact hsits.status
  · obtain ⟨hcounted, hcreator⟩ := hsits.counted c hc
    have hold := issue_old t desc creator ((h.born c).mp (by rw [hcounted]; nofun))
    rw [hold.1, hold.2.1]
    exact ⟨hcounted, hcreator⟩

/-- A detached task. -/
theorem Inv.issue_none (h : Inv t) (hid : desc.taskId = t.issued) (hparent : desc.parent = none) :
    Inv (t.issue desc none) := by
  refine { h with
    born := h.issue_born desc none
    taskId := h.issue_taskId none hid
    orphan := h.issue_orphan fun _ ↦ hparent
    idle := fun j b c hj ↦ h.idle j b c (issue_idle t desc none hj)
    frame := fun j w f hf ↦ ?frame
    parent := fun j q hj hq hopen ↦ ?parent }
  case frame =>
    have hsits := h.frame j w f hf
    obtain ⟨hstatus, hcounted⟩ := h.issue_sits desc none hf
    refine { owner := hsits.owner, status := hstatus, counted := hcounted, count := ?count }
    rw [openChildren_issue, if_neg nofun, Nat.add_zero]
    exact hsits.count
  case parent =>
    rcases Nat.lt_succ_iff_lt_or_eq.mp hj with hj | rfl
    · obtain ⟨hst, hcr, hdesc⟩ := issue_old t desc none hj
      rw [hst] at hopen
      rw [hcr] at hq
      rw [hdesc]
      -- an old child, since the new one has no creator
      exact h.parent j q hj hq hopen
    · rw [(issue_new t desc none).2.1] at hq
      cases hq

/-- The top task counts a child before it creates it. -/
theorem Inv.issue_child (h : Inv t) (hs : t.stack i v = ⟨k, a, p, .started⟩ :: rest)
    (hid : desc.taskId = t.issued) (hhome : desc.homenode = i) (hparent : desc.parent = some a) :
    Inv (((t.setNdep i (torcDepadd (t.ndep i) a 1)).issue desc (some k)).setStack i v
      (⟨k, a, p, .counted t.issued⟩ :: rest)) := by
  have htop := h.frame i v _ (Inv.top_mem hs)
  have hmem : ∀ j w, ∀ f ∈
      (t.setStack i v (⟨k, a, p, .counted t.issued⟩ :: rest)).stack j w,
      (j = i ∧ w = v ∧ f = ⟨k, a, p, .counted t.issued⟩) ∨
      (f ∈ t.stack j w ∧ f.task ≠ k) :=
    fun j w f hf ↦ h.mem_setTop hs hf
  have hrun : t.status k = .running i v := htop.status.resolve_right fun hc ↦ nomatch hc.1
  -- the other addresses of the node have other owners
  have hndep : ∀ j b q, t.owner j b = some q → q ≠ k →
      (t.setNdep i (torcDepadd (t.ndep i) a 1)).ndep j b = t.ndep j b := by
    intro j b q hown hne
    by_cases hj : j = i
    · subst hj
      rw [setNdep_self]
      refine Function.update_of_ne (fun hb ↦ hne ?_) ..
      rw [hb, htop.owner] at hown
      exact (Option.some.inj hown).symm
    · rw [setNdep_other t _ hj]
  -- the top task has one open child more, and no other task has
  have hopenChildren : ∀ q, Tasks.openChildren
      (((t.setNdep i (torcDepadd (t.ndep i) a 1)).issue desc (some k)).setStack i v
        (⟨k, a, p, .counted t.issued⟩ :: rest)) q =
      t.openChildren q + if some k = some q then 1 else 0 :=
    fun q ↦ openChildren_issue t desc (some k) q
  refine { h with
    born := h.issue_born desc (some k)
    taskId := h.issue_taskId (some k) hid
    orphan := h.issue_orphan nofun
    idle := fun j b c hj ↦ ?idle
    frame := fun j w f hf ↦ ?frame
    nodup := h.nodup_setStack (h.nodup_stack (f := ⟨k, a, p, .started⟩) hs)
    unique := fun j w j' w' f hf g hg heq ↦ ?unique
    parent := fun c q hc hq hopen ↦ ?parent }
  case idle =>
    have hj' : t.status j = .ready b c ∨ t.status j = .served b c :=
      issue_idle t desc (some k) hj
    -- the top task is in no queue
    obtain ⟨hown, hzero⟩ := h.idle j b c hj'
    refine ⟨hown, (hndep b c j hown ?_).trans hzero⟩
    rintro rfl
    rw [hrun] at hj'
    rcases hj' with hj' | hj' <;> cases hj'
  case frame =>
    rcases hmem j w f hf with ⟨rfl, rfl, rfl⟩ | ⟨hf, hne⟩
    · refine
        { owner := htop.owner
          status := .inl ?status
          counted := fun c hc ↦ ?counted
          count := ?count }
      case status =>
        exact (issue_old t desc (some k) ((h.born k).mp (by rw [hrun]; nofun))).1.trans hrun
      case counted =>
        cases hc
        exact ⟨(issue_new t desc (some k)).1, (issue_new t desc (some k)).2.1⟩
      case count =>
        -- counter and children of the top task go up together
        rw [hopenChildren, if_pos rfl]
        show FrameOk _ ((t.setNdep j (torcDepadd (t.ndep j) a 1)).ndep j a) _
        rw [setNdep_self, torcDepadd, Function.update_self]
        obtain ⟨hn, hok⟩ := htop.count
        refine ⟨?_, hok⟩
        simp only [Nat.cast_add, Nat.cast_one] at hn ⊢
        omega
    · have hsits := h.frame j w f hf
      obtain ⟨hstatus, hcounted⟩ := h.issue_sits desc (some k) hf
      refine { owner := hsits.owner, status := hstatus, counted := hcounted, count := ?_ }
      rw [hopenChildren, if_neg fun hc ↦ hne (Option.some.inj hc).symm, Nat.add_zero]
      show FrameOk f ((t.setNdep i (torcDepadd (t.ndep i) a 1)).ndep j f.addr) _
      rw [hndep j f.addr f.task hsits.owner hne]
      exact hsits.count
  case unique =>
    have hold : ∀ j w, ∀ f ∈
        (t.setStack i v (⟨k, a, p, .counted t.issued⟩ :: rest)).stack j w,
        ∃ f₀ ∈ t.stack j w, f₀.task = f.task := by
      intro j w f hf
      rcases hmem j w f hf with ⟨rfl, rfl, rfl⟩ | ⟨hf, -⟩
      · exact ⟨_, Inv.top_mem hs, rfl⟩
      · exact ⟨f, hf, rfl⟩
    obtain ⟨f₀, hf₀, htask⟩ := hold j w f hf
    obtain ⟨g₀, hg₀, htask'⟩ := hold j' w' g hg
    exact h.unique j w j' w' f₀ hf₀ g₀ hg₀ (by rw [htask, htask', heq])
  case parent =>
    rcases Nat.lt_succ_iff_lt_or_eq.mp (show c < t.issued + 1 from hc) with hc | rfl
    · obtain ⟨hst, hcr, hdesc⟩ := issue_old t desc (some k) hc
      obtain ⟨u, f, hf, htask, haddr⟩ := h.parent c q hc (hcr.symm.trans hq)
        ((congrArg Status.isDone hst).symm.trans hopen)
      obtain ⟨f', hf', htask', haddr'⟩ :=
        Inv.setTop_mem hs ⟨k, a, p, .counted t.issued⟩ rfl rfl hf
      refine ⟨u, f', ?_, htask'.trans htask, ?_⟩
      · show f' ∈ (t.setStack i v _).stack ((t.issue desc (some k)).desc c).homenode u
        rw [hdesc]
        exact hf'
      · show ((t.issue desc (some k)).desc c).parent = _
        rw [hdesc, haddr, haddr']
    -- the new child has the top task of worker `v` as its parent
    · obtain ⟨-, hcr, hdesc⟩ := issue_new t desc (some k)
      have hqk : some k = some q := hcr.symm.trans hq
      refine ⟨v, ⟨k, a, p, .counted t.issued⟩, ?_, Option.some.inj hqk, ?_⟩
      · show _ ∈ (t.setStack i v _).stack ((t.issue desc (some k)).desc t.issued).homenode v
        rw [hdesc, hhome, setStack_self]
        exact List.mem_cons_self
      · show ((t.issue desc (some k)).desc t.issued).parent = some a
        rw [hdesc]
        exact hparent

end

theorem create_parent {r : Routine} {who : Creator} {taskId work : Nat} {h : ByteHeap}
    {cs : List CArg} {c : Creation} (hr : Tracks r) (hc : r.create who taskId work h cs = some c) :
    c.desc.parent = some who.selfAddr := by
  cases r with
  | taskDetached => cases hr
  | _ =>
      obtain ⟨as, h', _, _, rfl⟩ := createWith_some hc
      rfl

theorem Inv.countChild (h : Inv t) {r : Routine} {work : Nat} {heap : ByteHeap} {cs : List CArg}
    {t' : Tasks} (hs : t.countChild i v r work heap cs = some t') : Inv t' := by
  unfold Tasks.countChild at hs
  split at hs
  · rename_i k a p rest hstack
    split at hs
    · rename_i hr
      obtain ⟨c, hc, heq⟩ := Option.map_eq_some_iff.mp hs
      cases heq
      exact h.issue_child hstack (Routine.create_header hc).1 (Routine.create_work hc).2.2
        (create_parent hr hc)
    · cases hs
  · cases hs

theorem Inv.createChild (h : Inv t) {t' : Tasks} (hs : t.createChild i v = some t') : Inv t' := by
  unfold Tasks.createChild at hs
  split at hs
  · rename_i k a p child rest hstack
    cases hs
    have htop := h.frame i v _ (Inv.top_mem hstack)
    have hpending : p = true := htop.count.2
    have hrun : Inv (t.setStack i v (⟨k, a, p, .running⟩ :: rest)) :=
      h.setCtl hstack nofun nofun fun hp ↦ by rw [hp] at hpending; cases hpending
    obtain ⟨hinv, hl⟩ := hrun.get i
    refine hinv.take hl (.inl (htop.counted child rfl).1) (.inl rfl) fun j w f hf hctl ↦ ?_
    rcases h.mem_setTop hstack hf with ⟨-, -, rfl⟩ | ⟨hf, hne⟩
    · cases hctl
    · -- the child was counted by one task only
      have hcreator := ((h.frame j w f hf).counted child hctl).2
      rw [(htop.counted child rfl).2] at hcreator
      exact hne (Option.some.inj hcreator).symm
  · cases hs

theorem Inv.createDetached (h : Inv t) {work : Nat} {heap : ByteHeap} {cs : List CArg} {t' : Tasks}
    (hs : t.createDetached i work heap cs = some t') : Inv t' := by
  obtain ⟨c, hc, heq⟩ := Option.map_eq_some_iff.mp hs
  cases heq
  have hcreate : Routine.taskDetached.create { me := i, table := [] } t.issued work heap cs =
    some c := hc
  obtain ⟨hinv, hl⟩ := h.get i
  have hparent : c.desc.parent = none := by
    obtain ⟨as, h', _, _, rfl⟩ := createWith_some hc
    rfl
  have hissued := hinv.issue_none (Routine.create_header hcreate).1 hparent
  refine hissued.take ⟨hl.notMem, hl.owner, hl.lt⟩ (.inl ?_) (.inl rfl) fun j w f hf hctl ↦ ?_
  · exact (issue_new (t.torcGetReusedDesc i) c.desc none).1
  -- no frame has counted the task, which is new
  · have hcounted := ((h.frame j w f hf).counted t.issued hctl).1
    exact Nat.lt_irrefl _ ((h.born t.issued).mp (by rw [hcounted]; nofun))

theorem Inv.arrive (h : Inv t) {st : Status} {t' : Tasks}
    (hst : st = .ready i a ∨ st = .served i a) (hs : t.arrive i a k st = some t') : Inv t' := by
  unfold Tasks.arrive at hs
  split at hs
  · rename_i hguard
    cases hs
    obtain ⟨hinv, hl⟩ := h.unhold hguard.1
    refine hinv.take hl (.inr hguard.2) hst fun j w f hf hctl ↦ ?_
    have hcounted := ((h.frame j w f hf).counted k hctl).1
    rw [hguard.2] at hcounted
    cases hcounted
  · cases hs

end Torc.Waiting
