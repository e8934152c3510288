import Torc.Waiting.Steps

/-!
# Execution and completion

A task comes onto the stack of the worker that executes it, and its completion takes one from the
counter of its parent.  Both keep the invariant of `Torc.Waiting.Counting`.
-/

namespace Torc.Waiting

open ForkJoin (depsatisfy)

variable {t : Tasks} {i v k a : Nat} {p : Bool} {rest : List Frame}

/-! ## Execution -/

/-- Only a task on a stack has open children. -/
theorem Inv.openChildren_eq_zero (h : Inv t)
    (hframe : ∀ i v, ∀ f ∈ t.stack i v, f.task ≠ k) :
    t.openChildren k = 0 := by
  apply Finset.card_eq_zero.mpr
  apply Finset.filter_eq_empty_iff.mpr
  rintro c hc ⟨hcreator, hopen⟩
  obtain ⟨v, f, hf, htask, -⟩ := h.parent c k (Finset.mem_range.mp hc) hcreator hopen
  exact hframe _ v f hf htask

theorem set₂_eq_self {α : Type} (f : Nat → Nat → α) (i j : Nat) :
    set₂ f i j (f i j) = f := by
  rw [set₂, Function.update_eq_self, Function.update_eq_self]

theorem set₂_idem {α : Type} (f : Nat → Nat → α) (i j : Nat) (x y : α) :
    set₂ (set₂ f i j x) i j y = set₂ f i j y := by
  rw [set₂, set₂_row, set₂, Function.update_idem, Function.update_idem, set₂]

theorem Inv.callLoop (h : Inv t) {l : List Frame} (hl : callLoop (t.stack i v) = some l) :
    Inv (t.setStack i v l) ∧ ∀ f ∈ l, ∃ f₀ ∈ t.stack i v, f₀.task = f.task := by
  have hsame : l = t.stack i v → Inv (t.setStack i v l) ∧ ∀ f ∈ l, ∃ f₀ ∈ t.stack i v,
      f₀.task = f.task := by
    rintro rfl
    refine ⟨?_, fun f hf ↦ ⟨f, hf, rfl⟩⟩
    rw [Tasks.setStack, set₂_eq_self]
    exact h
  unfold Waiting.callLoop at hl
  split at hl
  -- the waiting task tests its counter again when the call returns
  · rename_i k a p w rest hstack
    cases hl
    refine ⟨h.setCtl hstack nofun nofun ?_, fun f hf ↦ ?_⟩
    · have hok : p = false := (h.frame i v _ (Inv.top_mem hstack)).count.2
      cases w <;> exact hok
    · rw [hstack]
      rcases List.mem_cons.mp hf with rfl | hf
      · exact ⟨_, List.mem_cons_self, rfl⟩
      · exact ⟨f, List.mem_cons_of_mem _ hf, rfl⟩
  · rename_i k a p rest hstack
    cases hl
    exact hsame hstack.symm
  · rename_i hstack
    cases hl
    exact hsame hstack.symm
  · cases hl

/-- A task that has its descriptor and no children comes onto a stack. -/
theorem Inv.push (h : Inv t) (hstatus : t.status k = .running i v) (hown : t.owner i a = some k)
    (hzero : t.ndep i a = 0) (hframe : ∀ j w, ∀ f ∈ t.stack j w, f.task ≠ k) :
    Inv (t.setStack i v ({ task := k, addr := a } :: t.stack i v)) := by
  have hmem : ∀ j w, ∀ f ∈
      (t.setStack i v ({ task := k, addr := a } :: t.stack i v)).stack j w,
      (j = i ∧ w = v ∧ f = { task := k, addr := a }) ∨ f ∈ t.stack j w := by
    intro j w f hf
    by_cases hpos : j = i ∧ w = v
    · obtain ⟨rfl, rfl⟩ := hpos
      rw [setStack_self] at hf
      rcases List.mem_cons.mp hf with rfl | hf
      · exact .inl ⟨rfl, rfl, rfl⟩
      · exact .inr hf
    · rw [setStack_other t _ hpos] at hf
      exact .inr hf
  -- the task is on no stack yet
  have hnew : k ∉ (t.stack i v).map Frame.task := by
    intro hmem
    obtain ⟨f, hf, htask⟩ := List.mem_map.mp hmem
    exact hframe i v f hf htask
  refine { h with
    frame := fun j w f hf ↦ ?frame
    nodup := h.nodup_setStack (l := { task := k, addr := a } :: t.stack i v)
      (List.nodup_cons.mpr ⟨hnew, h.nodup i v⟩)
    unique := fun j w j' w' f hf g hg heq ↦ ?unique
    parent := fun c q hc hq hopen ↦ ?parent }
  case frame =>
    rcases hmem j w f hf with ⟨rfl, rfl, rfl⟩ | hf
    -- the counter and the children of a task that begins are 0
    · refine { owner := hown, status := .inl hstatus, counted := nofun, count := ?_ }
      show FrameOk _ (t.ndep j a) (t.openChildren k)
      rw [hzero, h.openChildren_eq_zero hframe]
      exact ⟨rfl, fun _ ↦ rfl⟩
    · exact (h.frame j w f hf).congr rfl rfl rfl rfl rfl
  case unique =>
    -- two frames of one task are the same frame, and the new task has only this one
    rcases hmem j w f hf with ⟨rfl, rfl, rfl⟩ | hf₀ <;>
      rcases hmem j' w' g hg with ⟨hj, hw, rfl⟩ | hg₀
    · exact ⟨hj.symm, hw.symm⟩
    · exact absurd heq.symm (hframe j' w' g hg₀)
    · exact absurd heq (hframe j w f hf₀)
    · exact h.unique j w j' w' f hf₀ g hg₀ heq
  case parent =>
    obtain ⟨u, f, hf, htask, haddr⟩ := h.parent c q hc hq hopen
    refine ⟨u, f, ?_, htask, haddr⟩
    by_cases hpos : (t.desc c).homenode = i ∧ u = v
    · show f ∈ (t.setStack i v _).stack (t.desc c).homenode u
      rw [hpos.1, hpos.2, setStack_self]
      rw [hpos.1, hpos.2] at hf
      exact List.mem_cons_of_mem _ hf
    · show f ∈ (t.setStack i v _).stack (t.desc c).homenode u
      rw [setStack_other t _ hpos]
      exact hf

theorem Inv.execute (h : Inv t) {t' : Tasks} (hs : t.execute i v k = some t') : Inv t' := by
  unfold Tasks.execute at hs
  split at hs
  · rename_i j a hk
    split at hs
    · rename_i hj
      subst hj
      obtain ⟨l, hl, heq⟩ := Option.map_eq_some_iff.mp hs
      cases heq
      obtain ⟨hinv, hmem⟩ := h.callLoop hl
      obtain ⟨hown, hzero⟩ := h.idle k j a (.inl hk)
      -- a task in a queue is on no stack
      have hframe : ∀ i' v', ∀ f ∈ (t.setStack j v l).stack i' v', f.task ≠ k :=
        hinv.no_frame (by show ∀ i v, t.status k ≠ _; rw [hk]; nofun)
          (by show (t.status k).isOver = false; rw [hk]; rfl)
      have hstatus : Inv ((t.setStack j v l).setStatus k (.running j v)) :=
        hinv.setStatus (by show t.status k ≠ _; rw [hk]; nofun) nofun
          (by show _ = (t.status k).isDone; rw [hk]; rfl) (by show t.status k ≠ _; rw [hk]; nofun)
          (fun _ _ hc ↦ by rcases hc with hc | hc <;> cases hc)
          fun i' v' f hf htask ↦ absurd htask (hframe i' v' f hf)
      have hpush := hstatus.push (setStatus_self ..) hown hzero hframe
      -- the two updates of the stack are one
      have hstack : set₂ (set₂ t.stack j v l) j v
          ({ task := k, addr := a } :: set₂ t.stack j v l j v) =
          set₂ t.stack j v ({ task := k, addr := a } :: l) := by
        rw [set₂_self, set₂_idem]
      have heq : ((t.setStack j v l).setStatus k (.running j v)).setStack j v
          ({ task := k, addr := a } ::
            ((t.setStack j v l).setStatus k (.running j v)).stack j v) =
          (t.setStatus k (.running j v)).setStack j v ({ task := k, addr := a } :: l) :=
        congrArg (fun stack ↦ { t.setStatus k (.running j v) with stack := stack }) hstack
      rwa [heq] at hpush
    · cases hs
  · cases hs

/-! ## Completion -/

theorem depsatisfy_self (ndep : Nat → Int) (a : Nat) :
    depsatisfy ndep (some a) a = ndep a - 1 :=
  Function.update_self ..

theorem depsatisfy_other (ndep : Nat → Int) {a b : Nat} (h : b ≠ a) :
    depsatisfy ndep (some a) b = ndep b :=
  Function.update_of_ne h ..

/-- A child that completes takes one from the counter. -/
theorem FrameOk.childDone {f : Frame} {n : Int} {c : Nat} (h : FrameOk f n (c + 1)) :
    FrameOk f (n - 1) c := by
  obtain ⟨hn, hok⟩ := h
  refine ⟨?_, ?_⟩
  · rw [Nat.cast_add, Nat.cast_one] at hn
    omega
  · cases hctl : f.ctl with
    | running =>
        -- a task that still has a child has not waited, so it is not leaving
        rw [hctl] at hok
        exact fun hp ↦ absurd (hok hp) (Nat.succ_ne_zero c)
    | leaving =>
        rw [hctl] at hok
        exact absurd hok.2 (Nat.succ_ne_zero c)
    | _ =>
        rw [hctl] at hok
        exact hok

/-- The parent's counter is that of the frame which counted the child. -/
theorem Inv.complete_frame (h : Inv t) (hk : k < t.issued) (hopen : (t.status k).isDone = false)
    {j w : Nat} {f : Frame} (hf : f ∈ t.stack j w) (ran : Nat) :
    FrameOk f ((t.complete (t.desc k).homenode k (t.desc k).parent ran).ndep j f.addr)
      ((t.complete (t.desc k).homenode k (t.desc k).parent ran).openChildren f.task) := by
  have hcount := (h.frame j w f hf).count
  have hdone := openChildren_done hk hopen ran f.task
  have hsame : (t.complete (t.desc k).homenode k (t.desc k).parent ran).openChildren f.task =
      (t.setStatus k (.done ran)).openChildren f.task := rfl
  rw [hsame]
  show FrameOk f (Function.update t.ndep (t.desc k).homenode
    (depsatisfy (t.ndep (t.desc k).homenode) (t.desc k).parent) j f.addr) _
  cases hcreator : t.creator k with
  | none =>
      -- a detached task satisfies nobody
      rw [hcreator, if_neg nofun, Nat.add_zero] at hdone
      rw [h.orphan k hk hcreator, hdone]
      show FrameOk f (Function.update t.ndep _ (t.ndep _) j f.addr) _
      rw [Function.update_eq_self]
      exact hcount
  | some q =>
      obtain ⟨u, g, hg, htask, haddr⟩ := h.parent k q hk hcreator hopen
      rw [haddr]
      by_cases hfq : f.task = q
      · -- the parent itself
        obtain ⟨rfl, rfl⟩ := h.unique _ _ _ _ f hf g hg (hfq.trans htask.symm)
        obtain rfl := h.frame_eq hf hg (hfq.trans htask.symm)
        rw [hcreator, if_pos (congrArg some hfq.symm)] at hdone
        rw [Function.update_self, depsatisfy_self]
        apply FrameOk.childDone
        rw [hdone]
        exact hcount
      · rw [hcreator, if_neg fun hc ↦ hfq (Option.some.inj hc).symm, Nat.add_zero] at hdone
        rw [hdone]
        by_cases hj : j = (t.desc k).homenode
        · subst hj
          have hne : f.addr ≠ g.addr :=
            fun ha ↦ hfq ((h.task_eq hf hg ha).trans htask)
          rw [Function.update_self, depsatisfy_other _ hne]
          exact hcount
        · rw [Function.update_of_ne hj]
          exact hcount

/-- The completion of a task that has run, on its home node. -/
theorem Inv.complete (h : Inv t) (hk : k < t.issued) (hopen : (t.status k).isDone = false)
    (hnot : t.status k ≠ .counted)
    (hleaving : ∀ i v, ∀ f ∈ t.stack i v, f.task = k → f.ctl = .leaving) (ran : Nat) :
    Inv (t.complete (t.desc k).homenode k (t.desc k).parent ran) := by
  have hself : (t.complete (t.desc k).homenode k (t.desc k).parent ran).status k = .done ran :=
    Function.update_self ..
  have hother : ∀ {j}, j ≠ k →
      (t.complete (t.desc k).homenode k (t.desc k).parent ran).status j = t.status j :=
    fun hj ↦ Function.update_of_ne hj ..
  refine { h with
    born := fun j ↦ ?born
    idle := fun j b c hj ↦ ?idle
    frame := fun j w f hf ↦ ?frame
    parent := fun j q hj hq hdone ↦ ?parent }
  case born =>
    by_cases hj : j = k
    · subst hj
      rw [hself]
      exact ⟨fun _ ↦ hk, fun _ ↦ nofun⟩
    · rw [hother hj]
      exact h.born j
  case idle =>
    have hne : j ≠ k := by
      rintro rfl
      rw [hself] at hj
      rcases hj with hj | hj <;> cases hj
    rw [hother hne] at hj
    obtain ⟨hown, hzero⟩ := h.idle j b c hj
    refine ⟨hown, ?_⟩
    show Function.update t.ndep (t.desc k).homenode
      (depsatisfy (t.ndep (t.desc k).homenode) (t.desc k).parent) b c = 0
    by_cases hb : b = (t.desc k).homenode
    · subst hb
      rw [Function.update_self]
      cases hcreator : t.creator k with
      | none =>
          rw [h.orphan k hk hcreator]
          exact hzero
      | some q =>
          obtain ⟨u, g, hg, htask, haddr⟩ := h.parent k q hk hcreator hopen
          -- the counter that goes down is that of a task on a stack, and `j` is on none
          have hc : c ≠ g.addr := by
            rintro rfl
            have hg' := (h.frame _ u g hg).owner
            rw [hown] at hg'
            refine h.no_frame ?_ ?_ _ u g hg (Option.some.inj hg').symm
            · intro i' v'
              rcases hj with hj | hj <;> rw [hj] <;> nofun
            · rcases hj with hj | hj <;> rw [hj] <;> rfl
          rw [haddr, depsatisfy_other _ hc]
          exact hzero
    · rw [Function.update_of_ne hb]
      exact hzero
  case frame =>
    have hsits := h.frame j w f hf
    refine
      { owner := hsits.owner
        status := ?status
        counted := fun c hc ↦ ?counted
        count := h.complete_frame hk hopen hf ran }
    case status =>
      by_cases htask : f.task = k
      · rw [htask, hself]
        exact .inr ⟨hleaving j w f hf htask, rfl⟩
      · rw [hother htask]
        exact hsits.status
    case counted =>
      obtain ⟨hcounted, hcreator⟩ := hsits.counted c hc
      refine ⟨?_, hcreator⟩
      rw [hother fun hck ↦ hnot (hck ▸ hcounted)]
      exact hcounted
  case parent =>
    have hne : j ≠ k := by
      rintro rfl
      rw [hself] at hdone
      cases hdone
    rw [hother hne] at hdone
    exact h.parent j q hj hq hdone

/-- `_torc_cleanup` of a task that has waited for its children. -/
theorem Inv.cleanup (h : Inv t) {t' : Tasks} (hs : t.cleanup i v = some t')
    (hwaited : ∀ f ∈ (t.stack i v).head?, f.pending = false) : Inv t' := by
  unfold Tasks.cleanup at hs
  split at hs
  · rename_i k a p rest hstack
    have hpending : p = false := hwaited _ (by rw [hstack]; rfl)
    have htop := h.frame i v _ (Inv.top_mem hstack)
    have hrun : t.status k = .running i v := htop.status.resolve_right fun hc ↦ nomatch hc.1
    have hk : k < t.issued := (h.born k).mp (by rw [hrun]; nofun)
    have hleave : Inv (t.setStack i v (⟨k, a, p, .leaving⟩ :: rest)) :=
      h.setCtl hstack nofun nofun ⟨hpending, htop.count.2 hpending⟩
    have hleaving : ∀ j w, ∀ f ∈ (t.setStack i v (⟨k, a, p, .leaving⟩ :: rest)).stack j w,
        f.task = k → f.ctl = .leaving := by
      intro j w f hf htask
      rcases h.mem_setTop hstack hf with ⟨-, -, rfl⟩ | ⟨-, hne⟩
      · rfl
      · exact absurd htask hne
    split at hs
    · cases hs
    · dsimp only at hs
      split at hs
      · -- away from home: the answer is still to be sent
        cases hs
        refine hleave.setStatus ?_ nofun ?_ ?_
          (fun _ _ hc ↦ by rcases hc with hc | hc <;> cases hc)
          fun j w f hf htask ↦ .inr ⟨hleaving j w f hf htask, rfl⟩
        · show t.status k ≠ _
          rw [hrun]
          nofun
        · show _ = (t.status k).isDone
          rw [hrun]
          rfl
        · show t.status k ≠ _
          rw [hrun]
          nofun
      · -- at home: `_torc_depsatisfy` at once
        rename_i hhome
        cases hs
        have hhome' : (t.desc k).homenode = i := not_not.mp hhome
        have hdone := hleave.complete (k := k) hk (by show (t.status k).isDone = _; rw [hrun]; rfl)
          (by show t.status k ≠ _; rw [hrun]; nofun) hleaving i
        rw [show (t.setStack i v (⟨k, a, p, .leaving⟩ :: rest)).desc k = t.desc k from rfl,
          hhome'] at hdone
        exact hdone
  · cases hs

/-- A server has executed the body of a task. -/
theorem Inv.served_answering (h : Inv t) (hk : t.status k = .served i a) (j : Nat) :
    Inv (t.setStatus k (.answering j)) :=
  h.setStatus (by rw [hk]; nofun) nofun (by rw [hk]; rfl) (by rw [hk]; nofun)
    (fun _ _ hc ↦ by rcases hc with hc | hc <;> cases hc)
    fun i' v' f hf htask ↦ absurd htask
      (h.no_frame (by rw [hk]; nofun) (by rw [hk]; rfl) i' v' f hf)

/-- The answer of a task has arrived. -/
theorem Inv.answered (h : Inv t) {r : Nat} (hk : t.status k = .answering r) (ran : Nat) :
    Inv (t.complete (t.desc k).homenode k (t.desc k).parent ran) := by
  refine h.complete ((h.born k).mp (by rw [hk]; nofun)) (by rw [hk]; rfl) (by rw [hk]; nofun)
    (fun j w f hf htask ↦ ?_) ran
  rcases (h.frame j w f hf).status with hrun | ⟨hctl, -⟩
  · rw [htask, hk] at hrun
    cases hrun
  · exact hctl

end Torc.Waiting
