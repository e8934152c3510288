import Torc.Waiting.Tasks
import Torc.Lib.Update

/-!
# What the counters count

The counter of a task is the number of its open children, and one more from its first spawn to its
next wait.  An address has one owner at a time, and the parent of an open child is on the stack of a
worker, at the address that the child has of it.
-/

namespace Torc.Waiting

open ForkJoin (beginWait depsatisfy)

variable {t : Tasks}

def Status.isOver : Status → Bool
  | .answering _ | .done _ => true
  | _ => false

/-- Which tasks can be at a place of the runtime: `n` is the number of open children. -/
def Ctl.Ok : Ctl → Bool → Nat → Prop
  | .running, pending, n => pending = false → n = 0
  | .started, pending, _ | .counted _, pending, _ => pending = true
  | .leaving, pending, n => pending = false ∧ n = 0
  | _, pending, _ => pending = false

/-- The counter `n` of a task with `k` open children. -/
def FrameOk (f : Frame) (n : Int) (k : Nat) : Prop :=
  n = k + (if f.pending then 1 else 0) ∧ f.ctl.Ok f.pending k

/-- A frame on the stack of worker `v` of node `i`. -/
structure Sits (t : Tasks) (i v : Nat) (f : Frame) : Prop where
  owner : t.owner i f.addr = some f.task
  status : t.status f.task = .running i v ∨ f.ctl = .leaving ∧ (t.status f.task).isOver = true
  counted : ∀ c, f.ctl = .counted c → t.status c = .counted ∧ t.creator c = some f.task
  count : FrameOk f (t.ndep i f.addr) (t.openChildren f.task)

/-- A frame does not depend on the pools, the descriptors and the stacks. -/
theorem Sits.congr {t' : Tasks} {i v : Nat} {f : Frame} (h : Sits t i v f)
    (howner : t'.owner = t.owner) (hstatus : t'.status = t.status)
    (hcreator : t'.creator = t.creator) (hndep : t'.ndep = t.ndep)
    (hissued : t'.issued = t.issued) : Sits t' i v f where
  owner := by
    rw [howner]
    exact h.owner
  status := by
    rw [hstatus]
    exact h.status
  counted := by
    rw [hstatus, hcreator]
    exact h.counted
  count := by
    rw [hndep]
    simp only [Tasks.openChildren, hissued, hcreator, hstatus]
    exact h.count

structure Inv (t : Tasks) : Prop where
  pool : ∀ i, (t.reuseQ i ++ t.held i).Nodup
  free : ∀ i, ∀ a ∈ t.reuseQ i ++ t.held i, a < t.fresh i ∧ t.owner i a = none
  owned : ∀ i a k, t.owner i a = some k → a < t.fresh i
  born : ∀ k, t.status k ≠ .unborn ↔ k < t.issued
  taskId : ∀ k, k < t.issued → (t.desc k).taskId = k
  orphan : ∀ k, k < t.issued → t.creator k = none → (t.desc k).parent = none
  idle : ∀ k i a, t.status k = .ready i a ∨ t.status k = .served i a →
    t.owner i a = some k ∧ t.ndep i a = 0
  frame : ∀ i v, ∀ f ∈ t.stack i v, Sits t i v f
  nodup : ∀ i v, ((t.stack i v).map Frame.task).Nodup
  unique : ∀ i v j w, ∀ f ∈ t.stack i v, ∀ g ∈ t.stack j w, f.task = g.task →
    i = j ∧ v = w
  parent : ∀ k p, k < t.issued → t.creator k = some p → (t.status k).isDone = false →
    ∃ v, ∃ f ∈ t.stack (t.desc k).homenode v, f.task = p ∧ (t.desc k).parent = some f.addr

/-! ## Parts of a state -/

section

variable {α : Type} (f : Nat → Nat → α) (i j : Nat) (x : α)

theorem set₂_self : set₂ f i j x i j = x :=
  Update.update_update_self f i j x

theorem set₂_row : set₂ f i j x i = Function.update (f i) j x :=
  Function.update_self ..

theorem set₂_other {i' j' : Nat} (h : ¬ (i' = i ∧ j' = j)) : set₂ f i j x i' j' = f i' j' :=
  Update.update_update_of_ne f x h

end

theorem setStatus_self (t : Tasks) (k : Nat) (st : Status) : (t.setStatus k st).status k = st :=
  Function.update_self ..

theorem setStatus_other (t : Tasks) {k j : Nat} (st : Status) (h : j ≠ k) :
    (t.setStatus k st).status j = t.status j :=
  Function.update_of_ne h ..

/-! ## Open children -/

theorem openChildren_congr (t t' : Tasks) (hissued : t'.issued = t.issued)
    (hcreator : t'.creator = t.creator)
    (hdone : ∀ k, (t'.status k).isDone = (t.status k).isDone) (p : Nat) :
    t'.openChildren p = t.openChildren p := by
  simp only [Tasks.openChildren, hissued, hcreator, hdone]

theorem openChildren_setStatus {k : Nat} {st : Status}
    (h : st.isDone = (t.status k).isDone) (p : Nat) :
    (t.setStatus k st).openChildren p = t.openChildren p := by
  refine openChildren_congr t (t.setStatus k st) rfl rfl (fun j ↦ ?_) p
  by_cases hj : j = k
  · subst hj
    rw [setStatus_self, h]
  · rw [setStatus_other t st hj]

/-- A new task is an open child of its creator. -/
theorem openChildren_issue (t : Tasks) (desc : TorcT) (creator : Option Nat) (p : Nat) :
    (t.issue desc creator).openChildren p =
      t.openChildren p + if creator = some p then 1 else 0 := by
  have hold : ((Finset.range t.issued).filter fun k ↦
      (t.issue desc creator).creator k = some p ∧
        ((t.issue desc creator).status k).isDone = false) =
      (Finset.range t.issued).filter fun k ↦
        t.creator k = some p ∧ (t.status k).isDone = false := by
    apply Finset.filter_congr
    intro k hk
    have hne : k ≠ t.issued := Nat.ne_of_lt (Finset.mem_range.mp hk)
    simp only [Tasks.issue, Function.update_of_ne hne]
  have hnew : (t.issue desc creator).creator t.issued = creator ∧
      ((t.issue desc creator).status t.issued).isDone = false := by
    simp only [Tasks.issue, Function.update_self, Status.isDone, and_self]
  rw [Tasks.openChildren, show (t.issue desc creator).issued = t.issued + 1 from rfl,
    Finset.range_add_one, Finset.filter_insert, hold, hnew.1]
  by_cases hp : creator = some p
  · rw [if_pos ⟨hp, hnew.2⟩, if_pos hp, Finset.card_insert_of_notMem]
    · rfl
    · intro hmem
      exact Nat.lt_irrefl _ (Finset.mem_range.mp (Finset.mem_filter.mp hmem).1)
  · rw [if_neg fun h ↦ hp h.1, if_neg hp]
    rfl

/-- A completed task is no open child any more. -/
theorem openChildren_done {k : Nat} (hk : k < t.issued) (hopen : (t.status k).isDone = false)
    (ran p : Nat) : (t.setStatus k (.done ran)).openChildren p +
      (if t.creator k = some p then 1 else 0) = t.openChildren p := by
  have herase : ((Finset.range t.issued).filter fun j ↦
      t.creator j = some p ∧ ((t.setStatus k (.done ran)).status j).isDone = false) =
      ((Finset.range t.issued).filter fun j ↦
        t.creator j = some p ∧ (t.status j).isDone = false).erase k := by
    ext j
    rw [Finset.mem_filter, Finset.mem_erase, Finset.mem_filter]
    by_cases hj : j = k
    · subst hj
      simp [setStatus_self, Status.isDone]
    · simp [setStatus_other t _ hj, hj]
  show (((Finset.range t.issued).filter fun j ↦
      t.creator j = some p ∧ ((t.setStatus k (.done ran)).status j).isDone = false).card) + _ = _
  rw [herase]
  by_cases hp : t.creator k = some p
  · rw [if_pos hp]
    exact Finset.card_erase_add_one
      (Finset.mem_filter.mpr ⟨Finset.mem_range.mpr hk, hp, hopen⟩)
  · rw [if_neg hp, Nat.add_zero, Finset.erase_eq_of_notMem]
    · rfl
    · exact fun hmem ↦ hp (Finset.mem_filter.mp hmem).2.1

theorem openChildren_pos {k p : Nat} (hk : k < t.issued) (hp : t.creator k = some p)
    (hopen : (t.status k).isDone = false) : 0 < t.openChildren p :=
  Finset.card_pos.mpr ⟨k, Finset.mem_filter.mpr ⟨Finset.mem_range.mpr hk, hp, hopen⟩⟩

/-- A task without open children has no child that is not done. -/
theorem done_of_openChildren {p : Nat} (h : t.openChildren p = 0) {k : Nat} (hk : k < t.issued)
    (hp : t.creator k = some p) : ∃ ran, t.status k = .done ran := by
  cases hst : t.status k with
  | done ran => exact ⟨ran, rfl⟩
  | _ =>
      have hpos := openChildren_pos hk hp (by rw [hst]; rfl)
      omega

/-! ## The top of a stack -/

section

variable {i v j w k a : Nat} {p p' : Bool} {ctl ctl' : Ctl} {f g : Frame} {rest : List Frame}

theorem setStack_self (t : Tasks) (i v : Nat) (l : List Frame) : (t.setStack i v l).stack i v = l :=
  set₂_self ..

theorem setStack_other (t : Tasks) (l : List Frame) (h : ¬ (j = i ∧ w = v)) :
    (t.setStack i v l).stack j w = t.stack j w :=
  set₂_other _ _ _ _ h

theorem setNdep_self (t : Tasks) (i : Nat) (m : Nat → Int) : (t.setNdep i m).ndep i = m :=
  Function.update_self ..

theorem setNdep_other (t : Tasks) (m : Nat → Int) (h : j ≠ i) :
    (t.setNdep i m).ndep j = t.ndep j :=
  Function.update_of_ne h ..

/-- An address belongs to one task. -/
theorem Inv.task_eq (h : Inv t) (hf : f ∈ t.stack i v) (hg : g ∈ t.stack i w)
    (ha : f.addr = g.addr) : f.task = g.task := by
  have hown := (h.frame i v f hf).owner
  rw [ha, (h.frame i w g hg).owner] at hown
  exact (Option.some.inj hown).symm

/-- A task is on one stack, once. -/
theorem Inv.frame_eq (h : Inv t) (hf : f ∈ t.stack i v) (hg : g ∈ t.stack j w)
    (htask : f.task = g.task) : f = g := by
  obtain ⟨rfl, rfl⟩ := h.unique i v j w f hf g hg htask
  exact List.inj_on_of_nodup_map (h.nodup i v) hf hg htask

/-- No task is twice on a stack after one stack has been replaced. -/
theorem Inv.nodup_setStack (h : Inv t) {l : List Frame}
    (hl : (l.map Frame.task).Nodup) (j w : Nat) :
    (((t.setStack i v l).stack j w).map Frame.task).Nodup := by
  by_cases hpos : j = i ∧ w = v
  · obtain ⟨rfl, rfl⟩ := hpos
    rw [setStack_self]
    exact hl
  · rw [setStack_other t _ hpos]
    exact h.nodup j w

theorem Inv.nodup_stack (h : Inv t) (hs : t.stack i v = f :: rest) :
    ((f :: rest).map Frame.task).Nodup := by
  rw [← hs]
  exact h.nodup i v

theorem Inv.top_mem (hs : t.stack i v = f :: rest) : f ∈ t.stack i v := by
  rw [hs]
  exact List.mem_cons_self

theorem Inv.rest_ne (h : Inv t) (hs : t.stack i v = f :: rest) (hg : g ∈ rest) :
    g ∈ t.stack i v ∧ g.task ≠ f.task := by
  refine ⟨by rw [hs]; exact List.mem_cons_of_mem _ hg, fun heq ↦ ?_⟩
  have hnodup := h.nodup_stack hs
  rw [List.map_cons, List.nodup_cons] at hnodup
  exact hnodup.1 (List.mem_map.mpr ⟨g, hg, heq⟩)

/-- With a new top frame, all other frames are as before and belong to other tasks. -/
theorem Inv.mem_setTop (h : Inv t) (hs : t.stack i v = f :: rest) {f' : Frame}
    (hg : g ∈ (t.setStack i v (f' :: rest)).stack j w) :
    (j = i ∧ w = v ∧ g = f') ∨ (g ∈ t.stack j w ∧ g.task ≠ f.task) := by
  by_cases hpos : j = i ∧ w = v
  · obtain ⟨rfl, rfl⟩ := hpos
    rw [setStack_self] at hg
    rcases List.mem_cons.mp hg with rfl | hg
    · exact .inl ⟨rfl, rfl, rfl⟩
    · exact .inr (h.rest_ne hs hg)
  · rw [setStack_other t _ hpos] at hg
    refine .inr ⟨hg, fun heq ↦ hpos ?_⟩
    exact h.unique j w i v g hg f (Inv.top_mem hs) heq

/-- A frame after a change of the top one was there before, and the other way round. -/
theorem Inv.setTop_mem (hs : t.stack i v = f :: rest) (f' : Frame) (htask : f'.task = f.task)
    (haddr : f'.addr = f.addr) (hg : g ∈ t.stack j w) :
    ∃ g' ∈ (t.setStack i v (f' :: rest)).stack j w, g'.task = g.task ∧ g'.addr = g.addr := by
  by_cases hpos : j = i ∧ w = v
  · obtain ⟨rfl, rfl⟩ := hpos
    rw [hs] at hg
    rw [setStack_self]
    rcases List.mem_cons.mp hg with rfl | hg
    · exact ⟨f', List.mem_cons_self, htask, haddr⟩
    · exact ⟨g, List.mem_cons_of_mem _ hg, rfl, rfl⟩
  · rw [setStack_other t _ hpos]
    exact ⟨g, hg, rfl, rfl⟩

/-- A step of the top task: its counter, its place and whether it has spawned may change. -/
theorem Inv.setTop (h : Inv t) (hs : t.stack i v = ⟨k, a, p, ctl⟩ :: rest)
    (hnot : ctl ≠ .leaving)
    (m : Nat → Int) (hm : ∀ b, b ≠ a → m b = t.ndep i b)
    (hcounted : ∀ c, ctl' = .counted c → t.status c = .counted ∧ t.creator c = some k)
    (hok : FrameOk ⟨k, a, p', ctl'⟩ (m a) (t.openChildren k)) :
    Inv ((t.setNdep i m).setStack i v (⟨k, a, p', ctl'⟩ :: rest)) := by
  have htop := h.frame i v _ (Inv.top_mem hs)
  have hstatus : t.status k = .running i v := htop.status.resolve_right fun hc ↦ hnot hc.1
  -- the other addresses of the node have other owners
  have hndep :
      ∀ j b k', t.owner j b = some k' → k' ≠ k → (t.setNdep i m).ndep j b = t.ndep j b := by
    intro j b k' hown hne
    by_cases hj : j = i
    · subst hj
      rw [setNdep_self]
      refine hm b fun hb ↦ hne ?_
      rw [hb, htop.owner] at hown
      exact (Option.some.inj hown).symm
    · rw [setNdep_other t m hj]
  have hmem : ∀ j w, ∀ g ∈
      ((t.setNdep i m).setStack i v (⟨k, a, p', ctl'⟩ :: rest)).stack j w,
      (j = i ∧ w = v ∧ g = ⟨k, a, p', ctl'⟩) ∨ (g ∈ t.stack j w ∧ g.task ≠ k) :=
    fun j w g hg ↦ h.mem_setTop hs hg
  have hold : ∀ j w, ∀ g ∈
      ((t.setNdep i m).setStack i v (⟨k, a, p', ctl'⟩ :: rest)).stack j w,
      ∃ g₀ ∈ t.stack j w, g₀.task = g.task := by
    intro j w g hg
    rcases hmem j w g hg with ⟨rfl, rfl, rfl⟩ | ⟨hg, -⟩
    · exact ⟨_, Inv.top_mem hs, rfl⟩
    · exact ⟨g, hg, rfl⟩
  refine { h with
    idle := fun k' j b hst ↦ ?idle
    frame := fun j w g hg ↦ ?frame
    nodup := h.nodup_setStack (h.nodup_stack (f := ⟨k, a, p, ctl⟩) hs)
    unique := fun j w j' w' g hg g' hg' heq ↦ ?unique
    parent := fun c q hc hq hopen ↦ ?parent }
  case idle =>
    obtain ⟨hown, hzero⟩ := h.idle k' j b hst
    -- the top task runs, so an idle task is another one
    refine ⟨hown, (hndep j b k' hown fun hk ↦ ?_).trans hzero⟩
    have hst' : t.status k' = .ready j b ∨ t.status k' = .served j b := hst
    rw [hk, hstatus] at hst'
    rcases hst' with hst' | hst' <;> cases hst'
  case frame =>
    rcases hmem j w g hg with ⟨rfl, rfl, rfl⟩ | ⟨hg, hne⟩
    · have hcount :
          FrameOk ⟨k, a, p', ctl'⟩ ((t.setNdep j m).ndep j a) (t.openChildren k) := by
        rw [setNdep_self]
        exact hok
      exact { owner := htop.owner, status := .inl hstatus, counted := hcounted, count := hcount }
    · have hsits := h.frame j w g hg
      have hcount : FrameOk g ((t.setNdep i m).ndep j g.addr) (t.openChildren g.task) := by
        rw [hndep j g.addr g.task hsits.owner hne]
        exact hsits.count
      exact
        { owner := hsits.owner
          status := hsits.status
          counted := hsits.counted
          count := hcount }
  case unique =>
    -- a frame of the new stack is an old one or has the task of the old top
    obtain ⟨g₀, hg₀, htask⟩ := hold j w g hg
    obtain ⟨g₁, hg₁, htask'⟩ := hold j' w' g' hg'
    exact h.unique j w j' w' g₀ hg₀ g₁ hg₁ (by rw [htask, htask', heq])
  case parent =>
    obtain ⟨u, g, hg, htask, haddr⟩ := h.parent c q hc hq hopen
    obtain ⟨g', hg', htask', haddr'⟩ := Inv.setTop_mem hs ⟨k, a, p', ctl'⟩ rfl rfl hg
    exact ⟨u, g', hg', htask'.trans htask, haddr.trans (congrArg some haddr'.symm)⟩

end

/-! ## The steps of a body -/

theorem FrameOk.startSpawn {k a : Nat} {p : Bool} {n : Int} {c : Nat}
    (h : FrameOk ⟨k, a, p, .running⟩ n c) :
    FrameOk ⟨k, a, true, .started⟩ (if n = 0 then 1 else n) c := by
  obtain ⟨hn, hok⟩ := h
  refine ⟨?_, rfl⟩
  cases p with
  | false =>
      have hc : c = 0 := hok rfl
      simp only [Bool.false_eq_true, ↓reduceIte] at hn ⊢
      -- the first spawn since the last wait: the task counts itself
      rw [if_pos (by omega)]
      omega
  | true =>
      simp only [↓reduceIte] at hn ⊢
      rw [if_neg (by omega)]
      exact hn

theorem FrameOk.startWait {k a : Nat} {p : Bool} {n : Int} {c : Nat}
    (h : FrameOk ⟨k, a, p, .running⟩ n c) (w : Wait) :
    FrameOk ⟨k, a, false, .check w⟩ (if n - 1 < 0 then 0 else n - 1) c := by
  obtain ⟨hn, hok⟩ := h
  refine ⟨?_, by cases w <;> rfl⟩
  cases p with
  | false =>
      have hc : c = 0 := hok rfl
      simp only [Bool.false_eq_true, ↓reduceIte] at hn ⊢
      -- nothing was spawned, and the counter stays at 0
      rw [if_pos (by omega)]
      omega
  | true =>
      simp only [↓reduceIte, Bool.false_eq_true] at hn ⊢
      rw [if_neg (by omega)]
      omega

/-- The tests leave the counter as it is and end the wait only when no child is open. -/
theorem FrameOk.poll {k a : Nat} {p : Bool} {ctl ctl' : Ctl} {n n' : Int} {c : Nat}
    (h : FrameOk ⟨k, a, p, ctl⟩ n c) (hpoll : pollCtl n ctl = some (n', ctl')) :
    FrameOk ⟨k, a, p, ctl'⟩ n' c := by
  obtain ⟨hn, hok⟩ := h
  have hwait : ∀ {ctl : Ctl}, p = false → ctl.Ok p c → FrameOk ⟨k, a, p, ctl⟩ n c :=
    fun _ hctl ↦ ⟨hn, hctl⟩
  -- a task that waits does not count itself
  have hzero : p = false → n = c := by
    rintro rfl
    simp only [Bool.false_eq_true, ↓reduceIte] at hn
    omega
  cases ctl with
  | check w =>
      cases w with
      | waitall =>
          simp only [pollCtl, Option.some.injEq, Prod.mk.injEq] at hpoll
          obtain ⟨rfl, rfl⟩ := hpoll
          -- without a pending spawn the counter is that of the open children
          by_cases hle : n ≤ 0
          · rw [if_pos hle]
            exact hwait hok fun hp ↦ by have := hzero hp; omega
          · rw [if_neg hle]
            exact hwait hok hok
      | waitall2 =>
          simp only [pollCtl, Option.some.injEq, Prod.mk.injEq] at hpoll
          obtain ⟨rfl, rfl⟩ := hpoll
          split <;> exact hwait hok hok
  | locked =>
      simp only [pollCtl, Option.some.injEq] at hpoll
      by_cases hle : n ≤ 0
      · rw [if_pos hle] at hpoll
        obtain ⟨rfl, rfl⟩ := Prod.mk.inj hpoll
        have hc := hzero hok
        have h0 : n = 0 := by omega
        rw [← h0]
        exact hwait hok fun _ ↦ by omega
      · rw [if_neg hle] at hpoll
        obtain ⟨rfl, rfl⟩ := Prod.mk.inj hpoll
        exact hwait hok hok
  | noWork =>
      simp only [pollCtl, Option.some.injEq, Prod.mk.injEq] at hpoll
      obtain ⟨rfl, rfl⟩ := hpoll
      by_cases h0 : n = 0
      · rw [if_pos h0]
        exact hwait hok fun hp ↦ by have := hzero hp; omega
      · rw [if_neg h0]
        exact hwait hok hok
  | _ => cases hpoll

end Torc.Waiting
