import Torc.Parallel.Outcome
import Torc.Lib.NestedStacks

/-!
# The order in which bodies begin

A body begins after that of its parent, and on each stack it begins after those under it.
-/

namespace Torc.Parallel

open Transition
open Cluster (IsWorker)

variable {β : Type}

namespace Tasks

/-- The parent of a task has begun, and before the task itself has. -/
structure Ordered (s : Tasks β) : Prop where
  root : (s.status 0).HasBegun
  clock : ∀ k, (s.status k).HasBegun → s.begun k < s.clock
  parent : ∀ k < s.issued, ∀ p ∈ (s.desc k).parent, (s.status p).HasBegun
  after : ∀ k < s.issued, ∀ p ∈ (s.desc k).parent, (s.status k).HasBegun →
    s.begun p < s.begun k

variable {s s' : Tasks β} {root : Body β} {k : Nat}

theorem Ordered.start (root : Body β) : (Tasks.start root).Ordered where
  root := trivial
  clock _ _ := Nat.one_pos
  parent _ _ _ hp := by cases hp
  after _ _ _ hp := by cases hp

/-- A body that has begun goes on to another status. -/
theorem Ordered.setStatus (h : s.Ordered) (hk : (s.status k).HasBegun) (st : Status β)
    (hst : st.HasBegun) : (s.setStatus k st).Ordered := by
  have hsame : ∀ j, ((s.setStatus k st).status j).HasBegun ↔ (s.status j).HasBegun := by
    intro j
    by_cases hj : j = k
    · subst hj
      simp [Tasks.setStatus, hk, hst]
    · simp [Tasks.setStatus, Function.update_of_ne hj]
  exact ⟨(hsame 0).mpr h.root, fun j hj ↦ h.clock j ((hsame j).mp hj),
    fun j hj p hp ↦ (hsame p).mpr (h.parent j hj p hp),
    fun j hj p hp hbegun ↦ h.after j hj p hp ((hsame j).mp hbegun)⟩

theorem Ordered.execute (h : s.Ordered) (hk : s.status k = .ready) : (s.execute k).Ordered := by
  have hnew : ¬ (s.status k).HasBegun := by
    rw [hk]
    exact id
  have hother : ∀ j, j ≠ k → (((s.execute k).status j).HasBegun ↔ (s.status j).HasBegun) ∧
      (s.execute k).begun j = s.begun j := by
    intro j hj
    simp [Tasks.execute, Tasks.setStatus, Function.update_of_ne hj]
  have hself : (s.execute k).begun k = s.clock := Function.update_self ..
  have hclock : (s.execute k).clock = s.clock + 1 := rfl
  have hparent : ∀ j < s.issued, ∀ p ∈ (s.desc j).parent, p ≠ k := by
    rintro j hj p hp rfl
    exact hnew (h.parent j hj p hp)
  refine ⟨?_, ?_, ?_, ?_⟩
  · have hzero : 0 ≠ k := by
      rintro rfl
      exact hnew h.root
    exact (hother 0 hzero).1.mpr h.root
  · intro j hj
    by_cases hjk : j = k
    · subst hjk
      omega
    · have hlt := h.clock j ((hother j hjk).1.mp hj)
      rw [(hother j hjk).2]
      omega
  · intro j hj p hp
    exact (hother p (hparent j hj p hp)).1.mpr (h.parent j hj p hp)
  · intro j hj p hp hbegun
    rw [(hother p (hparent j hj p hp)).2]
    by_cases hjk : j = k
    · subst hjk
      rw [hself]
      exact h.clock p (h.parent j hj p hp)
    · rw [(hother j hjk).2]
      exact h.after j hj p hp ((hother j hjk).1.mp hbegun)

theorem Ordered.createChild (h : s.Ordered) (hinv : s.Inv root) (hk : s.status k = .running)
    (me : Nat) (child rest : Body β) : (s.createChild k me child rest).Ordered := by
  have hother : ∀ j, j ≠ s.issued →
      (s.createChild k me child rest).status j = s.status j ∧
        (s.createChild k me child rest).desc j = s.desc j := by
    intro j hj
    simp [Tasks.createChild, Function.update_of_ne hj]
  have hold : ∀ j, (s.status j).HasBegun → j ≠ s.issued := by
    rintro j hj rfl
    rw [hinv.unborn _ le_rfl] at hj
    exact hj
  have hbegun : ∀ j, ((s.createChild k me child rest).status j).HasBegun →
      (s.status j).HasBegun := by
    intro j hj
    by_cases hnew : j = s.issued
    · subst hnew
      have hready : (s.createChild k me child rest).status s.issued = .ready :=
        Function.update_self ..
      rw [hready] at hj
      exact hj.elim
    · rwa [(hother j hnew).1] at hj
  refine ⟨?_, fun j hj ↦ h.clock j (hbegun j hj), ?_, ?_⟩
  · rw [(hother 0 hinv.pos.ne).1]
    exact h.root
  · intro j hj p hp
    by_cases hnew : j = s.issued
    · subst hnew
      rw [createChild_desc_new] at hp
      obtain rfl := Option.mem_some.mp hp
      have hrun : (s.status k).HasBegun := by
        rw [hk]
        trivial
      rw [(hother k (hold k hrun)).1]
      exact hrun
    · have hlt : j < s.issued := Nat.lt_of_le_of_ne (Nat.lt_succ_iff.mp hj) hnew
      rw [(hother j hnew).2] at hp
      have hp' := h.parent j hlt p hp
      rw [(hother p (hold p hp')).1]
      exact hp'
  · intro j hj p hp hj'
    have hb := hbegun j hj'
    have hnew := hold j hb
    rw [(hother j hnew).2] at hp
    exact h.after j (Nat.lt_of_le_of_ne (Nat.lt_succ_iff.mp hj) hnew) p hp hb

theorem Ordered.step (h : s.Ordered) (hinv : s.Inv root) (hstep : Step s s') : s'.Ordered := by
  cases hstep with
  | @body k me s' hk hbody =>
      have hbegun : (s.status k).HasBegun := by
        rw [hk]
        trivial
      cases hbody with
      | createChild hctl hcode => exact h.createChild hinv hk me _ _
      | @complete result hctl hcode =>
          have hset := h.setStatus hbegun .done trivial
          exact ⟨hset.root, hset.clock, hset.parent, hset.after⟩
      | answer hctl hcode => exact h.setStatus hbegun _ trivial
      | _ => exact ⟨h.root, h.clock, h.parent, h.after⟩
  | execute hk => exact h.execute hk
  | @complete k result hk =>
      have hbegun : (s.status k).HasBegun := by
        rw [hk]
        trivial
      have hset := h.setStatus hbegun .done trivial
      exact ⟨hset.root, hset.clock, hset.parent, hset.after⟩

end Tasks

/-! ## Stacks -/

/-- The tasks on each stack, and the program only on that of worker 0 of node 0. -/
structure Stacked (s : State β) : Prop where
  sorted : NestedStacks.Sorted (fun w : Nat × Nat ↦ (s.worker w.1 w.2).stack) s.tasks.begun
  program : ∀ i v, 0 ∈ (s.worker i v).stack → i = 0 ∧ v = 0

variable {workers : List Nat} {s s' : State β} {i v k : Nat} {θ : Thread}

theorem Stacked.start (root : Body β) : Stacked (.start root : State β) where
  sorted w := by
    simp only [State.start]
    split <;> simp
  program i v h := by
    by_contra hne
    simp only [State.start, if_neg hne] at h
    cases h

/-- No body begins. -/
theorem Stacked.of_sublist (h : Stacked s) (hbegun : s'.tasks.begun = s.tasks.begun)
    (hstack : ∀ j u, (s'.worker j u).stack.Sublist (s.worker j u).stack) : Stacked s' where
  sorted w := by
    rw [hbegun]
    exact (h.sorted w).sublist (hstack w.1 w.2)
  program j u hmem := h.program j u ((hstack j u).mem hmem)

theorem stack_setCtl (s : State β) (i v : Nat) (ctl : WorkerCtl) (j u : Nat) :
    ((s.setCtl i v ctl).worker j u).stack = (s.worker j u).stack := by
  by_cases hju : j = i ∧ u = v
  · obtain ⟨rfl, rfl⟩ := hju
    rw [State.setCtl, worker_setWorker_self]
  · rw [State.setCtl, worker_setWorker_of_ne hju]

theorem stack_setStack (s : State β) {l : List Nat} (hl : l.Sublist (s.worker i v).stack)
    (j u : Nat) : ((s.setStack i v l).worker j u).stack.Sublist (s.worker j u).stack := by
  by_cases hju : j = i ∧ u = v
  · obtain ⟨rfl, rfl⟩ := hju
    rw [State.setStack, worker_setWorker_self]
    exact hl
  · rw [State.setStack, worker_setWorker_of_ne hju]

theorem Stacked.setCtl (h : Stacked s) (t : State β) (hbegun : t.tasks.begun = s.tasks.begun)
    (hworker : t.worker = s.worker) (ctl : WorkerCtl) : Stacked (t.setCtl i v ctl) := by
  apply h.of_sublist
  · exact hbegun
  · intro j u
    rw [stack_setCtl, hworker]

theorem Stacked.pop (h : Stacked s) (t : State β) (hbegun : t.tasks.begun = s.tasks.begun)
    (hworker : t.worker = s.worker) {rest : List Nat} (hruns : Runs workers s i v k rest) :
    Stacked (t.setStack i v rest) := by
  apply h.of_sublist
  · exact hbegun
  · intro j u
    rw [← hworker]
    apply stack_setStack
    rw [hworker, hruns.stack]
    exact List.sublist_cons_self ..

/-- The new frame began after all others. -/
theorem Stacked.execute (h : Stacked s) (hplaced : Placed s) (hordered : s.tasks.Ordered)
    (hctl : (s.worker i v).ctl = .got k) : Stacked (Parallel.execute s i v k) := by
  have hready := hplaced.status_got hctl
  have hrunning : ∀ j u, ∀ t ∈ (s.worker j u).stack, s.tasks.status t = .running := by
    intro j u t ht
    exact hplaced.shows (.stack j u) (t, .running) (List.mem_map_of_mem ht)
  have hne : ∀ j u, ∀ t ∈ (s.worker j u).stack, t ≠ k := by
    rintro j u t ht rfl
    rw [hrunning j u t ht] at hready
    cases hready
  have hbegun : ∀ t, t ≠ k → (Parallel.execute s i v k).tasks.begun t = s.tasks.begun t :=
    fun t ht ↦ Function.update_of_ne ht ..
  have hold : ∀ j u, (s.worker j u).stack.Pairwise fun t t' ↦
      (Parallel.execute s i v k).tasks.begun t' < (Parallel.execute s i v k).tasks.begun t := by
    intro j u
    apply (h.sorted (j, u)).imp_of_mem
    intro t t' ht ht' hlt
    rw [hbegun t (hne j u t ht), hbegun t' (hne j u t' ht')]
    exact hlt
  have hself : ((Parallel.execute s i v k).worker i v).stack = k :: (s.worker i v).stack := by
    rw [Parallel.execute, State.setStack, worker_setWorker_self]
  have hother : ∀ j u, ¬ (j = i ∧ u = v) →
      ((Parallel.execute s i v k).worker j u).stack = (s.worker j u).stack := by
    intro j u hju
    rw [Parallel.execute, State.setStack, worker_setWorker_of_ne hju]
  constructor
  · rintro ⟨j, u⟩
    by_cases hju : j = i ∧ u = v
    · obtain ⟨rfl, rfl⟩ := hju
      show List.Pairwise _ ((Parallel.execute s j u k).worker j u).stack
      rw [hself, List.pairwise_cons]
      refine ⟨fun t ht ↦ ?_, hold j u⟩
      have hk : (Parallel.execute s j u k).tasks.begun k = s.tasks.clock := Function.update_self ..
      rw [hbegun t (hne j u t ht), hk]
      apply hordered.clock
      rw [hrunning j u t ht]
      trivial
    · show List.Pairwise _ ((Parallel.execute s i v k).worker j u).stack
      rw [hother j u hju]
      exact hold j u
  · intro j u hmem
    by_cases hju : j = i ∧ u = v
    · obtain ⟨rfl, rfl⟩ := hju
      rw [hself] at hmem
      rcases List.mem_cons.mp hmem with rfl | hrest
      · -- the program has begun
        have hroot := hordered.root
        rw [hready] at hroot
        exact hroot.elim
      · exact h.program j u hrest
    · rw [hother j u hju] at hmem
      exact h.program j u hmem

theorem Stacked.move (h : Stacked s) (hplaced : Placed s) (hordered : s.tasks.Ordered)
    (hmove : Move workers s θ s') : Stacked s' := by
  cases hmove with
  | @returnHome i v k rest result hruns hstep =>
      exact h.pop (s.setTasks (s.tasks.complete k result)) rfl rfl hruns
  | @returnAway i v k rest result hruns hstep hhome =>
      exact h.pop ((s.setTasks (s.tasks.answer k result)).send _ _) rfl rfl hruns
  | @found i v k again pos q => exact h.setCtl (s.setQueues i q) rfl rfl _
  | @pass i v again on => exact h.setCtl (s.setStealing i on) rfl rfl _
  | @ask i => exact h.setCtl ((s.lockInternode i true).send _ _) rfl rfl _
  | @refused i v node again on net =>
      exact h.setCtl (((s.setNet net).lockInternode i false).setStealing i on) rfl rfl _
  | @stolen i v k node again net =>
      exact h.setCtl (((s.setNet net).lockInternode i false).countHit i) rfl rfl _
  | execute hworker hctl => exact h.execute hplaced hordered hctl
  | _ =>
      apply h.of_sublist
      · rfl
      · exact fun _ _ ↦ List.Sublist.refl _

theorem Stacked.change {o : Option Thread} (h : Stacked s) (hplaced : Placed s)
    (hordered : s.tasks.Ordered) (hchange : Change workers s o s') : Stacked s' := by
  cases hchange with
  | move hmove => exact h.move hplaced hordered hmove
  | poll => exact h.setCtl s rfl rfl _
  | toggle =>
      apply h.of_sublist
      · rfl
      · exact fun _ _ ↦ List.Sublist.refl _

end Torc.Parallel
