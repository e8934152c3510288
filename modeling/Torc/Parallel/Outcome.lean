import Torc.Parallel.Ranges
import Torc.Parallel.Serial
import Torc.Parallel.Work

/-!
# What a program returns

The result of a fork-join program is that of its serial run on every cluster and in every run, and
so are the tasks that it has created and executed when it returns.
-/

namespace Torc.Parallel

open Transition Ledger
open Cluster (IsWorker)

variable {β : Type} {workers : List Nat} {root : Body β} {s s' : State β}

structure Coherent (workers : List Nat) (root : Body β) (s : State β) : Prop where
  sound : Sound workers s
  placed : Placed s
  tasks : s.tasks.Inv root
  counted : s.tasks.Counted root
  serial : s.tasks.Serial

theorem isWorker_zero (L : Layout) : IsWorker L.workers 0 0 := by
  refine ⟨L.nodes, ?_⟩
  rw [List.getD_eq_getElem _ _ L.nodes]
  exact (L.counts _ (List.getElem_mem _)).1

theorem sound_start (L : Layout) (root : Body β) : Sound L.workers (.start root) where
  worker i v := by
    by_cases hiv : i = 0 ∧ v = 0
    · obtain ⟨rfl, rfl⟩ := hiv
      exact .inl (isWorker_zero L)
    · exact .inr (if_neg hiv)
  ctl i v := by
    by_cases hiv : i = 0 ∧ v = 0
    · simp only [State.start, if_pos hiv]
      trivial
    · simp only [State.start, if_neg hiv]
      trivial
  server _ := trivial
  serving _ := .inr rfl
  queues _ := .inr rfl
  net := nofun
  home _ := L.nodes

/-- At the start the program is on the stack of worker 0 of node 0. -/
theorem placed_start (root : Body β) : Placed (.start root : State β) := by
  have hempty : ∀ p, p ≠ .stack 0 0 → entries (.start root : State β) p = [] := by
    intro p hp
    cases p with
    | hand i v =>
        simp only [entries, State.start]
        split <;> rfl
    | stack i v =>
        have hiv : ¬ (i = 0 ∧ v = 0) := by
          rintro ⟨rfl, rfl⟩
          exact hp rfl
        simp only [entries, State.start, if_neg hiv]
        rfl
    | _ => rfl
  have hnone : Labelled (fun _ ↦ False) (.start root : State β).tasks.status
      (fun _ : Place ↦ []) := by
    refine ⟨⟨?_, fun _ _ _ ↦ rfl⟩, ?_⟩
    · intro k hk
      exact hk.elim
    · intro p e he
      cases he
  have hin : Adds (fun _ : Place ↦ []) (entries (.start root : State β)) (0, .running)
      (.stack 0 0) := ⟨List.Perm.refl _, hempty⟩
  apply hnone.issues hin id _ (fun _ _ ↦ rfl) rfl
  intro k
  unfold Live
  by_cases hk : k = 0
  · subst hk
    simp [State.start, Tasks.start, Status.isDone]
  · simp [State.start, Tasks.start, hk]

theorem Coherent.start (L : Layout) (hjoins : root.Joins false) :
    Coherent L.workers root (.start root) :=
  ⟨sound_start L root, placed_start root, Tasks.Inv.start hjoins, Tasks.Counted.start,
    Tasks.Serial.start root⟩

theorem Coherent.tasks_or_step {o : Option Thread} (h : Coherent workers root s)
    (hchange : Change workers s o s') : s'.tasks = s.tasks ∨ Tasks.Step s.tasks s'.tasks := by
  cases hchange with
  | poll | toggle => exact .inl rfl
  | move hmove => exact h.placed.simulates hmove

theorem Coherent.change {o : Option Thread} (h : Coherent workers root s)
    (hcounts : ∀ w ∈ workers, w ≤ maxNvps) (hchange : Change workers s o s') :
    Coherent workers root s' := by
  have hsound := h.sound.change hcounts hchange
  have hplaced := h.placed.change hchange
  rcases h.tasks_or_step hchange with heq | hstep
  · refine ⟨hsound, hplaced, ?_, ?_, ?_⟩ <;> rw [heq]
    · exact h.tasks
    · exact h.counted
    · exact h.serial
  · exact ⟨hsound, hplaced, h.tasks.step hstep, h.counted.step h.tasks hstep,
      h.serial.step h.tasks hstep⟩

theorem coherent_of_reachable (L : Layout) (hjoins : root.Joins false)
    (h : (system L.workers root).Reachable s) : Coherent L.workers root s := by
  apply h.invariant (Coherent L.workers root)
  · rintro s rfl
    exact Coherent.start L hjoins
  · intro s s' a hinv _ hstep
    exact hinv.change L.le (step_change hinv.sound hstep)

/-- The tasks are those of the serial run, in the same tree of calls. -/
structure Tasks.SameTree (root : Body β) (t : Tasks β) : Prop where
  place : ∀ k, k < t.issued ↔ ∃! path, t.taskAt path = some k
  body : ∀ path, (t.taskAt path).map (fun k ↦ (t.desc k).body) = root.taskAt path

/-- Every task has been executed once, at a time of its own, and its variable holds the result of
its serial run. -/
structure Tasks.Executed (t : Tasks β) : Prop where
  done : ∀ k < t.issued, (t.status k).isDone = true
  result : ∀ k < t.issued, t.cell k = some ((t.desc k).body.eval [])
  once : Set.BijOn t.begun {k | k < t.issued} {time | time < t.clock}

/-- What the serial run leaves: its tasks, all executed, with their results, and no task anywhere in
a queue, in a message or on a stack. -/
structure Finished (root : Body β) (s : State β) : Prop where
  result : s.tasks.cell 0 = some (root.eval [])
  created : s.tasks.issued = 1 + root.spawned []
  begun : s.tasks.clock = s.tasks.issued
  tree : s.tasks.SameTree root
  executed : s.tasks.Executed
  quiet : ∀ p, entries s p = []

theorem Coherent.executed (h : Coherent workers root s) (hreturned : s.returned = true) :
    s.tasks.Executed where
  done _ hk := h.tasks.all_done hreturned hk
  result k hk := (h.tasks.task k hk).done (h.tasks.all_done hreturned hk)
  once := by
    have hset : {k | k < s.tasks.issued} = {k | (s.tasks.status k).HasBegun} := by
      ext k
      constructor
      · intro hk
        exact (Status.hasReturned_of_isDone (h.tasks.all_done hreturned hk)).hasBegun
      · intro hk
        apply h.tasks.lt_issued
        intro hunborn
        have hbegun : (s.tasks.status k).HasBegun := hk
        rw [hunborn] at hbegun
        exact hbegun
    rw [hset]
    exact h.serial.begun

theorem Coherent.finished (h : Coherent workers root s) (hreturned : s.returned = true) :
    Finished root s where
  result := by
    have hdone := (h.executed hreturned).result 0 h.tasks.pos
    rwa [h.tasks.root_body] at hdone
  created := by
    have hspawned := h.counted.spawned
    rw [h.tasks.total_eq_zero hreturned] at hspawned
    exact hspawned
  begun := by
    have hbegun := h.counted.begun
    rw [h.tasks.total_eq_zero hreturned] at hbegun
    exact hbegun
  tree :=
    ⟨h.tasks.existsUnique_taskAt, h.serial.body_taskAt h.tasks fun _ hk ↦
      Status.hasReturned_of_isDone (h.tasks.all_done hreturned hk)⟩
  executed := h.executed hreturned
  quiet p := by
    rw [List.eq_nil_iff_forall_not_mem]
    intro e he
    have hlive := h.placed.issued_of_mem he
    have hdone := h.tasks.all_done hreturned hlive.1
    rw [hlive.2] at hdone
    cases hdone

/-- Whatever the numbers of nodes and workers, the queue arguments, the interleaving and the steals,
a program that waits for its children returns what its serial run returns. -/
theorem serial_outcome (L : Layout) (p : Program β L.workers)
    (h : (system L.workers p.body).Reachable s) (hreturned : s.returned = true) :
    Finished p.body s :=
  (coherent_of_reachable L p.joins h).finished hreturned

/-- A child for the worker of the other node, and its result. -/
def remoteChild : Program Nat twoNodes.workers where
  body := .spawn (some 1) (.ret 7) (.waitall fun vars ↦ .ret ((vars.headD none).getD 0))
  joins := ⟨rfl, fun _ ↦ rfl⟩
  aims := ⟨by decide, trivial, fun _ ↦ trivial⟩

/-- The task is sent, found in the last queue that is looked at, executed and answered. -/
def remoteChildRun : List Act :=
  List.replicate 3 (.work 0 0 0) ++ [.receive 1 0 0, .serve 1, .work 0 0 0] ++
    List.replicate 14 (.work 1 0 0) ++ [.receive 0 1 0, .serve 0] ++ List.replicate 2 (.work 0 0 0)

set_option maxRecDepth 4000 in
theorem serial_outcome_remoteChild :
    ∃ s, (system twoNodes.workers remoteChild.body).Reachable s ∧
    s.returned = true ∧ Finished remoteChild.body s := by
  have hend : ((system twoNodes.workers remoteChild.body).run (.start remoteChild.body)
      remoteChildRun).map State.returned = some true := by decide
  obtain ⟨s, hreach, hreturned⟩ := System.Reachable.eval (.init rfl) hend
  exact ⟨s, hreach, hreturned, serial_outcome twoNodes remoteChild hreach hreturned⟩

/-! ## The tasks' own system -/

/-- In every run queues, messages and steals do to the tasks what executing them in some order does:
each step is one of the tasks' own system or leaves them as they are. -/
theorem refines_tasks (L : Layout) (p : Program β L.workers) {as : List Act}
    (hrun : (system L.workers p.body).run (.start p.body) as = some s) :
    ∃ bs, (system L.workers p.body).Refines (Tasks.system p.body) State.tasks (.start p.body)
      as bs := by
  apply System.exists_refines (Coherent L.workers p.body) _ (Coherent.start L p.joins) hrun
  intro s s' a hinv hstep
  have hchange := step_change hinv.sound hstep
  refine ⟨hinv.change L.le hchange, ?_⟩
  rcases hinv.tasks_or_step hchange with heq | hstep'
  · exact .inl heq
  · exact .inr hstep'.exists_act

set_option maxRecDepth 4000 in
theorem refines_tasks_remoteChild : ∃ bs,
    (system twoNodes.workers remoteChild.body).Refines (Tasks.system remoteChild.body) State.tasks
      (.start remoteChild.body) remoteChildRun bs := by
  have hend : ((system twoNodes.workers remoteChild.body).run (.start remoteChild.body)
      remoteChildRun).map State.returned = some true := by decide
  obtain ⟨s, hrun, -⟩ := Option.map_eq_some_iff.mp hend
  exact refines_tasks twoNodes remoteChild hrun

end Torc.Parallel
