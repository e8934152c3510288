import Torc.Parallel.Ranges

/-!
# The targets of new tasks

The queue arguments that a program passes to `torc_task` and the ids in the static variables of
`torc_to_rq_end` are worker ids, so that every new task finds its node.
-/

namespace Torc.Parallel

open Cluster (IsWorker)

variable {β : Type} {workers : List Nat}

/-- What is left of every body aims at workers. -/
structure Tasks.Aims (total : Nat) (t : Tasks β) : Prop where
  body : ∀ k, (t.desc k).body.Aims total
  code : ∀ k, (t.frame k).code.Aims total

structure Aimed (workers : List Nat) (s : State β) : Prop where
  tasks : s.tasks.Aims (torcTotalNumThreads workers)
  turn : ∀ i v, IsWorker workers i v →
    (s.node i).roundRobin.target workers i v < torcTotalNumThreads workers

variable {s s' : State β} {t t' : Tasks β} {root : Body β} {total i v k : Nat}

/-! ## Worker ids -/

theorem torcWorkerId_lt (hworker : IsWorker workers i v) :
    RoundRobin.torcWorkerId workers i v < torcTotalNumThreads workers := by
  have hi := hworker.1
  have hv : v < workers[i] := by
    rw [← List.getD_eq_getElem _ 0 hi]
    exact hworker.2
  have hlt := ((owns_localThreadIdToGlobalThreadId_iff hi).mpr hv).lt_sum
  unfold RoundRobin.torcWorkerId
  split
  · exact hlt
  · have hle : v ≤ localThreadIdToGlobalThreadId workers i v := Nat.le_add_left ..
    exact Nat.lt_of_le_of_lt hle hlt

theorem torcNumWorkers_le (i : Nat) :
    RoundRobin.torcNumWorkers workers i ≤ torcTotalNumThreads workers := by
  unfold RoundRobin.torcNumWorkers
  split
  · exact Nat.le_refl _
  · by_cases hi : i < workers.length
    · rw [List.getD_eq_getElem _ _ hi]
      exact List.le_sum_of_mem (List.getElem_mem hi)
    · rw [List.getD_eq_default _ _ (Nat.le_of_not_lt hi)]
      exact Nat.zero_le _

theorem torcNumWorkers_pos (hworker : IsWorker workers i v) :
    0 < RoundRobin.torcNumWorkers workers i := by
  unfold RoundRobin.torcNumWorkers
  split
  · exact Nat.zero_lt_of_lt (torcWorkerId_lt hworker)
  · exact Nat.zero_lt_of_lt hworker.2

theorem exists_globalThreadIdToNodeId {g : Nat} (hg : g < torcTotalNumThreads workers) :
    ∃ node, globalThreadIdToNodeId workers g = some node := by
  obtain ⟨node, hown⟩ := Consecutive.exists_owns hg
  exact ⟨node, globalThreadIdToNodeId_eq_some_iff.mpr hown⟩

/-! ## Every step -/

theorem Tasks.Aims.start (h : root.Aims total) : (Tasks.start root).Aims total :=
  ⟨fun _ ↦ h, fun _ ↦ h⟩

/-- The body of a task goes on with `f`. -/
theorem Tasks.Aims.setFrame (h : t.Aims total) {f : Frame β} (hf : f.code.Aims total) :
    (t.setFrame k f).Aims total where
  body := h.body
  code j := by
    by_cases hj : j = k
    · subst hj
      simpa [Tasks.setFrame] using hf
    · simpa [Tasks.setFrame, Function.update_of_ne hj] using h.code j

theorem Tasks.Aims.createChild (h : t.Aims total) {me : Nat} {queue : Option Nat}
    {child rest : Body β} (hcode : (t.frame k).code = .spawn queue child rest) :
    (t.createChild k me child rest).Aims total := by
  have haims := h.code k
  rw [hcode] at haims
  constructor
  · intro j
    by_cases hj : j = t.issued
    · subst hj
      rw [createChild_desc_new]
      exact haims.2.1
    · simpa [Tasks.createChild, Function.update_of_ne hj] using h.body j
  · intro j
    by_cases hj : j = t.issued
    · subst hj
      simpa [Tasks.createChild] using haims.2.1
    · by_cases hk : j = k
      · subst hk
        simpa [Tasks.createChild, Function.update_of_ne hj] using haims.2.2
      · simpa [Tasks.createChild, Function.update_of_ne hj, Function.update_of_ne hk]
          using h.code j

theorem Tasks.Aims.bodyStep {me : Nat} (h : t.Aims total) (hstep : BodyStep t k me t') :
    t'.Aims total := by
  cases hstep with
  | startSpawn hctl hcode =>
      have hset := h.setFrame (k := k) (f := { t.frame k with pending := true, ctl := .started })
        (h.code k)
      exact ⟨hset.body, hset.code⟩
  | countChild hctl =>
      have hset := h.setFrame (k := k) (f := { t.frame k with ctl := .counted }) (h.code k)
      exact ⟨hset.body, hset.code⟩
  | createChild hctl hcode => exact h.createChild hcode
  | beginWait hctl hcode =>
      have hset := h.setFrame (k := k) (f := { t.frame k with pending := false, ctl := .blocked })
        (h.code k)
      exact ⟨hset.body, hset.code⟩
  | endWait hctl hcode hndep =>
      have haims := h.code k
      rw [hcode] at haims
      exact h.setFrame (haims _)
  | complete | answer => exact ⟨h.body, h.code⟩

theorem Tasks.Aims.step (h : t.Aims total) (hstep : Step t t') : t'.Aims total := by
  cases hstep with
  | body hk hbody => exact h.bodyStep hbody
  | execute | complete => exact ⟨h.body, h.code⟩

theorem Turns.target_lt {r : RoundRobin.State} (h : Turns workers s i r)
    (haimed : Aimed workers s) (hworker : IsWorker workers i v) :
    r.target workers i v < torcTotalNumThreads workers := by
  rcases h with rfl | ⟨g, rfl⟩
  · exact haimed.turn i v hworker
  · have hlt := Nat.mod_lt g (torcNumWorkers_pos hworker)
    exact Nat.lt_of_lt_of_le hlt (torcNumWorkers_le i)

theorem Aimed.start (haims : root.Aims (torcTotalNumThreads workers)) :
    Aimed workers (.start root) where
  tasks := Tasks.Aims.start haims
  turn _ _ hworker := torcWorkerId_lt hworker

theorem roundRobin_setNode {nd : Node β} (h : nd.roundRobin = (s.node i).roundRobin) (j : Nat) :
    ((s.setNode i nd).node j).roundRobin = (s.node j).roundRobin :=
  node_setNode_eq Node.roundRobin h j

/-- No static variable changes. -/
theorem Aimed.congr (h : Aimed workers s)
    (htasks : s'.tasks = s.tasks ∨ Tasks.Step s.tasks s'.tasks)
    (hturn : ∀ j, (s'.node j).roundRobin = (s.node j).roundRobin) : Aimed workers s' where
  tasks := by
    rcases htasks with heq | hstep
    · rw [heq]
      exact h.tasks
    · exact h.tasks.step hstep
  turn j u hworker := by
    rw [hturn]
    exact h.turn j u hworker

theorem Aimed.createChild (h : Aimed workers s) {r : RoundRobin.State} (hturn : Turns workers s i r)
    (hstep : Tasks.Step s.tasks t) : Aimed workers ((s.setTasks t).setRoundRobin i r) where
  tasks := h.tasks.step hstep
  turn j u hworker := by
    by_cases hj : j = i
    · subst hj
      have hself : (((s.setTasks t).setRoundRobin j r).node j).roundRobin = r := by
        simp [State.setRoundRobin, State.setNode]
      rw [hself]
      exact hturn.target_lt h hworker
    · have hother : ((s.setTasks t).setRoundRobin i r).node j = s.node j :=
        Function.update_of_ne hj ..
      rw [hother]
      exact h.turn j u hworker

theorem Aimed.move {θ : Thread} (h : Aimed workers s) (hplaced : Placed s)
    (hmove : Move workers s θ s') :
    Aimed workers s' := by
  have htasks := hplaced.simulates hmove
  cases hmove with
  | createHere hruns hturn hstep =>
      have hcreate := h.createChild hturn (.body (hplaced.status_stack hruns.stack) hstep)
      exact hcreate.congr (.inl rfl) (roundRobin_setNode rfl)
  | createAway hruns hturn hstep =>
      have hcreate := h.createChild hturn (.body (hplaced.status_stack hruns.stack) hstep)
      exact hcreate.congr (.inl rfl) fun _ ↦ rfl
  | _ =>
      apply h.congr htasks
      intro j
      simp only [State.setServer, State.setQueues, State.setStealing, State.lockInternode,
        State.countAttempt, State.countServed, State.countHit, State.setCtl, State.setStack,
        State.setWorker, State.send, State.setNet, State.setTasks, execute, roundRobin_setNode]

theorem Aimed.change {o : Option Thread} (h : Aimed workers s) (hplaced : Placed s)
    (hchange : Change workers s o s') :
    Aimed workers s' := by
  cases hchange with
  | move hmove => exact h.move hplaced hmove
  | poll => exact h.congr (.inl rfl) fun _ ↦ rfl
  | toggle => exact h.congr (.inl rfl) (roundRobin_setNode rfl)

/-! ## New tasks -/

/-- The call finds the node of its target. -/
theorem exists_insertTask {queue : Option Nat} {target : Nat}
    (hqueue : ∀ g ∈ queue, g < torcTotalNumThreads workers)
    (htarget : target < torcTotalNumThreads workers) :
    ∃ s', insertTask workers s i v k queue target = some s' := by
  have hlt : queue.getD target < torcTotalNumThreads workers := by
    cases queue with
    | none => exact htarget
    | some g => exact hqueue g rfl
  obtain ⟨node, hnode⟩ := exists_globalThreadIdToNodeId hlt
  unfold insertTask
  by_cases hone : workers.length = 1
  · simp only [if_pos hone]
    exact ⟨_, rfl⟩
  · simp only [if_neg hone, hnode, Option.bind_eq_bind, Option.bind_some]
    split <;> exact ⟨_, rfl⟩

/-- A body that does not wait for open children makes its next step. -/
theorem exists_bodyStep (i v : Nat) (rest : List Nat) {target : Nat}
    (hfits : (s.tasks.frame k).Fits)
    (haims : s.tasks.Aims (torcTotalNumThreads workers))
    (htarget : target < torcTotalNumThreads workers)
    (hgo : (s.tasks.frame k).ctl = .blocked → s.tasks.ndep k ≤ 0) :
    ∃ s', bodyStep workers s i v k rest target = some s' := by
  unfold bodyStep
  cases hctl : (s.tasks.frame k).ctl with
  | running =>
      cases hcode : (s.tasks.frame k).code with
      | ret result =>
          simp only
          split <;> exact ⟨_, rfl⟩
      | spawn | waitall => simp [Tasks.bodyStep, hctl, hcode]
  | started => simp [Tasks.bodyStep, hctl]
  | counted =>
      cases hcode : (s.tasks.frame k).code with
      | spawn queue child code =>
          have hcodeAims := haims.code k
          rw [hcode] at hcodeAims
          exact exists_insertTask hcodeAims.1 htarget
      | ret | waitall => simp [Frame.Fits, hctl, hcode] at hfits
  | blocked =>
      cases hcode : (s.tasks.frame k).code with
      | waitall code => simp [Tasks.bodyStep, hctl, hcode, hgo hctl]
      | ret | spawn => simp [Frame.Fits, hctl, hcode] at hfits

end Torc.Parallel
