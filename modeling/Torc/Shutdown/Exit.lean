import Torc.Shutdown.NoneLost

/-!
# The order of termination

Nothing ends before `torc_finalize`, and what the barrier of `_torc_md_end` and a thread-safe MPI
are good for: a server exits when all workers of all nodes have left.
-/

namespace Torc.Shutdown

open Transition

variable {threadSafe : Bool} {workers : List Nat} {s s' : State} {i k w src dst : Nat}
  {p q : Phase} {m m' : Message}

/-! ## Before `torc_finalize` -/

/-- An order to end something. -/
def Message.Terminates : Message → Prop
  | .terminateWorkerThreads _ | .terminateLocalServerThread => True
  | _ => False

structure Uncalled (s : State) : Prop where
  active : ∀ k w, (s.worker k w).Active
  server : ∀ i, s.server i ≠ .exited
  applFinished : ∀ k, s.applFinished k = 0
  terminationFlag : ∀ k, s.terminationFlag k = false
  net : ∀ src dst, ∀ m ∈ s.net src dst, ¬ m.Terminates

namespace Uncalled

theorem initial (workers : List Nat) : Uncalled (initial workers) where
  active k w := by
    simp only [Shutdown.initial]
    split <;> trivial
  server _ := ServerPhase.noConfusion
  applFinished _ := rfl
  terminationFlag _ := rfl
  net _ _ _ hm := by cases hm

theorem setWorker (h : Uncalled s) (hq : q.Active) : Uncalled (s.setWorker k w q) where
  active k' w' := by
    by_cases hsame : k' = k ∧ w' = w
    · obtain ⟨rfl, rfl⟩ := hsame
      rw [setWorker_self]
      exact hq
    · rw [setWorker_other s q hsame]
      exact h.active k' w'
  server := h.server
  applFinished := h.applFinished
  terminationFlag := h.terminationFlag
  net := h.net

theorem send (h : Uncalled s) (hm : ¬ m.Terminates) : Uncalled (s.send src dst m) where
  active := h.active
  server := h.server
  applFinished := h.applFinished
  terminationFlag := h.terminationFlag
  net a b m' hm' := by
    rcases mem_send hm' with hold | rfl
    · exact h.net a b m' hold
    · exact hm

theorem receive {l : List Message} (h : Uncalled s) (hnet : s.net src dst = m :: l) :
    Uncalled (s.setNet src dst l) where
  active := h.active
  server := h.server
  applFinished := h.applFinished
  terminationFlag := h.terminationFlag
  net a b m' hm' := h.net a b m' (mem_setNet_tail hnet hm')

theorem setServer {p : ServerPhase} (h : Uncalled s) (hp : p ≠ .exited) :
    Uncalled (s.setServer i p) where
  active := h.active
  server j hj := h.server j (exited_of_setServer hp hj)
  applFinished := h.applFinished
  terminationFlag := h.terminationFlag
  net := h.net

/-- Queues, replies and `internode_stealing` do not matter. -/
theorem congr (h : Uncalled s) (hworker : s'.worker = s.worker) (hserver : s'.server = s.server)
    (happl : s'.applFinished = s.applFinished) (hflag : s'.terminationFlag = s.terminationFlag)
    (hnet : s'.net = s.net) : Uncalled s' := by
  constructor
  · rw [hworker]
    exact h.active
  · rw [hserver]
    exact h.server
  · rw [happl]
    exact h.applFinished
  · rw [hflag]
    exact h.terminationFlag
  · rw [hnet]
    exact h.net

theorem ne_of_active (h : Uncalled s) (hp : ¬ p.Active) : s.worker k w ≠ p := by
  intro hw
  rw [← hw] at hp
  exact hp (h.active k w)

theorem workerStep (h : s.finalized = false → Uncalled s) {n : Nat} {a : WorkerAct}
    (hs : workerStep threadSafe n s k w a = some s') (hnot : s'.finalized = false) :
    Uncalled s' := by
  cases a with
  | finish =>
      simp only [Shutdown.workerStep] at hs
      split at hs
      · split at hs
        · cases hs
        · split at hs
          · cases hs
            exact (h hnot).setWorker trivial
          · cases hs
            exact ((h hnot).setWorker (q := .body _) trivial).send id
      · cases hs
  | finalize =>
      simp only [Shutdown.workerStep] at hs
      split at hs
      · split at hs
        · cases hs
        · cases hs
          -- this is the call of `torc_finalize`
          cases hnot
      · cases hs
  | take t =>
      simp only [Shutdown.workerStep] at hs
      split at hs
      · obtain ⟨-, heq⟩ := Option.ite_none_right_eq_some.mp hs
        cases heq
        exact ((h hnot).setWorker (q := .body _) trivial).congr rfl rfl rfl rfl rfl
      · cases hs
  | miss =>
      simp only [Shutdown.workerStep] at hs
      split at hs
      · obtain ⟨-, heq⟩ := Option.ite_none_right_eq_some.mp hs
        cases heq
        apply (h hnot).setWorker
        split <;> trivial
      · cases hs
  | ask =>
      simp only [Shutdown.workerStep] at hs
      split at hs
      · split at hs
        · cases hs
          exact (h hnot).setWorker trivial
        · cases hs
          exact ((h hnot).setWorker (q := .awaiting _ _ _) trivial).send id
      · cases hs
        exact ((h hnot).setWorker (q := .idle _) trivial).congr rfl rfl rfl rfl rfl
      · cases hs
  | reply =>
      simp only [Shutdown.workerStep] at hs
      split at hs
      · split at hs
        · cases hs
        · cases hs
          exact ((h hnot).setWorker (q := .round _ _) trivial).congr rfl rfl rfl rfl rfl
        · cases hs
          exact ((h hnot).setWorker (q := .body _) trivial).congr rfl rfl rfl rfl rfl
      · cases hs
  | giveUp =>
      simp only [Shutdown.workerStep] at hs
      split at hs
      · obtain ⟨-, heq⟩ := Option.ite_none_right_eq_some.mp hs
        cases heq
        exact (h hnot).setWorker trivial
      · cases hs
  | resume =>
      simp only [Shutdown.workerStep] at hs
      split at hs
      · cases hs
        exact (h hnot).setWorker trivial
      · cases hs
  | notify =>
      simp only [Shutdown.workerStep] at hs
      split at hs
      · rename_i hp
        cases hs
        -- nobody is in `torc_finalize` yet
        exact absurd hp ((h hnot).ne_of_active id)
      · cases hs
  | leave =>
      -- `_torc_md_end` leaves `finalized` as it is
      have hsame : ∀ t : State, t = s' → t.finalized = false := by
        rintro t rfl
        exact hnot
      simp only [Shutdown.workerStep] at hs
      split at hs
      · obtain ⟨hone, heq⟩ := Option.ite_none_right_eq_some.mp hs
        have hbefore : s.finalized = false := by
          have hend := hsame _ (Option.some.inj heq)
          simp only [mdEnd] at hend
          split at hend <;> exact hend
        -- the loop is left only with `appl_finished`
        rw [(h hbefore).applFinished] at hone
        cases hone
      · rename_i hp
        have hbefore : s.finalized = false := by
          have hend := hsame _ (Option.some.inj hs)
          simp only [mdEnd] at hend
          split at hend <;> exact hend
        exact absurd hp ((h hbefore).ne_of_active id)
      · cases hs

theorem process (h : s.finalized = false → Uncalled s) {work : Option Task}
    (hm : s.finalized = false → ¬ m.Terminates) (hs : process s i src work m = some s')
    (hnot : s'.finalized = false) : Uncalled s' := by
  cases m with
  | torcAnswer =>
      cases hs
      exact (h hnot).setServer ServerPhase.noConfusion
  | torcNormalEnqueue t =>
      simp only [Shutdown.process] at hs
      split at hs
      · cases hs
        exact (h hnot).setServer ServerPhase.noConfusion
      · cases hs
        exact ((h hnot).setServer ServerPhase.noConfusion).congr rfl rfl rfl rfl rfl
  | directSynchronousStealingRequest sourcevpid =>
      simp only [Shutdown.process] at hs
      split at hs
      · cases hs
        exact ((h hnot).setServer ServerPhase.noConfusion).congr rfl rfl rfl rfl rfl
      · obtain ⟨-, heq⟩ := Option.ite_none_right_eq_some.mp hs
        cases heq
        exact ((h hnot).setServer ServerPhase.noConfusion).congr rfl rfl rfl rfl rfl
  | internodeStealing on =>
      cases hs
      exact ((h hnot).setServer ServerPhase.noConfusion).congr rfl rfl rfl rfl rfl
  | terminateWorkerThreads node | terminateLocalServerThread =>
      cases hs
      exact absurd trivial (hm hnot)

theorem bodyStep (h : s.finalized = false → Uncalled s) (a : BodyAct)
    (hnot : (bodyStep s k a).finalized = false) : Uncalled (bodyStep s k a) := by
  have hbefore : s.finalized = false := by
    cases a <;> simp only [Shutdown.bodyStep] at hnot <;> split at hnot <;> exact hnot
  cases a with
  | spawn dst direct =>
      simp only [Shutdown.bodyStep]
      split
      · exact (h hbefore).congr rfl rfl rfl rfl rfl
      · exact (h hbefore).send (m := .torcNormalEnqueue _) id
  | control dst on =>
      simp only [Shutdown.bodyStep]
      split
      · exact (h hbefore).congr rfl rfl rfl rfl rfl
      · exact (h hbefore).send (m := .internodeStealing _) id

theorem step (h : s.finalized = false → Uncalled s) {a : Act}
    (hs : (system threadSafe workers).step a s = some s') (hnot : s'.finalized = false) :
    Uncalled s' := by
  simp only [system] at hs
  cases a with
  | inBody k thread a =>
      obtain ⟨-, heq⟩ := Option.ite_none_right_eq_some.mp hs
      cases heq
      exact bodyStep h a hnot
  | worker k w a =>
      obtain ⟨-, hs⟩ := Option.ite_none_right_eq_some.mp hs
      exact workerStep h hs hnot
  | enterBarrier k =>
      obtain ⟨⟨-, hended, -⟩, heq⟩ := Option.ite_none_right_eq_some.mp hs
      cases heq
      -- worker 0 has not left its loop
      exact absurd hended ((h hnot).ne_of_active id)
  | leaveBarrier k =>
      obtain ⟨⟨hbarrier, -⟩, heq⟩ := Option.ite_none_right_eq_some.mp hs
      cases heq
      exact absurd hbarrier ((h hnot).ne_of_active id)
  | shutdown k =>
      obtain ⟨⟨hpassed, -⟩, hs⟩ := Option.ite_none_right_eq_some.mp hs
      split at hs
      · cases hs
        exact absurd hpassed ((h hnot).ne_of_active id)
      · cases hs
        exact absurd hpassed ((h hnot).ne_of_active id)
  | poll i | retry i =>
      obtain ⟨-, heq⟩ := Option.ite_none_right_eq_some.mp hs
      cases heq
      exact (h hnot).setServer ServerPhase.noConfusion
  | exit i =>
      obtain ⟨⟨-, -, -, hflag⟩, heq⟩ := Option.ite_none_right_eq_some.mp hs
      cases heq
      -- the flag is set in the course of the termination only
      rw [(h hnot).terminationFlag] at hflag
      cases hflag
  | receive i src work =>
      obtain ⟨-, hs⟩ := Option.ite_none_right_eq_some.mp hs
      split at hs
      · cases hs
      · rename_i m l hnet
        have hmem : m ∈ s.net src i := by
          rw [hnet]
          exact List.mem_cons_self
        exact process (s := s.setNet src i l) (fun hbefore ↦ (h hbefore).receive hnet)
          (fun hbefore ↦ (h hbefore).net src i m hmem) hs hnot
  | complete i =>
      simp only [Shutdown.step] at hs
      split at hs
      · obtain ⟨-, heq⟩ := Option.ite_none_right_eq_some.mp hs
        cases heq
        exact ((h hnot).setServer ServerPhase.noConfusion).send id
      · cases hs

end Uncalled

/-! ## Behind the barrier -/

/-- Worker 0 of a node that shuts its server down does nothing else any more. -/
theorem shutdown_stays {a : Act} (hs : (system threadSafe workers).step a s = some s')
    (hi : s.worker i 0 = .shutdown) : s'.worker i 0 = .shutdown := by
  -- a step of any other worker, or of worker 0 at another place
  have hother : ∀ {k w q}, s.worker k w ≠ .shutdown →
      (s.setWorker k w q).worker i 0 = .shutdown := by
    intro k w q hne
    rw [setWorker_other s q, hi]
    rintro ⟨rfl, rfl⟩
    exact hne hi
  simp only [system] at hs
  cases a with
  | inBody k thread a =>
      obtain ⟨-, heq⟩ := Option.ite_none_right_eq_some.mp hs
      cases heq
      rw [(bodyStep_keeps a).1]
      exact hi
  | worker k w a =>
      obtain ⟨-, hs⟩ := Option.ite_none_right_eq_some.mp hs
      have hne : (s.worker k w).Early → s.worker k w ≠ .shutdown := by
        intro hearly hshutdown
        rw [hshutdown] at hearly
        exact hearly
      rcases workerStep_cases hs with ⟨p, q, hmoved⟩ | ⟨hearly, rfl⟩
      · rw [hmoved.worker]
        apply hother
        apply hne
        rw [hmoved.before]
        exact hmoved.earlyBefore
      · have hworker : (mdEnd s k w).worker = (s.setWorker k w .ended).worker := by
          simp only [mdEnd]
          split <;> rfl
        rw [hworker]
        exact hother (hne hearly)
  | enterBarrier k =>
      obtain ⟨⟨-, hended, -⟩, heq⟩ := Option.ite_none_right_eq_some.mp hs
      cases heq
      exact hother (by rw [hended]; exact Phase.noConfusion)
  | leaveBarrier k =>
      obtain ⟨⟨hbarrier, -⟩, heq⟩ := Option.ite_none_right_eq_some.mp hs
      cases heq
      exact hother (by rw [hbarrier]; exact Phase.noConfusion)
  | shutdown k =>
      obtain ⟨⟨hpassed, -⟩, hs⟩ := Option.ite_none_right_eq_some.mp hs
      have hne : s.worker k 0 ≠ .shutdown := by
        rw [hpassed]
        exact Phase.noConfusion
      split at hs
      · cases hs
        exact hother hne
      · cases hs
        exact hother hne
  | poll j | retry j | exit j =>
      obtain ⟨-, heq⟩ := Option.ite_none_right_eq_some.mp hs
      cases heq
      exact hi
  | receive j src work =>
      obtain ⟨-, hs⟩ := Option.ite_none_right_eq_some.mp hs
      split at hs
      · cases hs
      · rw [(process_worker hs).1]
        exact hi
  | complete j =>
      simp only [Shutdown.step] at hs
      split at hs
      · obtain ⟨-, heq⟩ := Option.ite_none_right_eq_some.mp hs
        cases heq
        exact hi
      · cases hs

structure Ends (threadSafe : Bool) (workers : List Nat) (s : State) : Prop where
  core : Core workers s
  uncalled : s.finalized = false → Uncalled s
  exited : threadSafe = true → ∀ i, s.server i = .exited → s.worker i 0 = .shutdown

theorem Ends.step (h : Ends threadSafe workers s) {a : Act}
    (hs : (system threadSafe workers).step a s = some s') : Ends threadSafe workers s' where
  core := h.core.step hs
  uncalled hnot := Uncalled.step h.uncalled hs hnot
  exited hsafe i hexited := by
    apply shutdown_stays hs
    rcases exits hs hexited with hold | rfl | ⟨src, work, rfl, hhead⟩
    · exact h.exited hsafe i hold
    · simp only [system, Shutdown.step, hsafe] at hs
      simp at hs
    -- the order to exit is sent by worker 0 behind the barrier
    · exact h.core.order src i (List.mem_of_mem_head? hhead)

/-- Until `torc_finalize` is called all workers are in their loops and no server exits; worker 0 of
a node enters the barrier as the last of its workers and passes it when all workers of all nodes
have left; with a thread-safe MPI a server exits only when its own worker 0 has passed the
barrier. -/
theorem termination_order (L : Layout) (h : (system threadSafe L.workers).Reachable s) :
    (s.finalized = false → (∀ k w, (s.worker k w).Active) ∧ ∀ i, s.server i ≠ .exited) ∧
    (∀ k, 0 < L.workers.getD k 0 → s.activeWorkers k = (remaining L.workers s k).card + 1) ∧
    (∀ k, (s.worker k 0).AtBarrier → ∀ w < L.workers.getD k 0, 0 < w →
      s.worker k w = .ended) ∧
    (∀ k, (s.worker k 0).Through → AllLeft L.workers s) ∧
    (threadSafe = true → ∀ i, s.server i = .exited →
      s.worker i 0 = .shutdown ∧ AllLeft L.workers s) := by
  have hends : Ends threadSafe L.workers s := by
    apply h.invariant (Ends threadSafe L.workers)
    · rintro s rfl
      exact ⟨core_initial L.workers, fun _ ↦ Uncalled.initial L.workers,
        fun _ _ hexited ↦ ServerPhase.noConfusion hexited⟩
    · intro s s' a hends _ hs
      exact hends.step hs
  refine ⟨fun hnot ↦ ⟨(hends.uncalled hnot).active, (hends.uncalled hnot).server⟩,
    hends.core.count, hends.core.alone, fun k hk ↦ hends.core.allLeft hk, ?_⟩
  intro hsafe i hexited
  have hshutdown := hends.exited hsafe i hexited
  refine ⟨hshutdown, hends.core.allLeft (i := i) ?_⟩
  rw [hshutdown]
  trivial

/-- The server of node 0 has exited, that of node 1 goes on. -/
theorem termination_order_sample : ∃ s, (system true unequalNodes.workers).Reachable s ∧
    s.server 0 = .exited ∧ s.server 1 ≠ .exited ∧ s.worker 0 0 = .shutdown ∧
      AllLeft unequalNodes.workers s := by
  let acts : List Act :=
    [.inBody 0 (.worker 0) (.spawn 1 false), .poll 1, .receive 1 0 none,
      .worker 1 0 (.take ⟨0, false⟩), .worker 1 0 .finish, .poll 0, .receive 0 1 none,
      .worker 0 0 .finalize, .worker 0 0 .notify, .worker 0 0 .leave, .worker 0 1 .miss,
      .worker 0 1 .leave, .poll 1, .receive 1 0 none, .worker 1 0 .miss, .worker 1 0 .leave,
      .enterBarrier 0, .enterBarrier 1, .leaveBarrier 0, .shutdown 0, .poll 0, .receive 0 0 none]
  have hend : ((system true unequalNodes.workers).run (initial unequalNodes.workers) acts).map
      (fun s ↦ (s.server 0, s.server 1)) = some (.exited, .listening) := by decide
  obtain ⟨s, hreach, hs⟩ := System.Reachable.eval (.init rfl) hend
  obtain ⟨hexited, hother⟩ := Prod.mk.inj hs
  have horder := (termination_order unequalNodes hreach).2.2.2.2 rfl 0 hexited
  exact ⟨s, hreach, hexited, by rw [hother]; exact ServerPhase.noConfusion, horder.1, horder.2⟩

end Torc.Shutdown
