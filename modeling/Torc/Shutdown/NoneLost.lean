import Torc.Shutdown.Barrier

/-!
# What is left when a server exits

Behind the barrier, as in a state without any work, no task is executed, and nothing that counts is
sent to a server.
-/

namespace Torc.Shutdown

open Transition

variable {threadSafe : Bool} {workers : List Nat} {s s' : State} {i k w src dst : Nat}
  {p q : Phase} {m m' : Message}

/-! ## After the last task -/

/-- No task is executed any more, nor will be. -/
structure Still (workers : List Nat) (s : State) : Prop where
  direct : NoDirect workers s
  work : AllLeft workers s ∨ NoWork workers s

theorem active_of_eq (hp : s.worker k w = p) (h : p.Active) : (s.worker k w).Active := by
  rw [hp]
  exact h

theorem Still.noWork (h : Still workers s) (hw : w < workers.getD k 0) (hp : s.worker k w = p)
    (hactive : p.Active) : NoWork workers s := by
  exact h.work.resolve_left fun hleft ↦
    hleft k (lt_length_of_worker hw) w hw (active_of_eq hp hactive)

theorem NoWork.unemployed (h : NoWork workers s) (hw : w < workers.getD k 0)
    (hp : s.worker k w = p) : p.Unemployed (s.terminationFlag k) := by
  rw [← hp]
  exact (h.worker k (lt_length_of_worker hw) w hw).1

theorem Still.not_body {t : Task} {stack : List Task} (h : Still workers s)
    (hw : w < workers.getD k 0) (hp : s.worker k w = .body (t :: stack)) : False :=
  List.cons_ne_nil t stack ((h.noWork hw hp trivial).unemployed hw hp)

theorem Still.setWorker (h : Still workers s) (hactive : q.Active → (s.worker k w).Active)
    (hq : NoWork workers s → q.Unemployed (s.terminationFlag k)) :
    Still workers (s.setWorker k w q) where
  direct := h.direct
  work := by
    rcases h.work with hleft | hno
    · refine .inl fun k' hk' w' hw' hact ↦ hleft k' hk' w' hw' ?_
      by_cases hsame : k' = k ∧ w' = w
      · obtain ⟨rfl, rfl⟩ := hsame
        rw [setWorker_self] at hact
        exact hactive hact
      · rwa [setWorker_other s q hsame] at hact
    · refine .inr ⟨fun k' hk' w' hw' ↦ ?_, hno.queue, hno.net, hno.replies⟩
      by_cases hsame : k' = k ∧ w' = w
      · obtain ⟨rfl, rfl⟩ := hsame
        rw [setWorker_self]
        exact ⟨hq hno, fun hact ↦ (hno.worker k' hk' w' hw').2 (hactive hact)⟩
      · rw [setWorker_other s q hsame]
        exact hno.worker k' hk' w' hw'

theorem bringsWork_of_direct (h : m.Direct i) : m.BringsWork := by
  cases m with
  | torcNormalEnqueue t => trivial
  | _ => exact absurd h id

theorem Still.send (h : Still workers s) (hm : ¬ m.BringsWork) :
    Still workers (s.send src dst m) where
  direct := by
    refine fun j hj ↦ ⟨(h.direct j hj).1, fun a ha m' hm' ↦ ?_⟩
    rcases mem_send hm' with hm' | rfl
    · exact (h.direct j hj).2 a ha m' hm'
    · exact fun hc ↦ hm (bringsWork_of_direct hc)
  work := by
    refine h.work.imp id fun hno ↦ ⟨hno.worker, hno.queue, fun a b m' hm' ↦ ?_, hno.replies⟩
    rcases mem_send hm' with hm' | rfl
    · exact hno.net a b m' hm'
    · exact hm

theorem Still.setNet {l : List Message} (h : Still workers s) (hnet : s.net src dst = m :: l) :
    Still workers (s.setNet src dst l) where
  direct j hj :=
    ⟨(h.direct j hj).1,
      fun a ha m' hm' ↦ (h.direct j hj).2 a ha m' (mem_setNet_tail hnet hm')⟩
  work := h.work.imp id fun hno ↦
    ⟨hno.worker, hno.queue, fun a b m' hm' ↦ hno.net a b m' (mem_setNet_tail hnet hm'),
      hno.replies⟩

theorem Still.setServer {p : ServerPhase} (h : Still workers s) (hp : ¬ p.Executes) :
    Still workers (s.setServer i p) where
  direct := by
    refine fun j hj ↦ ⟨?_, (h.direct j hj).2⟩
    by_cases hji : j = i
    · simp only [State.setServer, hji, Function.update_self]
      exact hp
    · simp only [State.setServer, Function.update_of_ne hji]
      exact (h.direct j hj).1
  work := h.work.imp id fun hno ↦ ⟨hno.worker, hno.queue, hno.net, hno.replies⟩

theorem Phase.Unemployed.flagged {flag flag' : Bool} (h : p.Unemployed flag)
    (hle : flag = true → flag' = true) : p.Unemployed flag' := by
  cases p with
  | round rest stack => exact ⟨h.1, hle h.2⟩
  | awaiting node rest stack => exact ⟨h.1, hle h.2⟩
  | _ => exact h

theorem Still.setTerminationFlag (h : Still workers s) :
    Still workers (s.setTerminationFlag k) where
  direct := h.direct
  work := by
    have hle : ∀ k', s.terminationFlag k' = true →
        (s.setTerminationFlag k).terminationFlag k' = true := by
      intro k' hk'
      by_cases hsame : k' = k
      · simp only [State.setTerminationFlag, hsame, Function.update_self]
      · simp only [State.setTerminationFlag, Function.update_of_ne hsame]
        exact hk'
    refine h.work.imp id fun hno ↦ ⟨fun k' hk' w' hw' ↦ ?_, hno.queue, hno.net, hno.replies⟩
    have hold := hno.worker k' hk' w' hw'
    exact ⟨hold.1.flagged (hle k'), fun hact hon ↦ hle k' (hold.2 hact hon)⟩

theorem Still.setInternodeStealing {on : Bool} (h : Still workers s)
    (hon : AllLeft workers s ∨ on = false) : Still workers (s.setInternodeStealing k on) where
  direct := h.direct
  work := by
    rcases hon with hleft | hoff
    · exact .inl hleft
    refine h.work.imp id fun hno ↦ ⟨fun k' hk' w' hw' ↦ ?_, hno.queue, hno.net, hno.replies⟩
    refine ⟨(hno.worker k' hk' w' hw').1, fun hact hset ↦ ?_⟩
    by_cases hsame : k' = k
    · simp only [State.setInternodeStealing, hsame, Function.update_self] at hset
      cases hoff.symm.trans hset
    · simp only [State.setInternodeStealing, Function.update_of_ne hsame] at hset
      exact (hno.worker k' hk' w' hw').2 hact hset

theorem Still.setQueue {l : List Task} (h : Still workers s) (hl : AllLeft workers s ∨ l = []) :
    Still workers (s.setQueue k l) where
  direct := h.direct
  work := by
    rcases hl with hleft | hempty
    · exact .inl hleft
    refine h.work.imp id fun hno ↦ ⟨hno.worker, fun k' ↦ ?_, hno.net, hno.replies⟩
    by_cases hsame : k' = k
    · simp only [State.setQueue, hsame, Function.update_self]
      exact hempty
    · simp only [State.setQueue, Function.update_of_ne hsame]
      exact hno.queue k'

theorem mem_setReplies {l : List (Option Task)} {a k' w' : Nat} {r : Option Task}
    (h : r ∈ (s.setReplies src k w l).replies a k' w') : r ∈ l ∨ r ∈ s.replies a k' w' := by
  simp only [State.setReplies] at h
  by_cases ha : a = src
  · subst ha
    rw [Function.update_self] at h
    by_cases hsame : k' = k ∧ w' = w
    · obtain ⟨rfl, rfl⟩ := hsame
      rw [Update.update_update_self] at h
      exact .inl h
    · rw [Update.update_update_of_ne _ _ hsame] at h
      exact .inr h
  · rw [Function.update_of_ne ha] at h
    exact .inr h

theorem Still.setReplies {l : List (Option Task)} (h : Still workers s)
    (hl : AllLeft workers s ∨ ∀ r ∈ l, r = none) :
    Still workers (s.setReplies src k w l) where
  direct := h.direct
  work := by
    rcases hl with hleft | hnone
    · exact .inl hleft
    refine h.work.imp id fun hno ↦ ⟨hno.worker, hno.queue, hno.net, fun a k' w' r hr ↦ ?_⟩
    rcases mem_setReplies hr with hr | hr
    · exact hnone r hr
    · exact hno.replies a k' w' r hr

theorem Still.mdEnd (h : Still workers s) : Still workers (mdEnd s k w) := by
  have hended : Still workers (s.setWorker k w .ended) :=
    h.setWorker (fun hc ↦ absurd hc id) fun _ ↦ trivial
  simp only [Shutdown.mdEnd]
  split
  · exact hended
  · exact ⟨hended.direct, hended.work.imp id fun hno ↦
      ⟨hno.worker, hno.queue, hno.net, hno.replies⟩⟩

/-- No task is executed after the step, and it sends nothing that counts. -/
structure Kept (workers : List Nat) (s s' : State) : Prop where
  still : Still workers s'
  net : ∀ src i, ∀ m ∈ s'.net src i, m.Counts → m ∈ s.net src i

theorem Still.kept (h : Still workers s') (hnet : s'.net = s.net) : Kept workers s s' :=
  ⟨h, fun src i m hm _ ↦ by rwa [hnet] at hm⟩

theorem Still.kept_send (h : Still workers s') (hnet : s'.net = s.net) (hwork : ¬ m.BringsWork)
    (hcounts : ¬ m.Counts) : Kept workers s (s'.send src dst m) := by
  refine ⟨h.send hwork, fun a b m' hm' hc ↦ ?_⟩
  rcases mem_send hm' with hm' | rfl
  · rwa [hnet] at hm'
  · exact absurd hc hcounts

theorem Still.workerStep (h : Still workers s) (hw : w < workers.getD k 0) {n : Nat} {a : WorkerAct}
    (hs : workerStep threadSafe n s k w a = some s') : Kept workers s s' := by
  cases a with
  | finish =>
      -- no worker has a task on its stack, so none is in a body
      simp only [Shutdown.workerStep] at hs
      split at hs
      · rename_i hp
        exact (h.not_body hw hp).elim
      · cases hs
  | finalize =>
      simp only [Shutdown.workerStep] at hs
      split at hs
      · rename_i hp
        exact (h.not_body hw hp).elim
      · cases hs
  | take t =>
      simp only [Shutdown.workerStep] at hs
      -- nor is there a task in a queue
      split at hs
      · rename_i hp
        obtain ⟨hmem, -⟩ := Option.ite_none_right_eq_some.mp hs
        rw [(h.noWork hw hp trivial).queue k] at hmem
        cases hmem
      · cases hs
  | miss =>
      -- the poll goes on to a round only with the stealing flag, which by then implies
      -- `termination_flag`
      simp only [Shutdown.workerStep] at hs
      split at hs
      · rename_i stack hp
        obtain ⟨-, heq⟩ := Option.ite_none_right_eq_some.mp hs
        cases heq
        have hno := h.noWork hw hp trivial
        have hstack : stack = [] := hno.unemployed hw hp
        have hflag := (hno.worker k (lt_length_of_worker hw) w hw).2
        rw [hp] at hflag
        refine (h.setWorker (fun _ ↦ active_of_eq hp trivial) fun _ ↦ ?_).kept rfl
        split
        · rename_i hon
          exact ⟨hstack, hflag trivial hon⟩
        · exact hstack
      · cases hs
  | ask =>
      simp only [Shutdown.workerStep] at hs
      split at hs
      · rename_i node rest stack hp
        obtain ⟨hstack, hflag⟩ := (h.noWork hw hp trivial).unemployed hw hp
        -- with the flag set, no node is asked
        rw [if_pos hflag] at hs
        cases hs
        have hset : Still workers (s.setWorker k w (.round rest stack)) :=
          h.setWorker (fun _ ↦ active_of_eq hp trivial) fun _ ↦ ⟨hstack, hflag⟩
        exact hset.kept rfl
      · rename_i stack hp
        cases hs
        have hstack := ((h.noWork hw hp trivial).unemployed hw hp).1
        have hoff : Still workers (s.setInternodeStealing k false) :=
          h.setInternodeStealing (.inr rfl)
        have hset : Still workers ((s.setInternodeStealing k false).setWorker k w (.idle stack)) :=
          hoff.setWorker (fun _ ↦ active_of_eq hp trivial) fun _ ↦ hstack
        exact hset.kept rfl
      · cases hs
  | reply =>
      simp only [Shutdown.workerStep] at hs
      split at hs
      · rename_i node rest stack hp
        have hno := h.noWork hw hp trivial
        obtain ⟨hstack, hflag⟩ := hno.unemployed hw hp
        split at hs
        · cases hs
        · rename_i l hreplies
          cases hs
          have hset : Still workers (s.setReplies node k w l) := by
            refine h.setReplies (.inr fun r hr ↦ hno.replies node k w r ?_)
            rw [hreplies]
            exact .tail _ hr
          have hround : Still workers ((s.setReplies node k w l).setWorker k w
              (.round rest stack)) :=
            hset.setWorker (fun _ ↦ active_of_eq hp trivial) fun _ ↦ ⟨hstack, hflag⟩
          exact hround.kept rfl
        · rename_i t l hreplies
          -- a reply under way is a refusal
          have hnone : some t = none := by
            refine hno.replies node k w (some t) ?_
            rw [hreplies]
            exact .head _
          cases hnone
      · cases hs
  | giveUp =>
      simp only [Shutdown.workerStep] at hs
      split at hs
      · rename_i node rest stack hp
        obtain ⟨-, heq⟩ := Option.ite_none_right_eq_some.mp hs
        cases heq
        have hun := (h.noWork hw hp trivial).unemployed hw hp
        have hset : Still workers (s.setWorker k w (.round rest stack)) :=
          h.setWorker (fun _ ↦ active_of_eq hp trivial) fun _ ↦ hun
        exact hset.kept rfl
      · cases hs
  | resume =>
      simp only [Shutdown.workerStep] at hs
      split at hs
      · rename_i stack hp
        cases hs
        -- back into the code under the wait, where by `hun` there is no task
        have hun := (h.noWork hw hp trivial).unemployed hw hp
        have hset : Still workers (s.setWorker k w (.body stack)) :=
          h.setWorker (fun _ ↦ active_of_eq hp trivial) fun _ ↦ hun
        exact hset.kept rfl
      · cases hs
  | notify =>
      -- the news of the end brings no work and counts for nothing
      simp only [Shutdown.workerStep] at hs
      split at hs
      · rename_i node rest hp
        cases hs
        have hset : Still workers (s.setWorker k w (.terminating rest)) :=
          h.setWorker (fun hc ↦ absurd hc id) fun _ ↦ trivial
        exact hset.kept_send rfl id id
      · cases hs
  | leave =>
      have hended : Kept workers s (Shutdown.mdEnd s k w) := by
        -- `_torc_md_end` sends nothing
        refine h.mdEnd.kept ?_
        simp only [Shutdown.mdEnd]
        split <;> rfl
      simp only [Shutdown.workerStep] at hs
      split at hs
      · obtain ⟨-, heq⟩ := Option.ite_none_right_eq_some.mp hs
        cases heq
        exact hended
      · cases hs
        exact hended
      · cases hs

/-- Servers go on with the messages that are left, and no task is executed for it. -/
theorem Still.process (h : Still workers s) {work : Option Task}
    (hdirect : ¬ m.Direct i)
    (hm : AllLeft workers s ∨ ¬ m.BringsWork) (hs : process s i src work m = some s') :
    Still workers s' := by
  have hserver : ∀ {s₀}, Still workers s₀ → Still workers (s₀.setServer i .listening) :=
    fun h₀ ↦ h₀.setServer id
  cases m with
  | torcAnswer =>
      cases hs
      exact hserver h
  | torcNormalEnqueue t =>
      -- not executed by the server, so put into a queue, which is possible only when all have left
      simp only [Shutdown.process,
        if_neg (show ¬ (t.homenode ≠ i ∧ t.direct = true) from hdirect)] at hs
      cases hs
      exact hserver (h.setQueue (.inl (hm.resolve_right fun hc ↦ hc trivial)))
  | directSynchronousStealingRequest sourcevpid =>
      simp only [Shutdown.process] at hs
      split at hs
      · cases hs
        -- the refusal, or a task out of a queue that is not empty
        refine hserver (h.setReplies (h.work.imp id fun hno r hr ↦ ?_))
        rcases List.mem_append.mp hr with hr | hr
        · exact hno.replies i src sourcevpid r hr
        · exact List.mem_singleton.mp hr
      · rename_i t
        obtain ⟨hmem, heq⟩ := Option.ite_none_right_eq_some.mp hs
        cases heq
        have hnot : ¬ NoWork workers s := by
          intro hno
          rw [hno.queue i] at hmem
          cases hmem
        have hleft : AllLeft workers s := h.work.resolve_right hnot
        have hqueue : Still workers (s.setQueue i ((s.queue i).erase t)) :=
          h.setQueue (.inl hleft)
        exact hserver (hqueue.setReplies (.inl hleft))
  | terminateWorkerThreads node =>
      cases hs
      have hflag := hserver (h.setTerminationFlag (k := i))
      exact ⟨hflag.direct, hflag.work.imp id fun hno ↦
        ⟨hno.worker, hno.queue, hno.net, hno.replies⟩⟩
  | terminateLocalServerThread =>
      cases hs
      exact h.setServer id
  | internodeStealing on =>
      cases hs
      -- stealing is switched on only when all have left
      exact hserver (h.setInternodeStealing (hm.imp id Bool.eq_false_of_not_eq_true))

theorem Still.step (h : Still workers s) {a : Act}
    (hs : (system threadSafe workers).step a s = some s') : Kept workers s s' := by
  simp only [system] at hs
  cases a with
  | inBody k thread a =>
      -- no worker and no server is in a body
      obtain ⟨⟨hthread, hbody, -⟩, -⟩ := Option.ite_none_right_eq_some.mp hs
      unfold inBody at hbody
      split at hbody
      · split at hbody
        · rename_i hp
          exact (h.not_body hthread hp).elim
        · cases hbody
      · split at hbody
        · rename_i t ht
          have hnot := (h.direct k hthread).1
          rw [ht] at hnot
          exact absurd trivial hnot
        · cases hbody
  | worker k w a =>
      obtain ⟨hw, hs⟩ := Option.ite_none_right_eq_some.mp hs
      exact h.workerStep hw hs
  | enterBarrier k =>
      obtain ⟨-, heq⟩ := Option.ite_none_right_eq_some.mp hs
      cases heq
      have hset : Still workers (s.setWorker k 0 .barrier) :=
        h.setWorker (fun hc ↦ absurd hc id) fun _ ↦ trivial
      exact hset.kept rfl
  | leaveBarrier k =>
      obtain ⟨-, heq⟩ := Option.ite_none_right_eq_some.mp hs
      cases heq
      have hset : Still workers (s.setWorker k 0 .passed) :=
        h.setWorker (fun hc ↦ absurd hc id) fun _ ↦ trivial
      exact hset.kept rfl
  | shutdown k =>
      -- `shutdown_server_thread` sends a message, or sets the flag where MPI is not thread-safe
      obtain ⟨-, hs⟩ := Option.ite_none_right_eq_some.mp hs
      have hset : Still workers (s.setWorker k 0 .shutdown) :=
        h.setWorker (fun hc ↦ absurd hc id) fun _ ↦ trivial
      split at hs
      · cases hs
        exact hset.kept_send rfl id id
      · cases hs
        exact hset.setTerminationFlag.kept rfl
  | poll i =>
      obtain ⟨-, heq⟩ := Option.ite_none_right_eq_some.mp hs
      cases heq
      exact (h.setServer id).kept rfl
  | retry i =>
      obtain ⟨-, heq⟩ := Option.ite_none_right_eq_some.mp hs
      cases heq
      exact (h.setServer id).kept rfl
  | exit i =>
      obtain ⟨-, heq⟩ := Option.ite_none_right_eq_some.mp hs
      cases heq
      exact (h.setServer id).kept rfl
  | receive i src work =>
      obtain ⟨⟨hi, hsrc, -⟩, hs⟩ := Option.ite_none_right_eq_some.mp hs
      split at hs
      · cases hs
      · rename_i m l hnet
        have hmem : m ∈ s.net src i := by
          rw [hnet]
          exact .head _
        -- the message is one of those in the hypothesis, and the server sends none that counts
        refine ⟨(h.setNet hnet).process ((h.direct i hi).2 src hsrc m hmem) ?_ hs,
          fun a b m' hm' _ ↦ ?_⟩
        · exact h.work.imp id fun hno ↦ hno.net src i m hmem
        · rw [(process_worker hs).2.2] at hm'
          exact mem_setNet_tail hnet hm'
  | complete i =>
      simp only [Shutdown.step] at hs
      split at hs
      · rename_i t ht
        obtain ⟨hi, -⟩ := Option.ite_none_right_eq_some.mp hs
        have hnot := (h.direct i hi).1
        rw [ht] at hnot
        exact absurd trivial hnot
      · cases hs

/-! ## The exit of a server -/

theorem workerStep_server {n : Nat} {a : WorkerAct}
    (hs : workerStep threadSafe n s k w a = some s') : s'.server = s.server := by
  rcases workerStep_cases hs with ⟨p, q, hmoved⟩ | ⟨-, rfl⟩
  · exact hmoved.server
  · simp only [mdEnd]
    split <;> rfl

theorem exited_of_setServer {p : ServerPhase} {j : Nat} (hp : p ≠ .exited)
    (h : (s.setServer j p).server i = .exited) : s.server i = .exited := by
  simp only [State.setServer] at h
  by_cases hi : i = j
  · rw [hi, Function.update_self] at h
    exact absurd h hp
  · rwa [Function.update_of_ne hi] at h

/-- Only `TERMINATE_LOCAL_SERVER_THREAD` makes a server exit. -/
theorem exited_of_process {j : Nat} {work : Option Task}
    (hs : process s j src work m = some s') (hnew : s'.server i = .exited) :
    s.server i = .exited ∨ i = j ∧ m = .terminateLocalServerThread := by
  cases m with
  | torcAnswer =>
      cases hs
      exact .inl (exited_of_setServer ServerPhase.noConfusion hnew)
  | torcNormalEnqueue t =>
      simp only [process] at hs
      split at hs
      · cases hs
        exact .inl (exited_of_setServer ServerPhase.noConfusion hnew)
      · cases hs
        exact .inl (exited_of_setServer (s := s) ServerPhase.noConfusion hnew)
  | directSynchronousStealingRequest sourcevpid =>
      simp only [process] at hs
      split at hs
      · cases hs
        exact .inl (exited_of_setServer (s := s) ServerPhase.noConfusion hnew)
      · obtain ⟨-, heq⟩ := Option.ite_none_right_eq_some.mp hs
        cases heq
        exact .inl (exited_of_setServer (s := s) ServerPhase.noConfusion hnew)
  | terminateWorkerThreads node =>
      cases hs
      exact .inl (exited_of_setServer (s := s) ServerPhase.noConfusion hnew)
  | internodeStealing on =>
      cases hs
      exact .inl (exited_of_setServer (s := s) ServerPhase.noConfusion hnew)
  | terminateLocalServerThread =>
      cases hs
      by_cases hi : i = j
      · exact .inr ⟨hi, rfl⟩
      · simp only [State.setServer, Function.update_of_ne hi] at hnew
        exact .inl hnew

theorem exits {a : Act} (hs : (system threadSafe workers).step a s = some s')
    (hnew : s'.server i = .exited) :
    s.server i = .exited ∨ a = .exit i ∨ ∃ src work, a = .receive i src work ∧
      (s.net src i).head? = some .terminateLocalServerThread := by
  simp only [system] at hs
  cases a with
  | inBody k thread a =>
      obtain ⟨-, heq⟩ := Option.ite_none_right_eq_some.mp hs
      cases heq
      refine .inl ?_
      cases a with
      | spawn dst direct =>
          simp only [bodyStep] at hnew
          split at hnew <;> exact hnew
      | control dst on =>
          simp only [bodyStep] at hnew
          split at hnew <;> exact hnew
  | worker k w a =>
      obtain ⟨-, hs⟩ := Option.ite_none_right_eq_some.mp hs
      rw [workerStep_server hs] at hnew
      exact .inl hnew
  | enterBarrier k =>
      obtain ⟨-, heq⟩ := Option.ite_none_right_eq_some.mp hs
      cases heq
      exact .inl hnew
  | leaveBarrier k =>
      obtain ⟨-, heq⟩ := Option.ite_none_right_eq_some.mp hs
      cases heq
      exact .inl hnew
  | shutdown k =>
      obtain ⟨-, hs⟩ := Option.ite_none_right_eq_some.mp hs
      split at hs
      · cases hs
        exact .inl hnew
      · cases hs
        exact .inl hnew
  | poll j =>
      obtain ⟨-, heq⟩ := Option.ite_none_right_eq_some.mp hs
      cases heq
      exact .inl (exited_of_setServer ServerPhase.noConfusion hnew)
  | retry j =>
      obtain ⟨-, heq⟩ := Option.ite_none_right_eq_some.mp hs
      cases heq
      exact .inl (exited_of_setServer ServerPhase.noConfusion hnew)
  | exit j =>
      obtain ⟨-, heq⟩ := Option.ite_none_right_eq_some.mp hs
      cases heq
      by_cases hi : i = j
      · exact .inr (.inl (by rw [hi]))
      -- another server has exited before
      · simp only [State.setServer, Function.update_of_ne hi] at hnew
        exact .inl hnew
  | receive j src work =>
      obtain ⟨-, hs⟩ := Option.ite_none_right_eq_some.mp hs
      split at hs
      · cases hs
      · rename_i m l hnet
        rcases exited_of_process hs hnew with hold | ⟨rfl, rfl⟩
        -- only a termination message makes its receiver exit
        · exact .inl hold
        · refine .inr (.inr ⟨src, work, rfl, ?_⟩)
          rw [hnet]
          rfl
  | complete j =>
      simp only [step] at hs
      split at hs
      · obtain ⟨-, heq⟩ := Option.ite_none_right_eq_some.mp hs
        cases heq
        exact .inl (exited_of_setServer (s := s) ServerPhase.noConfusion hnew)
      · cases hs

structure Inv (workers : List Nat) (s : State) : Prop where
  core : Core workers s
  exited : ∀ i < workers.length, s.server i = .exited →
    Still workers s ∧ ∀ src < workers.length, ∀ m ∈ s.net src i, ¬ m.Counts

theorem Inv.step (h : Inv workers s) {a : Act} (hok : Keeps workers a s)
    (hs : (system threadSafe workers).step a s = some s') : Inv workers s' := by
  refine ⟨h.core.step hs, fun i hi hnew ↦ ?_⟩
  have hbefore :
      Still workers s ∧ ∀ src < workers.length, ∀ m ∈ s.net src i, ¬ m.Counts := by
    rcases exits hs hnew with hold | rfl | ⟨src, work, rfl, hhead⟩
    · exact h.exited i hi hold
    · -- the server sees `termination_flag`
      obtain ⟨⟨hnet, hdirect⟩, hwork⟩ := hok
      refine ⟨⟨hdirect, ?_⟩, hnet⟩
      by_cases hphase : s.worker i 0 = .shutdown
      · refine .inl (h.core.allLeft (i := i) ?_)
        rw [hphase]
        trivial
      · exact hwork hphase
    · -- worker 0 sends the order behind the barrier
      obtain ⟨hnet, hdirect⟩ := hok hhead
      refine ⟨⟨hdirect, .inl (h.core.allLeft (i := i) ?_)⟩, hnet⟩
      rw [h.core.order src i (List.mem_of_mem_head? hhead)]
      trivial
  -- nothing that counts is added, so what is in flight afterwards was before
  have hkept := hbefore.1.step hs
  exact ⟨hkept.still, fun src hsrc m hm hc ↦
    hbefore.2 src hsrc m (hkept.net src i m hm hc) hc⟩

/-- Servers exit on the order behind the barrier, from clear nodes. -/
def keepsCheck (workers : List Nat) (a : Act) (s : State) : Bool :=
  match a with
  | .receive i src _ =>
      (s.net src i).head? = some .terminateLocalServerThread → Clear workers i s
  | .exit _ => false
  | _ => true

theorem keeps_of_check (a : Act) (s : State) (h : keepsCheck workers a s = true) :
    Keeps workers a s := by
  cases a with
  | receive i src work => exact fun hhead ↦ of_decide_eq_true h hhead
  | exit i => cases h
  | _ => trivial

end Torc.Shutdown
