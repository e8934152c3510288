import Torc.Parallel.Frozen

/-!
# Every fair run returns

A run that is fair to its threads cannot stop before the program has returned: a task in a queue is
found by worker 0 of its node, whose searches come to an end and begin anew as long as its own body
waits.
-/

namespace Torc.Parallel

open Transition
open Cluster (Pos IsWorker)

variable {β : Type} {workers : List Nat} {root : Body β} {i v k : Nat}

namespace Frozen

variable {r : Run (system workers root)}

/-! ## Workers -/

/-- Every search comes to its end. -/
theorem search_ends (h : Frozen r) (i v : Nat) :
    r.Leads (fun s ↦ (s.worker i v).ctl ≠ .body) (fun s ↦ (s.worker i v).ctl = .body) := by
  apply h.fair.leads_of_lt (.worker i v) (fun s ↦ (s.worker i v).ctl.rank workers.length i)
  · intro n hbusy
    by_cases hbody : ((r.state (n + 1)).worker i v).ctl = .body
    · exact .inl hbody
    · refine .inr ⟨hbody, ?_⟩
      by_cases hact : (r.act n).thread = some (.worker i v)
      · have hlt := ((h.move hact).move_of_busy hbusy).worker_rank
          ((h.consistent n).sound.ctl i v) hbusy fun k ↦ h.never_got i v k n
        exact ⟨hlt.le, fun _ ↦ hlt⟩
      · rw [(h.change n).worker_of_ne hact]
        exact ⟨le_rfl, fun heq ↦ absurd heq hact⟩
  · intro n hkeep
    obtain ⟨m, hm, hfree⟩ := h.lock_free i n
    exact ⟨m, hm, canAct ((h.consistent m).enabled_of_free hfree (hkeep m hm))⟩

theorem body_again (h : Frozen r) (i v n : Nat) :
    ∃ m, n ≤ m ∧ ((r.state m).worker i v).ctl = .body := by
  by_cases hbody : ((r.state n).worker i v).ctl = .body
  · exact ⟨n, le_rfl, hbody⟩
  · exact h.search_ends i v n hbody

theorem stack_eq (h : Frozen r) (i v n : Nat) :
    ((r.state n).worker i v).stack = ((r.state 0).worker i v).stack := by
  induction n with
  | zero => rfl
  | succ n ih => rw [h.stack, ih]

theorem tasks_eq (h : Frozen r) (n : Nat) : (r.state n).tasks = (r.state 0).tasks := by
  induction n with
  | zero => rfl
  | succ n ih => rw [h.tasks, ih]

/-- Every body that a worker is in waits for open children. -/
theorem blocked (h : Frozen r) {rest : List Nat}
    (hstack : ((r.state 0).worker i v).stack = k :: rest) :
    ((r.state 0).tasks.frame k).ctl = .blocked ∧ 0 < (r.state 0).tasks.ndep k := by
  by_contra hgo
  have hleads : r.Leads (fun s ↦ (s.worker i v).ctl = .body) (fun _ ↦ False) := by
    apply h.fair.leads (.worker i v)
    · intro n hctl
      by_cases hact : (r.act n).thread = some (.worker i v)
      · obtain ⟨hworker, target, hs⟩ := exists_workerStep hact (r.step n)
        rw [← h.stack_eq i v n] at hstack
        simp only [workerStep, hctl, hstack] at hs
        rcases bodyStep_move ⟨hworker, hctl, hstack⟩ hs with hmove | ⟨hwaits, -⟩
        · exact absurd (hmove.step_of_body (h.consistent n).placed hctl) (h.not_step n)
        · rw [h.tasks_eq n] at hwaits
          exact absurd hwaits hgo
      · refine .inr ⟨?_, hact⟩
        rw [(h.change n).worker_of_ne hact]
        exact hctl
    · intro n hkeep
      have hctl := hkeep n le_rfl
      have hstack' := hstack
      rw [← h.stack_eq i v n] at hstack'
      have hactive := (h.consistent n).tasks.active ((h.consistent n).placed.status_stack hstack')
      refine ⟨n, le_rfl, (h.consistent n).canAct_work ?_ ?_⟩
      · rcases (h.consistent n).sound.worker i v with hworker | hnone
        · exact hworker
        · rw [hnone] at hstack'
          cases hstack'
      · intro target htarget
        simp only [workerStep, hctl, hstack']
        apply exists_bodyStep i v rest hactive.fits (h.consistent n).aimed.tasks htarget
        rw [h.tasks_eq n]
        intro hblocked
        exact Int.not_lt.mp fun hndep ↦ hgo ⟨hblocked, hndep⟩
  obtain ⟨n, -, hbody⟩ := h.body_again i v 0
  exact hleads.never (fun _ ↦ id) n hbody

/-! ## Queues -/

/-- A worker without a body to go on with begins a search. -/
theorem polls (h : Frozen r) (hworker : IsWorker workers i v)
    (hprogram : 0 ∈ ((r.state 0).worker 0 0).stack) :
    r.Leads (fun s ↦ (s.worker i v).ctl = .body)
      (fun s ↦ (s.worker i v).ctl = .next false .privateQueue) := by
  have hstep : ∀ n target, ((r.state n).worker i v).ctl = .body →
      workerStep workers (r.state n) i v target =
        some ((r.state n).setCtl i v (.next false .privateQueue)) := by
    intro n target hctl
    apply (h.consistent n).workerStep_poll hctl
    · rintro hstack ⟨rfl, rfl⟩
      rw [h.stack_eq] at hstack
      rw [hstack] at hprogram
      cases hprogram
    · intro k rest hstack
      rw [h.stack_eq] at hstack
      rw [h.tasks_eq]
      exact h.blocked hstack
  apply h.fair.leads (.worker i v)
  · intro n hctl
    by_cases hact : (r.act n).thread = some (.worker i v)
    · obtain ⟨-, target, hs⟩ := exists_workerStep hact (r.step n)
      rw [hstep n target hctl] at hs
      left
      rw [← Option.some.inj hs]
      exact worker_setCtl_self ..
    · refine .inr ⟨?_, hact⟩
      rw [(h.change n).worker_of_ne hact]
      exact hctl
  · intro n hkeep
    exact ⟨n, le_rfl, (h.consistent n).canAct_work hworker
      fun target _ ↦ ⟨_, hstep n target (hkeep n le_rfl)⟩⟩

/-- The step of a search at a queue. -/
theorem looks (h : Frozen r) {again : Bool} {pos : Pos} {Q : State β → Prop}
    (hpos : ∀ node, pos ≠ .steal node)
    (hq : ∀ n, lookAt workers (r.state n) i v again pos = some (r.state (n + 1)) →
      Q (r.state (n + 1))) :
    r.Leads (fun s ↦ (s.worker i v).ctl = .next again pos) Q := by
  apply h.fair.leads (.worker i v)
  · intro n hctl
    by_cases hact : (r.act n).thread = some (.worker i v)
    · obtain ⟨-, target, hs⟩ := exists_workerStep hact (r.step n)
      simp only [workerStep, hctl] at hs
      exact .inl (hq n hs)
    · refine .inr ⟨?_, hact⟩
      rw [(h.change n).worker_of_ne hact]
      exact hctl
  · intro n hkeep
    have hctl := hkeep n le_rfl
    have hworker := (h.consistent n).isWorker (by rw [hctl]; intro hbody; cases hbody)
    refine ⟨n, le_rfl, (h.consistent n).canAct_work hworker ?_⟩
    intro target _
    simp only [workerStep, hctl]
    cases pos with
    | privateQueue | publicQueue j =>
        simp only [lookAt]
        split <;> exact ⟨_, rfl⟩
    | steal node => exact absurd rfl (hpos node)

/-- A task in a queue is found there. -/
theorem never_full (h : Frozen r) {again : Bool} {pos : Pos} (hpos : ∀ node, pos ≠ .steal node)
    (hfull : ∀ n, tasksAt ((r.state n).node i).queues pos ≠ []) (n : Nat) :
    ((r.state n).worker i v).ctl ≠ .next again pos := by
  have hleads : r.Leads (fun s ↦ (s.worker i v).ctl = .next again pos)
      (fun s ↦ ∃ k, (s.worker i v).ctl = .got k) := by
    apply h.looks hpos
    intro n hlook
    obtain ⟨k, rest, hqueue⟩ := List.exists_cons_of_ne_nil (hfull n)
    refine ⟨k, ?_⟩
    cases pos with
    | privateQueue =>
        simp only [tasksAt] at hqueue
        simp only [lookAt, Queues.torcIPqDequeue, hqueue, Option.some.injEq] at hlook
        rw [← hlook]
        exact worker_setCtl_self ..
    | publicQueue j =>
        simp only [tasksAt] at hqueue
        simp only [lookAt, Queues.torcIRqDequeue, hqueue, Option.some.injEq] at hlook
        rw [← hlook]
        exact worker_setCtl_self ..
    | steal node => exact absurd rfl (hpos node)
  apply hleads.never
  rintro m ⟨k, hgot⟩
  exact h.never_got i v k m hgot

/-- No search comes to a public queue at or above one that always has a task. -/
theorem never_above (h : Frozen r) {j j' : Nat} (hle : j ≤ j') (again : Bool)
    (hfull : ∀ n, tasksAt ((r.state n).node i).queues (.publicQueue j) ≠ []) (n : Nat) :
    ((r.state n).worker i v).ctl ≠ .next again (.publicQueue j') := by
  induction j', hle using Nat.le_induction generalizing n with
  | base => exact h.never_full (by intro node hnode; cases hnode) hfull n
  | succ j' hle ih =>
      have hleads : r.Leads (fun s ↦ (s.worker i v).ctl = .next again (.publicQueue (j' + 1)))
          (fun s ↦ (∃ k, (s.worker i v).ctl = .got k) ∨
            (s.worker i v).ctl = .next again (.publicQueue j')) := by
        apply h.looks (by intro node hnode; cases hnode)
        intro n hlook
        simp only [lookAt] at hlook
        split at hlook
        case h_1 k q hq =>
          rw [← Option.some.inj hlook]
          exact .inl ⟨k, worker_setCtl_self ..⟩
        case h_2 =>
          rw [← Option.some.inj hlook]
          exact .inr (worker_setCtl_self ..)
      apply hleads.never
      rintro m (⟨k, hgot⟩ | hnext)
      · exact h.never_got i v k m hgot
      · exact ih m hnext

/-- No search begins on a node where some queue always has a task. -/
theorem never_begins (h : Frozen r) {again : Bool} {pos : Pos}
    (hpos : ∀ node, pos ≠ .steal node)
    (hlast : ∀ j, pos = .publicQueue j → j ≤ 9)
    (hfull : ∀ n, tasksAt ((r.state n).node i).queues pos ≠ []) (n : Nat) :
    ((r.state n).worker i v).ctl ≠ .next again .privateQueue := by
  cases pos with
  | privateQueue => exact h.never_full hpos hfull n
  | publicQueue j =>
      have hleads : r.Leads (fun s ↦ (s.worker i v).ctl = .next again .privateQueue)
          (fun s ↦ (∃ k, (s.worker i v).ctl = .got k) ∨
            (s.worker i v).ctl = .next again (.publicQueue 9)) := by
        apply h.looks (by intro node hnode; cases hnode)
        intro n hlook
        simp only [lookAt] at hlook
        split at hlook
        case h_1 k q hq =>
          rw [← Option.some.inj hlook]
          exact .inl ⟨k, worker_setCtl_self ..⟩
        case h_2 =>
          rw [← Option.some.inj hlook]
          exact .inr (worker_setCtl_self ..)
      apply hleads.never
      rintro m (⟨k, hgot⟩ | hnext)
      · exact h.never_got i v k m hgot
      · exact h.never_above (hlast j rfl) again hfull m hnext
  | steal node => exact absurd rfl (hpos node)

/-- A task in a queue stays there. -/
theorem keeps (h : Frozen r) {pos : Pos} (hk : k ∈ tasksAt ((r.state 0).node i).queues pos)
    (n : Nat) : k ∈ tasksAt ((r.state n).node i).queues pos := by
  induction n with
  | zero => exact hk
  | succ n ih =>
      rcases (h.change n).keeps ih with hk | ⟨j, u, hgot⟩ | ⟨j, thief, vpid, hreply⟩
      · exact hk
      · exact absurd hgot (h.never_got j u k (n + 1))
      · exact absurd hreply (h.never_replied j thief vpid k (n + 1))

/-- There is no task in any queue. -/
theorem queue_empty (h : Frozen r) (hprogram : 0 ∈ ((r.state 0).worker 0 0).stack) (i : Nat) :
    ((r.state 0).node i).queues.tasks = [] := by
  rcases (h.consistent 0).sound.queues i with hi | hempty
  · have hworker : IsWorker workers i 0 := by
      refine ⟨hi, ?_⟩
      rw [List.getD_eq_getElem _ _ hi]
      exact (h.counts _ (List.getElem_mem hi)).1
    obtain ⟨n, -, hbody⟩ := h.body_again i 0 0
    obtain ⟨m, -, hnext⟩ := h.polls hworker hprogram n hbody
    have hnever :
        ∀ pos, (∀ node, pos ≠ .steal node) → (∀ j, pos = .publicQueue j → j ≤ 9) →
        ∀ k, k ∉ tasksAt ((r.state 0).node i).queues pos := by
      intro pos hpos hlast k hk
      exact h.never_begins hpos hlast (fun l ↦ List.ne_nil_of_mem (h.keeps hk l)) m hnext
    apply List.eq_nil_iff_forall_not_mem.mpr
    intro k hk
    rw [Queues.tasks, List.mem_append, List.mem_flatMap] at hk
    rcases hk with hk | ⟨j, hj, hk⟩
    · exact hnever .privateQueue (by intro node hnode; cases hnode)
        (by intro j hj; cases hj) k hk
    · refine hnever (.publicQueue j) (by intro node hnode; cases hnode) ?_ k hk
      intro j' hj'
      cases hj'
      exact Nat.le_of_lt_succ (List.mem_range.mp hj)
  · exact hempty

/-! ## Tasks -/

/-- A task that a server is handed gets into a queue of its node. -/
theorem enqueued (h : Frozen r) {n src thread : Nat}
    (hserver : servers (r.state n) i = .handling src thread (.enqueue k)) :
    ∃ m, k ∈ ((r.state m).node i).queues.tasks := by
  have hleads : r.Leads (fun s ↦ servers s i = .handling src thread (.enqueue k))
      (fun s ↦ k ∈ (s.node i).queues.tasks) := by
    apply h.serves (by intro hloop; cases hloop)
    intro n hserver hs
    simp only [serverStep, hserver, handle, Option.some.injEq] at hs
    rw [← hs, queues_setServer]
    simp only [State.setQueues, State.setNode, Function.update_self]
    split
    · exact (inserts_torcToIRq _ _ _).perm.mem_iff.mpr List.mem_cons_self
    · exact (inserts_torcToIRqEnd _ _ _).perm.mem_iff.mpr List.mem_cons_self
  obtain ⟨m, -, hm⟩ := hleads n hserver
  exact ⟨m, hm⟩

/-- A task that is not done has begun, or it gets into a queue. -/
theorem running_or_queued (h : Frozen r) (hlive : Live (r.state 0).tasks k) :
    ((r.state 0).tasks.status k = .running ∧
      ∃ w : Nat × Nat, k ∈ ((r.state 0).worker w.1 w.2).stack) ∨
    ((r.state 0).tasks.status k = .ready ∧ ∃ n i, k ∈ ((r.state n).node i).queues.tasks) := by
  obtain ⟨p, hp⟩ := (h.consistent 0).placed.exists_entry hlive
  -- the entry of a live task says where it is at the start of the frozen run
  cases p with
  | queue i =>
      obtain ⟨k', hk', heq⟩ := List.mem_map.mp hp
      obtain ⟨rfl, hstatus⟩ := Prod.mk.inj heq
      exact .inr ⟨hstatus.symm, 0, i, hk'⟩
  | hand i v =>
      cases hctl : ((r.state 0).worker i v).ctl with
      -- a worker with a task in hand would begin it and lower the work
      | got k' => exact absurd hctl (h.never_got i v k' 0)
      | body | next | waitReply =>
          simp only [entries, hctl, WorkerCtl.entries] at hp
          cases hp
  | stack i v =>
      obtain ⟨k', hk', heq⟩ := List.mem_map.mp hp
      obtain ⟨rfl, hstatus⟩ := Prod.mk.inj heq
      exact .inl ⟨hstatus.symm, (i, v), hk'⟩
  | server i =>
      have hok := (h.consistent 0).sound.server i
      simp only [entries] at hp
      cases hserver : ((r.state 0).node i).server with
      | handling src thread x =>
          rw [hserver] at hp hok
          cases x with
          | enqueue k' =>
              obtain ⟨rfl, hstatus⟩ := Prod.mk.inj (List.mem_singleton.mp hp)
              -- the server has it in hand and inserts it
              obtain ⟨n, hn⟩ := h.enqueued hserver
              exact .inr ⟨hstatus, n, i, hn⟩
          | request => cases hp
          | answer k' result =>
              exact absurd hserver (h.never_handling_answer i src thread k' result 0)
          | reply => exact absurd trivial hok.1
      | reply thief vpid work =>
          rw [hserver] at hp
          cases work with
          | none => cases hp
          | some k' => exact absurd hserver (h.never_replied i thief vpid k' 0)
      | loop | scan =>
          rw [hserver] at hp
          cases hp
  | net =>
      obtain ⟨m, hm, hentry⟩ := List.mem_flatMap.mp hp
      have hok := (h.consistent 0).sound.net m hm
      unfold MsgOk at hok
      cases hx : m.content <;> simp only [hx, Content.entries] at hok hentry
      case enqueue k' =>
        obtain ⟨rfl, hstatus⟩ := Prod.mk.inj (List.mem_singleton.mp hentry)
        -- a task in a message gets to its server, which inserts it
        obtain ⟨n, -, hserver⟩ := h.exists_received hm hok.1 hok.2.1 hok.2.2.1
        rw [hx] at hserver
        obtain ⟨n', hn'⟩ := h.enqueued hserver
        exact .inr ⟨hstatus, n', _, hn'⟩
      case request => cases hentry
      case answer k' result =>
        obtain ⟨n, -, hserver⟩ := h.exists_received hm hok.1 hok.2.1 hok.2.2.1
        rw [hx] at hserver
        -- an answer that is handled would lower the work
        exact absurd hserver (h.never_handling_answer _ _ _ _ _ n)
      case reply work =>
        obtain ⟨hthread, v, -, htag⟩ := hok
        cases work with
        | none => cases hentry
        | some k' =>
            -- so would a stolen task that comes to its thief
            refine absurd (Mailbox.mem_queue.mpr ?_)
              (h.never_stolen m.chan.src m.chan.dst v k' 0)
            rw [← hthread, ← htag, ← hx]
            exact hm

/-- The program has returned. -/
theorem returned (h : Frozen r) : (r.state 0).returned = true := by
  by_contra hreturned
  obtain ⟨hprogram, j, u, t, rest, hstack, hgo | ⟨c, hlive, hready⟩⟩ :=
    (h.consistent 0).exists_latest (Bool.eq_false_iff.mpr hreturned) fun k hk ↦ by
      rcases h.running_or_queued hk with hrun | ⟨hready, -⟩
      · exact .inr hrun
      · exact .inl hready
  · obtain ⟨hblocked, hndep⟩ := h.blocked hstack
    exact absurd (hgo hblocked) (Int.not_le.mpr hndep)
  · rcases h.running_or_queued hlive with ⟨hrun, -⟩ | ⟨-, n, i, hi⟩
    · rw [hrun] at hready
      cases hready
    · rw [← h.stack_eq 0 0 n] at hprogram
      have hempty : ((r.state n).node i).queues.tasks = [] := (h.drop n).queue_empty hprogram i
      rw [hempty] at hi
      cases hi

end Frozen

/-! ## The end of the program -/

/-- In a fair run the tasks get on until the program has returned. -/
theorem exists_lt_of_fair (L : Layout) {r : Run (system L.workers root)} (hfair : r.Fair Act.thread)
    (hconsistent : ∀ n, Consistent L.workers root (r.state n)) {n : Nat}
    (hreturned : ¬ (r.state n).returned = true) :
    ∃ m, n ≤ m ∧
      (r.state m).tasks.total Tasks.workRates < (r.state n).tasks.total Tasks.workRates := by
  by_contra hnone
  have hle : ∀ m, ¬ (r.state (n + m)).tasks.total Tasks.workRates <
      (r.state n).tasks.total Tasks.workRates := fun m hlt ↦ hnone ⟨n + m, by omega, hlt⟩
  have hsame : ∀ m, (r.state (n + m)).tasks = (r.state n).tasks := by
    intro m
    induction m with
    | zero => rfl
    | succ m ih =>
        rcases (hconsistent (n + m)).toCoherent.tasks_or_step
          (step_change (hconsistent (n + m)).sound (r.step (n + m))) with hsame | hstep
        · exact hsame.trans ih
        · have hlt := (hconsistent (n + m)).tasks.work_step hstep
          rw [ih] at hlt
          exact absurd hlt (hle (m + 1))
  have hfrozen : Frozen (r.drop n) :=
    ⟨hfair.drop n, L.counts, fun m ↦ hconsistent (n + m),
      fun m ↦ (hsame (m + 1)).trans (hsame m).symm⟩
  exact hreturned hfrozen.returned

/-- Every fair run of a program comes to its end, and has its serial outcome from then on. -/
theorem fair_run_returns (L : Layout) (p : Program β L.workers)
    (r : Run (system L.workers p.body)) (hstart : r.state 0 = .start p.body)
    (hfair : r.Fair Act.thread) :
    ∃ n, ∀ m, n ≤ m → (r.state m).returned = true ∧ Finished p.body (r.state m) := by
  have hconsistent : ∀ n, Consistent L.workers p.body (r.state n) :=
    fun n ↦ consistent_of_reachable L p (r.reachable hstart n)
  obtain ⟨n, hn⟩ := r.exists_of_lt (fun s ↦ s.tasks.total Tasks.workRates)
    (fun s ↦ s.returned = true) fun n hn ↦ exists_lt_of_fair L hfair hconsistent hn
  refine ⟨n, fun m hm ↦ ?_⟩
  have hreturned : (r.state m).returned = true := by
    induction m, hm using Nat.le_induction with
    | base => exact hn
    | succ m hm ih =>
        rcases (hconsistent m).toCoherent.tasks_or_step
          (step_change (hconsistent m).sound (r.step m)) with
          hsame | hstep
        · unfold State.returned
          rw [hsame]
          exact ih
        · exact hstep.isDone ih (hconsistent m).tasks.pos
  exact ⟨hreturned, (hconsistent m).toCoherent.finished hreturned⟩

/-! ## A run without an end -/

/-- In a call of `get_next_task` that is to find nothing, or behind one. -/
def WorkerCtl.Seeks : WorkerCtl → Prop
  | .body | .next _ .privateQueue => True
  | .next _ (.publicQueue k) => k < 10
  | .next _ (.steal _) | .waitReply _ _ | .got _ => False

/-- The worker of node 1 looks into empty queues and there is nothing else to do. -/
structure Deserted (s : State β) : Prop where
  program : (s.worker 0 0).ctl = .body ∧ (s.worker 0 0).stack = []
  stack : (s.worker 1 0).stack = []
  seeks : (s.worker 1 0).ctl.Seeks
  empty : (s.node 1).queues.tasks = []
  stealing : (s.node 1).internodeStealing = false
  net : s.net = []
  server : ∀ i, i < 2 → (s.node i).server = .loop

theorem Deserted.setCtl {s : State β} {ctl : WorkerCtl} (h : Deserted s) (hctl : ctl.Seeks) :
    Deserted (s.setCtl 1 0 ctl) where
  program := h.program
  stack := by rw [stack_setCtl, h.stack]
  seeks := by rwa [worker_setCtl_self]
  empty := h.empty
  stealing := h.stealing
  net := h.net
  server := h.server

theorem Deserted.publicGrq {s : State β} (h : Deserted s) {j : Nat} (hj : j < 10) :
    (s.node 1).queues.publicGrq j = [] := by
  rw [List.eq_nil_iff_forall_not_mem]
  intro k hk
  have hmem : k ∈ (s.node 1).queues.tasks :=
    List.mem_append_right _ (List.mem_flatMap.mpr ⟨j, List.mem_range.mpr hj, hk⟩)
  rw [h.empty] at hmem
  cases hmem

/-- Its search goes on, and begins anew behind its end. -/
theorem Deserted.work {s : State β} (h : Deserted s) (target : Nat) :
    ∃ s', workerStep twoNodes.workers s 1 0 target = some s' ∧ Deserted s' := by
  have hprivate : (s.node 1).queues.privateGrq = [] := (List.append_eq_nil_iff.mp h.empty).1
  have hctl := h.seeks
  cases hnow : (s.worker 1 0).ctl with
  | body =>
      refine ⟨s.setCtl 1 0 (.next false .privateQueue), ?_, h.setCtl trivial⟩
      simp [workerStep, hnow, h.stack]
  | next again pos =>
      rw [hnow] at hctl
      cases pos with
      | privateQueue =>
          refine ⟨s.setCtl 1 0 (.next again (.publicQueue 9)), ?_,
            h.setCtl (show 9 < 10 by decide)⟩
          simp only [workerStep, hnow, lookAt, Queues.torcIPqDequeue, hprivate, nothingAt]
      | publicQueue j =>
          have hlt : j < 10 := hctl
          have hqueue := h.publicGrq hlt
          cases j with
          | zero =>
              refine ⟨noTask s 1 0 again, ?_, ?_⟩
              · simp [workerStep, hnow, lookAt, Queues.torcIRqDequeue, hqueue, nothingAt,
                  h.stealing]
              · cases again with
                | false => exact h.setCtl trivial
                | true => exact h.setCtl trivial
          | succ j =>
              refine ⟨s.setCtl 1 0 (.next again (.publicQueue j)), ?_,
                h.setCtl (show j < 10 by omega)⟩
              simp only [workerStep, hnow, lookAt, Queues.torcIRqDequeue, hqueue, nothingAt]
      | steal => exact hctl.elim
  | waitReply | got =>
      rw [hnow] at hctl
      exact hctl.elim

theorem Deserted.step {s : State β} (h : Deserted s) :
    ∃ s', (system twoNodes.workers root).step (.work 1 0 0) s = some s' ∧ Deserted s' := by
  obtain ⟨s', hs, hs'⟩ := h.work 0
  have hworker : IsWorker twoNodes.workers 1 0 ∧ 0 < torcTotalNumThreads twoNodes.workers := by
    decide
  refine ⟨s', ?_, hs'⟩
  show Parallel.step twoNodes.workers s (.work 1 0 0) = some s'
  rw [Parallel.step, if_pos hworker]
  exact hs

/-- No other thread can do anything. -/
theorem Deserted.stops {s : State β} (h : Deserted s) {θ : Thread} (hθ : θ ≠ .worker 1 0) :
    ¬ (system twoNodes.workers root).CanAct Act.thread θ s := by
  rintro ⟨a, s', hthread, hstep⟩
  cases a with
  | work i v target =>
      cases hthread
      have hs : Parallel.step twoNodes.workers s (.work i v target) = some s' := hstep
      obtain ⟨⟨hi, hv⟩, target', hs⟩ := exists_workerStep (i := i) (v := v) rfl hs
      have hnode : i = 0 ∨ i = 1 := by
        have hlt : i < 2 := hi
        omega
      have hzero : v = 0 := by
        rcases hnode with rfl | rfl
        · exact Nat.lt_one_iff.mp hv
        · exact Nat.lt_one_iff.mp hv
      subst hzero
      rcases hnode with rfl | rfl
      · simp [workerStep, h.program.1, h.program.2] at hs
      · exact hθ rfl
  | receive i src thread =>
      have hs : Parallel.step twoNodes.workers s (.receive i src thread) = some s' := hstep
      simp only [Parallel.step] at hs
      split at hs
      case isTrue hi =>
        have hnone : Mailbox.take ⟨src, thread, i, maxNvps⟩ s.net = none := by
          rw [h.net]
          rfl
        simp only [receiveMessage, h.server i hi.2, hnone] at hs
        cases hs
      case isFalse => cases hs
  | serve i =>
      have hs : Parallel.step twoNodes.workers s (.serve i) = some s' := hstep
      simp only [Parallel.step] at hs
      split at hs
      case isTrue hi =>
        simp only [serverStep, h.server i hi.2] at hs
        cases hs
      case isFalse => cases hs
  | setStealing => cases hthread

/-- The grandchild is stolen, executed and answered, and stealing is switched off at the end. -/
def nestedChildRun : List Act :=
  nestedChildAsked ++ .receive 0 1 0 :: List.replicate 4 (.serve 0) ++
    List.replicate 3 (.work 1 0 0) ++ [.receive 0 1 0, .serve 0] ++
    List.replicate 4 (.work 0 0 0) ++ [.setStealing 1 false]

set_option maxRecDepth 8000 in
theorem exists_deserted : ∃ s, (system twoNodes.workers nestedChild.body).run
    (.start nestedChild.body) nestedChildRun = some s ∧ Deserted s := by
  let ends (s : State Nat) : Bool :=
    (s.worker 0 0).ctl = .body ∧ (s.worker 0 0).stack = [] ∧ (s.worker 1 0).ctl = .body ∧
      (s.worker 1 0).stack = [] ∧ (s.node 1).queues.tasks = [] ∧
      (s.node 1).internodeStealing = false ∧ s.net.length = 0 ∧
      (s.node 0).server = .loop ∧ (s.node 1).server = .loop
  have hend : ((system twoNodes.workers nestedChild.body).run (.start nestedChild.body)
      nestedChildRun).map ends = some true := by decide
  obtain ⟨s, hrun, hs⟩ := Option.map_eq_some_iff.mp hend
  obtain ⟨hctl, hstack, hctl', hstack', hempty, hoff, hnet, hserver, hserver'⟩ :=
    of_decide_eq_true hs
  refine ⟨s, hrun, ⟨hctl, hstack⟩, hstack', ?_, hempty, hoff,
    List.length_eq_zero_iff.mp hnet, ?_⟩
  · rw [hctl']
    trivial
  · intro i hi
    obtain rfl | rfl : i = 0 ∨ i = 1 := by omega
    · exact hserver
    · exact hserver'

/-- Behind its end a run on two nodes only has a worker look for tasks again and again. -/
theorem fair_run_returns_nestedChild : ∃ r : Run (system twoNodes.workers nestedChild.body),
    r.state 0 = .start nestedChild.body ∧ r.Fair Act.thread ∧
      (∀ n, r.act (nestedChildRun.length + n) = .work 1 0 0) ∧
      ∃ n, ∀ m, n ≤ m → (r.state m).returned = true ∧
      Finished nestedChild.body (r.state m) := by
  obtain ⟨s, hrun, hs⟩ := exists_deserted
  obtain ⟨r, hstart, hend⟩ := Run.exists_of_run (fun _ ↦ .work 1 0 0) hrun hs
    fun _ _ hs ↦ hs.step
  have hfair : r.Fair Act.thread := by
    apply Run.fair_of_recurring (N := nestedChildRun.length)
    intro θ
    by_cases hθ : θ = .worker 1 0
    · left
      intro n
      refine ⟨nestedChildRun.length + n, Nat.le_add_left .., ?_⟩
      rw [(hend n).1, hθ]
      rfl
    · right
      intro n hn
      obtain ⟨m, rfl⟩ := Nat.exists_eq_add_of_le hn
      exact (hend m).2.stops hθ
  exact ⟨r, hstart, hfair, fun n ↦ (hend n).1,
    fair_run_returns twoNodes nestedChild r hstart hfair⟩

end Torc.Parallel
