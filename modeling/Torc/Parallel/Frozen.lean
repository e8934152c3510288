import Torc.Lib.Fairness
import Torc.Parallel.Frames

/-!
# Runs in which no task gets on

A fair run whose tasks stay as they are for ever: its servers handle every message, its locks become
free again and again, and no thread ever has a task to execute.
-/

namespace Torc.Parallel

open Transition
open Cluster (Pos IsWorker)

variable {β : Type} {workers : List Nat} {root : Body β} {s s' : State β} {i v k : Nat}

/-! ## The action of a thread -/

theorem exists_workerStep {a : Act} (ha : a.thread = some (.worker i v))
    (h : step workers s a = some s') :
    IsWorker workers i v ∧ ∃ target, workerStep workers s i v target = some s' := by
  cases a with
  | work j u target =>
      obtain ⟨rfl, rfl⟩ : j = i ∧ u = v := by simpa [Act.thread] using ha
      simp only [step] at h
      split at h
      case isTrue hw => exact ⟨hw.1, target, h⟩
      case isFalse => cases h
  | receive | serve | setStealing => simp [Act.thread] at ha

theorem exists_serverStep {a : Act} (ha : a.thread = some (.server i))
    (h : step workers s a = some s') : serverStep s i = some s' := by
  cases a with
  | serve j =>
      obtain rfl : j = i := by simpa [Act.thread] using ha
      simp only [step] at h
      split at h
      case isTrue => exact h
      case isFalse => cases h
  | work | receive | setStealing => simp [Act.thread] at ha

theorem Consistent.canAct_work (h : Consistent workers root s) (hworker : IsWorker workers i v)
    (hstep : ∀ target < torcTotalNumThreads workers,
      ∃ s', workerStep workers s i v target = some s') :
    (system workers root).CanAct Act.thread (.worker i v) s := by
  have hturn := h.aimed.turn i v hworker
  obtain ⟨s', hs⟩ := hstep _ hturn
  exact ⟨.work i v ((s.node i).roundRobin.target workers i v), s', rfl,
    (if_pos ⟨hworker, hturn⟩).trans hs⟩

theorem Change.move_of_busy (h : Change workers s (some (.worker i v)) s')
    (hbusy : (s.worker i v).ctl ≠ .body) : Move workers s (.worker i v) s' := by
  cases h with
  | move hmove => exact hmove
  | poll hworker hctl => exact absurd hctl hbusy

/-- Nothing but a task that gets on changes the stack of a worker. -/
theorem Change.stack_or_step {o : Option Thread} (h : Change workers s o s') (hplaced : Placed s) :
    (s'.worker i v).stack = (s.worker i v).stack ∨ Tasks.Step s.tasks s'.tasks := by
  cases h with
  | toggle => exact .inl rfl
  | poll => exact .inl (stack_setCtl ..)
  | move hmove =>
      cases hmove with
      | goOn | createHere | createAway => exact .inl rfl
      | returnHome hruns hstep | returnAway hruns hstep =>
          exact .inr (.body (hplaced.status_stack hruns.stack) hstep)
      | execute hworker hctl => exact .inr (.execute (hplaced.status_got hctl))
      | found | pass | ask | refused | stolen => exact .inl (stack_setCtl ..)
      | receive | enqueue | request | answer | scanFound | scanNext | scanNone | replied =>
          exact .inl rfl

/-- A body that is not left for a search gets its task on. -/
theorem Move.step_of_body (h : Move workers s (.worker i v) s') (hplaced : Placed s)
    (hctl : (s.worker i v).ctl = .body) : Tasks.Step s.tasks s'.tasks := by
  cases h with
  | goOn hruns hstep | createHere hruns hturn hstep | createAway hruns hturn hstep =>
      exact .body (hplaced.status_stack hruns.stack) hstep
  | returnHome hruns hstep | returnAway hruns hstep =>
      exact .body (hplaced.status_stack hruns.stack) hstep
  | found hworker hctl' | pass hworker hctl' | ask hworker hctl' | refused hworker hctl'
  | stolen hworker hctl' | execute hworker hctl' =>
      rw [hctl] at hctl'
      cases hctl'

/-- Any other worker comes nearer to the end of its search. -/
theorem Move.worker_rank (h : Move workers s (.worker i v) s')
    (hok : (s.worker i v).ctl.Ok workers.length i) (hbusy : (s.worker i v).ctl ≠ .body)
    (hgot : ∀ k, (s.worker i v).ctl ≠ .got k) :
    (s'.worker i v).ctl.rank workers.length i < (s.worker i v).ctl.rank workers.length i := by
  cases h with
  | goOn hruns | createHere hruns | createAway hruns | returnHome hruns | returnAway hruns =>
      exact absurd hruns.ctl hbusy
  | execute hworker hctl => exact absurd hctl (hgot _)
  | @found _ _ _ again _ _ hworker hctl =>
      have hpos := callRank_pos workers.length again
      rw [worker_setCtl_self, hctl]
      simp only [WorkerCtl.rank]
      omega
  | pass hworker hctl hidle hok' hrank =>
      rw [worker_setCtl_self, hctl]
      exact hrank
  | ask hworker hctl =>
      rw [hctl] at hok
      have hpos := ringLeft_pos hok.1 hok.2
      rw [worker_setCtl_self, hctl]
      simp only [WorkerCtl.rank, posRank]
      omega
  | refused hworker hctl htake hidle hok' hrank =>
      rw [worker_setCtl_self, hctl]
      exact hrank
  | @stolen _ _ _ _ again _ hworker hctl =>
      have hpos := callRank_pos workers.length again
      rw [worker_setCtl_self, hctl]
      simp only [WorkerCtl.rank]
      omega

/-! ## Frozen runs -/

structure Frozen (r : Run (system workers root)) : Prop where
  fair : r.Fair Act.thread
  counts : ∀ w ∈ workers, 0 < w ∧ w ≤ maxNvps
  consistent : ∀ n, Consistent workers root (r.state n)
  tasks : ∀ n, (r.state (n + 1)).tasks = (r.state n).tasks

namespace Frozen

variable {r : Run (system workers root)}

theorem drop (h : Frozen r) (n : Nat) : Frozen (r.drop n) where
  fair := h.fair.drop n
  counts := h.counts
  consistent m := h.consistent (n + m)
  tasks m := h.tasks (n + m)

theorem change (h : Frozen r) (n : Nat) :
    Change workers (r.state n) (r.act n).thread (r.state (n + 1)) :=
  step_change (h.consistent n).sound (r.step n)

/-- The action of the thread at this time. -/
theorem move (h : Frozen r) {n : Nat} {θ : Thread} (hact : (r.act n).thread = some θ) :
    Change workers (r.state n) (some θ) (r.state (n + 1)) := by
  rw [← hact]
  exact h.change n

theorem not_step (h : Frozen r) (n : Nat) :
    ¬ Tasks.Step (r.state n).tasks (r.state (n + 1)).tasks := by
  intro hstep
  have hlt := (h.consistent n).tasks.work_step hstep
  rw [h.tasks n] at hlt
  exact Nat.lt_irrefl _ hlt

theorem stack (h : Frozen r) (n i v : Nat) :
    ((r.state (n + 1)).worker i v).stack = ((r.state n).worker i v).stack :=
  ((h.change n).stack_or_step (h.consistent n).placed).resolve_right (h.not_step n)

theorem canAct {θ : Thread} (h : Enabled workers θ s) :
    (system workers root).CanAct Act.thread θ s := by
  obtain ⟨a, s', -, hthread, hstep, -⟩ := h
  exact ⟨a, s', hthread, hstep⟩

/-- No worker ever has a task to execute. -/
theorem never_got (h : Frozen r) (i v k n : Nat) : ((r.state n).worker i v).ctl ≠ .got k := by
  have hleads : r.Leads (fun s ↦ (s.worker i v).ctl = .got k) (fun _ ↦ False) := by
    apply h.fair.leads (.worker i v)
    · intro n hctl
      by_cases hact : (r.act n).thread = some (.worker i v)
      · obtain ⟨-, target, hs⟩ := exists_workerStep hact (r.step n)
        simp only [workerStep, hctl, Option.some.injEq] at hs
        have hstep : Tasks.Step (r.state n).tasks (r.state (n + 1)).tasks := by
          rw [← hs]
          exact .execute ((h.consistent n).placed.status_got hctl)
        exact absurd hstep (h.not_step n)
      · refine .inr ⟨?_, hact⟩
        rw [(h.change n).worker_of_ne hact]
        exact hctl
    · intro n hkeep
      have hctl := hkeep n le_rfl
      have hworker := (h.consistent n).isWorker (by rw [hctl]; intro hbody; cases hbody)
      refine ⟨n, le_rfl, canAct ((h.consistent n).enabled_work hworker ?_)⟩
      intro target
      exact ⟨execute (r.state n) i v k, by simp only [workerStep, hctl], .execute hworker hctl⟩
  exact hleads.never (fun _ ↦ id) n

/-! ## Servers and their messages -/

theorem server_loop (h : Frozen r) (i : Nat) :
    r.Leads (fun s ↦ servers s i ≠ .loop) (fun s ↦ servers s i = .loop) := by
  apply h.fair.leads_of_lt (.server i) (fun s ↦ (servers s i).rank)
  · intro n hbusy
    by_cases hact : (r.act n).thread = some (.server i)
    · cases h.move hact with
      | move hmove =>
          have hlt := hmove.server_rank ((h.consistent n).sound.server i)
          by_cases hloop : servers (r.state (n + 1)) i = .loop
          · exact .inl hloop
          · exact .inr ⟨hloop, hlt.le, fun _ ↦ hlt⟩
    · have hsame := (h.change n).server_of_busy hact hbusy
      exact .inr ⟨hsame ▸ hbusy, (congrArg ServerCtl.rank hsame).le,
        fun heq ↦ absurd heq hact⟩
  · intro n hkeep
    exact ⟨n, le_rfl, canAct ((h.consistent n).enabled_server (hkeep n le_rfl))⟩

/-- A message is received when all messages before it in its channel have been. -/
theorem taken (h : Frozen r) {c : Chan} {x : Content β} {Q : State β → Prop}
    (htake : ∀ n, (r.act n).thread = some (reader c) → x ∈ Mailbox.queue c (r.state n).net →
      ∃ y, Mailbox.queue c (r.state n).net = y :: Mailbox.queue c (r.state (n + 1)).net ∧
        (y = x → Q (r.state (n + 1))))
    (hcan : ∀ n, (∀ m, n ≤ m → x ∈ Mailbox.queue c (r.state m).net) →
      ∃ m, n ≤ m ∧ (system workers root).CanAct Act.thread (reader c) (r.state m)) :
    r.Leads (fun s ↦ x ∈ Mailbox.queue c s.net) Q := by
  have hnext : ∀ j : Nat, r.Leads (fun s ↦ (Mailbox.queue c s.net)[j]? = some x)
      (fun s ↦ Q s ∨ ∃ l < j, (Mailbox.queue c s.net)[l]? = some x) := by
    intro j
    apply h.fair.leads (reader c)
    · intro n hx
      by_cases hact : (r.act n).thread = some (reader c)
      · obtain ⟨y, hqueue, hy⟩ := htake n hact (List.mem_of_getElem? hx)
        rw [hqueue] at hx
        cases j with
        | zero => exact .inl (.inl (hy (by simpa using hx)))
        | succ j => exact .inl (.inr ⟨j, j.lt_succ_self, by simpa using hx⟩)
      · obtain ⟨l, hl⟩ := (h.change n).queue_of_ne hact
        refine .inr ⟨?_, hact⟩
        rw [hl, List.getElem?_append_left (List.getElem?_eq_some_iff.mp hx).1]
        exact hx
    · exact fun n hkeep ↦ hcan n fun m hm ↦ List.mem_of_getElem? (hkeep m hm)
  have hindex : ∀ j : Nat, r.Leads (fun s ↦ (Mailbox.queue c s.net)[j]? = some x) Q := by
    intro j
    induction j using Nat.strongRecOn with
    | ind j ih =>
        intro n hn
        obtain ⟨m, hm, hq | ⟨l, hl, hx⟩⟩ := hnext j n hn
        · exact ⟨m, hm, hq⟩
        · obtain ⟨m', hm', hq⟩ := ih l hl m hx
          exact ⟨m', hm.trans hm', hq⟩
  intro n hn
  obtain ⟨j, hj⟩ := List.mem_iff_getElem?.mp hn
  exact hindex j n hj

/-- The server of a node receives every message for it. -/
theorem received (h : Frozen r) (hnodes : 1 < workers.length) (hi : i < workers.length)
    (src thread : Nat) (x : Content β) :
    r.Leads (fun s ↦ x ∈ Mailbox.queue ⟨src, thread, i, maxNvps⟩ s.net)
      (fun s ↦ servers s i = .handling src thread x) := by
  apply h.taken
  · intro n hact hx
    rw [reader_server] at hact
    obtain ⟨y, hqueue, hserver⟩ := (h.move hact).queue_receiver
    refine ⟨y, hqueue, ?_⟩
    rintro rfl
    exact hserver
  · intro n hkeep
    have hloop : ∃ m, n ≤ m ∧ servers (r.state m) i = .loop := by
      by_cases hloop : servers (r.state n) i = .loop
      · exact ⟨n, le_rfl, hloop⟩
      · exact h.server_loop i n hloop
    obtain ⟨m, hm, hloop⟩ := hloop
    obtain ⟨y, l, hqueue⟩ := List.exists_cons_of_ne_nil (List.ne_nil_of_mem (hkeep m hm))
    obtain ⟨rest, htake⟩ := Mailbox.exists_take hqueue
    rw [reader_server]
    exact ⟨m, hm, canAct (enabled_receive hnodes hi hloop htake)⟩

/-- A message to a server is in one of its channels. -/
theorem exists_received (h : Frozen r) {n : Nat} {m : Msg β} (hm : m ∈ (r.state n).net)
    (htag : m.chan.tag = maxNvps) (hdst : m.chan.dst < workers.length)
    (hnodes : 1 < workers.length) :
    ∃ l, n ≤ l ∧ servers (r.state l) m.chan.dst =
      .handling m.chan.src m.chan.thread m.content := by
  have hmem : m.content ∈ Mailbox.queue ⟨m.chan.src, m.chan.thread, m.chan.dst, maxNvps⟩
      (r.state n).net := by
    rw [Mailbox.mem_queue, ← htag]
    exact hm
  exact h.received hnodes hdst _ _ _ n hmem

/-- A busy server makes its next step. -/
theorem serves (h : Frozen r) {ctl : ServerCtl β} {Q : State β → Prop} (hbusy : ctl ≠ .loop)
    (hq : ∀ n, ((r.state n).node i).server = ctl →
      serverStep (r.state n) i = some (r.state (n + 1)) → Q (r.state (n + 1))) :
    r.Leads (fun s ↦ servers s i = ctl) Q := by
  apply h.fair.leads (.server i)
  · intro n hserver
    by_cases hact : (r.act n).thread = some (.server i)
    · exact .inl (hq n hserver (exists_serverStep hact (r.step n)))
    · refine .inr ⟨?_, hact⟩
      rw [(h.change n).server_of_busy hact (hserver ▸ hbusy)]
      exact hserver
  · intro n hkeep
    refine ⟨n, le_rfl, canAct ((h.consistent n).enabled_server ?_)⟩
    have hserver : ((r.state n).node i).server = ctl := hkeep n le_rfl
    rw [hserver]
    exact hbusy

theorem never_handling_answer (h : Frozen r) (i src thread k : Nat) (result : β) (n : Nat) :
    servers (r.state n) i ≠ .handling src thread (.answer k result) := by
  have hleads : r.Leads (fun s ↦ servers s i = .handling src thread (.answer k result))
      (fun _ ↦ False) := by
    apply h.serves (by intro hloop; cases hloop)
    intro n hserver hs
    have hstep : Tasks.Step (r.state n).tasks (r.state (n + 1)).tasks := by
      simp only [serverStep, hserver, handle, Option.some.injEq] at hs
      rw [← hs]
      exact .complete ((h.consistent n).placed.status_answer hserver)
    exact h.not_step n hstep
  exact hleads.never (fun _ ↦ id) n

/-- A server that scans its queues has its reply in the end. -/
theorem scanned (h : Frozen r) (i thief vpid j : Nat) :
    r.Leads (fun s ↦ servers s i = .scan thief vpid j)
      (fun s ↦ ∃ work, servers s i = .reply thief vpid work) := by
  have hnext : ∀ j, r.Leads (fun s ↦ servers s i = .scan thief vpid j)
      (fun s ↦ (∃ work, servers s i = .reply thief vpid work) ∨
        j < 9 ∧ servers s i = .scan thief vpid (j + 1)) := by
    intro j
    apply h.serves (by intro hloop; cases hloop)
    intro n hserver hs
    simp only [serverStep, hserver] at hs
    split at hs
    case h_1 k q hq =>
      rw [← Option.some.inj hs]
      exact .inl ⟨some k, servers_setServer_self ..⟩
    case h_2 =>
      split at hs
      case isTrue hj =>
        rw [← Option.some.inj hs]
        exact .inr ⟨hj, servers_setServer_self ..⟩
      case isFalse =>
        rw [← Option.some.inj hs]
        exact .inl ⟨none, servers_setServer_self ..⟩
  have hend : ∀ d j, 9 - j = d → r.Leads (fun s ↦ servers s i = .scan thief vpid j)
      (fun s ↦ ∃ work, servers s i = .reply thief vpid work) := by
    intro d
    induction d with
    | zero =>
        intro j hj
        apply (hnext j).mono
        rintro n (hreply | ⟨hlt, -⟩)
        · exact hreply
        · omega
    | succ d ih =>
        intro j hj n hn
        obtain ⟨m, hm, hreply | ⟨-, hscan⟩⟩ := hnext j n hn
        · exact ⟨m, hm, hreply⟩
        · obtain ⟨l, hl, hreply⟩ := ih (j + 1) (by omega) m hscan
          exact ⟨l, hm.trans hl, hreply⟩
  exact hend _ j rfl

/-- The reply of a server is sent. -/
theorem replied (h : Frozen r) (i thief vpid : Nat) (work : Option Nat) :
    r.Leads (fun s ↦ servers s i = .reply thief vpid work)
      (fun s ↦ .reply work ∈ Mailbox.queue ⟨i, maxNvps, thief, waitTag vpid⟩ s.net) := by
  apply h.serves (by intro hloop; cases hloop)
  intro n hserver hs
  have hok := (h.consistent n).sound.server i
  rw [hserver] at hok
  have htag := Sound.replyTag_eq (fun w hw ↦ (h.counts w hw).2) hok
  simp only [serverStep, hserver, htag] at hs
  rw [← Option.some.inj hs, Mailbox.mem_queue]
  exact List.mem_append_right _ (List.mem_singleton_self _)

/-! ## Replies -/

/-- The worker for which there is a reply waits for it. -/
theorem waits (h : Frozen r) {node n : Nat} {work : Option Nat}
    (hx : .reply work ∈ Mailbox.queue ⟨node, maxNvps, i, waitTag v⟩ (r.state n).net) :
    ∃ again, ((r.state n).worker i v).ctl = .waitReply again node := by
  have hmem : ((i, v), some node) ∈ requests (r.state n).net (servers (r.state n)) none := by
    refine List.mem_flatMap.mpr ⟨_, Mailbox.mem_queue.mp hx, ?_⟩
    simp [messageRequests, waitTag]
  have hasked : asked (r.state n) (i, v) = some node := (h.consistent n).requested.shows none _ hmem
  cases hctl : ((r.state n).worker i v).ctl <;> simp only [asked, hctl, WorkerCtl.asked] at hasked
  case waitReply again node' =>
    obtain rfl := Option.some.inj hasked
    exact ⟨again, rfl⟩
  all_goals cases hasked

/-- A worker receives the reply to its request. -/
theorem reply_received (h : Frozen r) (node i v : Nat) (work : Option Nat) :
    r.Leads (fun s ↦ .reply work ∈ Mailbox.queue ⟨node, maxNvps, i, waitTag v⟩ s.net)
      (fun s ↦ (s.node i).internodeM = false ∧
        ∀ k ∈ work, (s.worker i v).ctl = .got k) := by
  apply h.taken
  · intro n hact hx
    rw [reader_worker] at hact
    obtain ⟨again, hctl⟩ := h.waits hx
    have hstate := h.move hact
    generalize r.state (n + 1) = s' at hstate ⊢
    cases hstate with
    | poll hworker hctl' =>
        rw [hctl] at hctl'
        cases hctl'
    | move hmove =>
        cases hmove with
        | refused hworker hctl' htake =>
            rw [hctl] at hctl'
            cases hctl'
            refine ⟨.reply none, Mailbox.queue_eq_cons_of_take htake, ?_⟩
            intro hwork
            refine ⟨?_, by cases hwork; rintro k ⟨⟩⟩
            show locks (State.setStealing _ _ _) i = false
            rw [State.setStealing, locks_setNode, locks_lockInternode, Function.update_self]
            rfl
        | @stolen _ _ k _ _ net hworker hctl' htake =>
            rw [hctl] at hctl'
            cases hctl'
            refine ⟨.reply (some k), Mailbox.queue_eq_cons_of_take htake, ?_⟩
            intro hwork
            refine ⟨?_, by cases hwork; rintro k ⟨⟩; exact worker_setCtl_self ..⟩
            show locks (State.countHit _ _) i = false
            rw [State.countHit, locks_setNode, locks_lockInternode, Function.update_self]
            rfl
        | goOn hruns | createHere hruns | createAway hruns | returnHome hruns | returnAway hruns =>
            have hbody := hruns.ctl
            rw [hctl] at hbody
            cases hbody
        | found hworker hctl' | pass hworker hctl' | ask hworker hctl' | execute hworker hctl' =>
            rw [hctl] at hctl'
            cases hctl'
  · intro n hkeep
    have hx := hkeep n le_rfl
    obtain ⟨again, hctl⟩ := h.waits hx
    obtain ⟨y, l, hqueue⟩ := List.exists_cons_of_ne_nil (List.ne_nil_of_mem hx)
    obtain ⟨rest, htake⟩ := Mailbox.exists_take hqueue
    have hmsg := (h.consistent n).sound.net _ (Mailbox.mem_of_take htake)
    rw [reader_worker]
    refine ⟨n, le_rfl, canAct ?_⟩
    cases y with
    | reply work' =>
        refine (h.consistent n).enabled_reply ?_ htake
        simp only [asked, hctl, WorkerCtl.asked]
    | enqueue | request | answer =>
        have htag : waitTag v = maxNvps := hmsg.1
        unfold waitTag maxNvps at htag
        omega

/-- No reply has a task. -/
theorem never_stolen (h : Frozen r) (node i v k n : Nat) :
    .reply (some k) ∉ Mailbox.queue ⟨node, maxNvps, i, waitTag v⟩ (r.state n).net := by
  apply (h.reply_received node i v (some k)).never
  rintro m ⟨-, hgot⟩
  exact h.never_got i v k m (hgot k rfl)

theorem never_replied (h : Frozen r) (i thief vpid k n : Nat) :
    servers (r.state n) i ≠ .reply thief vpid (some k) :=
  (h.replied i thief vpid (some k)).never (h.never_stolen i thief vpid k) n

theorem reply_free (h : Frozen r) {n node : Nat} {work : Option Nat}
    (hserver : servers (r.state n) node = .reply i v work) :
    ∃ m, n ≤ m ∧ ((r.state m).node i).internodeM = false := by
  obtain ⟨m, hm, hreply⟩ := h.replied node i v work n hserver
  obtain ⟨l, hl, hfree, -⟩ := h.reply_received node i v work m hreply
  exact ⟨l, hm.trans hl, hfree⟩

/-- The worker that a server serves gets its reply. -/
theorem server_free (h : Frozen r) {n node : Nat} {label : Option Nat}
    (hserver : ((i, v), label) ∈ (servers (r.state n) node).requests node) :
    ∃ m, n ≤ m ∧ ((r.state m).node i).internodeM = false := by
  have hscan : ∀ m j, servers (r.state m) node = .scan i v j →
      ∃ l, m ≤ l ∧ ((r.state l).node i).internodeM = false := by
    intro m j hserver
    obtain ⟨m', hm', work, hreply⟩ := h.scanned node i v j m hserver
    obtain ⟨l, hl, hfree⟩ := h.reply_free hreply
    exact ⟨l, hm'.trans hl, hfree⟩
  cases hctl : servers (r.state n) node with
  | loop =>
      rw [hctl] at hserver
      cases hserver
  | handling src thread x =>
      cases x with
      | request =>
          rw [hctl] at hserver
          obtain ⟨⟨rfl, rfl⟩, -⟩ : (i = src ∧ v = thread) ∧ label = some node := by
            simpa [ServerCtl.requests] using hserver
          have hbegin : r.Leads (fun s ↦ servers s node = .handling i v .request)
              (fun s ↦ servers s node = .scan i v 0) := by
            apply h.serves (by intro hloop; cases hloop)
            intro m hserver hs
            simp only [serverStep, hserver, handle, Option.some.injEq] at hs
            rw [← hs]
            exact servers_setServer_self ..
          obtain ⟨m, hm, hstart⟩ := hbegin n hctl
          obtain ⟨l, hl, hfree⟩ := hscan m 0 hstart
          exact ⟨l, hm.trans hl, hfree⟩
      | enqueue | answer | reply =>
          rw [hctl] at hserver
          cases hserver
  | scan thief vpid j =>
      rw [hctl] at hserver
      obtain ⟨⟨rfl, rfl⟩, -⟩ : (i = thief ∧ v = vpid) ∧ label = some node := by
        simpa [ServerCtl.requests] using hserver
      exact hscan n j hctl
  | reply thief vpid work =>
      rw [hctl] at hserver
      obtain ⟨⟨rfl, rfl⟩, -⟩ : (i = thief ∧ v = vpid) ∧ label = some node := by
        simpa [ServerCtl.requests] using hserver
      exact h.reply_free hctl

/-- `internode_m` becomes free again and again. -/
theorem lock_free (h : Frozen r) (i n : Nat) :
    ∃ m, n ≤ m ∧ ((r.state m).node i).internodeM = false := by
  cases hlock : ((r.state n).node i).internodeM with
  | false => exact ⟨n, le_rfl, hlock⟩
  | true =>
      obtain ⟨v, hasked⟩ := ((h.consistent n).locked.held i).mp hlock
      obtain ⟨p, hp⟩ := (h.consistent n).requested.exists_entry hasked
      cases p with
      | some node => exact h.server_free hp
      | none =>
          obtain ⟨m, hm, hrequest⟩ := List.mem_flatMap.mp hp
          have hmsg := (h.consistent n).sound.net m hm
          unfold MsgOk at hmsg
          unfold messageRequests at hrequest
          cases hx : m.content <;> simp only [hx] at hmsg hrequest
          case request =>
            obtain ⟨htag, hdst, hnodes, -⟩ := hmsg
            obtain ⟨⟨rfl, rfl⟩, -⟩ : (i = m.chan.src ∧ v = m.chan.thread) ∧ _ := by
              simpa using hrequest
            obtain ⟨l, hl, hserver⟩ := h.exists_received hm htag hdst hnodes
            rw [hx] at hserver
            obtain ⟨l', hl', hfree⟩ := h.server_free (n := l) (v := m.chan.thread)
              (by rw [hserver]; exact List.mem_singleton_self _)
            exact ⟨l', hl.trans hl', hfree⟩
          case reply work =>
            obtain ⟨hthread, u, -, htag⟩ := hmsg
            obtain ⟨⟨rfl, -⟩, -⟩ : (i = m.chan.dst ∧ _) ∧ _ := by
              simpa using hrequest
            have hreply :
                .reply work ∈ Mailbox.queue ⟨m.chan.src, maxNvps, m.chan.dst, waitTag u⟩
                (r.state n).net := by
              rw [Mailbox.mem_queue, ← hthread, ← htag, ← hx]
              exact hm
            obtain ⟨l, hl, hfree, -⟩ := h.reply_received m.chan.src m.chan.dst u work n hreply
            exact ⟨l, hl, hfree⟩
          all_goals cases hrequest

end Frozen

end Torc.Parallel
