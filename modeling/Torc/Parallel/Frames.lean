import Torc.Parallel.Progress

/-!
# What a step leaves as it is

A worker is changed by itself only, a busy server by itself, and a message stays in its channel
until the thread that reads this channel takes it.  A task stays in its queue until a worker or a
thief has it.
-/

namespace Torc.Parallel

open Cluster (Pos IsWorker)

variable {β : Type} {workers : List Nat} {s s' : State β} {i v k : Nat} {o : Option Thread}

/-! ## Workers -/

theorem worker_setCtl_of_ne {s : State β} {ctl : WorkerCtl} {j u : Nat}
    (h : ¬ (j = i ∧ u = v)) :
    (s.setCtl i v ctl).worker j u = s.worker j u :=
  worker_setWorker_of_ne h

theorem worker_setStack_of_ne {s : State β} {l : List Nat} {j u : Nat} (h : ¬ (j = i ∧ u = v)) :
    (s.setStack i v l).worker j u = s.worker j u :=
  worker_setWorker_of_ne h

theorem Change.worker_of_ne (h : Change workers s o s') (hne : o ≠ some (.worker i v)) :
    s'.worker i v = s.worker i v := by
  have hother : ∀ {j u : Nat}, o = some (.worker j u) → ¬ (i = j ∧ v = u) := by
    rintro j u rfl ⟨rfl, rfl⟩
    exact hne rfl
  cases h with
  | toggle => rfl
  | poll hworker hctl => exact worker_setCtl_of_ne (hother rfl)
  | move hmove =>
      cases hmove with
      | goOn | createHere | createAway => rfl
      | returnHome | returnAway | execute => exact worker_setStack_of_ne (hother rfl)
      | found | pass | ask | refused | stolen => exact worker_setCtl_of_ne (hother rfl)
      | receive | enqueue | request | answer | scanFound | scanNext | scanNone | replied => rfl

/-! ## Servers -/

@[simp] theorem servers_send (s : State β) (c : Chan) (x : Content β) :
    servers (s.send c x) = servers s :=
  rfl

@[simp] theorem servers_setCtl (s : State β) (i v : Nat) (ctl : WorkerCtl) :
    servers (s.setCtl i v ctl) = servers s :=
  rfl

theorem servers_setServer_self (s : State β) (i : Nat) (ctl : ServerCtl β) :
    servers (s.setServer i ctl) i = ctl := by
  rw [servers_setServer]
  exact Function.update_self ..

theorem servers_setServer_of_ne {ctl : ServerCtl β} {j : Nat} (h : j ≠ i) :
    servers (s.setServer i ctl) j = servers s j := by
  rw [servers_setServer]
  exact Function.update_of_ne h ..

/-- A server that has a message gets rid of it by itself. -/
theorem Change.server_of_busy (h : Change workers s o s') (hne : o ≠ some (.server i))
    (hbusy : servers s i ≠ .loop) : servers s' i = servers s i := by
  have hother : ∀ {j : Nat}, o = some (.server j) → i ≠ j := by
    rintro j rfl rfl
    exact hne rfl
  cases h with
  | toggle => rw [servers_setStealing]
  | poll => rfl
  | move hmove =>
      cases hmove with
      | goOn | returnHome | returnAway | execute => rfl
      | createHere | createAway | found | pass | ask | refused | stolen => simp
      | @receive j src thread x net hnodes hj hserver htake =>
          have hne' : i ≠ j := by
            rintro rfl
            exact hbusy hserver
          exact servers_setServer_of_ne hne'
      | scanNext | scanNone => exact servers_setServer_of_ne (hother rfl)
      | enqueue | request | answer | scanFound | replied =>
          rw [servers_setServer_of_ne (hother rfl)]
          simp

theorem Move.server_rank (h : Move workers s (.server i) s') (hok : (servers s i).Ok workers) :
    (servers s' i).rank < (servers s i).rank := by
  have hold : ∀ {ctl : ServerCtl β}, (s.node i).server = ctl → servers s i = ctl := fun h ↦ h
  cases h with
  | enqueue hi hserver | request hnodes hi hserver | answer hserver | replied hserver =>
      rw [servers_setServer_self, hold hserver]
      simp only [ServerCtl.rank]
      omega
  | scanFound hnodes hi hserver | scanNext hnodes hi hserver | scanNone hnodes hi hserver =>
      rw [hold hserver] at hok
      have hj := hok.1
      rw [servers_setServer_self, hold hserver]
      simp only [ServerCtl.rank]
      omega

/-! ## Channels -/

/-- The thread that receives from a channel. -/
def reader (c : Chan) : Thread :=
  if c.tag = maxNvps then .receiver c.dst c.src c.thread else .worker c.dst (c.tag - waitTag 0)

theorem reader_server (src thread node : Nat) :
    reader ⟨src, thread, node, maxNvps⟩ = .receiver node src thread :=
  if_pos rfl

theorem reader_worker (node thread i v : Nat) :
    reader ⟨node, thread, i, waitTag v⟩ = .worker i v := by
  have hne : waitTag v ≠ maxNvps := by
    unfold waitTag maxNvps
    omega
  have hv : waitTag v - waitTag 0 = v := by
    unfold waitTag
    omega
  unfold reader
  rw [if_neg hne, hv]

/-- Only its reader takes messages from a channel. -/
theorem Change.queue_of_ne (h : Change workers s o s') {c : Chan} (hne : o ≠ some (reader c)) :
    ∃ l, Mailbox.queue c s'.net = Mailbox.queue c s.net ++ l := by
  have hsame : Mailbox.queue c s.net = Mailbox.queue c s.net ++ [] := by
    rw [List.append_nil]
  have htake : ∀ {c' : Chan} {x : Content β} {net : List (Msg β)}, o = some (reader c') →
      Mailbox.take c' s.net = some (x, net) →
      ∃ l, Mailbox.queue c net = Mailbox.queue c s.net ++ l := by
    intro c' x net ho htake
    have hother : c' ≠ c := by
      rintro rfl
      exact hne ho
    exact ⟨[], by rw [Mailbox.queue_take_of_ne htake hother, List.append_nil]⟩
  cases h with
  | toggle | poll => exact ⟨[], hsame⟩
  | move hmove =>
      cases hmove with
      | createAway | returnAway | ask | replied => exact ⟨_, Mailbox.queue_append ..⟩
      | refused hworker hctl h | stolen hworker hctl h =>
          exact htake (by rw [reader_worker]) h
      | receive hnodes hi hserver h => exact htake (by rw [reader_server]) h
      | goOn | createHere | returnHome | found | pass | execute => exact ⟨[], hsame⟩
      | enqueue | request | answer | scanFound | scanNext | scanNone => exact ⟨[], hsame⟩

/-- A server receives the oldest message of the channel. -/
theorem Change.queue_receiver {src thread : Nat}
    (h : Change workers s (some (.receiver i src thread)) s') :
    ∃ x, Mailbox.queue ⟨src, thread, i, maxNvps⟩ s.net =
        x :: Mailbox.queue ⟨src, thread, i, maxNvps⟩ s'.net ∧
      servers s' i = .handling src thread x := by
  cases h with
  | move hmove =>
      cases hmove with
      | @receive _ _ _ x net hnodes hi hserver htake =>
          exact ⟨x, Mailbox.queue_eq_cons_of_take htake, servers_setServer_self ..⟩

/-! ## Queues -/

theorem queues_setNode {nd : Node β} (h : nd.queues = (s.node i).queues) (j : Nat) :
    ((s.setNode i nd).node j).queues = (s.node j).queues :=
  node_setNode_eq Node.queues h j

theorem queues_setServer (s : State β) (i : Nat) (ctl : ServerCtl β) (j : Nat) :
    ((s.setServer i ctl).node j).queues = (s.node j).queues :=
  queues_setNode (by rfl) j

theorem queues_setStealing (s : State β) (i : Nat) (on : Bool) (j : Nat) :
    ((s.setStealing i on).node j).queues = (s.node j).queues :=
  queues_setNode (by rfl) j

theorem queues_lockInternode (s : State β) (i : Nat) (held : Bool) (j : Nat) :
    ((s.lockInternode i held).node j).queues = (s.node j).queues :=
  queues_setNode (by rfl) j

theorem queues_setRoundRobin (s : State β) (i : Nat) (r : RoundRobin.State) (j : Nat) :
    ((s.setRoundRobin i r).node j).queues = (s.node j).queues :=
  queues_setNode (by rfl) j

theorem queues_countAttempt (s : State β) (i j : Nat) :
    ((s.countAttempt i).node j).queues = (s.node j).queues :=
  queues_setNode (by rfl) j

theorem queues_countServed (s : State β) (i : Nat) (work : Option Nat) (j : Nat) :
    ((s.countServed i work).node j).queues = (s.node j).queues :=
  queues_setNode (by rfl) j

theorem queues_countHit (s : State β) (i j : Nat) :
    ((s.countHit i).node j).queues = (s.node j).queues :=
  queues_setNode (by rfl) j

theorem tasksAt_setQueues {q : Queues Nat} {pos : Pos} {j : Nat} {p : Prop}
    (hq : k ∈ tasksAt (s.node i).queues pos → p ∨ k ∈ tasksAt q pos)
    (hk : k ∈ tasksAt (s.node j).queues pos) :
    p ∨ k ∈ tasksAt ((s.setQueues i q).node j).queues pos := by
  by_cases hj : j = i
  · subst hj
    simpa [State.setQueues, State.setNode] using hq hk
  · right
    simpa [State.setQueues, State.setNode, Function.update_of_ne hj] using hk

/-- A task stays in its queue until a worker has it or a reply is about to be sent with it. -/
theorem Change.keeps (h : Change workers s o s') {pos : Pos} {j : Nat}
    (hk : k ∈ tasksAt (s.node j).queues pos) :
    k ∈ tasksAt (s'.node j).queues pos ∨ (∃ i v, (s'.worker i v).ctl = .got k) ∨
      ∃ i thief vpid, servers s' i = .reply thief vpid (some k) := by
  have hsame : (s'.node j).queues = (s.node j).queues → k ∈ tasksAt (s'.node j).queues pos := by
    intro hsame
    rw [hsame]
    exact hk
  cases h with
  | toggle => exact .inl (hsame (queues_setStealing ..))
  | poll => exact .inl hk
  | move hmove =>
      cases hmove with
      | goOn | returnHome | returnAway | execute => exact .inl hk
      | createAway => exact .inl (hsame (queues_setRoundRobin ..))
      | pass => exact .inl (hsame (queues_setStealing ..))
      | ask => exact .inl (hsame (queues_lockInternode ..))
      | refused =>
          exact .inl (hsame ((queues_setStealing ..).trans (queues_lockInternode ..)))
      | stolen => exact .inl (hsame ((queues_countHit ..).trans (queues_lockInternode ..)))
      | receive | scanNext | scanNone | answer => exact .inl (hsame (queues_setServer ..))
      | request => exact .inl (hsame ((queues_setServer ..).trans (queues_countAttempt ..)))
      | replied => exact .inl (hsame ((queues_setServer ..).trans (queues_countServed ..)))
      | @createHere i v k' rest child code r level hruns hturn hstep =>
          left
          have hadd := (inserts_torcToIRqEnd (s.node i).queues level s.tasks.issued).keeps pos k
          rw [← setRoundRobin_queues s i r] at hadd
          have hk' : k ∈ tasksAt ((s.setRoundRobin i r).node j).queues pos := by
            rw [queues_setRoundRobin]
            exact hk
          have hset := tasksAt_setQueues (p := False) (fun hx ↦ .inr (hadd hx)) hk'
          rw [setRoundRobin_queues] at hset
          exact hset.resolve_left id
      | @found i v k' again pos' q hworker hctl hqueues =>
          rcases tasksAt_setQueues (hqueues.keeps pos k) hk with rfl | hk
          · exact .inr (.inl ⟨i, v, worker_setCtl_self ..⟩)
          · exact .inl hk
      | @enqueue i src thread k' q hi hserver hqueues =>
          left
          rw [queues_setServer]
          have hset := tasksAt_setQueues (p := False) (fun hx ↦ .inr (hqueues.keeps pos k hx)) hk
          exact hset.resolve_left id
      | @scanFound i thief vpid n k' q hnodes hi hserver hqueues =>
          rcases tasksAt_setQueues (hqueues.keeps pos k) hk with rfl | hk
          · exact .inr (.inr ⟨i, thief, vpid, servers_setServer_self ..⟩)
          · left
            rw [queues_setServer]
            exact hk

end Torc.Parallel
