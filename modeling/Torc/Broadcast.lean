import Torc.TransferSizes
import Torc.Lib.Transition

/-!
# Tasks behind a broadcast

One call of `torc_broadcast` and the tasks that the caller creates afterwards.  The server of each
other node receives the elements while the later tasks come to the workers of the node by that
server or past it, in the reply to a steal.
-/

namespace Torc.Broadcast

open Transition

variable {V : Type*}

/-- The caller before the calls that are left of `torc_broadcast`; behind `send_descriptor` of the
first of them; in its `MPI_Ssend`. -/
inductive Caller
  | calls (rest : List BroadcastSend)
  | announced (call : BroadcastSend) (rest : List BroadcastSend)
  | sending (call : BroadcastSend) (rest : List BroadcastSend)

/-- The messages of the caller to the server of another node. -/
inductive Message
  | torcBcast (mydata : BroadcastDesc)
  | torcNormalEnqueue (task : Nat) (direct : Bool)

/-- A server in its own receive or in anything that is not about the broadcast; with a broadcast
descriptor; between `MPI_Irecv` and the end of `MPI_Wait`, where the elements `got` have arrived;
executing a task directly. -/
inductive Server
  | waiting
  | announced (mydata : BroadcastDesc)
  | receiving (mydata : BroadcastDesc) (got : List Nat)
  | executing (task : Nat)

/-- Where a later task is. -/
inductive Place
  | uncreated
  | sent
  | queued (node : Nat)
  | reply (node : Nat)
  | running (node : Nat)
  | done
  deriving DecidableEq

/-- `mem` has the elements at their addresses, which count elements.  `offered` and `started` tell
MPI that the caller has come to the `MPI_Ssend` for the node, and the node to the receive. -/
structure State (V : Type*) where
  mem : Nat → Int → V
  caller : Caller
  inbox : Nat → List Message := fun _ ↦ []
  server : Nat → Server := fun _ ↦ .waiting
  offered : Nat → Bool := fun _ ↦ false
  started : Nat → Bool := fun _ ↦ false
  place : Nat → Place := fun _ ↦ .uncreated

/-- `create` sends the task to a node, `start` takes it from a queue of its node, and `takeReply`
goes on to execute it or, in `torc_fetch_work`, puts it into a queue. -/
inductive Act
  | announce
  | ssend
  | ssendReturns
  | create (task dst : Nat) (direct : Bool)
  | receive (node : Nat)
  | irecv (node : Nat)
  | arrive (node i : Nat)
  | wait (node : Nat)
  | start (task : Nat)
  | steal (task thief : Nat)
  | takeReply (task : Nat) (fetch : Bool)
  | finish (task : Nat)

namespace State

def post (s : State V) (node : Nat) (m : Message) : State V :=
  { s with inbox := Function.update s.inbox node (s.inbox node ++ [m]) }

def setServer (s : State V) (node : Nat) (p : Server) : State V :=
  { s with server := Function.update s.server node p }

def setPlace (s : State V) (task : Nat) (p : Place) : State V :=
  { s with place := Function.update s.place task p }

def store (s : State V) (node : Nat) (addr : Int) (v : V) : State V :=
  { s with mem := Function.update s.mem node (Function.update (s.mem node) addr v) }

end State

/-- The server holds `comm_m`, which matters when MPI is not thread-safe. -/
def Server.InReceive : Server → Prop
  | .receiving _ _ => True
  | _ => False

instance (p : Server) : Decidable p.InReceive :=
  match p with
  | .receiving _ _ => isTrue trivial
  | .waiting => isFalse fun h ↦ h
  | .announced _ => isFalse fun h ↦ h
  | .executing _ => isFalse fun h ↦ h

/-- `process_a_received_descriptor` up to the `MPI_Irecv` of a broadcast. -/
def process (s : State V) (node : Nat) : Message → State V
  | .torcBcast mydata => s.setServer node (.announced mydata)
  | .torcNormalEnqueue task true =>
      (s.setServer node (.executing task)).setPlace task (.running node)
  -- the server goes back to its receive and a worker will find the task
  | .torcNormalEnqueue task false => s.setPlace task (.queued node)

/-- The caller is a thread of node `me`. -/
def step (threadSafe : Bool) (nodes me : Nat) : Act → State V → Option (State V)
  | .announce, s =>
      match s.caller with
      -- `send_descriptor` with type `TORC_BCAST`
      | .calls (call :: rest) =>
          some { s.post call.node (.torcBcast call.mydata) with caller := .announced call rest }
      | _ => none
  | .ssend, s =>
      match s.caller with
      | .announced call rest =>
          some { s with
            offered := Function.update s.offered call.node true
            caller := .sending call rest }
      -- the receive of the server may start from here on
      | _ => none
  | .ssendReturns, s =>
      match s.caller with
      -- a synchronous send does not wait for the end of the receive
      | .sending call rest =>
          if s.started call.node then some { s with caller := .calls rest } else none
      | _ => none
  | .create task dst direct, s =>
      match s.caller with
      -- only when all calls have returned
      | .calls [] =>
          if s.place task = .uncreated ∧ dst < nodes then
            if dst = me then some (s.setPlace task (if direct then .running me else .queued me))
            else some ((s.post dst (.torcNormalEnqueue task direct)).setPlace task .sent)
          else none
      | _ => none
  | .receive node, s =>
      match s.server node, s.inbox node with
      | .waiting, m :: rest =>
          some (process { s with inbox := Function.update s.inbox node rest } node m)
      | _, _ => none
  | .irecv node, s =>
      match s.server node with
      | .announced mydata =>
          some { s.setServer node (.receiving mydata []) with
            -- this is what lets the `MPI_Ssend` return
            started := Function.update s.started node true }
      | _ => none
  | .arrive node i, s =>
      match s.server node with
      | .receiving mydata got =>
          -- the sender may not have come to its `MPI_Ssend` yet
          if s.offered node ∧ (i : Int) < receiveBroadcast mydata then
            some ((s.store node (mydata.buffer + i) (s.mem me (mydata.buffer + i))).setServer node
              (.receiving mydata (i :: got)))
          else none
      | _ => none
  | .wait node, s =>
      match s.server node with
      | .receiving mydata got =>
          -- `MPI_Wait` for the receive
          if ∀ i < (receiveBroadcast mydata).toNat, i ∈ got then
            some (s.setServer node .waiting)
          else none
      | _ => none
  | .start task, s =>
      match s.place task with
      | .queued node => some (s.setPlace task (.running node))
      | _ => none
  | .steal task thief, s =>
      match s.place task with
      | .queued node =>
          -- the victim's server answers the worker of the thief, not its server
          match s.server node with
          | .waiting =>
              if thief < nodes ∧ thief ≠ node then
                some (s.setPlace task (.reply thief))
              else none
          | _ => none
      | _ => none
  | .takeReply task fetch, s =>
      match s.place task with
      | .reply node =>
          -- otherwise the worker needs `comm_m` for its `MPI_Test`
          if threadSafe ∨ ¬ (s.server node).InReceive then
            some (s.setPlace task (if fetch then .queued node else .running node))
          else none
      | _ => none
  | .finish task, s =>
      match s.place task with
      | .running node =>
          match s.server node with
          | .executing task' =>
              -- a task in the server's hands gives it back to `server_loop`
              some ((if task' = task then s.setServer node .waiting else s).setPlace task .done)
          | _ => some (s.setPlace task .done)
      | _ => none

/-- `torc_broadcast` is called when the buffer of node `me` has the given elements. -/
def system (threadSafe : Bool) (nodes me : Nat) (buffer count : Int) (datatype : MpiDatatype)
    (elements : Nat → V) : System (State V) Act where
  init s := ∃ mem, (∀ i : Nat, (i : Int) < count → mem me (buffer + i) = elements i) ∧
    s = { mem := mem, caller := .calls (torcBroadcast nodes me buffer count datatype) }
  step := step threadSafe nodes me

/-- The buffer of the node holds the elements of the broadcast. -/
def Holds (buffer count : Int) (elements : Nat → V) (s : State V) (node : Nat) : Prop :=
  ∀ i : Nat, (i : Int) < count → s.mem node (buffer + i) = elements i

/-- Every later task that runs has the elements of the broadcast in its memory. -/
def Visible (buffer count : Int) (elements : Nat → V) (s : State V) : Prop :=
  ∀ task node, s.place task = .running node → Holds buffer count elements s node

/-- No element is still on its way into the receive of the server. -/
def Server.Complete : Server → Prop
  | .receiving mydata got => ∀ i < (receiveBroadcast mydata).toNat, i ∈ got
  | _ => True

instance (p : Server) : Decidable p.Complete :=
  match p with
  | .receiving mydata got =>
      inferInstanceAs (Decidable (∀ i < (receiveBroadcast mydata).toNat, i ∈ got))
  | .waiting => isTrue trivial
  | .announced _ => isTrue trivial
  | .executing _ => isTrue trivial

/-- The node of a worker that takes a later task from a steal reply. -/
def replyTaken : Act → State V → Option Nat
  | .takeReply task _, s =>
      match s.place task with
      | .reply node => some node
      | _ => none
  | _, _ => none

def Arrived (a : Act) (s : State V) : Prop :=
  ∀ node ∈ replyTaken a s, (s.server node).Complete

instance (a : Act) (s : State V) : Decidable (Arrived a s) :=
  inferInstanceAs (Decidable (∀ node ∈ replyTaken a s, _))

/-! ## Every run -/

/-- The calls of `torc_broadcast` that have not returned. -/
def Caller.open : Caller → List BroadcastSend
  | .calls rest => rest
  | .announced call rest => call :: rest
  | .sending call rest => call :: rest

/-- Once a receive has started it has brought the elements or is still running. -/
structure Inv (nodes me : Nat) (buffer count : Int) (datatype : MpiDatatype) (elements : Nat → V)
    (s : State V) : Prop where
  calls : ∀ node < nodes, node ≠ me → s.started node = true ∨
    ∃ call ∈ s.caller.open, call.node = node
  callData : ∀ call ∈ s.caller.open, call.mydata = ⟨buffer, count, torcMpi2bType datatype⟩
  inboxData : ∀ node mydata, .torcBcast mydata ∈ s.inbox node →
    mydata = ⟨buffer, count, torcMpi2bType datatype⟩
  announcedData : ∀ node mydata, s.server node = .announced mydata →
    mydata = ⟨buffer, count, torcMpi2bType datatype⟩
  receivingData : ∀ node mydata got, s.server node = .receiving mydata got →
    mydata = ⟨buffer, count, torcMpi2bType datatype⟩
  source : Holds buffer count elements s me
  received : ∀ node mydata got, s.server node = .receiving mydata got → ∀ i ∈ got,
    (i : Int) < count → s.mem node (buffer + i) = elements i
  started : ∀ node, s.started node = true → ¬ (s.server node).InReceive →
    Holds buffer count elements s node
  returned : ∀ task, s.place task ≠ .uncreated → s.caller = .calls []
  enqueued : ∀ node task direct, .torcNormalEnqueue task direct ∈ s.inbox node →
    node < nodes ∧ s.caller = .calls []
  replied : ∀ task node, s.place task = .reply node → node < nodes
  queued : ∀ task node, s.place task = .queued node → Holds buffer count elements s node
  running : Visible buffer count elements s

variable {threadSafe : Bool} {nodes me node task : Nat} {buffer count : Int}
  {datatype : MpiDatatype} {elements : Nat → V} {s s' : State V} {a : Act}

theorem State.setServer_server (s : State V) (p : Server) (n : Nat) :
    (s.setServer node p).server n = if n = node then p else s.server n :=
  Function.update_apply ..

theorem State.setPlace_place (s : State V) (p : Place) (t : Nat) :
    (s.setPlace task p).place t = if t = task then p else s.place t :=
  Function.update_apply ..

theorem Inv.holds (h : Inv nodes me buffer count datatype elements s)
    (hcaller : s.caller = .calls []) (hnode : node < nodes)
    (hserver : ¬ (s.server node).InReceive) :
    Holds buffer count elements s node := by
  by_cases hme : node = me
  · rw [hme]
    exact h.source
  · rcases h.calls node hnode hme with hstarted | ⟨call, hmem, -⟩
    · exact h.started node hstarted hserver
    · rw [hcaller] at hmem
      cases hmem

/-- A later task goes to another place, where it finds the elements if it can read them. -/
theorem Inv.setPlace (h : Inv nodes me buffer count datatype elements s) {p : Place}
    (hcaller : s.caller = .calls []) (hreply : ∀ node, p = .reply node → node < nodes)
    (hholds : ∀ node, p = .queued node ∨ p = .running node →
      Holds buffer count elements s node) :
    Inv nodes me buffer count datatype elements (s.setPlace task p) := by
  refine { h with
    returned := fun _ _ ↦ hcaller
    replied := fun t node ht ↦ ?_
    queued := fun t node ht ↦ ?_
    running := fun t node ht ↦ ?_ }
  · rw [State.setPlace_place] at ht
    split at ht
    · exact hreply node ht
    · exact h.replied t node ht
  · rw [State.setPlace_place] at ht
    split at ht
    · exact hholds node (.inl ht)
    · exact h.queued t node ht
  · rw [State.setPlace_place] at ht
    split at ht
    · exact hholds node (.inr ht)
    · exact h.running t node ht

/-- A task comes to a worker of a node with the elements. -/
theorem Inv.toWorker (h : Inv nodes me buffer count datatype elements s)
    (hcaller : s.caller = .calls []) (hholds : Holds buffer count elements s node) {p : Place}
    (hp : p = .queued node ∨ p = .running node) :
    Inv nodes me buffer count datatype elements (s.setPlace task p) := by
  refine h.setPlace hcaller (fun n heq ↦ ?_) fun n heq ↦ ?_
  · rcases hp with rfl | rfl <;> cases heq
  · have hnode : n = node := by
      rcases hp with rfl | rfl <;> rcases heq with heq | heq <;> cases heq <;> rfl
    rw [hnode]
    exact hholds

/-- A task goes where no worker has it. -/
theorem Inv.toMessage (h : Inv nodes me buffer count datatype elements s)
    (hcaller : s.caller = .calls []) {p : Place}
    (hp : p = .sent ∨ p = .done ∨ ∃ thief < nodes, p = .reply thief) :
    Inv nodes me buffer count datatype elements (s.setPlace task p) := by
  refine h.setPlace hcaller (fun n heq ↦ ?_) fun n heq ↦ ?_
  · rcases hp with rfl | rfl | ⟨thief, hthief, rfl⟩ <;> cases heq
    exact hthief
  · rcases hp with rfl | rfl | ⟨thief, -, rfl⟩ <;> rcases heq with heq | heq <;> cases heq

/-- Tasks that are somewhere were created behind the broadcast. -/
theorem Inv.caller_eq (h : Inv nodes me buffer count datatype elements s) {p : Place}
    (hplace : s.place task = p) (hp : p ≠ .uncreated) : s.caller = .calls [] :=
  h.returned task fun heq ↦ hp (hplace.symm.trans heq)

/-- A server goes on to something else than a receive; if it comes from one, all elements are
there. -/
theorem Inv.setServer (h : Inv nodes me buffer count datatype elements s) {p : Server}
    (hp : ¬ p.InReceive)
    (hdata : ∀ mydata, p = .announced mydata →
      mydata = ⟨buffer, count, torcMpi2bType datatype⟩)
    (hall : (s.server node).InReceive → Holds buffer count elements s node) :
    Inv nodes me buffer count datatype elements (s.setServer node p) := by
  have hreceiving : ∀ n mydata got, (s.setServer node p).server n = .receiving mydata got →
      s.server n = .receiving mydata got := by
    intro n mydata got hn
    rw [State.setServer_server] at hn
    split at hn
    · rw [hn] at hp
      exact absurd trivial hp
    · exact hn
  refine { h with
    announcedData := fun n mydata hn ↦ ?_
    receivingData :=
      fun n mydata got hn ↦ h.receivingData n mydata got (hreceiving n mydata got hn)
    received := fun n mydata got hn ↦ h.received n mydata got (hreceiving n mydata got hn)
    started := fun n hstarted hn ↦ ?_ }
  · rw [State.setServer_server] at hn
    split at hn
    · exact hdata mydata hn
    · exact h.announcedData n mydata hn
  · by_cases hin : (s.server n).InReceive
    · by_cases heq : n = node
      · rw [heq] at hin ⊢
        exact hall hin
      · rw [State.setServer_server, if_neg heq] at hn
        exact absurd hin hn
    · exact h.started n hstarted hin

theorem Inv.process (h : Inv nodes me buffer count datatype elements s) {m : Message}
    (hwaiting : s.server node = .waiting)
    (hbcast : ∀ mydata, m = .torcBcast mydata →
      mydata = ⟨buffer, count, torcMpi2bType datatype⟩)
    (hlater : ∀ t direct, m = .torcNormalEnqueue t direct →
      node < nodes ∧ s.caller = .calls []) :
    Inv nodes me buffer count datatype elements (process s node m) := by
  have hidle : ¬ (s.server node).InReceive := by
    rw [hwaiting]
    exact fun hin ↦ hin
  cases m with
  | torcBcast mydata =>
      refine h.setServer (fun hin ↦ hin) (fun mydata' heq ↦ ?_) fun hin ↦ absurd hin hidle
      cases heq
      exact hbcast mydata rfl
  | torcNormalEnqueue t direct =>
      obtain ⟨hnode, hcaller⟩ := hlater t direct rfl
      have hholds := h.holds hcaller hnode hidle
      cases direct with
      | true =>
          have hserver : Inv nodes me buffer count datatype elements
              (s.setServer node (.executing t)) :=
            h.setServer (fun hin ↦ hin) (fun mydata heq ↦ (nomatch heq)) fun hin ↦
              absurd hin hidle
          exact hserver.toWorker hcaller hholds (.inr rfl)
      | false => exact h.toWorker hcaller hholds (.inl rfl)

/-- What arrives are the elements of the caller. -/
theorem Inv.arrive (h : Inv nodes me buffer count datatype elements s) {mydata : BroadcastDesc}
    {got : List Nat} (hserver : s.server node = .receiving mydata got) {i : Nat}
    (hi : (i : Int) < count) :
    Inv nodes me buffer count datatype elements
      ((s.store node (buffer + i) (s.mem me (buffer + i))).setServer node
        (.receiving mydata (i :: got))) := by
  have hvalue : s.mem me (buffer + i) = elements i := h.source i hi
  have hmem : ∀ n (j : Nat), (j : Int) < count → s.mem n (buffer + j) = elements j →
      (s.store node (buffer + i) (s.mem me (buffer + i))).mem n (buffer + j) = elements j := by
    intro n j _ hj
    show Function.update s.mem node _ n _ = _
    by_cases hn : n = node
    · subst hn
      rw [Function.update_self]
      -- the element that arrives, or one of the others
      by_cases hij : j = i
      · rw [hij, Function.update_self, hvalue]
      · rw [Function.update_of_ne (by omega), hj]
    · rw [Function.update_of_ne hn, hj]
  have hstored : (s.store node (buffer + i) (s.mem me (buffer + i))).mem node (buffer + i) =
      elements i := by
    show Function.update s.mem node _ node _ = _
    rw [Function.update_self, Function.update_self, hvalue]
  have hkeep : ∀ n, Holds buffer count elements s n → Holds buffer count elements
      (s.store node (buffer + i) (s.mem me (buffer + i))) n :=
    fun n hn j hj ↦ hmem n j hj (hn j hj)
  refine { h with
    announcedData := fun n d hn ↦ ?_
    receivingData := fun n d g hn ↦ ?_
    source := hkeep me h.source
    received := fun n d g hn j hj hlt ↦ ?_
    started := fun n hstarted hn ↦ ?_
    queued := fun t n ht ↦ hkeep n (h.queued t n ht)
    running := fun t n ht ↦ hkeep n (h.running t n ht) }
  · rw [State.setServer_server] at hn
    split at hn
    · cases hn
    · exact h.announcedData n d hn
  · rw [State.setServer_server] at hn
    split at hn
    · cases hn
      exact h.receivingData node mydata got hserver
    · exact h.receivingData n d g hn
  · rw [State.setServer_server] at hn
    split at hn
    · rename_i heq
      cases hn
      subst heq
      rcases List.mem_cons.mp hj with rfl | hj
      · exact hstored
      · exact hmem _ j hlt (h.received _ mydata got hserver j hj hlt)
    · exact hmem n j hlt (h.received n d g hn j hj hlt)
  -- the server is in the receive now, which `started` leaves out
  · rw [State.setServer_server] at hn
    split at hn
    · exact absurd trivial hn
    · exact hkeep n (h.started n hstarted hn)

theorem Inv.irecv (h : Inv nodes me buffer count datatype elements s) {mydata : BroadcastDesc}
    (hserver : s.server node = .announced mydata) :
    Inv nodes me buffer count datatype elements
      { s.setServer node (.receiving mydata []) with
        started := Function.update s.started node true } := by
  refine { h with
    calls := fun n hn hme ↦ ?_
    announcedData := fun n d hn ↦ ?_
    receivingData := fun n d g hn ↦ ?_
    received := fun n d g hn i hi ↦ ?_
    started := fun n hstarted hn ↦ ?_ }
  · refine (h.calls n hn hme).imp_left fun hstarted ↦ ?_
    show Function.update s.started node true n = true
    rw [Function.update_apply, hstarted, ite_self]
  · have hn' : (s.setServer node (.receiving mydata [])).server n = .announced d := hn
    rw [State.setServer_server] at hn'
    split at hn'
    · cases hn'
    · exact h.announcedData n d hn'
  · have hn' : (s.setServer node (.receiving mydata [])).server n = .receiving d g := hn
    rw [State.setServer_server] at hn'
    split at hn'
    · cases hn'
      exact h.announcedData node mydata hserver
    · exact h.receivingData n d g hn'
  · have hn' : (s.setServer node (.receiving mydata [])).server n = .receiving d g := hn
    rw [State.setServer_server] at hn'
    split at hn'
    · cases hn'
      cases hi
    · exact h.received n d g hn' i hi
  · have hn' : ¬ ((s.setServer node (.receiving mydata [])).server n).InReceive := hn
    have hstarted' : Function.update s.started node true n = true := hstarted
    rw [State.setServer_server] at hn'
    rw [Function.update_apply] at hstarted'
    -- the node of the started receive is in it, all others are as before
    split at hn'
    · exact absurd trivial hn'
    · rename_i hne
      rw [if_neg hne] at hstarted'
      exact h.started n hstarted' hn'

/-- What the caller does in and behind the broadcast, up to the places of the tasks. -/
theorem Inv.post (h : Inv nodes me buffer count datatype elements s) {m : Message}
    (hbcast : ∀ mydata, m = .torcBcast mydata →
      mydata = ⟨buffer, count, torcMpi2bType datatype⟩)
    (hlater : ∀ t direct, m = .torcNormalEnqueue t direct →
      node < nodes ∧ s.caller = .calls []) :
    Inv nodes me buffer count datatype elements (s.post node m) := by
  have hinbox :
      ∀ n, ∀ m' ∈ (s.post node m).inbox n, m' ∈ s.inbox n ∨ (n = node ∧ m' = m) := by
    intro n m' hm'
    have hcases : m' ∈ if n = node then s.inbox node ++ [m] else s.inbox n := by
      rw [← Function.update_apply]
      exact hm'
    split at hcases
    · rename_i heq
      -- an old message, or the new one at the end
      rcases List.mem_append.mp hcases with hold | hnew
      · exact .inl (heq ▸ hold)
      · exact .inr ⟨heq, List.mem_singleton.mp hnew⟩
    · exact .inl hcases
  refine { h with inboxData := fun n d hd ↦ ?_, enqueued := fun n t direct ht ↦ ?_ }
  · rcases hinbox n _ hd with hold | ⟨-, hnew⟩
    · exact h.inboxData n d hold
    · exact hbcast d hnew.symm
  · rcases hinbox n _ ht with hold | ⟨rfl, hnew⟩
    · exact h.enqueued n t direct hold
    · exact hlater t direct hnew.symm

/-- A call of `torc_broadcast` goes on, or returns with the receive started. -/
theorem Inv.setCaller (h : Inv nodes me buffer count datatype elements s) {c : Caller}
    (hnot : s.caller ≠ .calls [])
    (hopen : ∀ call ∈ c.open, call ∈ s.caller.open)
    (hcalls : ∀ call ∈ s.caller.open, call ∈ c.open ∨ s.started call.node = true)
    (offered : Nat → Bool) :
    Inv nodes me buffer count datatype elements { s with caller := c, offered := offered } := by
  refine { h with
    calls := fun n hn hme ↦ ?_
    callData := fun call hcall ↦ h.callData call (hopen call hcall)
    returned := fun t ht ↦ absurd (h.returned t ht) hnot
    enqueued := fun n t direct ht ↦ absurd (h.enqueued n t direct ht).2 hnot }
  rcases h.calls n hn hme with hstarted | ⟨call, hcall, rfl⟩
  · exact .inl hstarted
  · rcases hcalls call hcall with hstill | hstarted
    · exact .inr ⟨call, hstill, rfl⟩
    · exact .inl hstarted

/-- Up to the return of a call the same calls are open. -/
theorem Inv.sameCalls (h : Inv nodes me buffer count datatype elements s) {c : Caller}
    (hnot : s.caller ≠ .calls []) (hsame : s.caller.open = c.open) (offered : Nat → Bool) :
    Inv nodes me buffer count datatype elements { s with caller := c, offered := offered } := by
  refine h.setCaller hnot (fun call hcall ↦ ?_) (fun call hcall ↦ .inl ?_) offered
  · rw [hsame]
    exact hcall
  · rw [← hsame]
    exact hcall

/-- The caller creates a task on its own node, which has the elements, or sends it. -/
theorem Inv.create (h : Inv nodes me buffer count datatype elements s)
    (hcaller : s.caller = .calls []) {dst : Nat} (hdst : dst < nodes) (direct : Bool) :
    Inv nodes me buffer count datatype elements
        (s.setPlace task (if direct then .running me else .queued me)) ∧
      Inv nodes me buffer count datatype elements
        ((s.post dst (.torcNormalEnqueue task direct)).setPlace task .sent) := by
  constructor
  · refine h.toWorker hcaller h.source ?_
    cases direct with
    | true => exact .inr rfl
    | false => exact .inl rfl
  · have hpost : Inv nodes me buffer count datatype elements
        (s.post dst (.torcNormalEnqueue task direct)) :=
      h.post (fun d heq ↦ (nomatch heq)) fun t dir heq ↦ ⟨hdst, hcaller⟩
    exact hpost.toMessage hcaller (.inl rfl)

theorem Inv.receive (h : Inv nodes me buffer count datatype elements s) {m : Message}
    {rest : List Message} (hserver : s.server node = .waiting) (hinbox : s.inbox node = m :: rest) :
    Inv nodes me buffer count datatype elements
      (Broadcast.process { s with inbox := Function.update s.inbox node rest } node m) := by
  have hsub : ∀ n, ∀ m' ∈ Function.update s.inbox node rest n, m' ∈ s.inbox n := by
    intro n m' hm'
    rw [Function.update_apply] at hm'
    split at hm'
    · rename_i heq
      rw [heq, hinbox]
      exact List.mem_cons_of_mem _ hm'
    · exact hm'
  have hm : m ∈ s.inbox node := by
    rw [hinbox]
    exact List.mem_cons_self
  have htaken : Inv nodes me buffer count datatype elements
      { s with inbox := Function.update s.inbox node rest } :=
    { h with
      inboxData := fun n d hd ↦ h.inboxData n d (hsub n _ hd)
      enqueued := fun n t direct ht ↦ h.enqueued n t direct (hsub n _ ht) }
  refine htaken.process hserver (fun d heq ↦ ?_) fun t direct heq ↦ ?_
  · exact h.inboxData node d (heq ▸ hm)
  · exact h.enqueued node t direct (heq ▸ hm)

/-- A receive that has all elements has put them into the buffer. -/
theorem Inv.complete (hcount : cInt count = count)
    (h : Inv nodes me buffer count datatype elements s) {mydata : BroadcastDesc} {got : List Nat}
    (hserver : s.server node = .receiving mydata got)
    (hall : ∀ i < (receiveBroadcast mydata).toNat, i ∈ got) :
    Holds buffer count elements s node := by
  intro i hi
  rw [h.receivingData node mydata got hserver, receiveBroadcast, hcount] at hall
  exact h.received node mydata got hserver i (hall i (by omega)) hi

/-- Although a reply comes past the server, its node has the elements. -/
theorem Inv.reply_holds (hcount : cInt count = count)
    (h : Inv nodes me buffer count datatype elements s) (hplace : s.place task = .reply node)
    (harrived : (s.server node).Complete) : Holds buffer count elements s node := by
  cases hserver : s.server node with
  | receiving mydata got =>
      rw [hserver] at harrived
      exact h.complete hcount hserver harrived
  | _ =>
      refine h.holds (h.caller_eq hplace nofun) (h.replied task node hplace) ?_
      rw [hserver]
      exact fun hin ↦ hin

theorem Inv.step (hcount : cInt count = count)
    (h : Inv nodes me buffer count datatype elements s) (hok : Arrived a s)
    (hs : step threadSafe nodes me a s = some s') :
    Inv nodes me buffer count datatype elements s' := by
  cases a with
  | announce =>
      simp only [Broadcast.step] at hs
      split at hs
      · rename_i call rest hcaller
        cases hs
        have hopen : s.caller.open = call :: rest := by rw [hcaller, Caller.open]
        have hset : Inv nodes me buffer count datatype elements
            { s with caller := .announced call rest, offered := s.offered } :=
          h.sameCalls (c := .announced call rest)
            (fun heq ↦ (nomatch hcaller.symm.trans heq)) hopen
            s.offered
        -- the message carries the buffer and the count of the broadcast
        refine hset.post (fun d heq ↦ ?_) fun t direct heq ↦ (nomatch heq)
        cases heq
        refine h.callData call ?_
        rw [hopen]
        exact List.mem_cons_self
      · cases hs
  | ssend =>
      simp only [Broadcast.step] at hs
      split at hs
      · rename_i call rest hcaller
        cases hs
        have hopen : s.caller.open = call :: rest := by rw [hcaller, Caller.open]
        exact h.sameCalls (c := .sending call rest)
          (fun heq ↦ (nomatch hcaller.symm.trans heq)) hopen _
      · cases hs
  | ssendReturns =>
      simp only [Broadcast.step] at hs
      split at hs
      · rename_i call rest hcaller
        obtain ⟨hstarted, heq⟩ := Option.ite_none_right_eq_some.mp hs
        cases heq
        have hopen : s.caller.open = call :: rest := by rw [hcaller, Caller.open]
        -- the call that returns is covered by its started receive
        refine h.setCaller (fun heq ↦ ?_) (fun c hc ↦ ?_) (fun c hc ↦ ?_) s.offered
        · cases hcaller.symm.trans heq
        · rw [hopen]
          exact List.mem_cons_of_mem _ hc
        · rw [hopen] at hc
          rcases List.mem_cons.mp hc with rfl | hc
          · exact .inr hstarted
          · exact .inl hc
      · cases hs
  | create task dst direct =>
      simp only [Broadcast.step] at hs
      split at hs
      · rename_i hcaller
        obtain ⟨⟨-, hdst⟩, heq⟩ := Option.ite_none_right_eq_some.mp hs
        obtain ⟨hown, hsent⟩ := h.create hcaller hdst direct
        split at heq
        · cases heq
          exact hown
        · cases heq
          exact hsent
      · cases hs
  | receive node =>
      -- the server is in no receive of a broadcast, so a later task finds the elements
      simp only [Broadcast.step] at hs
      split at hs
      · rename_i m rest hserver hinbox
        cases hs
        exact h.receive hserver hinbox
      · cases hs
  | irecv node =>
      simp only [Broadcast.step] at hs
      split at hs
      · rename_i hserver
        cases hs
        exact h.irecv hserver
      · cases hs
  | arrive node i =>
      simp only [Broadcast.step] at hs
      split at hs
      · rename_i mydata got hserver
        obtain ⟨⟨-, hi⟩, heq⟩ := Option.ite_none_right_eq_some.mp hs
        cases heq
        have hdata := h.receivingData node mydata got hserver
        -- only elements of the broadcast arrive
        rw [hdata, receiveBroadcast, hcount] at hi
        subst hdata
        exact h.arrive hserver hi
      · cases hs
  | wait node =>
      simp only [Broadcast.step] at hs
      split at hs
      · rename_i mydata got hserver
        obtain ⟨hall, heq⟩ := Option.ite_none_right_eq_some.mp hs
        cases heq
        -- the receive has all its elements, so they are in the buffer
        exact h.setServer (fun hin ↦ hin) (fun d heq ↦ (nomatch heq)) fun _ ↦
          h.complete hcount hserver hall
      · cases hs
  | start task =>
      simp only [Broadcast.step] at hs
      split at hs
      · rename_i node hplace
        cases hs
        exact h.toWorker (h.caller_eq hplace nofun) (h.queued task node hplace) (.inr rfl)
      · cases hs
  | steal task thief =>
      simp only [Broadcast.step] at hs
      split at hs
      · rename_i node hplace
        split at hs
        · obtain ⟨⟨hthief, -⟩, heq⟩ := Option.ite_none_right_eq_some.mp hs
          cases heq
          exact h.toMessage (h.caller_eq hplace nofun) (.inr (.inr ⟨thief, hthief, rfl⟩))
        · cases hs
      · cases hs
  | takeReply task fetch =>
      simp only [Broadcast.step] at hs
      split at hs
      · rename_i node hplace
        obtain ⟨-, heq⟩ := Option.ite_none_right_eq_some.mp hs
        cases heq
        have harrived : (s.server node).Complete :=
          hok node (by rw [replyTaken, hplace, Option.mem_def])
        refine h.toWorker (h.caller_eq hplace nofun) (h.reply_holds hcount hplace harrived) ?_
        cases fetch with
        | true => exact .inl rfl
        | false => exact .inr rfl
      · cases hs
  | finish task =>
      simp only [Broadcast.step] at hs
      split at hs
      · rename_i node hplace
        have hcaller := h.caller_eq hplace nofun
        split at hs
        · rename_i task' hserver
          cases hs
          split
          · -- the server has executed it and goes back to its own receive
            have hserver' : Inv nodes me buffer count datatype elements
                (s.setServer node .waiting) := by
              refine h.setServer (fun hin ↦ hin) (fun d heq ↦ (nomatch heq)) fun hin ↦ ?_
              rw [hserver] at hin
              exact hin.elim
            exact hserver'.toMessage hcaller (.inr (.inl rfl))
          · exact h.toMessage hcaller (.inr (.inl rfl))
        · cases hs
          exact h.toMessage hcaller (.inr (.inl rfl))
      · cases hs

theorem Inv.init {mem : Nat → Int → V}
    (hmem : ∀ i : Nat, (i : Int) < count → mem me (buffer + i) = elements i) :
    Inv nodes me buffer count datatype elements
      { mem := mem, caller := .calls (torcBroadcast nodes me buffer count datatype) } where
  calls n hn hme := .inr ⟨⟨n, ⟨buffer, count, torcMpi2bType datatype⟩, cInt count⟩,
    mem_torcBroadcast.mpr ⟨hn, hme, rfl⟩, rfl⟩
  callData call hcall := by
    rw [(mem_torcBroadcast.mp hcall).2.2]
  inboxData n d hd := (nomatch hd)
  announcedData n d hn := (nomatch hn)
  receivingData n d got hn := (nomatch hn)
  source := hmem
  received n d got hn := (nomatch hn)
  started n hn := (nomatch hn)
  returned t ht := absurd rfl ht
  enqueued n t direct ht := (nomatch ht)
  replied t n ht := (nomatch ht)
  queued t n ht := (nomatch ht)
  running t n ht := (nomatch ht)

/-- Every later task reads the elements of the broadcast if the replies to steals that bring such
tasks are taken when no element is on its way into a receive of the node. -/
theorem later_tasks_visible (hcount : cInt count = count)
    (hs : (system threadSafe nodes me buffer count datatype elements).ReachableIf Arrived s) :
    Visible buffer count elements s := by
  refine (hs.invariant (Inv nodes me buffer count datatype elements) (fun s hinit ↦ ?_)
    fun s s' a h hok hstep ↦ h.step hcount hok hstep).running
  obtain ⟨mem, hmem, rfl⟩ := hinit
  exact .init hmem

/-- Without a thread-safe MPI the receive keeps `comm_m`, so that no reply is taken during it. -/
theorem arrived_of_not_threadSafe (hs : step false nodes me a s = some s') : Arrived a s := by
  intro node hnode
  cases a with
  | takeReply task fetch =>
      simp only [replyTaken] at hnode
      split at hnode
      · rename_i hplace
        cases hnode
        simp only [Broadcast.step, hplace] at hs
        obtain ⟨hfree, -⟩ := Option.ite_none_right_eq_some.mp hs
        cases hserver : s.server node with
        | receiving mydata got =>
            rw [hserver] at hfree
            simp [Server.InReceive] at hfree
        | _ => trivial
      · cases hnode
  | _ => cases hnode

theorem later_tasks_visible_of_not_threadSafe (hcount : cInt count = count)
    (hs : (system false nodes me buffer count datatype elements).Reachable s) :
    Visible buffer count elements s := by
  refine (hs.invariant (Inv nodes me buffer count datatype elements) (fun s hinit ↦ ?_)
    fun s s' a h _ hstep ↦ h.step hcount (arrived_of_not_threadSafe hstep) hstep).running
  obtain ⟨mem, hmem, rfl⟩ := hinit
  exact .init hmem

/-! ## A task stolen during the receive -/

/-- Node 0 broadcasts two elements with the value 7, where node 1 has zeros. -/
def sampleSystem : System (State Nat) Act :=
  system true 2 0 100 2 ⟨0, .int⟩ fun _ ↦ 7

def sampleStart : State Nat where
  mem node _ := if node = 0 then 7 else 0
  caller := .calls (torcBroadcast 2 0 100 2 ⟨0, .int⟩)

theorem sampleSystem_init : sampleSystem.init sampleStart :=
  ⟨_, fun _ _ ↦ rfl, rfl⟩

/-- The `MPI_Ssend` returns with the start of the receive. -/
def sampleBroadcast : List Act :=
  [.announce, .receive 1, .irecv 1, .ssend, .ssendReturns, .create 5 0 false, .steal 5 1]

/-- Node 1 takes the stolen task when both elements have arrived. -/
theorem later_tasks_visible_sample :
    ∃ s : State Nat, sampleSystem.ReachableIf Arrived s ∧ s.place 5 = .running 1 ∧
      Visible 100 2 (fun _ ↦ 7) s := by
  have hend : (sampleSystem.runIf (fun a s ↦ decide (Arrived a s)) sampleStart
      (sampleBroadcast ++ [.arrive 1 0, .arrive 1 1, .takeReply 5 false])).map
        (fun s ↦ s.place 5) = some (.running 1) := by decide
  obtain ⟨s, hs, hplace⟩ :=
    System.ReachableIf.eval (fun _ _ ↦ of_decide_eq_true) (.init sampleSystem_init) hend
  exact ⟨s, hs, hplace, later_tasks_visible (by decide) hs⟩

/-- Without the elements the task reads zeros. -/
theorem not_later_tasks_visible :
    ∃ s : State Nat, sampleSystem.Reachable s ∧ ¬ Visible 100 2 (fun _ ↦ 7) s := by
  have hend : (sampleSystem.run sampleStart (sampleBroadcast ++ [.takeReply 5 false])).map
      (fun s ↦ (s.place 5, s.mem 1 100)) = some (.running 1, 0) := by decide
  obtain ⟨s, hs, hx⟩ := System.Reachable.eval (.init sampleSystem_init) hend
  obtain ⟨hplace, hmem⟩ := Prod.mk.inj hx
  refine ⟨s, hs, fun hvisible ↦ ?_⟩
  have hread : s.mem 1 100 = 7 := hvisible 5 1 hplace 0 (by decide)
  rw [hmem] at hread
  cases hread

end Torc.Broadcast
