import Torc.Messages.Matching

/-!
# Delivery

Every step keeps the invariant of `Torc.Messages.Matching`, as long as no thread with the id
`MAX_NVPS` sends a payload or a stealing request.  A server that answers a task with a result sends
one, on the tag on which the other servers receive descriptors.
-/

namespace Torc.Messages

open Transition

variable {workers : List Nat} {s s' : State}

/-- The numbering of the calls and the abort flag play no part in the matching. -/
theorem Inv.of_eq (h : Inv s) (hnet : s'.net = s.net) (hops : s'.ops = s.ops) : Inv s' := by
  cases s'
  cases hnet
  cases hops
  exact ⟨h.op, h.packet, h.worker, h.flow, h.exchange⟩

theorem inv_init : Inv {} where
  op _ _ _ hop := nomatch hop
  packet _ _ _ hp := nomatch hp
  worker _ _ _ := .inl fun _ ↦ rfl
  flow _ _ _ _ := rfl
  exchange _ _ _ _ := .inl ⟨rfl, rfl⟩

theorem mayEnter_cases {i v : Nat} (h : mayEnter workers s i v) :
    (v < maxNvps ∧ s.ops i v = []) ∨
    (v = maxNvps ∧ ∃ t rest, s.ops i v = .body t :: rest) := by
  simp only [mayEnter, Bool.and_eq_true, decide_eq_true_eq] at h
  obtain ⟨⟨-, hthread⟩, hops⟩ := h
  split at hops
  · rename_i heq
    have hne : v ≠ maxNvps := of_decide_eq_true hops
    rcases hthread with ⟨-, hlt⟩ | hv
    · exact .inl ⟨hlt, heq⟩
    · exact absurd hv hne
  · rename_i t rest heq
    exact .inr ⟨of_decide_eq_true hops, t, rest, heq⟩
  · cases hops

/-- A thread enters a routine that announces what it sends; the server only when nothing is
expected of it. -/
theorem Inv.enter (h : Inv s) {i v node uid : Nat} {d : TorcT} {l : List Op}
    (hmay : mayEnter workers s i v) (ha : Announces i v node uid d l) (hreq : Requesting l)
    (hserver : v = maxNvps →
      expected node uid d = [] ∧ d.type ≠ .directSynchronousStealingRequest) :
    Inv (s.enter i v l (s.ops i v)) := by
  rcases mayEnter_cases hmay with ⟨hv, hops⟩ | ⟨rfl, t, rest, hops⟩
  · refine (h.enter_worker hv hops ha hreq).of_eq rfl ?_
    rw [hops]
    exact congrArg (fun l ↦ (s.setOps i v l).ops) (List.append_nil l)
  · obtain ⟨hnone, htype⟩ := hserver rfl
    exact (h.enter_server (.inl rfl) ha hnone htype).of_eq rfl rfl

theorem requesting_of_awaits {l : List Op} {node : Nat} {c : Prop} [Decidable c]
    (h : ∀ n, awaits l n = if node = n ∧ c then 1 else 0) (hc : ¬ c) : Requesting l :=
  .inl fun n ↦ (h n).trans (if_neg fun hn ↦ hc hn.2)

/-! ## One step -/

theorem Inv.step_send (h : Inv s) {i v node : Nat} {desc : TorcT} {type : MsgType}
    (hmay : mayEnter workers s i v) (hsend : sendable node desc type)
    (hok : v = maxNvps → sentPayloads (sendDescriptor i v node desc type) = []) :
    Inv (s.enter i v (sendDescriptorOps i v s.uid node desc type) (s.ops i v)) := by
  have ha := announces_sendDescriptorOps hsend i v s.uid
  refine h.enter hmay ha (requesting_of_awaits ha.awaits (sendable_type_ne hsend)) fun hv ↦
    ⟨?_, sendable_type_ne hsend⟩
  rw [← sentPayloads_sendDescriptor hsend, hok hv]
  rfl

theorem Inv.step_advance (h : Inv s) {i v : Nat} {mem : Nat → Int}
    (hs : advance s i v mem = some s') : Inv s' := by
  unfold advance at hs
  split at hs
  · rename_i dst tag p rest hops
    cases hs
    exact h.sent hops
  · rename_i src tag uid arg count rest hops
    split at hs
    · cases hs
    · rename_i p l hnet
      rw [if_pos (h.payload_matches hops hnet)] at hs
      cases hs
      exact h.recv hops hnet
  · rename_i src rest hops
    split at hs
    · cases hs
    · rename_i uid d l hnet
      cases hs
      exact h.recvReply mem hops hnet
    · rename_i uid arg count l hnet
      obtain ⟨-, -, -, _, _, heq, -⟩ := h.reply_matches hops hnet
      cases heq
  · cases hs

theorem Inv.step_reply (h : Inv s) {i : Nat} {work : Option TorcT}
    (hs : reply s i work = some s') : Inv s' := by
  unfold reply at hs
  split at hs
  · rename_i request rest hops
    split at hs
    · rename_i hwork
      cases hs
      refine (h.enter_reply hops ?_).of_eq rfl rfl
      cases work with
      | none => exact fun _ ↦ rfl
      | some d => exact fun htype ↦ absurd htype (of_decide_eq_true hwork)
    · cases hs
  · cases hs

theorem Inv.step_finish (h : Inv s) {i : Nat}
    (hok : ∀ d ∈ (s.ops i maxNvps).head?, ∀ t, d = .body t →
      sentPayloads (sendDescriptor i maxNvps t.homenode t .torcAnswer) = [])
    (hs : finish s i = some s') : Inv s' := by
  unfold finish at hs
  split at hs
  · rename_i d rest hops
    cases hs
    have hsend : sendable d.homenode d .torcAnswer := decide_eq_true rfl
    have hnone : expected d.homenode s.uid (stampSource i maxNvps d .torcAnswer) = [] := by
      rw [← sentPayloads_sendDescriptor hsend, hok (.body d) (by rw [hops]; rfl) d rfl]
      rfl
    exact (h.enter_server (.inr ⟨d, hops⟩) (announces_sendDescriptorOps hsend i maxNvps s.uid)
      hnone MsgType.noConfusion).of_eq rfl rfl
  · cases hs

theorem Inv.step_receive (h : Inv s) {i src : Nat} {mem : Nat → Int}
    (hs : receive workers s i src mem = some s') : Inv s' := by
  unfold receive at hs
  split at hs
  · rename_i uid d l hops hnet
    have hd : d.sourcevpid ≤ maxNvps := by
      obtain ⟨_, _, heq, hd⟩ :=
        h.packet src i (.desc uid d) (by rw [hnet]; exact List.mem_cons_self)
      obtain ⟨rfl, rfl⟩ := Packet.desc.inj heq
      exact hd.vpid_le
    -- the tag is in range: no `MPI_Abort`
    rw [if_neg (Nat.not_lt.mpr hd)] at hs
    cases hs
    refine (h.serve workers.length s.uid mem hops hnet).of_eq rfl ?_
    exact congrArg (fun l ↦ (s.setOps i maxNvps l).ops) (List.append_nil _)
  · rename_i uid arg count l hops hnet
    obtain ⟨_, _, heq, -⟩ :=
      h.packet src i (.payload uid arg count) (by rw [hnet]; exact List.mem_cons_self)
    cases heq
  · cases hs

theorem Inv.step (h : Inv s) {a : Act} (hok : Permitted a s)
    (hs : (system workers).step a s = some s') : Inv s' := by
  simp only [system] at hs
  split at hs
  · cases hs
  · cases a with
    | send i v node desc type =>
        simp only [threadStep] at hs
        split at hs
        · rename_i hguard
          cases hs
          exact h.step_send hguard.1 hguard.2.2 hok
        · cases hs
    | broadcast i v node buffer count btype =>
        simp only [threadStep] at hs
        split at hs
        · rename_i hguard
          cases hs
          have ha := announces_torcBroadcastOps i v s.uid node buffer count btype
          exact h.enter hguard.1 ha (requesting_of_awaits ha.awaits MsgType.noConfusion) fun hv ↦
            absurd hv hok
        · cases hs
    | request i v node =>
        simp only [threadStep] at hs
        split at hs
        · rename_i hguard
          cases hs
          exact h.enter hguard.1 (announces_stealingRequestOps i v s.uid node)
            (.inr (.inr ⟨node, _, _, rfl⟩)) fun hv ↦ absurd hv hok
        · cases hs
    | advance i v mem =>
        simp only [threadStep] at hs
        split at hs
        · exact h.step_advance hs
        · cases hs
    | reply i work =>
        simp only [threadStep] at hs
        split at hs
        · exact h.step_reply hs
        · cases hs
    | finish i =>
        simp only [threadStep] at hs
        split at hs
        · exact h.step_finish hok hs
        · cases hs
    | receive i src mem =>
        simp only [threadStep] at hs
        split at hs
        · exact h.step_receive hs
        · cases hs

/-! ## Every run -/

theorem Inv.wellMatched (h : Inv s) : WellMatched s where
  payload _ _ _ _ _ _ _ _ _ _ hops hnet := h.payload_matches hops hnet
  descriptor i src p l _ hnet := by
    obtain ⟨uid, d, heq, -⟩ := h.packet src i p (by rw [hnet]; exact List.mem_cons_self)
    exact ⟨uid, d, heq⟩
  reply _ _ _ _ _ _ hops hnet := by
    obtain ⟨-, -, -, uid, d, heq, -⟩ := h.reply_matches hops hnet
    exact ⟨uid, d, heq⟩
  tag i v _ hmem := (replyTag_eq (h.op i v _ hmem)).symm

theorem inv_of_permitted (h : (system workers).ReachableIf Permitted s) : Inv s := by
  have hinit : ∀ s, (system workers).init s → Inv s := by
    intro s hs
    obtain rfl : s = {} := hs
    exact inv_init
  -- every step keeps the stock of every receive
  have hstep : ∀ s s' a, Inv s → Permitted a s → (system workers).step a s = some s' →
      Inv s' :=
    fun _ _ _ hinv hok hs ↦ hinv.step hok hs
  exact h.invariant Inv hinit hstep

/-- A task of node 0 with one argument, a task that the receiving server executes if `rteType` says
so. -/
def oneArgTask (callway : CallWay) (rteType : Nat) : TorcT :=
  { homenode := 0, narg := 1, rteType := rteType
    args := [⟨1000, ⟨0, .double⟩, .double, callway, 4096, 0⟩] }

/-- A worker of node 0 sends a task with a reference, and the server of node 1 receives it. -/
def enqueueRun : List Act :=
  [.send 0 0 1 (oneArgTask .ref 1) .torcNormalEnqueue, .advance 0 0 fun _ ↦ 0,
    .advance 0 0 fun _ ↦ 0, .receive 1 0 fun _ ↦ 8192]

def workersOnly : Act → State → Bool
  | .send _ v _ _ _, _ | .broadcast _ v _ _ _ _, _ | .request _ v _, _ => v ≠ maxNvps
  | .finish _, _ => false
  | _, _ => true

theorem workersOnly_permitted (a : Act) (s : State) (h : workersOnly a s = true) :
    Permitted a s := by
  cases a with
  | send i v node desc type => exact fun hv ↦ absurd hv (of_decide_eq_true h)
  | broadcast i v node buffer count btype => exact fun hv ↦ of_decide_eq_true h hv
  | request i v node => exact fun hv ↦ of_decide_eq_true h hv
  | finish i => exact absurd h Bool.false_ne_true
  | _ => trivial

/-- The server of node 1 executes a task with a result and sends the answer; before the result, a
worker of that node sends a stealing request. -/
def answerRun : List Act :=
  [.send 0 0 1 (oneArgTask .res rteDirect) .torcNormalEnqueue, .advance 0 0 fun _ ↦ 0,
    .receive 1 0 fun _ ↦ 8192, .finish 1, .advance 1 maxNvps fun _ ↦ 0, .request 1 0 0,
    .advance 1 0 fun _ ↦ 0, .receive 0 1 fun _ ↦ 0]

/-- The task that the server executes fetches work itself. -/
def fetchRun : List Act :=
  [.send 0 0 1 (oneArgTask .res rteDirect) .torcNormalEnqueue, .advance 0 0 fun _ ↦ 0,
    .receive 1 0 fun _ ↦ 8192, .request 1 maxNvps 0]

end Torc.Messages
