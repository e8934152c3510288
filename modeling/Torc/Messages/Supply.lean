import Torc.Messages.Machine

/-!
# Supply and demand

The messages that a thread has in flight or will still send on a channel, and those that a thread
will still receive there.
-/

namespace Torc.Messages

def Op.sent (dst tag : Nat) : Op → Option Packet
  | .send d t p => if d = dst ∧ t = tag then some p else none
  | _ => none

def Op.wanted (src tag : Nat) : Op → Option Packet
  | .recv s t uid arg count => if s = src ∧ t = tag then some (.payload uid arg count) else none
  | _ => none

def Op.awaits (src : Nat) : Op → Bool
  | .recvReply s => s == src
  | _ => false

def Op.serves (i v : Nat) : Op → Bool
  | .serve request => request.sourcenode == i && request.sourcevpid == v
  | _ => false

/-- The messages to node `dst` with this tag that the calls will send. -/
def sends (l : List Op) (dst tag : Nat) : List Packet :=
  l.filterMap (Op.sent dst tag)

/-- The payloads from node `src` with this tag that the calls will receive. -/
def recvs (l : List Op) (src tag : Nat) : List Packet :=
  l.filterMap (Op.wanted src tag)

/-- The steal replies from node `src` that the calls will wait for. -/
def awaits (l : List Op) (src : Nat) : Nat :=
  l.countP (Op.awaits src)

/-- The stealing requests of thread `v` of node `i` that a server is about to answer. -/
def serving (l : List Op) (i v : Nat) : Nat :=
  l.countP (Op.serves i v)

section

variable (l l' : List Op) (i v : Nat)

@[simp] theorem sends_nil : sends [] i v = [] := rfl
@[simp] theorem recvs_nil : recvs [] i v = [] := rfl
@[simp] theorem awaits_nil : awaits [] i = 0 := rfl
@[simp] theorem serving_nil : serving [] i v = 0 := rfl

@[simp] theorem sends_append : sends (l ++ l') i v = sends l i v ++ sends l' i v :=
  List.filterMap_append
@[simp] theorem recvs_append : recvs (l ++ l') i v = recvs l i v ++ recvs l' i v :=
  List.filterMap_append
@[simp] theorem awaits_append : awaits (l ++ l') i = awaits l i + awaits l' i :=
  List.countP_append
@[simp] theorem serving_append : serving (l ++ l') i v = serving l i v + serving l' i v :=
  List.countP_append

@[simp] theorem sends_send (d t : Nat) (p : Packet) :
    sends (.send d t p :: l) i v = (if d = i ∧ t = v then [p] else []) ++ sends l i v := by
  simp only [sends, List.filterMap_cons, Op.sent]
  by_cases h : d = i ∧ t = v <;> simp [h]

@[simp] theorem sends_recv (s t uid arg count : Nat) :
    sends (.recv s t uid arg count :: l) i v = sends l i v := rfl
@[simp] theorem sends_recvReply (s : Nat) : sends (.recvReply s :: l) i v = sends l i v := rfl
@[simp] theorem sends_serve (r : TorcT) : sends (.serve r :: l) i v = sends l i v := rfl
@[simp] theorem sends_body (d : TorcT) : sends (.body d :: l) i v = sends l i v := rfl

@[simp] theorem recvs_recv (s t uid arg count : Nat) :
    recvs (.recv s t uid arg count :: l) i v =
      (if s = i ∧ t = v then [.payload uid arg count] else []) ++ recvs l i v := by
  simp only [recvs, List.filterMap_cons, Op.wanted]
  by_cases h : s = i ∧ t = v <;> simp [h]

@[simp] theorem recvs_send (d t : Nat) (p : Packet) :
    recvs (.send d t p :: l) i v = recvs l i v := rfl
@[simp] theorem recvs_recvReply (s : Nat) : recvs (.recvReply s :: l) i v = recvs l i v := rfl
@[simp] theorem recvs_serve (r : TorcT) : recvs (.serve r :: l) i v = recvs l i v := rfl
@[simp] theorem recvs_body (d : TorcT) : recvs (.body d :: l) i v = recvs l i v := rfl

@[simp] theorem awaits_recvReply (s : Nat) :
    awaits (.recvReply s :: l) i = awaits l i + if s = i then 1 else 0 := by
  simp only [awaits, List.countP_cons, Op.awaits, beq_iff_eq]

@[simp] theorem awaits_send (d t : Nat) (p : Packet) : awaits (.send d t p :: l) i = awaits l i :=
  rfl
@[simp] theorem awaits_recv (s t uid arg count : Nat) :
    awaits (.recv s t uid arg count :: l) i = awaits l i := rfl
@[simp] theorem awaits_serve (r : TorcT) : awaits (.serve r :: l) i = awaits l i := rfl
@[simp] theorem awaits_body (d : TorcT) : awaits (.body d :: l) i = awaits l i := rfl

@[simp] theorem serving_serve (r : TorcT) :
    serving (.serve r :: l) i v =
      serving l i v + if r.sourcenode = i ∧ r.sourcevpid = v then 1 else 0 := by
  simp only [serving, List.countP_cons, Op.serves, Bool.and_eq_true, beq_iff_eq]

@[simp] theorem serving_send (d t : Nat) (p : Packet) :
    serving (.send d t p :: l) i v = serving l i v := rfl
@[simp] theorem serving_recv (s t uid arg count : Nat) :
    serving (.recv s t uid arg count :: l) i v = serving l i v := rfl
@[simp] theorem serving_recvReply (s : Nat) : serving (.recvReply s :: l) i v = serving l i v := rfl
@[simp] theorem serving_body (d : TorcT) : serving (.body d :: l) i v = serving l i v := rfl

end

/-! ## The calls of a routine -/

/-- The payload messages of `uid`. -/
def payloadsOf (uid : Nat) (l : List (Nat × Nat)) : List Packet :=
  l.map fun p ↦ .payload uid p.1 p.2

/-- All messages of these calls go to one node on one tag. -/
def SendTo (dst tag : Nat) (calls : List Effect) : Prop :=
  ∀ d t p, .isend d t p ∈ calls → d = dst ∧ t = tag

def RecvFrom (src tag : Nat) (calls : List Effect) : Prop :=
  ∀ s t p, .irecv s t p ∈ calls → s = src ∧ t = tag

theorem sends_payloadSends {dst tag : Nat} {calls : List Effect} (h : SendTo dst tag calls)
    (uid d t : Nat) : sends (payloadSends uid calls) d t =
      if dst = d ∧ tag = t then payloadsOf uid (sentPayloads calls) else [] := by
  induction calls with
  | nil =>
      show [] = if dst = d ∧ tag = t then [] else []
      rw [ite_self]
  | cons c calls ih =>
      have hrest := ih fun d t p hp ↦ h d t p (List.mem_cons_of_mem _ hp)
      cases c with
      | isend d' t' p =>
          obtain ⟨rfl, rfl⟩ := h d' t' p List.mem_cons_self
          show sends (.send d' t' (.payload uid p.arg p.count) :: payloadSends uid calls) d t = _
          rw [sends_send, hrest]
          by_cases hc : d' = d ∧ t' = t
          · rw [if_pos hc, if_pos hc, if_pos hc]
            rfl
          · rw [if_neg hc, if_neg hc, if_neg hc]
            rfl
      | calloc a n => exact hrest
      | free a => exact hrest
      | irecv s t' p => exact hrest

theorem recvs_payloadRecvs {src tag : Nat} {calls : List Effect} (h : RecvFrom src tag calls)
    (uid s t : Nat) : recvs (payloadRecvs uid calls) s t =
      if src = s ∧ tag = t then payloadsOf uid (postedReceives calls) else [] := by
  induction calls with
  | nil =>
      show [] = if src = s ∧ tag = t then [] else []
      rw [ite_self]
  | cons c calls ih =>
      have hrest := ih fun s t p hp ↦ h s t p (List.mem_cons_of_mem _ hp)
      cases c with
      | irecv s' t' p =>
          obtain ⟨rfl, rfl⟩ := h s' t' p List.mem_cons_self
          show recvs (.recv s' t' uid p.arg p.count :: payloadRecvs uid calls) s t = _
          rw [recvs_recv, hrest]
          by_cases hc : s' = s ∧ t' = t
          · rw [if_pos hc, if_pos hc, if_pos hc]
            rfl
          · rw [if_neg hc, if_neg hc, if_neg hc]
            rfl
      | calloc a n => exact hrest
      | free a => exact hrest
      | isend d t' p => exact hrest

theorem mem_payloadSends {uid : Nat} {calls : List Effect} {op : Op}
    (h : op ∈ payloadSends uid calls) :
    ∃ d t p, .isend d t p ∈ calls ∧ op = .send d t (.payload uid p.arg p.count) := by
  obtain ⟨c, hc, heq⟩ := List.mem_filterMap.mp h
  cases c with
  | isend d t p => exact ⟨d, t, p, hc, (Option.some.inj heq).symm⟩
  | _ => cases heq

theorem mem_payloadRecvs {uid : Nat} {calls : List Effect} {op : Op}
    (h : op ∈ payloadRecvs uid calls) :
    ∃ s t p, .irecv s t p ∈ calls ∧ op = .recv s t uid p.arg p.count := by
  obtain ⟨c, hc, heq⟩ := List.mem_filterMap.mp h
  cases c with
  | irecv s t p => exact ⟨s, t, p, hc, (Option.some.inj heq).symm⟩
  | _ => cases heq

section

variable (uid : Nat) (calls : List Effect) (i v : Nat)

@[simp] theorem recvs_payloadSends : recvs (payloadSends uid calls) i v = [] := by
  apply List.filterMap_eq_nil_iff.mpr
  intro op hop
  obtain ⟨d, t, p, -, rfl⟩ := mem_payloadSends hop
  rfl

@[simp] theorem awaits_payloadSends : awaits (payloadSends uid calls) i = 0 := by
  apply List.countP_eq_zero.mpr
  intro op hop
  obtain ⟨d, t, p, -, rfl⟩ := mem_payloadSends hop
  exact Bool.false_ne_true

@[simp] theorem serving_payloadSends : serving (payloadSends uid calls) i v = 0 := by
  apply List.countP_eq_zero.mpr
  intro op hop
  obtain ⟨d, t, p, -, rfl⟩ := mem_payloadSends hop
  exact Bool.false_ne_true

@[simp] theorem sends_payloadRecvs : sends (payloadRecvs uid calls) i v = [] := by
  apply List.filterMap_eq_nil_iff.mpr
  intro op hop
  obtain ⟨s, t, p, -, rfl⟩ := mem_payloadRecvs hop
  rfl

@[simp] theorem awaits_payloadRecvs : awaits (payloadRecvs uid calls) i = 0 := by
  apply List.countP_eq_zero.mpr
  intro op hop
  obtain ⟨s, t, p, -, rfl⟩ := mem_payloadRecvs hop
  exact Bool.false_ne_true

@[simp] theorem serving_payloadRecvs : serving (payloadRecvs uid calls) i v = 0 := by
  apply List.countP_eq_zero.mpr
  intro op hop
  obtain ⟨s, t, p, -, rfl⟩ := mem_payloadRecvs hop
  exact Bool.false_ne_true

end

/-! ## Where the payloads of a descriptor go -/

theorem sendArguments_sendTo (node tag : Nat) (desc : TorcT) :
    SendTo node tag (sendArguments node tag desc) := by
  intro d t p h
  obtain ⟨payload, heq⟩ := effect_sendArguments h
  cases heq
  exact ⟨rfl, rfl⟩

theorem sendResults_sendTo (tag : Nat) (desc : TorcT) :
    SendTo desc.homenode tag (sendResults tag desc) := by
  intro d t p h
  rcases effect_sendResults h with ⟨a, heq⟩ | ⟨payload, heq⟩
  · cases heq
  · cases heq
    exact ⟨rfl, rfl⟩

theorem receiveArguments_recvFrom (me tag : Nat) (mem : Nat → Int) (desc : TorcT) :
    RecvFrom desc.sourcenode tag (receiveArguments me tag mem desc).2 := by
  intro s t p h
  rcases effect_receiveArguments h with ⟨a, n, heq⟩ | ⟨payload, heq⟩
  · cases heq
  · cases heq
    exact ⟨rfl, rfl⟩

theorem receiveResults_recvFrom (me tag : Nat) (desc : TorcT) :
    RecvFrom desc.sourcenode tag (receiveResults me tag desc).2 := by
  intro s t p h
  rcases effect_receiveResults h with ⟨a, heq⟩ | ⟨payload, heq⟩
  · cases heq
  · cases heq
    exact ⟨rfl, rfl⟩

end Torc.Messages
