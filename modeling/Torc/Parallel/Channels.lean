import Torc.Parallel.Outcome
import Torc.Messages.Delivery

/-!
# The messages of a program

A message of a fork-join program stands for the descriptor that a routine of `Torc.Messages` sends
on the same channel, with its payloads behind it.  The routines that a program calls are among those
of which every payload gets to the receive that is meant for it.
-/

namespace Torc.Parallel

open Transition

variable {β : Type} {workers : List Nat} {root : Body β} {s : State β} {m : Msg β}
  {t t' : Messages.State}

/-- The call that sends `m`; `desc` is the descriptor of its task. -/
def sending (m : Msg β) (desc : TorcT) : Messages.Act :=
  match m.content with
  | .enqueue _ => .send m.chan.src m.chan.thread m.chan.dst desc .torcNormalEnqueue
  | .request => .request m.chan.src m.chan.thread m.chan.dst
  | .answer _ _ => .send m.chan.src m.chan.thread m.chan.dst desc .torcAnswer
  | .reply work => .reply m.chan.src (work.map fun _ ↦ desc)

/-- The sender is about to send a descriptor with its node and id on the channel of `m`. -/
def Sends (t : Messages.State) (m : Msg β) : Prop :=
  ∃ uid desc rest,
    t.ops m.chan.src m.chan.thread = .send m.chan.dst m.chan.tag (.desc uid desc) :: rest ∧
    desc.sourcenode = m.chan.src ∧ desc.sourcevpid = m.chan.thread

/-- The server has the request before it that `m` replies to. -/
def Serves (t : Messages.State) (m : Msg β) : Prop :=
  ∃ request rest, t.ops m.chan.src maxNvps = .serve request :: rest ∧
    request.sourcenode = m.chan.dst ∧ waitTag request.sourcevpid = m.chan.tag

/-- Servers send replies only. -/
theorem MsgOk.permitted (h : MsgOk workers m) (hcounts : ∀ w ∈ workers, w ≤ maxNvps)
    (desc : TorcT) (t : Messages.State) : Messages.Permitted (sending m desc) t := by
  unfold MsgOk at h
  unfold sending
  cases hx : m.content <;> simp only [hx] at h ⊢
  case reply => trivial
  case enqueue | answer =>
    have hlt := h.2.2.2.id_lt hcounts
    exact fun hv ↦ absurd hv (Nat.ne_of_lt hlt)
  case request => exact Nat.ne_of_lt (h.2.2.2.id_lt hcounts)

theorem ops_enter (t : Messages.State) (i v : Nat) (l rest : List Messages.Op) :
    (t.enter i v l rest).ops i v = l ++ rest := by
  simp [Messages.State.enter, Messages.State.setOps]

theorem sends_of_ops {uid : Nat} {desc : TorcT} {rest : List Messages.Op}
    (hops : t.ops m.chan.src m.chan.thread =
      .send m.chan.dst m.chan.tag (.desc uid desc) :: rest)
    (hnode : desc.sourcenode = m.chan.src) (hvpid : desc.sourcevpid = m.chan.thread) :
    Sends t m :=
  ⟨uid, desc, rest, hops, hnode, hvpid⟩

/-- The descriptor goes to the node and on the tag of `m`. -/
theorem MsgOk.sends (h : MsgOk workers m) (hcounts : ∀ w ∈ workers, w ≤ maxNvps)
    {desc : TorcT} (hserves : m.content.IsReply → Serves t m)
    (hs : Messages.threadStep workers t (sending m desc) = some t') : Sends t' m := by
  unfold MsgOk at h
  unfold sending at hs
  cases hx : m.content <;> simp only [hx, Messages.threadStep] at h hs hserves
  case reply work =>
    obtain ⟨hthread, v, hworker, htag⟩ := h
    obtain ⟨request, rest, hops, hnode, htag'⟩ := hserves trivial
    have hv : request.sourcevpid = v := Nat.add_right_cancel (htag'.trans htag)
    have hreply : replyTag request.sourcevpid = m.chan.tag := by
      rw [hv, replyTag_eq (hworker.id_lt hcounts), htag]
    obtain ⟨-, hs⟩ := Option.ite_none_right_eq_some.mp hs
    simp only [Messages.reply, hops] at hs
    obtain ⟨-, hs⟩ := Option.ite_none_right_eq_some.mp hs
    cases hs
    apply sends_of_ops
    · rw [hthread, ops_enter, Messages.directSendDescriptorOps, hnode, hreply]
      rfl
    · rfl
    · exact hthread.symm
  all_goals
    obtain ⟨htag, -⟩ := h
    obtain ⟨-, hs⟩ := Option.ite_none_right_eq_some.mp hs
    cases hs
    apply sends_of_ops
    · rw [ops_enter, htag]
      rfl
    · rfl
    · rfl

/-- In every run each message in flight is that of a call which sends a descriptor on its channel,
and of which `Torc.Messages` shows that all payloads arrive. -/
theorem sent_by_routine (L : Layout) (hjoins : root.Joins false)
    (h : (system L.workers root).Reachable s) (hm : m ∈ s.net) (desc : TorcT)
    (hserves : m.content.IsReply → Serves t m) :
    Messages.Permitted (sending m desc) t ∧
      ∀ t', Messages.threadStep L.workers t (sending m desc) = some t' → Sends t' m := by
  have hcounts : ∀ w ∈ L.workers, w ≤ maxNvps := fun w hw ↦ (L.counts w hw).2
  have hok := (coherent_of_reachable L hjoins h).sound.net m hm
  exact ⟨hok.permitted hcounts desc t, fun t' hs ↦ hok.sends hcounts hserves hs⟩

/-! ## The payloads -/

/-- The steps of `Torc.Messages` that fork-join programs make. -/
inductive Makes (workers : List Nat) : Messages.Act → Prop
  | sending {β : Type} {m : Msg β} (desc : TorcT) (hm : MsgOk workers m) :
      Makes workers (sending m desc)
  | advance (i v : Nat) (mem : Nat → Int) : Makes workers (.advance i v mem)
  | receive (i src : Nat) (mem : Nat → Int) : Makes workers (.receive i src mem)

theorem Makes.permitted {a : Messages.Act} (h : Makes workers a)
    (hcounts : ∀ w ∈ workers, w ≤ maxNvps) (t : Messages.State) : Messages.Permitted a t := by
  cases h with
  | sending desc hm => exact hm.permitted hcounts desc t
  | advance | receive => trivial

/-- That the data of a message arrives with it: no receive of a program takes another message. -/
theorem wellMatched_of_makes (hcounts : ∀ w ∈ workers, w ≤ maxNvps)
    (h : (Messages.system workers).ReachableIf (fun a _ ↦ Makes workers a) t) :
    Messages.WellMatched t := by
  have hpermitted := h.mono fun a t hmakes ↦ Makes.permitted hmakes hcounts t
  exact (Messages.inv_of_permitted hpermitted).wellMatched

end Torc.Parallel
