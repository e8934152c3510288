import Torc.Comm

/-!
# Payload schedules

The payload messages that a sender emits after a descriptor against the payload receives that the
receiver of that descriptor posts.  Both sides go over the arguments in order, so it is enough that
one argument gives the same messages on both sides; the tests on the home node are compared last.
-/

namespace Torc

theorem sentPayloads_append (xs ys : List Effect) :
    sentPayloads (xs ++ ys) = sentPayloads xs ++ sentPayloads ys := by
  simp only [sentPayloads, List.filterMap_append, List.map_append]

theorem sentPayloads_flatMap {α : Type} (l : List α) (f : α → List Effect) :
    sentPayloads (l.flatMap f) = l.flatMap fun x ↦ sentPayloads (f x) := by
  induction l with
  | nil => rfl
  | cons x l ih => rw [List.flatMap_cons, sentPayloads_append, ih, List.flatMap_cons]

theorem postedReceives_append (xs ys : List Effect) :
    postedReceives (xs ++ ys) = postedReceives xs ++ postedReceives ys := by
  simp only [postedReceives, List.filterMap_append, List.map_append]

theorem postedReceives_flatMap {α : Type} (l : List α) (f : α → List Effect) :
    postedReceives (l.flatMap f) = l.flatMap fun x ↦ postedReceives (f x) := by
  induction l with
  | nil => rfl
  | cons x l ih => rw [List.flatMap_cons, postedReceives_append, ih, List.flatMap_cons]

/-- The message that carries an argument to the node that will hold the task: none for a value that
travels in the descriptor and none for a result. -/
def argumentMessages (i : Nat) (a : Arg) : List (Nat × Nat) :=
  if a.quantity = 0 ∨ a.callway = .res ∨
      ((a.callway = .cop ∨ a.callway = .vad) ∧ a.quantity = 1) then []
  else [(i, a.quantity)]

/-- The message that carries an argument back to the home node. -/
def resultMessages (i : Nat) (a : Arg) : List (Nat × Nat) :=
  if a.quantity = 0 then []
  else if a.callway = .res ∨ a.callway = .ref then [(i, a.quantity)]
  else []

theorem sentPayloads_sendArgument (node tag homenode sourcenode i : Nat) (a : Arg) :
    sentPayloads (sendArgument node tag homenode sourcenode i a) = argumentMessages i a := by
  unfold sendArgument argumentMessages
  by_cases hq : a.quantity = 0
  · simp [hq]
  · rw [if_neg hq]
    cases hc : a.callway <;> by_cases h1 : a.quantity = 1 <;>
      by_cases hs : homenode = sourcenode <;> simp [hq, h1, hs]

theorem postedReceives_receiveArgument (me sourcenode tag : Nat) (mem : Int) (i : Nat) (a : Arg) :
    postedReceives (receiveArgument me sourcenode tag mem i a).2 = argumentMessages i a := by
  unfold receiveArgument argumentMessages
  by_cases hq : a.quantity = 0
  · simp [hq]
  · -- a quantity that is not 0 is 1 or more than 1
    have hone : 1 < a.quantity ↔ a.quantity ≠ 1 := by omega
    rw [if_neg hq]
    cases hc : a.callway <;> by_cases h1 : a.quantity = 1 <;> simp [hone, h1, hq]

theorem sentPayloads_sendResult (homenode tag i : Nat) (a : Arg) :
    sentPayloads (sendResult homenode tag i a) = resultMessages i a := by
  unfold sendResult resultMessages
  by_cases hq : a.quantity = 0
  · simp [hq]
  · rw [if_neg hq, if_neg hq, sentPayloads_append]
    cases hc : a.callway <;> by_cases h1 : 1 < a.quantity <;> simp [h1]

theorem postedReceives_receiveResult (me sourcenode tag i : Nat) (a : Arg) :
    postedReceives (receiveResult me sourcenode tag i a).2 = resultMessages i a := by
  unfold receiveResult resultMessages
  by_cases hq : a.quantity = 0
  · simp [hq]
  · cases hc : a.callway <;> simp [hq]

theorem sentPayloads_sendArguments (node tag : Nat) (desc : TorcT) :
    sentPayloads (sendArguments node tag desc) =
      desc.liveArgs.zipIdx.flatMap fun (a, i) ↦ argumentMessages i a := by
  rw [sendArguments, sentPayloads_flatMap]
  simp only [sentPayloads_sendArgument]

theorem postedReceives_receiveArguments (me tag : Nat) (mem : Nat → Int) (desc : TorcT) :
    postedReceives (receiveArguments me tag mem desc).2 =
      desc.liveArgs.zipIdx.flatMap fun (a, i) ↦ argumentMessages i a := by
  simp only [receiveArguments, List.flatMap_map, postedReceives_flatMap,
    postedReceives_receiveArgument]

theorem sentPayloads_sendResults (tag : Nat) (desc : TorcT) :
    sentPayloads (sendResults tag desc) =
      desc.liveArgs.zipIdx.flatMap fun (a, i) ↦ resultMessages i a := by
  rw [sendResults, sentPayloads_flatMap]
  simp only [sentPayloads_sendResult]

theorem postedReceives_receiveResults (me tag : Nat) (desc : TorcT) :
    postedReceives (receiveResults me tag desc).2 =
      desc.liveArgs.zipIdx.flatMap fun (a, i) ↦ resultMessages i a := by
  simp only [receiveResults, List.flatMap_map, postedReceives_flatMap,
    postedReceives_receiveResult]

@[simp] theorem stampSource_liveArgs (me tag : Nat) (desc : TorcT) (type : MsgType) :
    (stampSource me tag desc type).liveArgs = desc.liveArgs := rfl

@[simp] theorem stampReply_liveArgs (me : Nat) (desc : TorcT) :
    (stampReply me desc).liveArgs = desc.liveArgs := rfl

/-- A remote enqueue: `send_descriptor` against the `TORC_NORMAL_ENQUEUE` handler of `node`. -/
theorem enqueue_schedule (me tag node : Nat) (mem : Nat → Int) (desc : TorcT) :
    sentPayloads (sendDescriptor me tag node desc .torcNormalEnqueue) =
      postedReceives
        (receiveEnqueued node mem (stampSource me tag desc .torcNormalEnqueue)).2 := by
  change sentPayloads (if desc.homenode = node then [] else
      sendArguments node tag (stampSource me tag desc .torcNormalEnqueue)) =
    postedReceives (if desc.homenode = node then (_, []) else
      receiveArguments node tag mem (stampSource me tag desc .torcNormalEnqueue)).2
  by_cases hn : desc.homenode = node
  · rw [if_pos hn, if_pos hn]
    rfl
  · rw [if_neg hn, if_neg hn, sentPayloads_sendArguments, postedReceives_receiveArguments]

/-- A steal reply: `direct_send_descriptor` on the victim against `receive_descriptor` in thread
`vpid` of the thief.  The reply without work is the empty descriptor. -/
theorem reply_schedule (victim thief vpid : Nat) (mem : Nat → Int) (desc : TorcT)
    (hempty : desc.type = .torcNoWork → desc.narg = 0) :
    sentPayloads (directSendDescriptor victim thief vpid desc) =
      postedReceives (receiveStolen thief vpid mem (stampReply victim desc)).2 := by
  change sentPayloads (if desc.homenode = thief then [] else
      sendArguments thief (replyTag vpid) (stampReply victim desc)) =
    postedReceives (if desc.type = .torcNoWork then (_, []) else
      if desc.homenode ≠ thief then
        receiveArguments thief (waitTag vpid) mem (stampReply victim desc)
      else (_, [])).2
  by_cases hn : desc.homenode = thief
  · simp [hn, sentPayloads, postedReceives]
  · rw [if_neg hn, sentPayloads_sendArguments, stampReply_liveArgs]
    by_cases ht : desc.type = .torcNoWork
    · rw [if_pos ht, TorcT.liveArgs, hempty ht]
      rfl
    · rw [if_neg ht, if_pos hn, postedReceives_receiveArguments, stampReply_liveArgs]

/-- An answer: the `TORC_ANSWER` loop of `send_descriptor` against that of
`process_a_received_descriptor` on the home node. -/
theorem answer_schedule (me tag : Nat) (desc : TorcT) :
    sentPayloads (sendDescriptor me tag desc.homenode desc .torcAnswer) =
      postedReceives
        (receiveResults desc.homenode tag (stampSource me tag desc .torcAnswer)).2 := by
  change sentPayloads (sendResults tag (stampSource me tag desc .torcAnswer)) = _
  rw [sentPayloads_sendResults, postedReceives_receiveResults]

/-- Every transfer of a descriptor: the payload messages emitted are the payload receives posted,
in number, order and element count. -/
theorem payload_schedules_agree (desc : TorcT) (mem : Nat → Int)
    (hempty : desc.type = .torcNoWork → desc.narg = 0) :
    (∀ me tag node, sentPayloads (sendDescriptor me tag node desc .torcNormalEnqueue) =
      postedReceives
        (receiveEnqueued node mem (stampSource me tag desc .torcNormalEnqueue)).2) ∧
    (∀ victim thief vpid, sentPayloads (directSendDescriptor victim thief vpid desc) =
      postedReceives (receiveStolen thief vpid mem (stampReply victim desc)).2) ∧
    ∀ me tag, sentPayloads (sendDescriptor me tag desc.homenode desc .torcAnswer) =
      postedReceives
        (receiveResults desc.homenode tag (stampSource me tag desc .torcAnswer)).2 :=
  ⟨fun me tag node ↦ enqueue_schedule me tag node mem desc,
    fun victim thief vpid ↦ reply_schedule victim thief vpid mem desc hempty,
    fun me tag ↦ answer_schedule me tag desc⟩

/-- A task of node 0 with a reference of four elements, a scalar and a result, held by node 1. -/
def sampleTask : TorcT :=
  { homenode := 0, sourcenode := 1, narg := 3, rteType := 1
    args := [⟨4, ⟨0, .double⟩, .double, .ref, 4096, 8192⟩,
      ⟨1, ⟨0, .int⟩, .int, .cop, 7, 7⟩,
      ⟨1, ⟨0, .double⟩, .double, .res, 5120, 9216⟩] }

theorem payload_schedules_agree_sample :
    (∀ me tag node, sentPayloads (sendDescriptor me tag node sampleTask .torcNormalEnqueue) =
      postedReceives
        (receiveEnqueued node (fun _ ↦ 0)
          (stampSource me tag sampleTask .torcNormalEnqueue)).2) ∧
    (∀ victim thief vpid, sentPayloads (directSendDescriptor victim thief vpid sampleTask) =
      postedReceives (receiveStolen thief vpid (fun _ ↦ 0) (stampReply victim sampleTask)).2) ∧
    ∀ me tag, sentPayloads (sendDescriptor me tag sampleTask.homenode sampleTask .torcAnswer) =
      postedReceives
        (receiveResults sampleTask.homenode tag (stampSource me tag sampleTask .torcAnswer)).2 :=
  payload_schedules_agree sampleTask (fun _ ↦ 0) (by decide)

end Torc
