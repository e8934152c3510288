import Mathlib.Data.List.Enum
import Mathlib.Algebra.Ring.Int.Defs
import Mathlib.Algebra.Order.Ring.Nat
import Torc.Descriptor

/-!
# Sending and receiving descriptors

The routines of `torc_comm.c` that move a descriptor and its arguments, and the parts of
`process_a_received_descriptor` that receive.  A routine is embedded as the memory and MPI calls it
makes, in order, together with the descriptor it leaves behind; the address a `calloc` returns is
an argument.
-/

namespace Torc

/-- The buffer handed to an MPI call: the slot of an argument itself or an address. -/
inductive Buffer
  | localSlot (i : Nat)
  | tempSlot (i : Nat)
  | addr (a : Int)
  deriving DecidableEq, Repr

/-- One argument's part in an `MPI_Isend` or `MPI_Irecv`: which argument, its buffer, how many
elements and of which type. -/
structure Transfer where
  arg : Nat
  buf : Buffer
  count : Nat
  dtype : MpiDatatype
  deriving DecidableEq, Repr

inductive Effect
  | calloc (addr : Int) (bytes : Nat)
  | free (addr : Int)
  | isend (dst tag : Nat) (payload : Transfer)
  | irecv (src tag : Nat) (payload : Transfer)
  deriving DecidableEq, Repr

def Effect.isend? : Effect → Option Transfer
  | .isend _ _ payload => some payload
  | _ => none

def Effect.irecv? : Effect → Option Transfer
  | .irecv _ _ payload => some payload
  | _ => none

/-- The payload messages a list of calls emits, in order: the argument and its element count. -/
def sentPayloads (calls : List Effect) : List (Nat × Nat) :=
  (calls.filterMap Effect.isend?).map fun p ↦ (p.arg, p.count)

/-- The payload receives a list of calls posts, in order. -/
def postedReceives (calls : List Effect) : List (Nat × Nat) :=
  (calls.filterMap Effect.irecv?).map fun p ↦ (p.arg, p.count)

@[simp] theorem sentPayloads_nil : sentPayloads [] = [] := rfl

@[simp] theorem sentPayloads_isend (dst tag : Nat) (p : Transfer) (calls : List Effect) :
    sentPayloads (.isend dst tag p :: calls) = (p.arg, p.count) :: sentPayloads calls := rfl

@[simp] theorem sentPayloads_free (a : Int) (calls : List Effect) :
    sentPayloads (.free a :: calls) = sentPayloads calls := rfl

@[simp] theorem postedReceives_nil : postedReceives [] = [] := rfl

@[simp] theorem postedReceives_irecv (src tag : Nat) (p : Transfer) (calls : List Effect) :
    postedReceives (.irecv src tag p :: calls) = (p.arg, p.count) :: postedReceives calls := rfl

@[simp] theorem postedReceives_calloc (a : Int) (n : Nat) (calls : List Effect) :
    postedReceives (.calloc a n :: calls) = postedReceives calls := rfl

@[simp] theorem postedReceives_free (a : Int) (calls : List Effect) :
    postedReceives (.free a :: calls) = postedReceives calls := rfl

/-- The value of an `int` expression on a 32-bit two's-complement machine. -/
def cInt (x : Int) : Int :=
  Int.bmod x (2 ^ 32)

/-- Conversion of an `int` to the 64-bit `size_t` that `malloc`, `calloc` and `memcpy` take. -/
def sizeT (x : Int) : Nat :=
  (x % 2 ^ 64).toNat

/-- `desc->quantity[i] * typesize` as an argument of `malloc`, `calloc` or `memcpy`. -/
def byteCount (quantity typesize : Nat) : Nat :=
  sizeT (cInt (quantity * typesize))

theorem byteCount_of_lt {quantity typesize : Nat} (h : quantity * typesize < 2 ^ 31) :
    byteCount quantity typesize = quantity * typesize := by
  have hcast : ((quantity : Int) * (typesize : Int)) = ((quantity * typesize : Nat) : Int) := by
    exact (Int.natCast_mul quantity typesize).symm
  unfold byteCount sizeT cInt
  rw [hcast, Int.bmod_def]
  split <;> omega

theorem byteCount_zero (typesize : Nat) : byteCount 0 typesize = 0 := by
  rw [byteCount_of_lt (by omega), Nat.zero_mul]

/-! ## Sending -/

/-- The body of the loop of `send_arguments`. -/
def sendArgument (node tag homenode sourcenode i : Nat) (a : Arg) : List Effect :=
  if a.quantity = 0 then []
  else if a.callway = .cop ∨ a.callway = .vad then
    -- the value is in the descriptor
    if a.quantity = 1 then []
    else if homenode ≠ sourcenode then
      [.isend node tag ⟨i, .tempSlot i, a.quantity, a.dtype⟩]
    else
      [.isend node tag ⟨i, .localSlot i, a.quantity, a.dtype⟩]
  else if a.callway = .ref ∨ a.callway = .ptr ∨ a.callway = .cop2 then
    if homenode ≠ sourcenode then
      [.isend node tag ⟨i, .addr a.temparg, a.quantity, a.dtype⟩]
    else
      [.isend node tag ⟨i, .addr a.localarg, a.quantity, a.dtype⟩]
  else []

def sendArguments (node tag : Nat) (desc : TorcT) : List Effect :=
  desc.liveArgs.zipIdx.flatMap fun (a, i) ↦
    sendArgument node tag desc.homenode desc.sourcenode i a

/-- The body of the `TORC_ANSWER` loop of `send_descriptor`. -/
def sendResult (homenode tag i : Nat) (a : Arg) : List Effect :=
  if a.quantity = 0 then []
  else
    (if a.callway = .cop2 ∧ 1 < a.quantity then [.free a.temparg] else []) ++
    if a.callway = .ref ∨ a.callway = .res then
      .isend homenode tag ⟨i, .addr a.temparg, a.quantity, a.dtype⟩ ::
        if 1 < a.quantity then [.free a.temparg] else []
    else []

def sendResults (tag : Nat) (desc : TorcT) : List Effect :=
  desc.liveArgs.zipIdx.flatMap fun (a, i) ↦ sendResult desc.homenode tag i a

/-- The descriptor as `send_descriptor`, called on node `me` by the thread with id `tag`, sends
it. -/
def stampSource (me tag : Nat) (desc : TorcT) (type : MsgType) : TorcT :=
  { desc with sourcenode := me, sourcevpid := tag, type := type }

/-- The calls of `send_descriptor` that follow the descriptor message. -/
def sendDescriptor (me tag node : Nat) (desc : TorcT) (type : MsgType) : List Effect :=
  let sent := stampSource me tag desc type
  match type with
  | .directSynchronousStealingRequest | .torcBcast => []
  | .torcAnswer => sendResults tag sent
  | _ => if sent.homenode = node then [] else sendArguments node tag sent

/-- The tag of a steal reply to thread `sourcevpid`; the server's own replies go to another one. -/
def replyTag (sourcevpid : Nat) : Nat :=
  (if sourcevpid = maxNvps then maxNvps + 1 else sourcevpid) + 100

/-- The descriptor as `direct_send_descriptor` sends it from node `me`; its `type` is left as it
is. -/
def stampReply (me : Nat) (desc : TorcT) : TorcT :=
  { desc with sourcenode := me, sourcevpid := maxNvps }

/-- The calls of `direct_send_descriptor` that follow the descriptor message. -/
def directSendDescriptor (me sourcenode sourcevpid : Nat) (desc : TorcT) : List Effect :=
  let sent := stampReply me desc
  if sent.homenode = sourcenode then [] else sendArguments sourcenode (replyTag sourcevpid) sent

/-! ## Receiving -/

/-- The body of the loop of `receive_arguments` on node `me`; `mem` is what `calloc` returns. -/
def receiveArgument (me sourcenode tag : Nat) (mem : Int) (i : Nat) (a : Arg) :
    Arg × List Effect :=
  if a.quantity = 0 then (a, [])
  else if 1 < a.quantity ∨ (a.callway ≠ .cop ∧ a.callway ≠ .vad) then
    let dtype := torcB2mpiType me a.btype
    ({ a with dtype := dtype, temparg := mem },
      .calloc mem (byteCount a.quantity (mpiTypeSize dtype)) ::
        if a.callway ≠ .res then [.irecv sourcenode tag ⟨i, .addr mem, a.quantity, dtype⟩]
        else [])
  else ({ a with temparg := a.localarg }, [])

/-- `receive_arguments` on node `me`, the `calloc` for argument `i` returning `mem i`. -/
def receiveArguments (me tag : Nat) (mem : Nat → Int) (desc : TorcT) : TorcT × List Effect :=
  let steps := desc.liveArgs.zipIdx.map fun (a, i) ↦
    receiveArgument me desc.sourcenode tag (mem i) i a
  ({ desc with args := steps.map (·.1) ++ desc.args.drop desc.narg }, steps.flatMap (·.2))

/-- The body of the `TORC_ANSWER` loop of `process_a_received_descriptor`. -/
def receiveResult (me sourcenode tag i : Nat) (a : Arg) : Arg × List Effect :=
  if a.quantity = 0 then (a, [])
  else if a.callway = .res ∨ a.callway = .ref then
    let dtype := torcB2mpiType me a.btype
    ({ a with dtype := dtype },
      [.irecv sourcenode tag ⟨i, .addr a.localarg, a.quantity, dtype⟩])
  else if a.callway = .cop2 then ({ a with localarg := 0 }, [.free a.localarg])
  else (a, [])

def receiveResults (me tag : Nat) (desc : TorcT) : TorcT × List Effect :=
  let steps := desc.liveArgs.zipIdx.map fun (a, i) ↦ receiveResult me desc.sourcenode tag i a
  ({ desc with args := steps.map (·.1) ++ desc.args.drop desc.narg }, steps.flatMap (·.2))

/-- The receives of the `TORC_NORMAL_ENQUEUE` branch of `process_a_received_descriptor`: the home
node needs no arguments. -/
def receiveEnqueued (me : Nat) (mem : Nat → Int) (desc : TorcT) : TorcT × List Effect :=
  if desc.homenode = me then (desc, []) else receiveArguments me desc.sourcevpid mem desc

/-- The tag on which the thread `vpid` waits for a steal reply. -/
def waitTag (vpid : Nat) : Nat :=
  vpid + 100

/-- The part of `receive_descriptor` that follows the receipt of the descriptor. -/
def receiveStolen (me vpid : Nat) (mem : Nat → Int) (desc : TorcT) : TorcT × List Effect :=
  if desc.type = .torcNoWork then (desc, [])
  else if desc.homenode ≠ me then receiveArguments me (waitTag vpid) mem desc
  else (desc, [])

/-! ## Tags of replies -/

theorem waitTag_gt (v : Nat) : maxNvps < waitTag v := by
  show 64 < v + 100
  omega

/-- A reply is not on the tag of the servers. -/
theorem replyTag_ne (v : Nat) : replyTag v ≠ maxNvps := by
  unfold replyTag maxNvps
  split <;> omega

/-- A worker waits on the tag of its reply. -/
theorem replyTag_eq {v : Nat} (hv : v < maxNvps) : replyTag v = waitTag v := by
  rw [replyTag, if_neg (Nat.ne_of_lt hv)]
  rfl

/-! ## The calls of a routine -/

theorem mem_zipIdx_flatMap {f : Arg → Nat → List Effect} {as : List Arg} {n : Nat} {e : Effect}
    (he : e ∈ (as.zipIdx n).flatMap fun p ↦ f p.1 p.2) : ∃ a i, e ∈ f a i := by
  obtain ⟨p, -, hp⟩ := List.mem_flatMap.mp he
  exact ⟨p.1, p.2, hp⟩

/-- For an argument `send_arguments` only sends. -/
theorem effect_sendArgument {node tag homenode sourcenode i : Nat} {a : Arg} {e : Effect}
    (he : e ∈ sendArgument node tag homenode sourcenode i a) :
    ∃ payload : Transfer, e = .isend node tag payload ∧ payload.arg = i := by
  unfold sendArgument at he
  split at he
  · cases he
  · split at he
    · split at he
      · cases he
      · split at he <;> exact ⟨_, List.mem_singleton.mp he, rfl⟩
    · split at he
      · split at he <;> exact ⟨_, List.mem_singleton.mp he, rfl⟩
      · cases he

/-- For an argument `receive_arguments` allocates a buffer and receives into it. -/
theorem effect_receiveArgument {me sourcenode tag i : Nat} {m : Int} {a : Arg} {e : Effect}
    (he : e ∈ (receiveArgument me sourcenode tag m i a).2) :
    e = .calloc m (byteCount a.quantity a.btype.size) ∨
      ∃ payload : Transfer, e = .irecv sourcenode tag payload := by
  unfold receiveArgument at he
  split at he
  · cases he
  · split at he
    · rcases List.mem_cons.mp he with rfl | he
      · exact .inl rfl
      · split at he
        · exact .inr ⟨_, List.mem_singleton.mp he⟩
        · cases he
    · cases he

/-- For a result `send_descriptor` sends and frees. -/
theorem effect_sendResult {homenode tag i : Nat} {a : Arg} {e : Effect}
    (he : e ∈ sendResult homenode tag i a) :
    e = .free a.temparg ∨ ∃ payload : Transfer, e = .isend homenode tag payload := by
  unfold sendResult at he
  split at he
  · cases he
  · rcases List.mem_append.mp he with he | he
    · split at he
      · exact .inl (List.mem_singleton.mp he)
      · cases he
    · split at he
      · rcases List.mem_cons.mp he with he | he
        · exact .inr ⟨_, he⟩
        · split at he
          · exact .inl (List.mem_singleton.mp he)
          · cases he
      · cases he

/-- For a result `process_a_received_descriptor` receives, or frees the copy at home. -/
theorem effect_receiveResult {me sourcenode tag i : Nat} {a : Arg} {e : Effect}
    (he : e ∈ (receiveResult me sourcenode tag i a).2) :
    e = .free a.localarg ∨ ∃ payload : Transfer, e = .irecv sourcenode tag payload := by
  unfold receiveResult at he
  split at he
  · cases he
  · split at he
    · exact .inr ⟨_, List.mem_singleton.mp he⟩
    · split at he
      · exact .inl (List.mem_singleton.mp he)
      · cases he

section

variable {me node tag vpid : Nat} {mem : Nat → Int} {desc : TorcT} {e : Effect}

theorem effect_sendArguments (he : e ∈ sendArguments node tag desc) :
    ∃ payload, e = .isend node tag payload := by
  obtain ⟨a, i, he⟩ := mem_zipIdx_flatMap
    (f := fun a i ↦ sendArgument node tag desc.homenode desc.sourcenode i a) he
  obtain ⟨payload, rfl, -⟩ := effect_sendArgument he
  exact ⟨payload, rfl⟩

theorem effect_sendResults (he : e ∈ sendResults tag desc) :
    (∃ a, e = .free a) ∨ ∃ payload, e = .isend desc.homenode tag payload := by
  obtain ⟨a, i, he⟩ := mem_zipIdx_flatMap (f := fun a i ↦ sendResult desc.homenode tag i a) he
  exact (effect_sendResult he).imp_left fun h ↦ ⟨_, h⟩

theorem effect_receiveArguments (he : e ∈ (receiveArguments me tag mem desc).2) :
    (∃ a n, e = .calloc a n) ∨ ∃ payload, e = .irecv desc.sourcenode tag payload := by
  simp only [receiveArguments, List.flatMap_map] at he
  obtain ⟨a, i, he⟩ := mem_zipIdx_flatMap
    (f := fun a i ↦ (receiveArgument me desc.sourcenode tag (mem i) i a).2) he
  exact (effect_receiveArgument he).imp_left fun h ↦ ⟨_, _, h⟩

theorem effect_receiveResults (he : e ∈ (receiveResults me tag desc).2) :
    (∃ a, e = .free a) ∨ ∃ payload, e = .irecv desc.sourcenode tag payload := by
  simp only [receiveResults, List.flatMap_map] at he
  obtain ⟨a, i, he⟩ := mem_zipIdx_flatMap
    (f := fun a i ↦ (receiveResult me desc.sourcenode tag i a).2) he
  exact (effect_receiveResult he).imp_left fun h ↦ ⟨_, h⟩

/-- The payloads of a descriptor have the tag of its sender. -/
theorem effect_sendDescriptor {type : MsgType}
    (he : e ∈ sendDescriptor me tag node desc type) :
    (∃ a, e = .free a) ∨ ∃ dst payload, e = .isend dst tag payload := by
  have hargs : ∀ sent : TorcT,
      e ∈ (if sent.homenode = node then [] else sendArguments node tag sent) →
      (∃ a, e = .free a) ∨ ∃ dst payload, e = .isend dst tag payload := by
    intro sent h
    split at h
    · cases h
    · exact .inr ⟨node, effect_sendArguments h⟩
  cases type with
  | torcAnswer => exact (effect_sendResults he).imp_right fun h ↦ ⟨_, h⟩
  | directSynchronousStealingRequest | torcBcast => cases he
  | _ => exact hargs _ he

/-- The payloads of a steal reply have its tag. -/
theorem effect_directSendDescriptor (he : e ∈ directSendDescriptor me node vpid desc) :
    ∃ payload, e = .isend node (replyTag vpid) payload := by
  simp only [directSendDescriptor] at he
  split at he
  · cases he
  · exact effect_sendArguments he

theorem effect_receiveEnqueued (he : e ∈ (receiveEnqueued me mem desc).2) :
    (∃ a n, e = .calloc a n) ∨
      ∃ payload, e = .irecv desc.sourcenode desc.sourcevpid payload := by
  unfold receiveEnqueued at he
  split at he
  · cases he
  · exact effect_receiveArguments he

theorem effect_receiveStolen (he : e ∈ (receiveStolen me vpid mem desc).2) :
    (∃ a n, e = .calloc a n) ∨
      ∃ payload, e = .irecv desc.sourcenode (waitTag vpid) payload := by
  unfold receiveStolen at he
  split at he
  · cases he
  · split at he
    · exact effect_receiveArguments he
    · cases he

end

end Torc
