import Torc.Capture
import Torc.Route
import Torc.Lib.Transition
import Mathlib.Data.List.GetD

/-!
# Journeys

A descriptor on its way together with the memories of all nodes.  Between two moves the other
threads of the cluster may do anything to the memories but free or overwrite what belongs to the
descriptor.
-/

namespace Torc

structure Traveller where
  held : Held
  heaps : Nat → ByteHeap

/-! ## One move -/

/-- The descriptor as a move sends it. -/
def Hop.sent (held : Held) : Hop → TorcT
  | .insert roundRobin targetQueue => place roundRobin targetQueue held.desc
  | .enqueue roundRobin targetQueue tag _ _ =>
      stampSource held.node tag (place roundRobin targetQueue held.desc) .torcNormalEnqueue
  | .steal _ _ _ => stampReply held.node held.desc

def Hop.dst (held : Held) : Hop → Nat
  | .insert _ _ => held.node
  | .enqueue _ _ _ dst _ => dst
  | .steal thief _ _ => thief

/-- The calls that send the payloads. -/
def Hop.sends (held : Held) : Hop → List Effect
  | .insert _ _ => []
  | .enqueue roundRobin targetQueue tag dst _ =>
      sendDescriptor held.node tag dst (place roundRobin targetQueue held.desc) .torcNormalEnqueue
  | .steal thief vpid _ => directSendDescriptor held.node thief vpid held.desc

/-- The calls that receive them. -/
def Hop.receives (held : Held) (hop : Hop) : List Effect :=
  match hop with
  | .insert _ _ => []
  | .enqueue _ _ _ dst mem => (receiveEnqueued dst mem (hop.sent held)).2
  | .steal thief vpid mem => (receiveStolen thief vpid mem (hop.sent held)).2

/-- The payloads of the arguments. -/
def Traveller.payloads (t : Traveller) (hop : Hop) : List Payload :=
  Torc.payloads (t.heaps t.held.node) (hop.sent t.held) (hop.sends t.held)

/-- A move of a descriptor to a node where these messages arrive. -/
def Traveller.carry (t : Traveller) (hop : Hop) (arriving : List PayloadMessage) :
    Option Traveller :=
  match (matched (hop.receives t.held) arriving).bind
      (perform (hop.receives t.held) (t.heaps (hop.dst t.held))) with
  | some (h, []) => some ⟨hop.land t.held, Function.update t.heaps (hop.dst t.held) h⟩
  | _ => none

theorem place_liveArgs (roundRobin : Bool) (targetQueue : Int) (desc : TorcT) :
    (place roundRobin targetQueue desc).liveArgs = desc.liveArgs := by
  cases roundRobin <;> rfl

theorem take_append_drop_of_length {α : Type*} {xs l : List α} {n : Nat}
    (h : xs.length = (l.take n).length) : (xs ++ l.drop n).take n = xs := by
  rw [List.length_take] at h
  by_cases hn : n ≤ l.length
  · exact List.take_left' (by omega)
  · rw [List.drop_eq_nil_of_le (by omega), List.append_nil, List.take_of_length_le (by omega)]

theorem receiveArguments_getElem? (me tag : Nat) (mem : Nat → Int) (desc : TorcT) (i : Nat) :
    (receiveArguments me tag mem desc).1.liveArgs[i]? = desc.liveArgs[i]?.map fun a ↦
      (receiveArgument me desc.sourcenode tag (mem i) i a).1 := by
  simp only [receiveArguments]
  rw [TorcT.liveArgs, take_append_drop_of_length (by simp [TorcT.liveArgs])]
  simp only [List.map_map, List.getElem?_map, List.getElem?_zipIdx, Option.map_map, Nat.zero_add]
  rfl

theorem readArguments_getElem? (desc : TorcT) (i : Nat) :
    (readArguments desc).liveArgs[i]? = desc.liveArgs[i]?.map fun a ↦
      { a with temparg := a.localarg } := by
  simp only [readArguments]
  rw [TorcT.liveArgs, take_append_drop_of_length (by simp [TorcT.liveArgs]), List.getElem?_map]

/-- What a move between nodes does: the home node takes the descriptor as it is, any other node
receives the arguments. -/
structure Hop.Transfer (held : Held) (hop : Hop) : Prop where
  liveArgs : (hop.sent held).liveArgs = held.desc.liveArgs
  homenode : (hop.sent held).homenode = held.desc.homenode
  narg : (hop.sent held).narg = held.desc.narg
  sourcenode : (hop.sent held).sourcenode = held.node
  home : held.desc.homenode = hop.dst held →
    hop.receives held = [] ∧ hop.land held = ⟨hop.dst held, hop.sent held⟩
  away : held.desc.homenode ≠ hop.dst held → ∃ tag tag' mem,
    hop.sends held = sendArguments (hop.dst held) tag (hop.sent held) ∧
      hop.receives held = (receiveArguments (hop.dst held) tag' mem (hop.sent held)).2 ∧
      hop.land held = ⟨hop.dst held,
        (receiveArguments (hop.dst held) tag' mem (hop.sent held)).1⟩

theorem Hop.transfer {held : Held} (htype : held.desc.type ≠ .torcNoWork) (hop : Hop)
    (hmove : ∀ roundRobin targetQueue, hop ≠ .insert roundRobin targetQueue) :
    hop.Transfer held := by
  cases hop with
  | insert roundRobin targetQueue => exact absurd rfl (hmove roundRobin targetQueue)
  | enqueue roundRobin targetQueue tag dst mem =>
      have hsame := place_same roundRobin targetQueue held.desc
      let sent := (Hop.enqueue roundRobin targetQueue tag dst mem).sent held
      -- the home node finds the arguments in its own memory and posts no receive
      refine ⟨place_liveArgs _ _ _, hsame.homenode, hsame.narg, rfl, fun hhome ↦ ?_,
        fun haway ↦ ?_⟩
      · have hr : receiveEnqueued dst mem sent = (sent, []) :=
          if_pos (hsame.homenode.trans hhome)
        change (receiveEnqueued dst mem sent).2 = [] ∧
          (⟨dst, (receiveEnqueued dst mem sent).1⟩ : Held) = ⟨dst, sent⟩
        rw [hr]
        exact ⟨rfl, rfl⟩
      · have hd : sent.homenode ≠ dst := fun h ↦ haway (hsame.homenode.symm.trans h)
        have hr : receiveEnqueued dst mem sent = receiveArguments dst tag mem sent := if_neg hd
        refine ⟨tag, tag, mem, if_neg hd, ?_⟩
        change (receiveEnqueued dst mem sent).2 = (receiveArguments dst tag mem sent).2 ∧
          (⟨dst, (receiveEnqueued dst mem sent).1⟩ : Held) =
            ⟨dst, (receiveArguments dst tag mem sent).1⟩
        rw [hr]
        exact ⟨rfl, rfl⟩
  | steal thief vpid mem =>
      let sent := stampReply held.node held.desc
      -- the reply is no `TORC_NO_WORK`, so the thief looks at the home node
      have hreal : sent.type ≠ .torcNoWork := htype
      refine ⟨rfl, rfl, rfl, rfl, fun hhome ↦ ?_, fun haway ↦ ?_⟩
      · have hd : ¬ sent.homenode ≠ thief := fun h ↦ h hhome
        have hr : receiveStolen thief vpid mem sent = (sent, []) := by
          rw [receiveStolen, if_neg hreal, if_neg hd]
        change (receiveStolen thief vpid mem sent).2 = [] ∧
          (⟨thief, (receiveStolen thief vpid mem sent).1⟩ : Held) = ⟨thief, sent⟩
        rw [hr]
        exact ⟨rfl, rfl⟩
      · have hd : sent.homenode ≠ thief := haway
        have hr : receiveStolen thief vpid mem sent =
            receiveArguments thief (waitTag vpid) mem sent := by
          rw [receiveStolen, if_neg hreal, if_pos hd]
        refine ⟨replyTag vpid, waitTag vpid, mem, if_neg hd, ?_⟩
        change (receiveStolen thief vpid mem sent).2 =
            (receiveArguments thief (waitTag vpid) mem sent).2 ∧
          (⟨thief, (receiveStolen thief vpid mem sent).1⟩ : Held) =
            ⟨thief, (receiveArguments thief (waitTag vpid) mem sent).1⟩
        rw [hr]
        exact ⟨rfl, rfl⟩

/-! ## Whole journeys -/

/-- Address `x` belongs to the memory of argument `a` on a node other than its home. -/
def Arg.AtTemp (a : Arg) (x : Nat) : Prop :=
  a.temparg.toNat ≤ x ∧ x < a.temparg.toNat + a.bytes

/-- The memory that belongs to the descriptor: at home the buffers and private copies its arguments
refer to, and the blocks it has on the node that holds it. -/
def Traveller.Owns (t : Traveller) (node x : Nat) : Prop :=
  (node = t.held.desc.homenode ∧ ∃ a ∈ t.held.desc.liveArgs, a.Moved ∧ a.AtHome x) ∨
    (node = t.held.node ∧ node ≠ t.held.desc.homenode ∧
      ∃ a ∈ t.held.desc.liveArgs, a.Moved ∧ a.AtTemp x)

/-- The descriptor moves while `arriving` comes in at its new node, or the memory of a node becomes
`h`. -/
inductive JourneyEvent
  | move (hop : Hop) (arriving : List PayloadMessage)
  | others (node : Nat) (h : ByteHeap)

def Traveller.step : JourneyEvent → Traveller → Option Traveller
  | .move hop arriving, t => t.carry hop arriving
  | .others node h, t => some { t with heaps := Function.update t.heaps node h }

/-- A descriptor is inserted only on the node that made it; other threads leave alone what is not
theirs. -/
def JourneyEvent.Permitted : JourneyEvent → Traveller → Prop
  | .move (.insert _ _) _, t => t.held.node = t.held.desc.homenode
  | .move _ _, _ => True
  | .others node h, t =>
      (t.heaps node).brk ≤ h.brk ∧ ∀ x, t.Owns node x → h.mem x = (t.heaps node).mem x

/-- Each receive of a payload gets the payload it is for. -/
def JourneyEvent.Reaches : JourneyEvent → Traveller → Prop
  | .move hop arriving, t => matched (hop.receives t.held) arriving = some (t.payloads hop)
  | .others _ _, _ => True

def journeys (start : Traveller) : Transition.System Traveller JourneyEvent where
  init := fun t ↦ t = start
  step := Traveller.step

def Journey (start t : Traveller) : Prop :=
  (journeys start).ReachableIf (fun e t ↦ e.Permitted t ∧ e.Reaches t) t

/-! ## Payloads that are the oldest of their channel -/

theorem mem_receiveArguments_irecv {me tag src tag' : Nat} {mem : Nat → Int} {desc : TorcT}
    {p : Transfer} (h : .irecv src tag' p ∈ (receiveArguments me tag mem desc).2) :
    (src, tag') = (desc.sourcenode, tag) := by
  simp only [receiveArguments, List.flatMap_map, List.mem_flatMap] at h
  obtain ⟨⟨a, i⟩, -, he⟩ := h
  unfold receiveArgument at he
  split at he
  · cases he
  · split at he
    · rcases List.mem_cons.mp he with hc | hr
      · cases hc
      · split at hr
        · obtain ⟨rfl, rfl, -⟩ := List.mem_singleton.mp hr
          rfl
        · cases hr
    · cases he

/-- The source and the tag of the payloads of a move. -/
def Hop.chan (held : Held) : Hop → Nat × Nat
  | .insert _ _ => (held.node, 0)
  | .enqueue _ _ tag _ _ => (held.node, tag)
  | .steal _ vpid _ => (held.node, waitTag vpid)

theorem Traveller.length_payloads {t : Traveller} (htype : t.held.desc.type ≠ .torcNoWork)
    (hop : Hop) :
    (t.payloads hop).length = ((hop.receives t.held).filterMap Effect.irecv?).length := by
  have hschedule : sentPayloads (hop.sends t.held) = postedReceives (hop.receives t.held) := by
    cases hop with
    | insert roundRobin targetQueue => rfl
    | enqueue roundRobin targetQueue tag dst mem => exact enqueue_schedule ..
    | steal thief vpid mem => exact reply_schedule _ _ _ _ _ fun h ↦ absurd h htype
  have hlength := congrArg List.length hschedule
  simp only [sentPayloads, postedReceives, List.length_map] at hlength
  simp only [Traveller.payloads, Torc.payloads, List.length_map, hlength]

/-- When the payloads of a move are the oldest messages of their channel, each receive gets the
payload it is for. -/
theorem Hop.reaches_of_queue {t : Traveller} (htype : t.held.desc.type ≠ .torcNoWork) (hop : Hop)
    {arriving : List PayloadMessage} {l : List Payload}
    (hqueue : Mailbox.queue (hop.chan t.held) arriving = t.payloads hop ++ l) :
    JourneyEvent.Reaches (.move hop arriving) t := by
  apply matched_of_queue _ hqueue (Traveller.length_payloads htype hop)
  intro src tag p hp
  cases hop with
  | insert roundRobin targetQueue => cases hp
  | enqueue roundRobin targetQueue tag' dst mem =>
      simp only [Hop.receives, receiveEnqueued] at hp
      split at hp
      · cases hp
      · exact mem_receiveArguments_irecv hp
  | steal thief vpid mem =>
      simp only [Hop.receives, receiveStolen] at hp
      split at hp
      · cases hp
      · split at hp
        · exact mem_receiveArguments_irecv hp
        · cases hp

/-! ## What a journey preserves -/

/-- The arguments on a node that is not their home: each has a block of its own there, with the
contents `contents i` where it has any. -/
structure Away (contents : Nat → Nat → UInt8) (h : ByteHeap) (args : List Arg) : Prop where
  value : ∀ a ∈ args, ¬ a.Boxed → 0 < a.quantity → a.temparg = a.localarg
  block : ∀ (i : Nat) (a : Arg), args[i]? = some a → a.Boxed →
    a.temparg.toNat + a.bytes ≤ h.brk ∧
      (a.Moved → ∀ j < a.bytes, h.mem (a.temparg.toNat + j) = contents i j)
  ordered : ∀ (i i' : Nat) (a a' : Arg), i < i' → args[i]? = some a → args[i']? = some a' →
    a.Boxed → a'.Boxed → a.temparg.toNat + a.bytes ≤ a'.temparg.toNat

/-- Wherever the descriptor is, its arguments are those of the created descriptor `as`, their
contents are at home and also on the node that holds it. -/
structure Carried (home : Nat) (as : List Arg) (contents : Nat → Nat → UInt8) (t : Traveller) :
    Prop where
  homenode : t.held.desc.homenode = home
  type : t.held.desc.type ≠ .torcNoWork
  narg : t.held.desc.narg = as.length
  same : ∀ i : Nat, Option.Rel Arg.Same as[i]? t.held.desc.liveArgs[i]?
  atHome : ∀ (i : Nat) (a : Arg), as[i]? = some a → a.Moved → ∀ j < a.bytes,
    (t.heaps home).mem (a.localarg.toNat + j) = contents i j
  away : t.held.node ≠ home → Away contents (t.heaps t.held.node) t.held.desc.liveArgs

variable {home : Nat} {as : List Arg} {contents : Nat → Nat → UInt8} {t t' : Traveller}

theorem Carried.getElem? (ht : Carried home as contents t) {i : Nat} {b : Arg}
    (hb : t.held.desc.liveArgs[i]? = some b) : ∃ a, as[i]? = some a ∧ a.Same b := by
  have hrel := ht.same i
  rw [hb] at hrel
  generalize as[i]? = x at hrel
  cases hrel with
  | some hsame => exact ⟨_, rfl, hsame⟩

theorem Carried.getElem?' (ht : Carried home as contents t) {i : Nat} {a : Arg}
    (ha : as[i]? = some a) : ∃ b, t.held.desc.liveArgs[i]? = some b ∧ a.Same b := by
  have hrel := ht.same i
  rw [ha] at hrel
  generalize t.held.desc.liveArgs[i]? = x at hrel
  cases hrel with
  | some hsame => exact ⟨_, rfl, hsame⟩

theorem Carried.same_map (ht : Carried home as contents t) {args : List Arg}
    {f : Nat → Arg → Arg}
    (hargs : ∀ i : Nat, args[i]? = t.held.desc.liveArgs[i]?.map (f i))
    (hf : ∀ (i : Nat) (b : Arg), t.held.desc.liveArgs[i]? = some b → b.Same (f i b)) (i : Nat) :
    Option.Rel Arg.Same as[i]? args[i]? := by
  have hrel := ht.same i
  rw [hargs i]
  cases hb : t.held.desc.liveArgs[i]? with
  | none =>
      rw [hb] at hrel
      exact hrel
  | some b =>
      obtain ⟨a, ha, hsame⟩ := ht.getElem? hb
      rw [ha]
      exact .some (hsame.trans (hf i b hb))

theorem Carried.plain (ht : Carried home as contents t) (has : ∀ a ∈ as, a.Plain) :
    ∀ b ∈ t.held.desc.liveArgs, b.Plain := by
  intro b hb
  obtain ⟨i, hi⟩ := List.getElem?_of_mem hb
  obtain ⟨a, ha, hsame⟩ := ht.getElem? hi
  exact hsame.plain (has a (List.mem_of_getElem? ha))

/-- The contents of an argument are where the node that holds the descriptor looks for them. -/
theorem Carried.slot_contents (ht : Carried home as contents t) {i : Nat} {b : Arg}
    (hb : t.held.desc.liveArgs[i]? = some b) (hm : b.Moved) {j : Nat} (hj : j < b.bytes) :
    (t.heaps t.held.node).mem ((b.slot (t.held.desc.homenode = t.held.node)).toNat + j) =
      contents i j := by
  by_cases hnode : t.held.node = home
  · obtain ⟨a, ha, hsame⟩ := ht.getElem? hb
    rw [ht.homenode, decide_eq_true hnode.symm, hnode]
    change (t.heaps home).mem (b.localarg.toNat + j) = contents i j
    rw [hsame.localarg]
    exact ht.atHome i a ha (hsame.moved.mp hm) j (hsame.bytes ▸ hj)
  · rw [ht.homenode, decide_eq_false fun h ↦ hnode h.symm]
    exact ((ht.away hnode).block i b hb hm.1).2 hm j hj

/-- The memories change where the descriptor owns nothing. -/
theorem Carried.others (ht : Carried home as contents t) {node : Nat} {h : ByteHeap}
    (hbrk : (t.heaps node).brk ≤ h.brk)
    (hkeep : ∀ x, t.Owns node x → h.mem x = (t.heaps node).mem x) :
    Carried home as contents { t with heaps := Function.update t.heaps node h } where
  homenode := ht.homenode
  type := ht.type
  narg := ht.narg
  same := ht.same
  atHome i a ha hm j hj := by
    by_cases hnode : node = home
    · subst hnode
      obtain ⟨b, hb, hsame⟩ := ht.getElem?' ha
      have howns : t.Owns node (a.localarg.toNat + j) := by
        refine .inl ⟨ht.homenode.symm, b, List.mem_of_getElem? hb, hsame.moved.mpr hm, ?_⟩
        rw [Arg.AtHome, hsame.localarg, hsame.bytes]
        omega
      simp only [Function.update_self]
      rw [hkeep _ howns]
      exact ht.atHome i a ha hm j hj
    · simp only [Function.update_of_ne (Ne.symm hnode)]
      exact ht.atHome i a ha hm j hj
  away haway := by
    have ha := ht.away haway
    refine ⟨ha.value, fun i b hb hbox ↦ ?_, ha.ordered⟩
    obtain ⟨hend, hval⟩ := ha.block i b hb hbox
    by_cases hnode : node = t.held.node
    · subst hnode
      simp only [Function.update_self]
      refine ⟨by omega, fun hm j hj ↦ ?_⟩
      have howns : t.Owns t.held.node (b.temparg.toNat + j) :=
        .inr ⟨rfl, ht.homenode ▸ haway, b, List.mem_of_getElem? hb, hm, by
          rw [Arg.AtTemp]
          omega⟩
      rw [hkeep _ howns]
      exact hval hm j hj
    · simp only [Function.update_of_ne (Ne.symm hnode)]
      exact ⟨hend, hval⟩

theorem carry_some {hop : Hop} {arriving : List PayloadMessage}
    (hc : t.carry hop arriving = some t') :
    ∃ ps h, matched (hop.receives t.held) arriving = some ps ∧
      perform (hop.receives t.held) (t.heaps (hop.dst t.held)) ps = some (h, []) ∧
      t' = ⟨hop.land t.held, Function.update t.heaps (hop.dst t.held) h⟩ := by
  unfold Traveller.carry at hc
  split at hc
  · rename_i h hrun
    obtain ⟨ps, hps, hrun⟩ := Option.bind_eq_some_iff.mp hrun
    exact ⟨ps, h, hps, hrun, (Option.some.inj hc).symm⟩
  · cases hc

/-- Where the receives get their payloads. -/
theorem carry_reaches {hop : Hop} {arriving : List PayloadMessage}
    (hreach : JourneyEvent.Reaches (.move hop arriving) t)
    (hc : t.carry hop arriving = some t') :
    ∃ h, perform (hop.receives t.held) (t.heaps (hop.dst t.held)) (t.payloads hop) =
        some (h, []) ∧
      t' = ⟨hop.land t.held, Function.update t.heaps (hop.dst t.held) h⟩ := by
  obtain ⟨ps, h, hps, hrun, ht'⟩ := carry_some hc
  obtain rfl := Option.some.inj (hps.symm.trans hreach)
  exact ⟨h, hrun, ht'⟩

/-- The descriptor is put into a queue of its home node. -/
theorem Carried.insert (ht : Carried home as contents t) (hhome : t.held.node = home)
    {roundRobin : Bool} {targetQueue : Int} {arriving : List PayloadMessage}
    (hc : t.carry (.insert roundRobin targetQueue) arriving = some t') :
    Carried home as contents t' := by
  obtain ⟨ps, h, hps, hrun, rfl⟩ := carry_some hc
  cases hps
  cases hrun
  have hsame := place_same roundRobin targetQueue t.held.desc
  refine ⟨hsame.homenode.trans ht.homenode, ?_, hsame.narg.trans ht.narg, ?_, ?_, ?_⟩
  · exact fun h ↦ ht.type ((place_type _ _ _).symm.trans h)
  · apply ht.same_map (f := fun _ a ↦ { a with temparg := a.localarg })
    · intro i
      change (readArguments (place roundRobin targetQueue t.held.desc)).liveArgs[i]? = _
      rw [readArguments_getElem?, place_liveArgs]
    · exact fun _ _ _ ↦ ⟨rfl, rfl, rfl, rfl, rfl⟩
  · intro i a ha hm j hj
    simp only [Hop.dst, Function.update_eq_self]
    exact ht.atHome i a ha hm j hj
  · exact fun haway ↦ absurd hhome haway

/-- After `receive_arguments` the arguments are in place on the receiving node. -/
theorem Received.away {args args' : List Arg} (hplain : ∀ a ∈ args, a.Plain) {me src tag : Nat}
    {mem : Nat → Int} {p : Arg → Payload} {h h' : ByteHeap} (hrec : Received args 0 mem p h h')
    (hargs : ∀ i : Nat, args'[i]? = args[i]?.map fun a ↦
      (receiveArgument me src tag (mem i) i a).1)
    (hp : ∀ (i : Nat) (a : Arg), args[i]? = some a → a.Moved → ∀ j < a.bytes,
      (p a).byte j = contents i j) : Away contents h' args' := by
  have horigin :
      ∀ (i : Nat) (b : Arg), args'[i]? = some b → ∃ a, args[i]? = some a ∧ a.Same b ∧
      (a.Boxed → b.temparg = mem i) ∧
      (¬ a.Boxed → 0 < a.quantity → b.temparg = a.localarg) := by
    intro i b hb
    rw [hargs i] at hb
    obtain ⟨a, ha, rfl⟩ := Option.map_eq_some_iff.mp hb
    exact ⟨a, ha, receiveArgument_arg (hplain a (List.mem_of_getElem? ha)) _ _ _ _ _⟩
  refine ⟨fun b hb hbox hq ↦ ?_, fun i b hb hbox ↦ ?_,
    fun i i' b b' hlt hb hb' hbox hbox' ↦ ?_⟩
  · obtain ⟨i, hi⟩ := List.getElem?_of_mem hb
    obtain ⟨a, -, hsame, -, htemp⟩ := horigin i b hi
    rw [hsame.localarg]
    exact htemp (fun h ↦ hbox (hsame.boxed.mpr h)) (hsame.quantity ▸ hq)
  · obtain ⟨a, ha, hsame, htemp, -⟩ := horigin i b hb
    have hbox' := hsame.boxed.mp hbox
    obtain ⟨-, hend, hval⟩ := hrec.block i a ha hbox'
    rw [Nat.zero_add] at hend hval
    rw [htemp hbox', hsame.bytes]
    refine ⟨hend, fun hm j hj ↦ ?_⟩
    have hm' := hsame.moved.mp hm
    rw [hval hm' j hj, hp i a ha hm' j hj]
  · obtain ⟨a, ha, hsame, htemp, -⟩ := horigin i b hb
    obtain ⟨a', ha', hsame', htemp', -⟩ := horigin i' b' hb'
    have hbox₁ := hsame.boxed.mp hbox
    have hbox₂ := hsame'.boxed.mp hbox'
    have hord := hrec.ordered i i' a a' hlt ha ha' hbox₁ hbox₂
    rw [Nat.zero_add, Nat.zero_add] at hord
    rw [htemp hbox₁, htemp' hbox₂, hsame.bytes]
    exact hord

/-- The descriptor goes to another node, its home or not. -/
theorem Carried.transfer (ht : Carried home as contents t) (has : ∀ a ∈ as, a.Plain) {hop : Hop}
    {arriving : List PayloadMessage} (htr : hop.Transfer t.held)
    (htype : (hop.land t.held).desc.type ≠ .torcNoWork)
    (hreach : JourneyEvent.Reaches (.move hop arriving) t)
    (hc : t.carry hop arriving = some t') : Carried home as contents t' := by
  have hsame := hop.land_same t.held
  obtain ⟨h, hrun, rfl⟩ := carry_reaches hreach hc
  by_cases hdst : t.held.desc.homenode = hop.dst t.held
  · -- the home node has all it needs
    obtain ⟨hnone, hland⟩ := htr.home hdst
    rw [hnone] at hrun
    obtain ⟨rfl, -⟩ := Prod.mk.inj (Option.some.inj hrun)
    refine ⟨hsame.homenode.trans ht.homenode, htype, hsame.narg.trans ht.narg, ?_, ?_, ?_⟩
    · intro i
      rw [hland]
      change Option.Rel Arg.Same as[i]? (hop.sent t.held).liveArgs[i]?
      rw [htr.liveArgs]
      exact ht.same i
    · rw [Function.update_eq_self]
      exact ht.atHome
    · intro haway
      rw [hland] at haway
      exact absurd (ht.homenode.symm.trans hdst).symm haway
  · obtain ⟨tag, tag', mem, hsends, hreceives, hland⟩ := htr.away hdst
    have hplain := ht.plain has
    have hhome : home ≠ hop.dst t.held := ht.homenode ▸ hdst
    -- what the receiver gets is what the sender's slots refer to
    let p : Arg → Payload := fun b ↦ ⟨b.bytes, fun j ↦ (t.heaps t.held.node).mem
      ((b.slot (t.held.desc.homenode = t.held.node)).toNat + j)⟩
    have hpay : t.payloads hop =
        t.held.desc.liveArgs.flatMap fun b ↦ if b.Moved then [p b] else [] := by
      rw [Traveller.payloads, hsends, payloads_sendArguments (htr.liveArgs ▸ hplain),
        htr.liveArgs, htr.homenode,
        htr.sourcenode]
    have hrec : Received t.held.desc.liveArgs 0 mem p (t.heaps (hop.dst t.held)) h := by
      rw [hpay, hreceives] at hrun
      simp only [receiveArguments, htr.liveArgs] at hrun
      rw [List.flatMap_map] at hrun
      exact (perform_receiveArguments _ _ tag' mem p (fun _ ↦ rfl) hplain 0 hrun).2
    have hargs : ∀ i : Nat, (hop.land t.held).desc.liveArgs[i]? = t.held.desc.liveArgs[i]?.map
        fun a ↦ (receiveArgument (hop.dst t.held) t.held.node tag' (mem i) i a).1 := by
      intro i
      rw [hland, receiveArguments_getElem?, htr.liveArgs, htr.sourcenode]
    refine ⟨hsame.homenode.trans ht.homenode, htype, hsame.narg.trans ht.narg, ?_, ?_,
      fun _ ↦ ?_⟩
    · apply ht.same_map hargs
      exact fun i b hb ↦ (receiveArgument_arg (hplain b (List.mem_of_getElem? hb)) _ _ _ _ _).1
    · simp only [Function.update_of_ne hhome]
      exact ht.atHome
    · have hnode : (hop.land t.held).node = hop.dst t.held := by rw [hland]
      change Away contents (Function.update t.heaps (hop.dst t.held) h (hop.land t.held).node) _
      rw [hnode, Function.update_self]
      exact hrec.away hplain hargs fun i b hb hm j hj ↦ ht.slot_contents hb hm hj

theorem Carried.step (ht : Carried home as contents t) (has : ∀ a ∈ as, a.Plain)
    {e : JourneyEvent} (hok : e.Permitted t) (hreach : e.Reaches t)
    (hs : t.step e = some t') : Carried home as contents t' := by
  cases e with
  | others node h =>
      obtain rfl := Option.some.inj hs
      exact ht.others hok.1 hok.2
  | move hop arriving =>
      have htype : (hop.land t.held).desc.type ≠ .torcNoWork := by
        cases hop with
        | insert roundRobin targetQueue => exact fun h ↦ ht.type ((place_type _ _ _).symm.trans h)
        | enqueue roundRobin targetQueue tag dst mem =>
            exact fun h ↦ MsgType.noConfusion ((receiveEnqueued_type _ _ _).symm.trans h)
        | steal thief vpid mem =>
            have hkeep := receiveStolen_type thief vpid mem (stampReply t.held.node t.held.desc)
            exact fun h ↦ ht.type (hkeep.symm.trans h)
      cases hop with
      | insert roundRobin targetQueue =>
          have hcarry : t.carry (.insert roundRobin targetQueue) arriving = some t' := hs
          exact ht.insert (hok.trans ht.homenode) hcarry
      | enqueue roundRobin targetQueue tag dst mem =>
          exact ht.transfer has
            (Hop.transfer ht.type _ fun _ _ h ↦ Hop.noConfusion h) htype hreach
            hs
      | steal thief vpid mem =>
          exact ht.transfer has
            (Hop.transfer ht.type _ fun _ _ h ↦ Hop.noConfusion h) htype hreach
            hs

/-- Every journey keeps the arguments and their contents. -/
theorem Journey.carried {start t : Traveller} (h : Journey start t)
    (hstart : Carried home as contents start) (has : ∀ a ∈ as, a.Plain) :
    Carried home as contents t := by
  apply h.invariant (Carried home as contents)
  · rintro _ rfl
    exact hstart
  · intro t t' e ht hok hs
    exact ht.step has hok.1 hok.2 hs

end Torc
