import Torc.Comm

/-!
# Routes

A created descriptor is inserted on its own node or sent to another, and from a public queue it may
be stolen any number of times.  Each move is the composition of the sender's and the receiver's
routine; a route is a list of moves.
-/

namespace Torc

/-- A descriptor and the node that holds it. -/
structure Held where
  node : Nat
  desc : TorcT

/-- `read_arguments`. -/
def readArguments (desc : TorcT) : TorcT :=
  { desc with
    args := desc.liveArgs.map (fun a ↦ { a with temparg := a.localarg }) ++
      desc.args.drop desc.narg }

/-- The fields that `torc_to_lrq_end` sets on a cluster of several nodes. -/
def torcToLrqEnd (targetQueue : Int) (desc : TorcT) : TorcT :=
  { desc with targetQueue := targetQueue, interNode := true }

/-- The fields that `torc_to_rq_end` sets on a cluster of several nodes. -/
def torcToRqEnd (targetQueue : Int) (desc : TorcT) : TorcT :=
  { desc with targetQueue := targetQueue, interNode := true, insertPrivate := false }

/-- `torc_to_rq_end` for the queue -1 of a creation routine and `torc_to_lrq_end` for a worker. -/
def place (roundRobin : Bool) (targetQueue : Int) (desc : TorcT) : TorcT :=
  if roundRobin then torcToRqEnd targetQueue desc else torcToLrqEnd targetQueue desc

/-- A move of a descriptor: into a queue of the node that holds it, to another node by
`TORC_NORMAL_ENQUEUE`, or to the thief of a steal.  `mem` gives the addresses that `calloc` returns
on the receiving node. -/
inductive Hop
  | insert (roundRobin : Bool) (targetQueue : Int)
  | enqueue (roundRobin : Bool) (targetQueue : Int) (tag dst : Nat) (mem : Nat → Int)
  | steal (thief vpid : Nat) (mem : Nat → Int)

def Hop.land (held : Held) : Hop → Held
  | .insert roundRobin targetQueue =>
      ⟨held.node, readArguments (place roundRobin targetQueue held.desc)⟩
  | .enqueue roundRobin targetQueue tag dst mem =>
      ⟨dst, (receiveEnqueued dst mem
        (stampSource held.node tag (place roundRobin targetQueue held.desc)
          .torcNormalEnqueue)).1⟩
  | .steal thief vpid mem =>
      ⟨thief, (receiveStolen thief vpid mem (stampReply held.node held.desc)).1⟩

def travel (held : Held) (hops : List Hop) : Held :=
  hops.foldl Hop.land held

/-- The fields that no routine between creation and execution touches. -/
structure SameTask (desc desc' : TorcT) : Prop where
  taskId : desc'.taskId = desc.taskId
  parent : desc'.parent = desc.parent
  work : desc'.work = desc.work
  workId : desc'.workId = desc.workId
  narg : desc'.narg = desc.narg
  homenode : desc'.homenode = desc.homenode
  rteType : desc'.rteType = desc.rteType
  level : desc'.level = desc.level

theorem SameTask.refl (desc : TorcT) : SameTask desc desc :=
  ⟨rfl, rfl, rfl, rfl, rfl, rfl, rfl, rfl⟩

theorem SameTask.trans {d₁ d₂ d₃ : TorcT} (h : SameTask d₁ d₂) (h' : SameTask d₂ d₃) :
    SameTask d₁ d₃ where
  taskId := h'.taskId.trans h.taskId
  parent := h'.parent.trans h.parent
  work := h'.work.trans h.work
  workId := h'.workId.trans h.workId
  narg := h'.narg.trans h.narg
  homenode := h'.homenode.trans h.homenode
  rteType := h'.rteType.trans h.rteType
  level := h'.level.trans h.level

theorem place_same (roundRobin : Bool) (targetQueue : Int) (desc : TorcT) :
    SameTask desc (place roundRobin targetQueue desc) := by
  cases roundRobin <;> exact ⟨rfl, rfl, rfl, rfl, rfl, rfl, rfl, rfl⟩

theorem receiveEnqueued_same (me : Nat) (mem : Nat → Int) (desc : TorcT) :
    SameTask desc (receiveEnqueued me mem desc).1 := by
  unfold receiveEnqueued
  split
  · exact .refl desc
  · exact ⟨rfl, rfl, rfl, rfl, rfl, rfl, rfl, rfl⟩

theorem receiveStolen_same (me vpid : Nat) (mem : Nat → Int) (desc : TorcT) :
    SameTask desc (receiveStolen me vpid mem desc).1 := by
  unfold receiveStolen
  split
  · exact .refl desc
  · split
    · exact ⟨rfl, rfl, rfl, rfl, rfl, rfl, rfl, rfl⟩
    · exact .refl desc

theorem place_type (roundRobin : Bool) (targetQueue : Int) (desc : TorcT) :
    (place roundRobin targetQueue desc).type = desc.type := by
  cases roundRobin <;> rfl

theorem receiveEnqueued_type (me : Nat) (mem : Nat → Int) (desc : TorcT) :
    (receiveEnqueued me mem desc).1.type = desc.type := by
  unfold receiveEnqueued
  split <;> rfl

theorem receiveStolen_type (me vpid : Nat) (mem : Nat → Int) (desc : TorcT) :
    (receiveStolen me vpid mem desc).1.type = desc.type := by
  unfold receiveStolen
  split
  · rfl
  · split <;> rfl

theorem Hop.land_same (held : Held) (hop : Hop) : SameTask held.desc (hop.land held).desc := by
  cases hop with
  | insert roundRobin targetQueue =>
      exact (place_same roundRobin targetQueue held.desc).trans
        ⟨rfl, rfl, rfl, rfl, rfl, rfl, rfl, rfl⟩
  | enqueue roundRobin targetQueue tag dst mem =>
      have hstamp : SameTask (place roundRobin targetQueue held.desc)
          (stampSource held.node tag (place roundRobin targetQueue held.desc)
            .torcNormalEnqueue) := ⟨rfl, rfl, rfl, rfl, rfl, rfl, rfl, rfl⟩
      exact ((place_same roundRobin targetQueue held.desc).trans hstamp).trans
        (receiveEnqueued_same dst mem _)
  | steal thief vpid mem =>
      have hstamp : SameTask held.desc (stampReply held.node held.desc) :=
        ⟨rfl, rfl, rfl, rfl, rfl, rfl, rfl, rfl⟩
      exact hstamp.trans (receiveStolen_same thief vpid mem _)

theorem travel_same (held : Held) (hops : List Hop) :
    SameTask held.desc (travel held hops).desc := by
  induction hops generalizing held with
  | nil => exact .refl held.desc
  | cons hop hops ih => exact (hop.land_same held).trans (ih (hop.land held))

end Torc
