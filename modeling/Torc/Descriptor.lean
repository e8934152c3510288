import Mathlib.Logic.Basic

/-!
# Task descriptors

The constants as `configure` passes them by default (the 128 in `torc_internal.h` is for a build
without it), the call ways of `torc.h` and the descriptor `torc_t` that creation fills, the ready
queues hold and the nodes send to each other.
-/

namespace Torc

def maxNvps : Nat := 64
def maxNodes : Nat := 1024
def maxTorcArgs : Nat := 24
def maxTorcTasks : Nat := 64

/-- `CALL_BY_COP` (also `CALL_BY_VAL`), `CALL_BY_REF`, `CALL_BY_RES`, `CALL_BY_PTR`,
`CALL_BY_COP2` and `CALL_BY_VAD`. -/
inductive CallWay
  | cop | ref | res | ptr | cop2 | vad
  deriving DecidableEq, Repr

/-- The `type` field of a descriptor; `unset` is the zero that `memset` leaves there. -/
inductive MsgType
  | unset
  | terminateLocalServerThread
  | terminateWorkerThreads
  | directSynchronousStealingRequest
  | disableInternodeStealing
  | enableInternodeStealing
  | resetStatistics
  | torcNormal
  | torcAnswer
  | torcNormalEnqueue
  | torcNoWork
  | torcBcast
  deriving DecidableEq, Repr

/-- The portable types `T_MPI_*` that `_torc_mpi2b_type` supports. -/
inductive BType
  | char | int | long | longLong | unsigned | unsignedLong | unsignedLongLong
  | float | double | longDouble | real | doublePrecision | integer | character
  deriving DecidableEq, Repr

/-- `MPI_Type_size` of the supported types on an LP64 machine. -/
def BType.size : BType → Nat
  | .char | .character => 1
  | .int | .unsigned | .float | .real | .integer => 4
  | .long | .longLong | .unsignedLong | .unsignedLongLong | .double | .doublePrecision => 8
  | .longDouble => 16

/-- An `MPI_Datatype` handle: a value that process `owner` uses for the type `ty`. -/
structure MpiDatatype where
  owner : Nat
  ty : BType
  deriving DecidableEq, Repr

def mpiTypeSize (dtype : MpiDatatype) : Nat :=
  dtype.ty.size

/-- `_torc_mpi2b_type`: one-to-one from handles to portable types. -/
def torcMpi2bType (dtype : MpiDatatype) : BType :=
  dtype.ty

/-- `_torc_b2mpi_type` as executed on node `me`. -/
def torcB2mpiType (me : Nat) (btype : BType) : MpiDatatype :=
  ⟨me, btype⟩

/-- The entries of the argument arrays at one index.  The slots `localarg` and `temparg` are
`INT64`: an address or, for `CALL_BY_COP`, the value itself. -/
structure Arg where
  quantity : Nat
  dtype : MpiDatatype
  btype : BType
  callway : CallWay
  localarg : Int := 0
  temparg : Int := 0
  deriving DecidableEq, Repr

/-- `torc_t`, less its lock and queue links.  `args` lists the entries of the argument arrays that
were written; the loops of the runtime visit the first `narg` of them.  `taskId` is not in the
source: it names the task (or control message) a descriptor was filled for. -/
structure TorcT where
  taskId : Nat := 0
  parent : Option Nat := none
  vpId : Int := 0
  work : Nat := 0
  workId : Int := 0
  narg : Nat := 0
  ndep : Int := 0
  homenode : Nat := 0
  sourcenode : Nat := 0
  sourcevpid : Nat := 0
  targetQueue : Int := 0
  interNode : Bool := false
  insertInFront : Bool := false
  insertPrivate : Bool := false
  rteType : Nat := 0
  type : MsgType := .unset
  level : Int := 0
  args : List Arg := []
  deriving DecidableEq, Repr

/-- The arguments that the loops `for (int i = 0; i < desc->narg; i++)` visit. -/
def TorcT.liveArgs (desc : TorcT) : List Arg :=
  desc.args.take desc.narg

/-- The value of `rte_type` that makes the receiving server execute a task itself. -/
def rteDirect : Nat := 20

end Torc
