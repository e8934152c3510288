import Torc.Comm
import Torc.FunctionTable
import Torc.Lib.ByteHeap

/-!
# Task creation

The six routines of `torc.c` that fill a new descriptor.  They share the header and the two passes
over the arguments; each keeps its own parent, level, `rte_type` and second pass.  `none` is an
`Error`, which aborts the program.
-/

namespace Torc

open LittleEndian

/-- One argument as the caller passes it: quantity, type and call way for the first pass, its
address for the second. -/
structure CArg where
  quantity : Nat
  dtype : MpiDatatype
  callway : CallWay
  ptr : Nat
  deriving DecidableEq, Repr

/-- What a creation routine reads: the node, its function table, the flag set by
`torc_set_invisible` and the caller's own descriptor with its address. -/
structure Creator where
  me : Nat
  table : List Nat
  invisibleFlag : Bool := false
  self : TorcT := {}
  selfAddr : Nat := 0

/-- A filled descriptor, the memory after the private copies were made, and whether the routine
incremented `created[self->vp_id]`. -/
structure Creation where
  desc : TorcT
  heap : ByteHeap
  counted : Bool

/-- The first pass: a `CALL_BY_COP` of several elements becomes a `CALL_BY_COP2`. -/
def declareArgument (c : CArg) : Arg :=
  { quantity := c.quantity
    dtype := c.dtype
    btype := torcMpi2bType c.dtype
    callway := if c.callway = .cop ∧ 1 < c.quantity then .cop2 else c.callway }

/-- The second pass of `torc_createf` and `torc_taskf`. -/
def storeArgument (h : ByteHeap) (ptr : Nat) (a : Arg) : Option (Arg × ByteHeap) :=
  match a.callway with
  | .cop =>
      let size := mpiTypeSize a.dtype
      if size = 4 ∨ size = 8 then
        some ({ a with localarg := intOfBytes (fun j ↦ h.mem (ptr + j)) size }, h)
      else none
  | .cop2 =>
      let bytes := byteCount a.quantity (mpiTypeSize a.dtype)
      some ({ a with localarg := h.brk },
        (h.extend bytes).store h.brk bytes fun j ↦ h.mem (ptr + j))
  | _ => some ({ a with localarg := ptr }, h)

/-- The second pass of the C routines: the address of an empty argument is skipped. -/
def storeArgumentC (h : ByteHeap) (ptr : Nat) (a : Arg) : Option (Arg × ByteHeap) :=
  if a.quantity = 0 then some (a, h) else storeArgument h ptr a

/-- Both passes over the arguments, with `store` as the second. -/
def decodeArguments (store : ByteHeap → Nat → Arg → Option (Arg × ByteHeap)) (h : ByteHeap) :
    List CArg → Option (List Arg × ByteHeap)
  | [] => some ([], h)
  | c :: cs => do
      let (a, h) ← store h c.ptr (declareArgument c)
      let (as, h) ← decodeArguments store h cs
      some (a :: as, h)

/-- The block that every creation routine runs on the descriptor it got from `reuse_q`. -/
def fillHeader (who : Creator) (parent : Option Nat) (level : Int) (rteType : Nat)
    (taskId work narg : Nat) : TorcT :=
  { torcSetWorkRoutine who.table { parent := parent, vpId := -1 } work with
    taskId := taskId
    workId := -1
    narg := narg
    homenode := who.me
    sourcenode := who.me
    targetQueue := -1
    interNode := true
    rteType := rteType
    level := level }

def createWith (store : ByteHeap → Nat → Arg → Option (Arg × ByteHeap)) (who : Creator)
    (parent : Option Nat) (level : Int) (rteType : Nat) (counted : Bool) (taskId work : Nat)
    (h : ByteHeap) (cs : List CArg) : Option Creation :=
  if maxTorcArgs < cs.length then none
  else do
    let (as, h) ← decodeArguments store h cs
    some
      ⟨{ fillHeader who parent level rteType taskId work cs.length with args := as }, h,
        counted⟩

def torcTaskDetached (who : Creator) (taskId work : Nat) (h : ByteHeap) (cs : List CArg) :
    Option Creation :=
  createWith storeArgumentC who none 0 1 false taskId work h cs

def torcTask (who : Creator) (taskId work : Nat) (h : ByteHeap) (cs : List CArg) :
    Option Creation :=
  createWith storeArgumentC who (some who.selfAddr) (who.self.level + 1)
    (if who.invisibleFlag then 2 else 1) (!who.invisibleFlag) taskId work h cs

def torcTaskEx (who : Creator) (invisible : Bool) (taskId work : Nat) (h : ByteHeap)
    (cs : List CArg) : Option Creation :=
  createWith storeArgumentC who (some who.selfAddr) (who.self.level + 1)
    (if invisible then 2 else 1) (!invisible) taskId work h cs

def torcTaskDirect (who : Creator) (taskId work : Nat) (h : ByteHeap) (cs : List CArg) :
    Option Creation :=
  createWith storeArgumentC who (some who.selfAddr) (who.self.level + 1) rteDirect false taskId
    work h cs

def torcCreatef (who : Creator) (taskId work : Nat) (h : ByteHeap) (cs : List CArg) :
    Option Creation :=
  createWith storeArgument who (some who.selfAddr) (who.self.level + 1)
    (if who.invisibleFlag then 2 else 1) (!who.invisibleFlag) taskId work h cs

def torcTaskf (who : Creator) (type : Bool) (taskId work : Nat) (h : ByteHeap) (cs : List CArg) :
    Option Creation :=
  createWith storeArgument who (some who.selfAddr) (who.self.level + 1)
    (if who.invisibleFlag || type then 2 else 1) (!(who.invisibleFlag || type)) taskId work h cs

/-- The creation routines with the flags that only some of them take. -/
inductive Routine
  | task | taskEx (invisible : Bool) | taskDetached | taskDirect | createf | taskf (type : Bool)

def Routine.create :
    Routine → Creator → Nat → Nat → ByteHeap → List CArg → Option Creation
  | .task => torcTask
  | .taskEx invisible => fun who ↦ torcTaskEx who invisible
  | .taskDetached => torcTaskDetached
  | .taskDirect => torcTaskDirect
  | .createf => torcCreatef
  | .taskf type => fun who ↦ torcTaskf who type

/-- The second pass of a routine. -/
def Routine.store : Routine → ByteHeap → Nat → Arg → Option (Arg × ByteHeap)
  | .createf | .taskf _ => storeArgument
  | _ => storeArgumentC

theorem Routine.store_eq (r : Routine) {a : Arg} (hq : 0 < a.quantity) (h : ByteHeap) (ptr : Nat) :
    r.store h ptr a = storeArgument h ptr a := by
  have hc : storeArgumentC h ptr a = storeArgument h ptr a := if_neg (by omega)
  cases r with
  | createf => rfl
  | taskf type => rfl
  | _ => exact hc

/-! ## The second pass -/

theorem storeArgument_cop {h : ByteHeap} {ptr : Nat} {a : Arg} (hcop : a.callway = .cop) :
    storeArgument h ptr a =
      if mpiTypeSize a.dtype = 4 ∨ mpiTypeSize a.dtype = 8 then
        some
          ({ a with localarg := intOfBytes (fun j ↦ h.mem (ptr + j)) (mpiTypeSize a.dtype) }, h)
      else none := by
  simp only [storeArgument, hcop]

theorem storeArgument_cop2 {h : ByteHeap} {ptr : Nat} {a : Arg} (hcop2 : a.callway = .cop2) :
    storeArgument h ptr a = some ({ a with localarg := h.brk },
      (h.extend (byteCount a.quantity (mpiTypeSize a.dtype))).store h.brk
        (byteCount a.quantity (mpiTypeSize a.dtype)) fun j ↦ h.mem (ptr + j)) := by
  simp only [storeArgument, hcop2]

theorem storeArgument_address {h : ByteHeap} {ptr : Nat} {a : Arg} (hcop : a.callway ≠ .cop)
    (hcop2 : a.callway ≠ .cop2) :
    storeArgument h ptr a = some ({ a with localarg := ptr }, h) := by
  unfold storeArgument
  split
  · exact absurd ‹_› hcop
  · exact absurd ‹_› hcop2
  · rfl

/-- Only the slot is stored. -/
theorem storeArgument_fields {h h' : ByteHeap} {ptr : Nat} {a a' : Arg}
    (hs : storeArgument h ptr a = some (a', h')) : ∃ x, a' = { a with localarg := x } := by
  unfold storeArgument at hs
  split at hs
  · dsimp only at hs
    split at hs
    · cases hs
      exact ⟨_, rfl⟩
    · cases hs
  · cases hs
    exact ⟨_, rfl⟩
  · cases hs
    exact ⟨_, rfl⟩

theorem decodeArguments_length {store : ByteHeap → Nat → Arg → Option (Arg × ByteHeap)}
    {h h' : ByteHeap} {cs : List CArg} {as : List Arg}
    (hd : decodeArguments store h cs = some (as, h')) : as.length = cs.length := by
  induction cs generalizing h as with
  | nil =>
      cases hd
      rfl
  | cons c cs ih =>
      simp only [decodeArguments, Option.bind_eq_bind, Option.bind_eq_some_iff] at hd
      obtain ⟨⟨a, h₁⟩, _, ⟨as', h₂⟩, hrest, heq⟩ := hd
      cases heq
      simp only [List.length_cons, ih hrest]

/-- Memory that was allocated is left alone by the second pass. -/
theorem storeArgument_extends {h h' : ByteHeap} {ptr : Nat} {a a' : Arg}
    (hs : storeArgument h ptr a = some (a', h')) : h.Extends h' := by
  unfold storeArgument at hs
  split at hs
  · dsimp only at hs
    split at hs
    · cases hs
      exact .refl h
    · cases hs
  · cases hs
    exact ⟨Nat.le_add_right _ _, fun x hx ↦ ByteHeap.store_mem_outside _ _ (.inl hx)⟩
  · cases hs
    exact .refl h

theorem Routine.store_extends {r : Routine} {h h' : ByteHeap} {ptr : Nat} {a a' : Arg}
    (hs : r.store h ptr a = some (a', h')) : h.Extends h' := by
  by_cases hq : 0 < a.quantity
  · rw [r.store_eq hq] at hs
    exact storeArgument_extends hs
  · have hskip : storeArgumentC h ptr a = some (a, h) := if_pos (by omega)
    cases r with
    | createf => exact storeArgument_extends hs
    | taskf type => exact storeArgument_extends hs
    | _ =>
        cases hskip.symm.trans hs
        exact .refl h

/-- Each argument of the descriptor was stored by an iteration of the second pass. -/
theorem decodeArguments_getElem? {r : Routine} {h h' : ByteHeap} {cs : List CArg} {as : List Arg}
    (hd : decodeArguments r.store h cs = some (as, h')) {i : Nat} {x : CArg}
    (hx : cs[i]? = some x) :
    ∃ a h₁ h₂, as[i]? = some a ∧
    r.store h₁ x.ptr (declareArgument x) = some (a, h₂) := by
  induction cs generalizing h as i with
  | nil => simp at hx
  | cons y cs ih =>
      simp only [decodeArguments, Option.bind_eq_bind, Option.bind_eq_some_iff] at hd
      obtain ⟨⟨a, h₁⟩, hone, ⟨as', h₂⟩, hrest, heq⟩ := hd
      cases heq
      cases i with
      | zero =>
          obtain rfl : y = x := by simpa using hx
          exact ⟨a, h, h₁, rfl, hone⟩
      | succ i => exact ih hrest hx

theorem decodeArguments_extends {r : Routine} {h h' : ByteHeap} {cs : List CArg} {as : List Arg}
    (hd : decodeArguments r.store h cs = some (as, h')) : h.Extends h' := by
  induction cs generalizing h as with
  | nil =>
      cases hd
      exact .refl _
  | cons x cs ih =>
      simp only [decodeArguments, Option.bind_eq_bind, Option.bind_eq_some_iff] at hd
      obtain ⟨⟨a, h₁⟩, hone, ⟨as', h₂⟩, hrest, heq⟩ := hd
      cases heq
      exact (Routine.store_extends hone).trans (ih hrest)

/-- What every creation routine has in common. -/
theorem createWith_some {store : ByteHeap → Nat → Arg → Option (Arg × ByteHeap)}
    {who : Creator}
    {parent : Option Nat} {level : Int} {rteType : Nat} {counted : Bool} {taskId work : Nat}
    {h : ByteHeap} {cs : List CArg} {c : Creation}
    (hc : createWith store who parent level rteType counted taskId work h cs = some c) :
    ∃ as h', decodeArguments store h cs = some (as, h') ∧ cs.length ≤ maxTorcArgs ∧
      c = ⟨{ fillHeader who parent level rteType taskId work cs.length with args := as }, h',
        counted⟩ := by
  unfold createWith at hc
  split at hc
  · cases hc
  · rename_i hlen
    simp only [Option.bind_eq_bind, Option.bind_eq_some_iff, Option.some.injEq] at hc
    obtain ⟨⟨as, h'⟩, hd, heq⟩ := hc
    exact ⟨as, h', hd, by omega, heq.symm⟩

/-- Each routine stores the raw pointer it was given and leaves `work_id` at -1: the index that
`_torc_set_work_routine` found is overwritten. -/
theorem Routine.create_work {r : Routine} {who : Creator} {taskId work : Nat} {h : ByteHeap}
    {cs : List CArg} {c : Creation} (hc : r.create who taskId work h cs = some c) :
    c.desc.work = work ∧ c.desc.workId = -1 ∧ c.desc.homenode = who.me := by
  cases r <;>
    (obtain ⟨as, h', _, _, rfl⟩ := createWith_some hc
     exact ⟨rfl, rfl, rfl⟩)

theorem Routine.create_header {r : Routine} {who : Creator} {taskId work : Nat} {h : ByteHeap}
    {cs : List CArg} {c : Creation} (hc : r.create who taskId work h cs = some c) :
    c.desc.taskId = taskId ∧ c.desc.type = .unset := by
  cases r <;>
    (obtain ⟨as, h', _, _, rfl⟩ := createWith_some hc
     exact ⟨rfl, rfl⟩)

theorem Routine.create_args {r : Routine} {who : Creator} {taskId work : Nat} {h : ByteHeap}
    {cs : List CArg} {c : Creation} (hc : r.create who taskId work h cs = some c) :
    decodeArguments r.store h cs = some (c.desc.args, c.heap) ∧ c.desc.narg = cs.length ∧
      c.desc.liveArgs = c.desc.args := by
  cases r <;>
    (obtain ⟨as, h', hd, _, rfl⟩ := createWith_some hc
     exact ⟨hd, rfl, List.take_of_length_le (decodeArguments_length hd).le⟩)

end Torc
