import Torc.Comm
import Mathlib.Data.List.Range

/-!
# Calling the body

The array `args` that `_torc_core_execution` fills and the entries of it that its macros pass on.
-/

namespace Torc

/-- An entry of `args`: the address of a slot of the descriptor, `localarg` on the home node and
`temparg` elsewhere, or the address that the slot holds. -/
inductive Pointer
  | slot (i : Nat)
  | addr (a : Int)
  deriving DecidableEq

/-- The slot of an argument that a node uses. -/
def Arg.slot (home : Bool) (a : Arg) : Int :=
  if home then a.localarg else a.temparg

/-- What is passed by address is sent from the slot that the sending node uses. -/
theorem sendArgument_address {a : Arg} (hq : a.quantity ≠ 0)
    (haddr : a.callway = .ref ∨ a.callway = .ptr ∨ a.callway = .cop2)
    (node tag homenode sourcenode i : Nat) :
    sendArgument node tag homenode sourcenode i a =
      [.isend node tag ⟨i, .addr (a.slot (homenode = sourcenode)), a.quantity, a.dtype⟩] := by
  have hval : ¬(a.callway = .cop ∨ a.callway = .vad) := by
    rcases haddr with h | h | h <;> simp [h]
  rw [sendArgument, if_neg hq, if_neg hval, if_pos haddr]
  by_cases hs : homenode = sourcenode
  · rw [if_neg fun h ↦ h hs, decide_eq_true hs]
    rfl
  · rw [if_pos hs, decide_eq_false hs]
    rfl

def coreArgument (home : Bool) (i : Nat) (a : Arg) : Pointer :=
  if a.callway = .cop then .slot i else .addr (a.slot home)

/-- The loops of `_torc_core_execution` on node `me`. -/
def coreArguments (me : Nat) (desc : TorcT) : List Pointer :=
  desc.liveArgs.zipIdx.map fun (a, i) ↦ coreArgument (me = desc.homenode) i a

/-- The indexes that the macros `A0` to `A23` list; none is the `Error` of the default case. -/
def macroArguments (narg : Nat) : Option (List Nat) :=
  if narg ≤ 17 then some (List.range narg)
  else
    match narg with
    | 18 => some (List.range 17 ++ [18])
    | 19 => some (List.range 15 ++ [19])
    | 20 => some (List.range 16 ++ [20])
    | 21 => some (List.range 17 ++ [21])
    | 22 => some (List.range 16 ++ [22])
    | 23 => some (List.range 17 ++ [23])
    | _ => none

/-- What the body is called with; an entry is none where `args` was not filled. -/
def callArguments (me : Nat) (desc : TorcT) : Option (List (Option Pointer)) :=
  (macroArguments desc.narg).map fun is ↦ is.map fun i ↦ (coreArguments me desc)[i]?

/-- Up to 17 arguments reach the body as they are. -/
theorem callArguments_eq {desc : TorcT} (hnarg : desc.narg ≤ 17)
    (hlen : desc.narg ≤ desc.args.length) (me : Nat) :
    callArguments me desc = some ((coreArguments me desc).map some) := by
  have hl : (coreArguments me desc).length = desc.narg := by
    simp [coreArguments, TorcT.liveArgs, hlen]
  unfold callArguments macroArguments
  rw [if_pos hnarg, Option.map_some]
  congr 1
  apply List.ext_getElem?
  intro i
  rw [List.getElem?_map, List.getElem?_map]
  by_cases hi : i < desc.narg
  · rw [List.getElem?_range hi, List.getElem?_eq_getElem (hl ▸ hi)]
    simp [List.getElem?_eq_getElem (hl ▸ hi : i < (coreArguments me desc).length)]
  · rw [List.getElem?_eq_none (by simpa using hi), List.getElem?_eq_none (by omega)]
    rfl

end Torc
