import Torc.Descriptor

/-!
# The function table

A node's `internode_function_table` is the list of its first `number_of_functions` entries; a
function is the address it is loaded at and `0` is `NULL`.
-/

namespace Torc

/-- `torc_register_task` before `torc_init`. -/
def torcRegisterTask (table : List Nat) (f : Nat) : List Nat :=
  table ++ [f]

def getfuncnum (table : List Nat) (f : Nat) : Int :=
  match table.idxOf? f with
  | some i => i
  | none => -1

def getfuncptr (table : List Nat) (pos : Int) : Nat :=
  if pos < maxTorcTasks then table.getD pos.toNat 0 else 0

def torcSetWorkRoutine (table : List Nat) (desc : TorcT) (work : Nat) : TorcT :=
  { desc with work := work, workId := getfuncnum table work }

/-- The function that `_torc_core_execution` calls on a node with this table. -/
def calledFunction (table : List Nat) (desc : TorcT) : Nat :=
  if 0 ≤ desc.workId then getfuncptr table desc.workId else desc.work

theorem getfuncnum_of_mem {table : List Nat} {f : Nat} (h : f ∈ table) :
    ∃ k : Nat, getfuncnum table f = (k : Int) ∧ table[k]? = some f := by
  cases hi : table.idxOf? f with
  | none => exact absurd h (List.idxOf?_eq_none_iff.mp hi)
  | some k =>
      refine ⟨k, by simp only [getfuncnum, hi], ?_⟩
      obtain ⟨hk, heq, _⟩ := List.idxOf?_eq_some_iff.mp hi
      rw [List.getElem?_eq_getElem hk]
      simpa using heq

end Torc
