import Torc.Numbering

/-!
# Fork-join programs with results

A task body spawns children with `torc_task`, each with a variable of its own for the result, and
reads these variables behind `torc_waitall`.  The serial meaning of a body runs every child to its
end where it is spawned.
-/

namespace Torc.Parallel

/-- The queue argument -1 of `torc_task` is none.  What follows a `torc_waitall` gets the variables
of all children so far, in the order of the calls; none is a variable that nobody has written. -/
inductive Body (β : Type)
  | ret (result : β)
  | spawn (queue : Option Nat) (child rest : Body β)
  | waitall (rest : List (Option β) → Body β)

namespace Body

variable {β : Type}

/-- The result of the serial run, with the variables of the children before. -/
def eval : Body β → List (Option β) → β
  | .ret result, _ => result
  | .spawn _ child rest, vars => rest.eval (vars ++ [some (child.eval [])])
  | .waitall rest, vars => (rest vars).eval vars

/-- The tasks that the serial run creates. -/
def spawned : Body β → List (Option β) → Nat
  | .ret _, _ => 0
  | .spawn _ child rest, vars =>
      (1 + child.spawned []) + rest.spawned (vars ++ [some (child.eval [])])
  | .waitall rest, vars => (rest vars).spawned vars

/-- The bodies of the children that the serial run creates, in the order of the calls. -/
def children : Body β → List (Option β) → List (Body β)
  | .ret _, _ => []
  | .spawn _ child rest, vars => child :: rest.children (vars ++ [some (child.eval [])])
  | .waitall rest, vars => (rest vars).children vars

/-- The body of a task of the serial run: `i :: path` names child number `i` of the task named by
`path`. -/
def taskAt (root : Body β) : List Nat → Option (Body β)
  | [] => some root
  | i :: path => (root.taskAt path).bind fun body ↦ (body.children [])[i]?

/-- The steps of the serial run: two for a return with its answer, two for a wait, and for a child
the three of `torc_task` and the start of its body. -/
def work : Body β → List (Option β) → Nat
  | .ret _, _ => 2
  | .spawn _ child rest, vars =>
      3 + (1 + child.work []) + rest.work (vars ++ [some (child.eval [])])
  | .waitall rest, vars => 2 + (rest vars).work vars

/-- Every body of the tree waits between its last spawn and its return; `pending` says whether this
one has spawned since its last wait. -/
def Joins : Bool → Body β → Prop
  | pending, .ret _ => pending = false
  | _, .spawn _ child rest => child.Joins false ∧ rest.Joins true
  | _, .waitall rest => ∀ vars, (rest vars).Joins false

/-- Every queue argument is -1 or the id of one of `total` workers. -/
def Aims (total : Nat) : Body β → Prop
  | .ret _ => True
  | .spawn queue child rest => (∀ g ∈ queue, g < total) ∧ child.Aims total ∧ rest.Aims total
  | .waitall rest => ∀ vars, (rest vars).Aims total

end Body

/-- A program for the cluster with these worker counts. -/
structure Program (β : Type) (workers : List Nat) where
  body : Body β
  joins : body.Joins false
  aims : body.Aims (torcTotalNumThreads workers)

end Torc.Parallel
