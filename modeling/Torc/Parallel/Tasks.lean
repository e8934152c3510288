import Torc.Parallel.Program
import Torc.Waiting.Tasks

/-!
# Tasks that run

What creating, executing and completing tasks does to their counters, results and remaining bodies,
whichever thread does it.  A descriptor is named by its task.
-/

namespace Torc.Parallel

open Transition

/-- Where a body is: at its next statement, in `torc_task` behind the first critical section or
behind `_torc_depadd`, in the loop of `_torc_block`. -/
inductive Ctl
  | running
  | started
  | counted
  | blocked
  deriving DecidableEq

/-- An answer has the result with it. -/
inductive Status (β : Type)
  | unborn
  | ready
  | running
  | answering (result : β)
  | done

def Status.isDone {β : Type} : Status β → Bool
  | .done => true
  | _ => false

/-- The body has begun. -/
def Status.HasBegun {β : Type} : Status β → Prop
  | .unborn | .ready => False
  | .running | .answering _ | .done => True

def Status.HasReturned {β : Type} : Status β → Prop
  | .unborn | .ready | .running => False
  | .answering _ | .done => True

theorem Status.hasReturned_of_isDone {β : Type} {st : Status β} (h : st.isDone = true) :
    st.HasReturned := by
  cases st with
  | done => trivial
  | _ => cases h

theorem Status.HasReturned.hasBegun {β : Type} {st : Status β} (h : st.HasReturned) :
    st.HasBegun := by
  cases st with
  | answering | done => trivial
  | _ => exact h.elim

/-- What the creation of a task stores; `body` is the function with its arguments. -/
structure Desc (β : Type) where
  parent : Option Nat := none
  homenode : Nat := 0
  level : Int := 0
  body : Body β

/-- `code` is what is left of the body and `pending` says whether it has spawned since its last
wait. -/
structure Frame (β : Type) where
  code : Body β
  children : List Nat := []
  pending : Bool := false
  ctl : Ctl := .running

/-- The tasks below `issued` have been created.  `begun k` is the time at which the body of task `k`
began, and `cell k` the variable for its result. -/
structure Tasks (β : Type) where
  issued : Nat
  clock : Nat
  desc : Nat → Desc β
  frame : Nat → Frame β
  ndep : Nat → Int
  status : Nat → Status β
  begun : Nat → Nat
  cell : Nat → Option β

namespace Tasks

variable {β : Type}

/-- Task 0 is the program, whose body has begun. -/
def start (root : Body β) : Tasks β where
  issued := 1
  clock := 1
  desc := fun _ ↦ { body := root }
  frame := fun _ ↦ { code := root }
  ndep := fun _ ↦ 0
  status := fun k ↦ if k = 0 then .running else .unborn
  begun := fun _ ↦ 0
  cell := fun _ ↦ none

/-- The task at a place of the tree of calls. -/
def taskAt (s : Tasks β) : List Nat → Option Nat
  | [] => some 0
  | i :: path => (s.taskAt path).bind fun k ↦ (s.frame k).children[i]?

def setFrame (s : Tasks β) (k : Nat) (f : Frame β) : Tasks β :=
  { s with frame := Function.update s.frame k f }

def setStatus (s : Tasks β) (k : Nat) (st : Status β) : Tasks β :=
  { s with status := Function.update s.status k st }

/-! ## The steps of a body -/

/-- The first critical section of `torc_task`. -/
def startSpawn (s : Tasks β) (k : Nat) : Tasks β :=
  { s.setFrame k { s.frame k with pending := true, ctl := .started } with
    ndep := Waiting.startSpawn s.ndep k }

/-- `_torc_depadd`. -/
def countChild (s : Tasks β) (k : Nat) : Tasks β :=
  { s.setFrame k { s.frame k with ctl := .counted } with
    ndep := Waiting.torcDepadd s.ndep k 1 }

/-- The rest of `torc_task` on node `me`, up to the insertion into a queue. -/
def createChild (s : Tasks β) (k me : Nat) (child rest : Body β) : Tasks β :=
  let f := s.frame k
  { s with
    issued := s.issued + 1
    desc := Function.update s.desc s.issued
      { parent := some k, homenode := me, level := (s.desc k).level + 1, body := child }
    frame := Function.update
      (Function.update s.frame k
        { f with code := rest, children := f.children ++ [s.issued], ctl := .running })
      s.issued { code := child }
    -- the new descriptor is cleared
    ndep := Function.update s.ndep s.issued 0
    status := Function.update s.status s.issued .ready }

/-- The critical section at the start of `_torc_block`. -/
def beginWait (s : Tasks β) (k : Nat) : Tasks β :=
  -- the new task is the latest child, and its own frame is empty
  { s.setFrame k { s.frame k with pending := false, ctl := .blocked } with
    ndep := ForkJoin.beginWait s.ndep k }

/-- `_torc_block` returns, and the body reads the variables of its children. -/
def endWait (s : Tasks β) (k : Nat) (rest : List (Option β) → Body β) : Tasks β :=
  let f := s.frame k
  s.setFrame k { f with code := rest (f.children.map s.cell), ctl := .running }

/-! ## Execution and completion -/

/-- The body begins. -/
def execute (s : Tasks β) (k : Nat) : Tasks β :=
  { s.setStatus k .running with
    clock := s.clock + 1
    begun := Function.update s.begun k s.clock }

/-- The body returns away from its home node. -/
def answer (s : Tasks β) (k : Nat) (result : β) : Tasks β :=
  s.setStatus k (.answering result)

/-- The result is in its variable and the parent is satisfied. -/
def complete (s : Tasks β) (k : Nat) (result : β) : Tasks β :=
  { s.setStatus k .done with
    cell := Function.update s.cell k (some result)
    ndep := ForkJoin.depsatisfy s.ndep (s.desc k).parent }

/-- The body of task `k`, on node `me`, makes its next step. -/
def bodyStep (s : Tasks β) (k me : Nat) : Option (Tasks β) :=
  match (s.frame k).ctl, (s.frame k).code with
  | .running, .spawn _ _ _ => some (s.startSpawn k)
  | .started, _ => some (s.countChild k)
  | .counted, .spawn _ child rest => some (s.createChild k me child rest)
  | .running, .waitall _ => some (s.beginWait k)
  -- the counter has been lowered by one at the start of the wait
  | .blocked, .waitall rest => if s.ndep k ≤ 0 then some (s.endWait k rest) else none
  | .running, .ret result =>
      some (if (s.desc k).homenode = me then s.complete k result else s.answer k result)
  | _, _ => none

inductive Act
  | body (k me : Nat)
  | execute (k : Nat)
  | complete (k : Nat)

def step (s : Tasks β) : Act → Option (Tasks β)
  | .body k me =>
      match s.status k with
      | .running => s.bodyStep k me
      | _ => none
  | .execute k =>
      match s.status k with
      | .ready => some (s.execute k)
      | _ => none
  | .complete k =>
      match s.status k with
      | .answering result => some (s.complete k result)
      | _ => none

/-- Tasks executed in any order, each thread at its own pace. -/
def system (root : Body β) : System (Tasks β) Act where
  init s := s = start root
  step a s := step s a

variable {s s' : Tasks β} {k me : Nat}

/-- What a step of a body can be. -/
inductive BodyStep (s : Tasks β) (k me : Nat) : Tasks β → Prop
  | startSpawn {queue : Option Nat} {child rest : Body β} (hctl : (s.frame k).ctl = .running)
      (hcode : (s.frame k).code = .spawn queue child rest) : BodyStep s k me (s.startSpawn k)
  | countChild (hctl : (s.frame k).ctl = .started) : BodyStep s k me (s.countChild k)
  | createChild {queue : Option Nat} {child rest : Body β} (hctl : (s.frame k).ctl = .counted)
      (hcode : (s.frame k).code = .spawn queue child rest) :
      BodyStep s k me (s.createChild k me child rest)
  | beginWait {rest : List (Option β) → Body β} (hctl : (s.frame k).ctl = .running)
      (hcode : (s.frame k).code = .waitall rest) : BodyStep s k me (s.beginWait k)
  | endWait {rest : List (Option β) → Body β} (hctl : (s.frame k).ctl = .blocked)
      (hcode : (s.frame k).code = .waitall rest) (hndep : s.ndep k ≤ 0) :
      BodyStep s k me (s.endWait k rest)
  | complete {result : β} (hctl : (s.frame k).ctl = .running)
      (hcode : (s.frame k).code = .ret result) (hhome : (s.desc k).homenode = me) :
      BodyStep s k me (s.complete k result)
  | answer {result : β} (hctl : (s.frame k).ctl = .running)
      (hcode : (s.frame k).code = .ret result) (hhome : (s.desc k).homenode ≠ me) :
      BodyStep s k me (s.answer k result)

theorem bodyStep_cases (h : s.bodyStep k me = some s') : BodyStep s k me s' := by
  unfold bodyStep at h
  split at h
  case h_1 hctl hcode =>
    cases h
    exact .startSpawn hctl hcode
  case h_2 _ hctl =>
    cases h
    exact .countChild hctl
  case h_3 hctl hcode =>
    cases h
    exact .createChild hctl hcode
  case h_4 hctl hcode =>
    cases h
    exact .beginWait hctl hcode
  case h_5 hctl hcode =>
    split at h
    case isTrue hndep =>
      cases h
      exact .endWait hctl hcode hndep
    case isFalse => cases h
  case h_6 hctl hcode =>
    cases h
    split
    case isTrue hhome => exact .complete hctl hcode hhome
    case isFalse hhome => exact .answer hctl hcode hhome
  case h_7 => cases h

/-- What a step can be. -/
inductive Step (s : Tasks β) : Tasks β → Prop
  | body {k me : Nat} {s' : Tasks β} (hk : s.status k = .running) (h : BodyStep s k me s') :
      Step s s'
  | execute {k : Nat} (hk : s.status k = .ready) : Step s (s.execute k)
  | complete {k : Nat} {result : β} (hk : s.status k = .answering result) :
      Step s (s.complete k result)

theorem step_cases {a : Act} (h : s.step a = some s') : Step s s' := by
  cases a with
  | body k me =>
      simp only [step] at h
      split at h
      case h_1 hk => exact .body hk (bodyStep_cases h)
      case h_2 => cases h
  | execute k =>
      simp only [step] at h
      split at h
      case h_1 hk =>
        cases h
        exact .execute hk
      case h_2 => cases h
  | complete k =>
      simp only [step] at h
      split at h
      case h_1 hk =>
        cases h
        exact .complete hk
      case h_2 => cases h

theorem BodyStep.bodyStep_eq (h : BodyStep s k me s') : s.bodyStep k me = some s' := by
  cases h with
  | startSpawn hctl hcode | createChild hctl hcode | beginWait hctl hcode =>
      simp only [bodyStep, hctl, hcode]
  | countChild hctl => simp only [bodyStep, hctl]
  | endWait hctl hcode hndep => simp only [bodyStep, hctl, hcode, if_pos hndep]
  | complete hctl hcode hhome => simp only [bodyStep, hctl, hcode, if_pos hhome]
  | answer hctl hcode hhome => simp only [bodyStep, hctl, hcode, if_neg hhome]

theorem Step.exists_act (h : Step s s') : ∃ a, s.step a = some s' := by
  cases h with
  | @body k me s' hk hbody =>
      refine ⟨.body k me, ?_⟩
      simp only [step, hk]
      exact hbody.bodyStep_eq
  | @execute k hk =>
      refine ⟨.execute k, ?_⟩
      simp only [step, hk]
  | @complete k result hk =>
      refine ⟨.complete k, ?_⟩
      simp only [step, hk]

/-- A task that is done stays so. -/
theorem Step.isDone (h : Step s s') {j : Nat} (hj : (s.status j).isDone = true)
    (hlt : j < s.issued) : (s'.status j).isDone = true := by
  -- a task that is done is at no other stage
  have hne : ∀ {k : Nat} {st : Status β}, s.status k = st → st.isDone = false → j ≠ k := by
    rintro k st rfl hk rfl
    rw [hk] at hj
    cases hj
  have hdone : ∀ k result, ((s.complete k result).status j).isDone = true := by
    intro k result
    by_cases hjk : j = k
    · subst hjk
      simp [Tasks.complete, setStatus, Status.isDone]
    · simpa [Tasks.complete, setStatus, Function.update_of_ne hjk] using hj
  cases h with
  | @body k me s' hk hbody =>
      cases hbody with
      | startSpawn | countChild | beginWait | endWait => exact hj
      | createChild => simpa [Tasks.createChild, Function.update_of_ne hlt.ne] using hj
      | complete => exact hdone k _
      | answer => simpa [Tasks.answer, setStatus, Function.update_of_ne (hne hk rfl)] using hj
  | @execute k hk => simpa [Tasks.execute, setStatus, Function.update_of_ne (hne hk rfl)] using hj
  | @complete k result hk => exact hdone k result

end Tasks

end Torc.Parallel
