import Torc.Lib.Transition

/-!
# The current descriptor

One thread, the descriptors it executes one inside the other, and the value that it has bound to
`currt_key`.  A worker executes by `_torc_execute`; the server executes a task that is sent to it
directly with nothing around `_torc_core_execution`.
-/

namespace Torc.CurrentTask

open Transition

inductive Thread
  | worker (v : Nat)
  | server
  deriving DecidableEq

/-- An execution on the stack of the thread: the descriptor, the variable `me` of `_torc_execute`,
and whether the body has not returned yet. -/
structure Execution where
  desc : Nat
  me : Option Nat
  inBody : Bool
  direct : Bool := false
  deriving DecidableEq

/-- `currt` is null where the thread has bound nothing; `vpId` is the field of all descriptors of
the node. -/
structure State where
  currt : Option Nat
  vpId : Nat → Int
  stack : List Execution := []

inductive Act
  | execute (desc : Nat)
  | direct (desc : Nat)
  | endBody
  | leave
  | write (desc : Nat) (vpId : Int)

/-- Control is in a body or in the code that the thread runs outside all tasks. -/
def inCode (s : State) : Bool :=
  s.stack.head?.all Execution.inBody

/-- `_torc_execute` up to the call of the body; without a current descriptor it reads `vp_id` from a
null pointer. -/
def torcExecute (s : State) (desc : Nat) : Option State :=
  s.currt.map fun me ↦
    { currt := some desc
      vpId := Function.update s.vpId desc (s.vpId me)
      stack := ⟨desc, some me, true, false⟩ :: s.stack }

/-- The branch for direct execution of `process_a_received_descriptor` up to the call of the
body. -/
def directExecution (s : State) (desc : Nat) : State :=
  { s with stack := ⟨desc, none, true, true⟩ :: s.stack }

/-- After `_torc_cleanup` or `send_descriptor`. -/
def leave (s : State) : Option State :=
  match s.stack with
  | ⟨_, me, false, direct⟩ :: rest =>
      some { s with currt := if direct then s.currt else me, stack := rest }
  | _ => none

/-- `own` is the descriptor that `_torc_worker` makes for a worker. -/
def step (thread : Thread) (own : Nat) : Act → State → Option State
  | .execute desc, s => if inCode s then torcExecute s desc else none
  | .direct desc, s =>
      if thread = .server ∧ s.stack = [] then some (directExecution s desc) else none
  | .endBody, s =>
      match s.stack with
      | e :: rest => if e.inBody then some { s with stack := { e with inBody := false } :: rest }
          else none
      | [] => none
  | .leave, s => leave s
  | .write desc x, s =>
      -- other threads use descriptors that are not executed here
      if desc ≠ own ∧ ∀ e ∈ s.stack, e.inBody → e.desc ≠ desc then
        some { s with vpId := Function.update s.vpId desc x }
      else none

/-- A worker starts with its own descriptor, a server with none. -/
def start (vpId : Nat → Int) (own : Nat) : Thread → State
  | .worker v => { currt := some own, vpId := Function.update vpId own v }
  | .server => { currt := none, vpId := vpId }

def system (vpId : Nat → Int) (own : Nat) (thread : Thread) : System State Act where
  init s := s = start vpId own thread
  step := step thread own

/-- In a body `_torc_self()` is its own descriptor, with the id of the worker, and the current
descriptor is the same whenever the thread is at the same point of its executions. -/
structure SelfIsOwn (vpId : Nat → Int) (own : Nat) (thread : Thread) : Prop where
  self : ∀ s, (system vpId own thread).Reachable s → ∀ e ∈ s.stack.head?, e.inBody →
    s.currt = some e.desc ∧ ∀ v : Nat, thread = .worker v → s.vpId e.desc = v
  restored : ∀ s s', (system vpId own thread).Reachable s →
    (system vpId own thread).Reachable s' → s'.stack = s.stack → s'.currt = s.currt

/-! ## Workers -/

variable {own v : Nat} {vpId : Nat → Int} {s s' : State} {stack : List Execution}

/-- The innermost descriptor, or the one of the worker. -/
def innermost (own : Nat) (stack : List Execution) : Nat :=
  (stack.head?.map Execution.desc).getD own

/-- Every `me` is the descriptor around it. -/
def Saved (own : Nat) : List Execution → Prop
  | [] => True
  | e :: rest => e.direct = false ∧ e.me = some (innermost own rest) ∧ Saved own rest

structure Inv (own v : Nat) (s : State) : Prop where
  currt : s.currt = some (innermost own s.stack)
  saved : Saved own s.stack
  ownId : s.vpId own = v
  bodyId : ∀ e ∈ s.stack, e.inBody → s.vpId e.desc = v

theorem Inv.start (vpId : Nat → Int) (own v : Nat) :
    Inv own v (start vpId own (.worker v)) :=
  ⟨rfl, trivial, Function.update_self .., fun _ h ↦ absurd h List.not_mem_nil⟩

/-- Where a thread is in code, its current descriptor has its id. -/
theorem Inv.innermostId (h : Inv own v s) (hcode : inCode s) :
    s.vpId (innermost own s.stack) = v := by
  unfold inCode at hcode
  cases hstack : s.stack with
  | nil => exact h.ownId
  | cons e rest =>
      rw [hstack] at hcode
      exact h.bodyId e (by rw [hstack]; exact List.mem_cons_self) hcode

theorem Inv.torcExecute (h : Inv own v s) (hcode : inCode s) {desc : Nat}
    (hs : torcExecute s desc = some s') : Inv own v s' := by
  have hid : s.vpId (innermost own s.stack) = v := h.innermostId hcode
  simp only [CurrentTask.torcExecute, h.currt, Option.map_some, Option.some.injEq] at hs
  subst hs
  -- the id that is written is the one that is there
  have hsame : ∀ d, s.vpId d = v →
      Function.update s.vpId desc (s.vpId (innermost own s.stack)) d = v := by
    intro d hd
    by_cases hdesc : d = desc
    · rw [hdesc, Function.update_self, hid]
    · rw [Function.update_of_ne hdesc, hd]
  refine ⟨rfl, ⟨rfl, rfl, h.saved⟩, hsame own h.ownId, fun e he hbody ↦ ?_⟩
  rcases List.mem_cons.mp he with rfl | he
  · show Function.update s.vpId desc _ desc = v
    rw [Function.update_self, hid]
  · exact hsame e.desc (h.bodyId e he hbody)

theorem Inv.endBody (h : Inv own v s) {e : Execution} (hstack : s.stack = e :: stack) :
    Inv own v { s with stack := { e with inBody := false } :: stack } := by
  have hsaved := h.saved
  rw [hstack] at hsaved
  refine ⟨?_, hsaved, h.ownId, fun e' he' hbody ↦ ?_⟩
  · rw [h.currt, hstack]
    rfl
  · rcases List.mem_cons.mp he' with rfl | he'
    · cases hbody
    · exact h.bodyId e' (by rw [hstack]; exact List.mem_cons_of_mem _ he') hbody

theorem Inv.leave (h : Inv own v s) (hs : leave s = some s') : Inv own v s' := by
  unfold CurrentTask.leave at hs
  split at hs
  · rename_i desc me direct rest hstack
    have hsaved := h.saved
    rw [hstack] at hsaved
    obtain ⟨hdirect, hme, hrest⟩ := hsaved
    have hdirect' : direct = false := hdirect
    subst hdirect'
    cases hs
    refine ⟨hme, hrest, h.ownId, fun e he ↦ ?_⟩
    exact h.bodyId e (by rw [hstack]; exact List.mem_cons_of_mem _ he)
  · cases hs

theorem Inv.step (h : Inv own v s) {a : Act} (hs : step (.worker v) own a s = some s') :
    Inv own v s' := by
  cases a with
  | execute desc =>
      simp only [CurrentTask.step] at hs
      split at hs
      · rename_i hcode
        exact h.torcExecute hcode hs
      · cases hs
  | direct desc => simp [CurrentTask.step] at hs
  | endBody =>
      simp only [CurrentTask.step] at hs
      split at hs
      · rename_i e rest hstack
        split at hs
        · cases hs
          exact h.endBody hstack
        · cases hs
      · cases hs
  | leave => exact h.leave hs
  | write desc x =>
      simp only [CurrentTask.step, Option.ite_none_right_eq_some, Option.some.injEq] at hs
      obtain ⟨⟨hown, hother⟩, rfl⟩ := hs
      refine ⟨h.currt, h.saved, ?_, fun e he hbody ↦ ?_⟩
      · show Function.update s.vpId desc x own = v
        rw [Function.update_of_ne (Ne.symm hown), h.ownId]
      · show Function.update s.vpId desc x e.desc = v
        rw [Function.update_of_ne (hother e he hbody), h.bodyId e he hbody]

theorem inv_of_reachable (h : (system vpId own (.worker v)).Reachable s) : Inv own v s := by
  refine h.invariant (Inv own v) (fun s hs ↦ ?_) fun _ _ _ hinv _ hs ↦ hinv.step hs
  obtain rfl : s = start vpId own (.worker v) := hs
  exact Inv.start vpId own v

theorem selfIsOwn_worker (vpId : Nat → Int) (own v : Nat) : SelfIsOwn vpId own (.worker v) where
  self s hs e he hbody := by
    have hinv : Inv own v s := inv_of_reachable hs
    obtain ⟨rest, hstack⟩ : ∃ rest, s.stack = e :: rest := List.head?_eq_some_iff.mp he
    refine ⟨?_, fun w hw ↦ ?_⟩
    · rw [hinv.currt, hstack]
      rfl
    · obtain rfl : v = w := Thread.worker.inj hw
      exact hinv.bodyId e (by rw [hstack]; exact List.mem_cons_self) hbody
  restored s s' hs hs' hstack := by
    rw [(inv_of_reachable hs).currt, (inv_of_reachable hs').currt, hstack]

/-- The current descriptor is that of the running body on the workers, and only there. -/
theorem selfIsOwn_iff (vpId : Nat → Int) (own : Nat) (thread : Thread) :
    SelfIsOwn vpId own thread ↔ ∃ v, thread = .worker v := by
  constructor
  · intro h
    cases thread with
    | worker v => exact ⟨v, rfl⟩
    | server =>
        have hreach : (system vpId own .server).Reachable
            (directExecution (start vpId own .server) 0) :=
          .step (a := .direct 0) (.init rfl) trivial rfl
        obtain ⟨hcurrt, -⟩ := h.self _ hreach _ rfl rfl
        cases hcurrt
  · rintro ⟨v, rfl⟩
    exact selfIsOwn_worker vpId own v

/-- While the server executes the descriptor 3, `_torc_self()` is null. -/
theorem not_selfIsOwn_server :
    ∃ s, (system (fun _ ↦ -1) 0 .server).Reachable s ∧
      s.stack = [⟨3, none, true, true⟩] ∧ s.currt = none ∧
      ¬ SelfIsOwn (fun _ ↦ -1) 0 .server := by
  have hreach : (system (fun _ ↦ -1) 0 .server).Reachable
      (directExecution (start (fun _ ↦ -1) 0 .server) 3) :=
    .step (a := .direct 3) (.init rfl) trivial rfl
  refine ⟨_, hreach, rfl, rfl, fun h ↦ ?_⟩
  obtain ⟨hcurrt, -⟩ := h.self _ hreach _ rfl rfl
  cases hcurrt

end Torc.CurrentTask
