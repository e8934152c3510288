import Torc.Startup.Machine

/-!
# The steps of the initialisation

Most steps change one node only.
-/

namespace Torc.Startup

open Transition

variable {threadSafe : Bool} {workers : List Nat} {s s' : State} {nd nd' : Node} {n k i v : Nat}

@[simp]
theorem State.node_setNode_self (s : State) (i : Nat) (nd : Node) :
    (s.setNode i nd).node i = nd := by
  simp [State.setNode]

theorem State.node_setNode_of_ne {j : Nat} (h : j ≠ i) : (s.setNode i nd).node j = s.node j := by
  simp [State.setNode, h]

/-! ## Places in the code -/

/-- The number of steps behind worker 0, less those of its loops. -/
def MainCtl.stage : MainCtl → Nat
  | .rqInit => 0
  | .startServer => 1
  | .startWorker _ => 2
  | .enterCs .gather => 3
  | .call .allgather => 4
  | .inside .allgather => 5
  | .call .barrier => 6
  | .inside .barrier => 7
  | .leaveCs .gather => 8
  | .fill _ => 9
  | .enterCs .synchronize => 10
  | .call .synchronize => 11
  | .inside .synchronize => 12
  | .leaveCs .synchronize => 13
  | .count => 14
  | .wait => 15
  | .enterCs .ready => 16
  | .call .ready => 17
  | .inside .ready => 18
  | .leaveCs .ready => 19
  | .loop => 20

/-- Between `enter_comm_cs` and `leave_comm_cs`. -/
def MainCtl.InSection : MainCtl → Prop
  | .call _ | .inside _ | .leaveCs _ => True
  | _ => False

/-- The collective operations that have been started. -/
def MainCtl.started (ctl : MainCtl) : Nat :=
  if ctl.stage ≤ 4 then 0
  else if ctl.stage ≤ 6 then 1
  else if ctl.stage ≤ 11 then 2
  else if ctl.stage ≤ 17 then 3
  else 4

/-- Those that have been completed. -/
def MainCtl.left (ctl : MainCtl) : Nat :=
  if ctl.stage ≤ 5 then 0
  else if ctl.stage ≤ 7 then 1
  else if ctl.stage ≤ 12 then 2
  else if ctl.stage ≤ 18 then 3
  else 4

/-! ## Steps -/

/-- A step of a thread of a node with `k` workers, one of `n` nodes, that is not part of a
collective operation. -/
inductive Local (threadSafe : Bool) (n k : Nat) (nd : Node) : Node → Prop
  | rqInit (h : nd.main = .rqInit) : Local threadSafe n k nd { nd with main := .startServer }
  | startServer (h : nd.main = .startServer) : Local threadSafe n k nd { nd with
      server := if 1 < n then .polling else nd.server
      main := .startWorker 1 }
  | startWorker {v : Nat} (h : nd.main = .startWorker v) (hv : v < k) : Local threadSafe n k nd
      { nd with worker := Function.update nd.worker v .count, main := .startWorker (v + 1) }
  | workersStarted {v : Nat} (h : nd.main = .startWorker v) (hv : k ≤ v) :
      Local threadSafe n k nd { nd with main := .enterCs .gather }
  | enterSafe {sec : Section} (h : nd.main = .enterCs sec) (hsafe : threadSafe = true) :
      Local threadSafe n k nd { nd with main := .call sec.first }
  | enter {sec : Section} (h : nd.main = .enterCs sec) (hsafe : threadSafe = false)
      (hfree : nd.commM = false) :
      Local threadSafe n k nd { nd with commM := true, main := .call sec.first }
  | leave {sec : Section} (h : nd.main = .leaveCs sec) : Local threadSafe n k nd
      { nd with commM := nd.commM && threadSafe, main := sec.after }
  | fill {j : Nat} (h : nd.main = .fill j) (hj : j < n) : Local threadSafe n k nd { nd with
      nodeInfo := Function.update nd.nodeInfo j (nd.gathered j)
      main := .fill (j + 1) }
  | filled {j : Nat} (h : nd.main = .fill j) (hj : n ≤ j) :
      Local threadSafe n k nd { nd with main := .enterCs .synchronize }
  | count (h : nd.main = .count) : Local threadSafe n k nd
      { nd with createdWorkers := nd.createdWorkers + 1, main := .wait }
  | waited (h : nd.main = .wait) (hk : k ≤ nd.createdWorkers) :
      Local threadSafe n k nd { nd with main := .enterCs .ready }
  | workerCount {v : Nat} (h : nd.worker v = .count) : Local threadSafe n k nd { nd with
      createdWorkers := nd.createdWorkers + 1
      worker := Function.update nd.worker v .wait }
  | workerLoop {v : Nat} (h : nd.worker v = .wait) (hk : k ≤ nd.createdWorkers) :
      Local threadSafe n k nd { nd with worker := Function.update nd.worker v .loop }
  | poll (h : nd.server = .polling) (hsafe : threadSafe = false) (hfree : nd.commM = false) :
      Local threadSafe n k nd { nd with commM := true, server := .holding }
  | polled (h : nd.server = .holding) :
      Local threadSafe n k nd { nd with commM := false, server := .polling }

inductive Step (threadSafe : Bool) (workers : List Nat) (s : State) : State → Prop
  | same : Step threadSafe workers s s
  | node {i : Nat} {nd : Node} (hi : i < workers.length)
      (h : Local threadSafe workers.length (workers.getD i 0) (s.node i) nd) :
      Step threadSafe workers s (s.setNode i nd)
  | call {i : Nat} {c : Call} (hi : i < workers.length) (h : (s.node i).main = .call c) :
      Step threadSafe workers s ((s.setMain i (.inside c)).start i c
        (if c = .allgather then workers.getD i 0 else s.sent i))
  | complete {i : Nat} {c : Call} (hi : i < workers.length) (h : (s.node i).main = .inside c)
      (hall : Complete workers s i) :
      Step threadSafe workers s (s.setNode i { s.node i with
        gathered := if c = .allgather then s.sent else (s.node i).gathered
        main := c.after })

theorem mainStep_cases (hi : i < workers.length) (h : mainStep threadSafe workers s i = some s') :
    Step threadSafe workers s s' := by
  unfold mainStep at h
  cases hctl : (s.node i).main <;> simp only [hctl] at h
  case rqInit =>
    cases h
    exact .node hi (.rqInit hctl)
  case startServer =>
    cases h
    exact .node hi (.startServer hctl)
  case startWorker v =>
    split at h
    case isTrue hv =>
      cases h
      exact .node hi (.startWorker hctl hv)
    case isFalse hv =>
      cases h
      exact .node hi (.workersStarted hctl (Nat.le_of_not_lt hv))
  case enterCs sec =>
    split at h
    case isTrue hsafe =>
      cases h
      exact .node hi (.enterSafe hctl hsafe)
    case isFalse hsafe =>
      split at h
      case isTrue => cases h
      case isFalse hfree =>
        cases h
        exact .node hi (.enter hctl (Bool.eq_false_iff.mpr hsafe) (Bool.eq_false_iff.mpr hfree))
  case call c =>
    cases h
    exact .call hi hctl
  case inside c =>
    split at h
    case isTrue hall =>
      cases h
      exact .complete hi hctl hall
    case isFalse => cases h
  case leaveCs sec =>
    cases h
    exact .node hi (.leave hctl)
  case fill j =>
    split at h
    case isTrue hj =>
      cases h
      exact .node hi (.fill hctl hj)
    case isFalse hj =>
      cases h
      exact .node hi (.filled hctl (Nat.le_of_not_lt hj))
  case count =>
    cases h
    exact .node hi (.count hctl)
  case wait =>
    split at h
    case isTrue =>
      cases h
      exact .same
    case isFalse hk =>
      cases h
      exact .node hi (.waited hctl (Nat.le_of_not_lt hk))
  case loop => cases h

theorem workerStep_cases (hi : i < workers.length) (h : workerStep workers s i v = some s') :
    Step threadSafe workers s s' := by
  unfold workerStep at h
  cases hctl : (s.node i).worker v <;> simp only [hctl] at h
  case count =>
    cases h
    exact .node hi (.workerCount hctl)
  case wait =>
    split at h
    case isTrue =>
      cases h
      exact .same
    case isFalse hk =>
      cases h
      exact .node hi (.workerLoop hctl (Nat.le_of_not_lt hk))
  case unborn | loop => cases h

theorem serverStep_cases (hi : i < workers.length) (h : serverStep threadSafe s i = some s') :
    Step threadSafe workers s s' := by
  unfold serverStep at h
  cases hctl : (s.node i).server <;> simp only [hctl] at h
  case polling =>
    split at h
    case isTrue => cases h
    case isFalse hfree =>
      cases h
      obtain ⟨hsafe, hfree⟩ := Bool.or_eq_false_iff.mp (Bool.eq_false_iff.mpr hfree)
      exact .node hi (.poll hctl hsafe hfree)
  case holding =>
    cases h
    exact .node hi (.polled hctl)
  case unborn => cases h

theorem step_cases {a : Act} (h : step threadSafe workers s a = some s') :
    Step threadSafe workers s s' := by
  cases a with
  | main i =>
      simp only [step] at h
      split at h
      case isTrue hi => exact mainStep_cases hi h
      case isFalse => cases h
  | worker i v =>
      simp only [step] at h
      split at h
      case isTrue hi => exact workerStep_cases hi h
      case isFalse => cases h
  | server i =>
      simp only [step] at h
      split at h
      case isTrue hi => exact serverStep_cases hi h
      case isFalse => cases h
  | idle =>
      cases h
      exact .same

end Torc.Startup
