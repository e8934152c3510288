import Torc.Startup.Invariant

/-!
# No thread starts to schedule too early

A thread in its scheduler loop finds the other threads of its node, and the queues, servers and
tables of all nodes.
-/

namespace Torc.Startup

open Transition

variable {threadSafe : Bool} {workers : List Nat} {s : State} {nd : Node} {k i v : Nat}

/-- What `_torc_md_init` and `_torc_comm_init` have to do on a node with `k` workers. -/
structure Node.Up (workers : List Nat) (k : Nat) (nd : Node) : Prop where
  queues : nd.main ≠ .rqInit
  server : 1 < workers.length → nd.server ≠ .unborn
  born : ∀ v, 0 < v → v < k → nd.worker v ≠ .unborn
  info : ∀ j < workers.length, nd.nodeInfo j = workers.getD j 0

/-- All `k` workers have been counted in `created_workers`. -/
structure Node.Created (k : Nat) (nd : Node) : Prop where
  created : nd.createdWorkers = k
  counted : ∀ v < k, nd.Counted v

/-- Thread `v` of node `i` is in `_torc_scheduler_loop`, or has returned from `torc_init`. -/
def State.InLoop (s : State) (i v : Nat) : Prop :=
  (v = 0 ∧ (s.node i).main = .loop) ∨ (s.node i).worker v = .loop

/-! ## Stages -/

theorem MainCtl.three_le_left {ctl : MainCtl} (h : 15 ≤ ctl.stage) : 3 ≤ ctl.left := by
  unfold MainCtl.left
  split_ifs <;> omega

theorem MainCtl.stage_of_three_le {ctl : MainCtl} (h : 3 ≤ ctl.started) : 12 ≤ ctl.stage := by
  unfold MainCtl.started at h
  split_ifs at h <;> omega

theorem MainCtl.stage_of_four_le {ctl : MainCtl} (h : 4 ≤ ctl.started) : 18 ≤ ctl.stage := by
  unfold MainCtl.started at h
  split_ifs at h <;> omega

theorem MainCtl.begun_of_stage {ctl : MainCtl} (h : 3 ≤ ctl.stage) : ctl.begun k = k := by
  cases ctl <;> first | rfl | simp [MainCtl.stage] at h

theorem MainCtl.filled_of_stage {ctl : MainCtl} {n : Nat} (h : 10 ≤ ctl.stage) :
    ctl.filled n = n := by
  cases ctl with
  | fill j => simp [MainCtl.stage] at h
  | _ => simp only [MainCtl.filled, if_neg (Nat.not_lt.mpr h)]

/-! ## One node -/

theorem Node.Counts.counted_lt (h : nd.Counts k) : nd.createdWorkers ≤ k := by
  rw [h.created]
  exact (Finset.card_filter_le _ _).trans (Finset.card_range k).le

theorem Node.Counts.created_of_le (h : nd.Counts k) (hk : k ≤ nd.createdWorkers) :
    nd.Created k where
  created := Nat.le_antisymm h.counted_lt hk
  counted _ hv := h.all_counted hk hv

theorem Node.Counts.zero_unborn (h : nd.Counts k) : nd.worker 0 = .unborn := by
  by_contra hborn
  exact Nat.lt_irrefl 0 ((h.born 0).mp hborn).1

theorem Node.Created.stage (h : nd.Created k) (hcounts : nd.Counts k) (hk : 0 < k) :
    15 ≤ nd.main.stage := by
  rcases h.counted 0 hk with ⟨-, hstage⟩ | hwait | hloop
  · exact hstage
  · rw [hcounts.zero_unborn] at hwait
    cases hwait
  · rw [hcounts.zero_unborn] at hloop
    cases hloop

theorem Node.up_of_stage (hcounts : nd.Counts k) (htables : nd.Tables workers)
    (h : 12 ≤ nd.main.stage) : nd.Up workers k where
  queues hctl := by
    rw [hctl] at h
    simp [MainCtl.stage] at h
  server hnodes := htables.server hnodes (by omega)
  born v hpos hv := by
    rw [hcounts.born, MainCtl.begun_of_stage (by omega)]
    exact ⟨hpos, hv⟩
  info j hj := htables.info j (by rwa [MainCtl.filled_of_stage (by omega)])

/-! ## All nodes -/

namespace Inv

theorem created_of_inLoop (h : Inv threadSafe workers s) (hi : i < workers.length)
    (hloop : s.InLoop i v) : (s.node i).Created (workers.getD i 0) := by
  apply (h.counts i hi).created_of_le
  apply (h.counts i hi).full
  rcases hloop with ⟨-, hmain⟩ | hworker
  · exact .inl (by simp [hmain, MainCtl.stage])
  · exact .inr ⟨v, hworker⟩

/-- Behind the last barrier of `_torc_comm_init` of one node all nodes have come to it. -/
theorem up_of_created (h : Inv threadSafe workers s) (hpos : ∀ w ∈ workers, 0 < w)
    (hi : i < workers.length) (hcreated : (s.node i).Created (workers.getD i 0)) :
    ∀ j < workers.length, (s.node j).Up workers (workers.getD j 0) := by
  intro j hj
  apply Node.up_of_stage (h.counts j hj) (h.tables j hj)
  apply MainCtl.stage_of_three_le
  rw [← h.length_calls hj]
  have hleft := MainCtl.three_le_left (hcreated.stage (h.counts i hi) (pos hpos hi))
  exact hleft.trans (h.rounds.left_le i hi j hj)

theorem created_of_loop (h : Inv threadSafe workers s) (hi : i < workers.length)
    (hloop : (s.node i).main = .loop) :
    ∀ j < workers.length, (s.node j).Created (workers.getD j 0) := by
  intro j hj
  apply (h.counts j hj).created_of_le
  apply (h.counts j hj).full
  have hleft := h.rounds.left_le i hi j hj
  simp only [hloop, h.length_calls hj] at hleft
  have hstage := MainCtl.stage_of_four_le hleft
  exact .inl (by omega)

theorem calls_prefix (h : Inv threadSafe workers s) {j : Nat} (hi : i < workers.length)
    (hj : j < workers.length) : s.calls i <+: s.calls j ∨ s.calls j <+: s.calls i := by
  rw [h.calls i hi, h.calls j hj]
  exact List.prefix_or_prefix_of_prefix (List.take_prefix _ _) (List.take_prefix _ _)

end Inv

/-- A thread is in its scheduler loop only when its node has all its workers and every node its
queues, server, workers and `node_info`.  `torc_init` returns only when this holds of the workers of
every node.  Before that the nodes have started the same collective operations in the same order,
and no server has the lock together with worker 0. -/
theorem ready_before_loop (L : Layout) (hr : (system threadSafe L.workers).Reachable s) :
    (∀ i < L.workers.length, ∀ v, s.InLoop i v → (s.node i).Created (L.workers.getD i 0) ∧
      ∀ j < L.workers.length, (s.node j).Up L.workers (L.workers.getD j 0)) ∧
    (∀ i < L.workers.length, (s.node i).main = .loop →
      ∀ j < L.workers.length, (s.node j).Created (L.workers.getD j 0)) ∧
    (∀ i < L.workers.length, ∀ j < L.workers.length,
      s.calls i <+: s.calls j ∨ s.calls j <+: s.calls i) ∧
    ∀ i < L.workers.length, (s.node i).server = .holding → ¬ (s.node i).main.InSection := by
  have h := inv_of_reachable L.pos hr
  refine ⟨fun i hi v hloop ↦ ?_, fun i hi hloop ↦ h.created_of_loop hi hloop,
    fun i hi j hj ↦ h.calls_prefix hi hj, fun i hi hpolls ↦ ((h.locked i hi).polls hpolls).2⟩
  have hcreated := h.created_of_inLoop hi hloop
  exact ⟨hcreated, h.up_of_created L.pos hi hcreated⟩

/-- Two nodes, the first of which has a second worker and polls while it waits. -/
def startRun : List Act :=
  [(2, .main 0), (2, .server 0), (4, .main 0), (5, .main 1), (2, .main 0),
    (2, .main 1), (7, .main 0),
    (7, .main 1), (3, .main 0), (2, .worker 0 1), (2, .server 0), (3, .main 0), (6, .main 1),
    (2, .main 0)].flatMap fun (n, a) ↦ List.replicate n a

/-- `torc_init` has returned on the first node, the second one is still in the barrier. -/
theorem ready_before_loop_unequalNodes : ∃ s, (system false unequalNodes.workers).Reachable s ∧
    s.InLoop 0 0 ∧ s.InLoop 0 1 ∧ (s.node 1).main = .inside .ready ∧
    (∀ i < 2, ∀ v, s.InLoop i v → (s.node i).Created (unequalNodes.workers.getD i 0) ∧
      ∀ j < 2, (s.node j).Up unequalNodes.workers (unequalNodes.workers.getD j 0)) ∧
    (∀ i < 2, (s.node i).main = .loop →
      ∀ j < 2, (s.node j).Created (unequalNodes.workers.getD j 0)) ∧
    (∀ i < 2, ∀ j < 2, s.calls i <+: s.calls j ∨ s.calls j <+: s.calls i) ∧
    ∀ i < 2, (s.node i).server = .holding → ¬ (s.node i).main.InSection := by
  have hend : ((system false unequalNodes.workers).run {} startRun).map (fun s ↦
      ((s.node 0).main, (s.node 0).worker 1, (s.node 1).main)) =
        some (.loop, .loop, .inside .ready) := by decide +kernel
  obtain ⟨s, hr, hs⟩ := System.Reachable.eval (.init rfl) hend
  simp only [Prod.mk.injEq] at hs
  have hready := ready_before_loop unequalNodes hr
  exact ⟨s, hr, .inl ⟨rfl, hs.1⟩, .inr hs.2.1, hs.2.2, hready⟩

end Torc.Startup
