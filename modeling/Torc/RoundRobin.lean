import Torc.Lib.Cyclic
import Torc.Numbering
import Torc.RemoteEnqueue

/-!
# Round-robin placement

`torc_to_rq_end` deals the tasks that a node creates out to the workers of the cluster.  Whose turn
it is stands in a static variable of the node, which starts at the worker of the first call.
-/

namespace Torc.RoundRobin

/-- The static variables of `torc_to_rq_end`. -/
structure State where
  initialized : Bool := false
  targetWorker : Nat := 0

/-- A call by the thread with these `_torc_get_vpid` and `_torc_thread_id`.  The queues are those
that its node has at that time. -/
structure Call where
  vpId : Nat
  tag : Nat
  desc : TorcT
  queues : Queues TorcT

/-- What a call does with its descriptor. -/
inductive Delivery
  | enqueued (queues : Queues TorcT)
  | sent (node : Nat) (desc : TorcT)

structure Placement where
  targetWorker : Nat
  delivery : Delivery

/-- The node that is given the descriptor by a call on node `me`. -/
def Placement.node (me : Nat) (p : Placement) : Nat :=
  match p.delivery with
  | .enqueued _ => me
  | .sent node _ => node

def torcWorkerId (workers : List Nat) (me vpId : Nat) : Nat :=
  if 1 < workers.length then localThreadIdToGlobalThreadId workers me vpId else vpId

/-- The own entry of the list is `kthreads`, which `torc_i_num_workers` returns. -/
def torcNumWorkers (workers : List Nat) (me : Nat) : Nat :=
  if 1 < workers.length then torcTotalNumThreads workers else workers.getD me 0

/-- The target of a call. -/
def State.target (workers : List Nat) (me vpId : Nat) (s : State) : Nat :=
  if s.initialized then s.targetWorker else torcWorkerId workers me vpId

/-- `torc_to_rq_end` on node `me`; none is the `Error` of `global_thread_id_to_node_id`. -/
def torcToRqEnd (workers : List Nat) (me : Nat) (c : Call) (s : State) :
    Option (Placement × State) :=
  let targetWorker := s.target workers me c.vpId
  if workers.length = 1 then
    -- the static variable does not move on
    some (⟨targetWorker, .enqueued (c.queues.torcToIRqEnd c.desc.level c.desc)⟩,
      ⟨true, targetWorker⟩)
  else do
    let targetNode ← globalThreadIdToNodeId workers targetWorker
    let targetQueue ← globalThreadIdToLocalThreadId workers targetWorker
    let desc := Torc.torcToRqEnd targetQueue c.desc
    let delivery :=
      if me ≠ targetNode then
        .sent targetNode (stampSource me c.tag desc .torcNormalEnqueue)
      else
        .enqueued (c.queues.torcToIRqEnd desc.level (readArguments desc))
    some (⟨targetWorker, delivery⟩, ⟨true, (targetWorker + 1) % torcNumWorkers workers me⟩)

/-- One call after the other. -/
def calls (workers : List Nat) (me : Nat) : List Call → State → Option (List Placement × State)
  | [], s => some ([], s)
  | c :: cs, s => do
      let (p, s) ← torcToRqEnd workers me c s
      let (ps, s) ← calls workers me cs s
      some (p :: ps, s)

/-- The owner of the target worker has the descriptor at the end of a public queue, or it is sent
the descriptor and its server enqueues it. -/
inductive Delivered (workers : List Nat) (me : Nat) (c : Call) (targetWorker : Nat) :
    Delivery → Prop
  | enqueued (targetQueue : Nat) (hown : Consecutive.Owns workers me targetWorker)
      (hworker : localThreadIdToGlobalThreadId workers me targetQueue = targetWorker) :
      Delivered workers me c targetWorker (.enqueued (c.queues.torcToIRqEnd c.desc.level
        ((Hop.insert true targetQueue).land ⟨me, c.desc⟩).desc))
  | sent (node targetQueue : Nat) (hnode : node ≠ me)
      (hown : Consecutive.Owns workers node targetWorker)
      (hworker : localThreadIdToGlobalThreadId workers node targetQueue = targetWorker)
      (hqueue : c.tag ≤ maxNvps → c.desc.homenode = node ∨ c.desc.rteType ≠ rteDirect →
        ∀ mem q, ∃ q', processNormalEnqueue node mem
            (stampSource me c.tag
              (place true targetQueue c.desc) .torcNormalEnqueue) q = some q' ∧
          q'.tasks.Perm
            (((Hop.enqueue true targetQueue c.tag node mem).land
              ⟨me, c.desc⟩).desc :: q.tasks)) :
      Delivered workers me c targetWorker (.sent node
        (stampSource me c.tag (place true targetQueue c.desc) .torcNormalEnqueue))

/-- The calls of node `me` when the first one comes from its worker `w₀`. -/
structure Exact (workers : List Nat) (me w₀ : Nat) (cs : List Call) (ps : List Placement) :
    Prop where
  length : ps.length = cs.length
  placed : ∀ k (hc : k < cs.length) (hp : k < ps.length),
    ps[k].targetWorker = (w₀ + k) % torcTotalNumThreads workers ∧
      Delivered workers me cs[k] ps[k].targetWorker ps[k].delivery
  balanced : ∀ i < torcTotalNumThreads workers, ∀ j < torcTotalNumThreads workers,
    (ps.map Placement.targetWorker).count i ≤ (ps.map Placement.targetWorker).count j + 1
  rounds : ∀ m, cs.length = m * torcTotalNumThreads workers → ∀ i (hi : i < workers.length),
    (ps.map (Placement.node me)).count i = m * workers[i]

/-! ## One call -/

variable {workers : List Nat} {me g : Nat} {c : Call} {s : State} {p : Placement}

theorem Delivered.owns (h : Delivered workers me c p.targetWorker p.delivery) :
    Consecutive.Owns workers (p.node me) p.targetWorker := by
  unfold Placement.node
  cases p with
  | mk targetWorker delivery =>
      cases h with
      | enqueued _ hown => exact hown
      | sent _ _ _ hown => exact hown

theorem torcToRqEnd_eq (me : Nat) (c : Call) (hnodes : 2 ≤ workers.length)
    (htarget : s.target workers me c.vpId = g) (hg : g < torcTotalNumThreads workers) :
    ∃ d, torcToRqEnd workers me c s =
        some (⟨g, d⟩, ⟨true, (g + 1) % torcTotalNumThreads workers⟩) ∧
      Delivered workers me c g d := by
  obtain ⟨node, hown⟩ := Consecutive.exists_owns hg
  have hworker : localThreadIdToGlobalThreadId workers node (g - threadsBefore workers node) = g :=
    Nat.add_sub_of_le hown.1
  have hsum : torcNumWorkers workers me = torcTotalNumThreads workers := if_pos hnodes
  unfold torcToRqEnd
  simp only [htarget, hsum, if_neg (show workers.length ≠ 1 by omega),
    globalThreadIdToNodeId_eq_some_iff.mpr hown, globalThreadIdToLocalThreadId_eq hown,
    Option.bind_eq_bind, Option.bind_some]
  by_cases hnode : me = node
  · subst hnode
    rw [if_neg (not_not_intro rfl)]
    exact ⟨_, rfl, .enqueued _ hown hworker⟩
  · rw [if_pos hnode]
    refine ⟨_, rfl, .sent node _ (Ne.symm hnode) hown hworker fun htag h mem q ↦ ?_⟩
    exact processNormalEnqueue_tasks (by exact htag) (by exact h) q

/-! ## All calls -/

/-- The calls behind the first one. -/
theorem calls_eq (me : Nat) (hnodes : 2 ≤ workers.length) (cs : List Call)
    (hg : g < torcTotalNumThreads workers) :
    ∃ ps s, calls workers me cs ⟨true, g⟩ = some (ps, s) ∧
      ps.map Placement.targetWorker = Cyclic.tour (torcTotalNumThreads workers) g cs.length ∧
      List.Forall₂ (fun c p ↦ Delivered workers me c p.targetWorker p.delivery) cs ps := by
  -- the static variable stays below the number of workers
  induction cs generalizing g with
  | nil => exact ⟨[], ⟨true, g⟩, rfl, rfl, .nil⟩
  | cons c cs ih =>
      have htarget : State.target workers me c.vpId ⟨true, g⟩ = g := rfl
      obtain ⟨d, hcall, hdelivered⟩ := torcToRqEnd_eq me c hnodes htarget hg
      have hpos : 0 < torcTotalNumThreads workers := Nat.zero_lt_of_lt hg
      obtain ⟨ps, s, hrun, htargets, hall⟩ := ih (Nat.mod_lt (g + 1) hpos)
      refine ⟨⟨g, d⟩ :: ps, s, ?_, ?_, .cons hdelivered hall⟩
      · simp only [calls, hcall, hrun, Option.bind_eq_bind, Option.bind_some]
      · rw [List.map_cons, htargets, List.length_cons, Cyclic.tour_cons hg]

/-- Every node gets what is aimed at its workers. -/
theorem count_node {cs : List Call} {ps : List Placement} {i : Nat}
    (h : List.Forall₂ (fun c p ↦ Delivered workers me c p.targetWorker p.delivery) cs ps) :
    (ps.map (Placement.node me)).count i =
      (ps.map Placement.targetWorker).countP fun g ↦ decide (Consecutive.Owns workers i g) := by
  rw [List.count_eq_countP, List.countP_map, List.countP_map]
  induction h with
  | nil => rfl
  | cons hd _ ih =>
      have hnode := hd.owns
      rw [List.countP_cons, List.countP_cons, ih]
      congr 2
      simp only [Function.comp_apply, beq_iff_eq, decide_eq_true_eq, eq_iff_iff]
      constructor
      · intro heq
        rwa [← heq]
      · exact fun hown ↦ hnode.unique hown

theorem exact_of_targets {w₀ : Nat} {cs : List Call} {ps : List Placement}
    (htargets : ps.map Placement.targetWorker =
      Cyclic.tour (torcTotalNumThreads workers) w₀ cs.length)
    (hall : List.Forall₂ (fun c p ↦ Delivered workers me c p.targetWorker p.delivery) cs ps) :
    Exact workers me w₀ cs ps where
  length := hall.length_eq.symm
  placed k hc hp := by
    have hk : k < (ps.map Placement.targetWorker).length := by
      rw [List.length_map]
      exact hp
    have htarget : (ps.map Placement.targetWorker)[k] = ps[k].targetWorker := List.getElem_map ..
    refine ⟨?_, hall.get hc hp⟩
    rw [← htarget]
    simp only [htargets]
    exact Cyclic.getElem_tour _
  balanced i hi j hj := by
    rw [htargets]
    exact Cyclic.count_tour_le hi hj
  rounds m hm i hi := by
    -- whole rounds aim at each worker equally often, so that a node gets as many tasks as its block
    -- of ids is long, for each round
    rw [count_node hall, htargets, hm]
    exact Consecutive.countP_owns hi fun g hg ↦ Cyclic.count_tour_mul hg

/-- The tasks that a node creates are dealt out to all workers in turn, also where some nodes have
no workers. -/
theorem round_robin_exact (hnodes : 2 ≤ workers.length) (hme : me < workers.length) (first : Call)
    (hfirst : first.vpId < workers[me]) (rest : List Call) :
    ∃ ps s, calls workers me (first :: rest) {} = some (ps, s) ∧
      Exact workers me (localThreadIdToGlobalThreadId workers me first.vpId) (first :: rest)
        ps := by
  have hworker : torcWorkerId workers me first.vpId =
      localThreadIdToGlobalThreadId workers me first.vpId := if_pos hnodes
  have hstart : localThreadIdToGlobalThreadId workers me first.vpId < torcTotalNumThreads workers :=
    ((owns_localThreadIdToGlobalThreadId_iff hme).mpr hfirst).lt_sum
  -- the first call does what a later one does that finds its caller in the static variable
  have hsame : torcToRqEnd workers me first {} =
      torcToRqEnd workers me first ⟨true, torcWorkerId workers me first.vpId⟩ := rfl
  obtain ⟨ps, s, hrun, htargets, hall⟩ := calls_eq me hnodes (first :: rest) hstart
  refine ⟨ps, s, ?_, exact_of_targets htargets hall⟩
  rw [calls, hsame, hworker]
  exact hrun

/-- Six calls on the second of three nodes, which have one worker, two workers and none. -/
theorem round_robin_exact_sample :
    ∃ ps s, calls [1, 2, 0] 1 (List.replicate 6 ⟨0, 0, {}, {}⟩) {} = some (ps, s) ∧
      (ps.map Placement.targetWorker).count 0 ≤ (ps.map Placement.targetWorker).count 2 + 1 ∧
        (ps.map (Placement.node 1)).count 1 = 4 := by
  obtain ⟨ps, s, hrun, h⟩ : ∃ ps s,
      calls [1, 2, 0] 1 (List.replicate 6 ⟨0, 0, {}, {}⟩) {} = some (ps, s) ∧
        Exact [1, 2, 0] 1 1 (List.replicate 6 ⟨0, 0, {}, {}⟩) ps :=
    round_robin_exact (by decide) (by decide) ⟨0, 0, {}, {}⟩ (by decide)
      (List.replicate 5 ⟨0, 0, {}, {}⟩)
  exact ⟨ps, s, hrun, h.balanced 0 (by decide) 2 (by decide), h.rounds 2 rfl 1 (by decide)⟩

end Torc.RoundRobin
