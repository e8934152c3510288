import Torc.Parallel.Nesting

/-!
# One worker runs depth first

The public queues are searched from the deepest level up, so that a worker alone, as long as it
waits for children, executes these.
-/

namespace Torc.Parallel

open Transition
open Cluster (Pos IsWorker)

variable {β : Type} {root : Body β} {s s' : State β} {t t' : Tasks β} {stack rest : List Nat}
  {q : Queues Nat} {d i v k j : Nat}

/-! ## The stack and the queues -/

/-- The stack is a chain, and the tasks in the queues are children of its bodies. -/
structure Descends (t : Tasks β) (stack : List Nat) (q : Queues Nat) : Prop where
  chained : t.Chained stack
  privateQueue : q.privateGrq = []
  publicQueue : ∀ j, ∀ k ∈ q.publicGrq j,
    rqIndex (t.desc k).level = j ∧ ∃ p ∈ stack, (t.desc k).parent = some p

namespace Descends

theorem congr (h : Descends t stack q) (hdesc : t'.desc = t.desc) : Descends t' stack q where
  chained := by
    unfold Tasks.Chained
    rw [hdesc]
    exact h.chained
  privateQueue := h.privateQueue
  publicQueue j k hk := by
    rw [hdesc]
    exact h.publicQueue j k hk

/-- A new child goes to the queue of its level. -/
theorem createChild (h : Descends t (k :: rest) q) (hk : k < t.issued)
    (hstack : ∀ p ∈ rest, p < t.issued) (hborn : ∀ j, ∀ c ∈ q.publicGrq j, c < t.issued)
    {me : Nat} {child code : Body β} :
    Descends (t.createChild k me child code) (k :: rest)
      (q.torcToIRqEnd ((t.createChild k me child code).desc t.issued).level t.issued) where
  chained := by
    apply h.chained.imp_of_mem_imp
    intro a b ha _ hparent
    rw [Tasks.createChild_desc_of_lt]
    · exact hparent
    · rcases List.mem_cons.mp ha with rfl | hrest
      · exact hk
      · exact hstack a hrest
  privateQueue := h.privateQueue
  publicQueue j c hc := by
    have hcases : c = t.issued ∧ j = rqIndex ((t.createChild k me child code).desc c).level ∨
        c ∈ q.publicGrq j := by
      unfold Queues.torcToIRqEnd Queues.setPublic at hc
      by_cases hj : j = rqIndex ((t.createChild k me child code).desc t.issued).level
      · rw [hj] at hc ⊢
        simp only [Function.update_self] at hc
        rcases List.mem_append.mp hc with hold | hnew
        · exact .inr hold
        · rw [List.mem_singleton.mp hnew]
          exact .inl ⟨rfl, rfl⟩
      · simp only [Function.update_of_ne hj] at hc
        exact .inr hc
    rcases hcases with ⟨rfl, hj⟩ | hold
    · refine ⟨hj.symm, k, List.mem_cons_self, ?_⟩
      rw [Tasks.createChild_desc_new]
    · rw [Tasks.createChild_desc_of_lt (hborn j c hold)]
      exact h.publicQueue j c hold

theorem push {p : Nat} (h : Descends t (p :: rest) q) (hparent : (t.desc k).parent = some p) :
    Descends t (k :: p :: rest) q where
  chained := List.isChain_cons_cons.mpr ⟨hparent, h.chained⟩
  privateQueue := h.privateQueue
  publicQueue j c hc := by
    obtain ⟨hindex, p', hp', hparent'⟩ := h.publicQueue j c hc
    exact ⟨hindex, p', List.mem_cons_of_mem k hp', hparent'⟩

theorem pop (h : Descends t (k :: rest) q)
    (hnone : ∀ j, ∀ c ∈ q.publicGrq j, (t.desc c).parent ≠ some k) : Descends t rest q where
  chained := h.chained.tail
  privateQueue := h.privateQueue
  publicQueue j c hc := by
    obtain ⟨hindex, p, hp, hparent⟩ := h.publicQueue j c hc
    refine ⟨hindex, p, ?_, hparent⟩
    rcases List.mem_cons.mp hp with rfl | hrest
    · exact absurd hparent (hnone j c hc)
    · exact hrest

theorem dequeue (h : Descends t stack q) {l : List Nat} (hq : q.publicGrq j = k :: l) :
    Descends t stack (q.setPublic j l) where
  chained := h.chained
  privateQueue := h.privateQueue
  publicQueue j' c hc := by
    apply h.publicQueue j' c
    by_cases hj : j' = j
    · subst hj
      rw [Queues.setPublic_self] at hc
      rw [hq]
      exact List.mem_cons_of_mem k hc
    · simpa only [Queues.setPublic, Function.update_of_ne hj] using hc

end Descends

/-! ## The search -/

/-- The worker waits in the body on top of its stack. -/
structure Waits (t : Tasks β) (stack : List Nat) : Prop where
  blocked : ∃ k rest, stack = k :: rest ∧ (t.frame k).ctl = .blocked ∧ 0 < t.ndep k

/-- Where the worker can be: it looks only into the public queues, and only as long as it has found
nothing. -/
def Searches (t : Tasks β) (stack : List Nat) (q : Queues Nat) : WorkerCtl → Prop
  | .body => True
  | .next again pos => again = false ∧ Waits t stack ∧
      match pos with
      | .privateQueue => True
      | .publicQueue j => j < 10 ∧ ∀ j', j < j' → j' < 10 → q.publicGrq j' = []
      | .steal _ => False
  | .waitReply _ _ => False
  | .got k => ∃ p rest, stack = p :: rest ∧ (t.desc k).parent = some p

structure DepthFirst (d : Nat) (s : State β) : Prop where
  net : s.net = []
  nested : s.tasks.Nested d
  descends : Descends s.tasks (s.worker 0 0).stack (s.node 0).queues
  searches : Searches s.tasks (s.worker 0 0).stack (s.node 0).queues (s.worker 0 0).ctl

theorem isWorker_oneNode : IsWorker oneNode.workers i v ↔ i = 0 ∧ v = 0 := by
  constructor
  · rintro ⟨hi, hv⟩
    obtain rfl : i = 0 := Nat.lt_one_iff.mp hi
    exact ⟨rfl, Nat.lt_one_iff.mp hv⟩
  · rintro ⟨rfl, rfl⟩
    exact ⟨Nat.one_pos, Nat.one_pos⟩

namespace Consistent

theorem lt_of_mem_stack (h : Consistent oneNode.workers root s)
    (hk : k ∈ (s.worker 0 0).stack) : k < s.tasks.issued ∧ s.tasks.status k = .running := by
  have hstatus := h.placed.shows (.stack 0 0) (k, .running) (List.mem_map_of_mem hk)
  refine ⟨h.tasks.lt_issued ?_, hstatus⟩
  rw [hstatus]
  intro hc
  cases hc

theorem ready_of_mem_queue (h : Consistent oneNode.workers root s) (hj : j < 10)
    (hk : k ∈ (s.node 0).queues.publicGrq j) :
    k < s.tasks.issued ∧ s.tasks.status k = .ready := by
  have hmem : k ∈ (s.node 0).queues.tasks := by
    apply List.mem_append_right
    exact List.mem_flatMap.mpr ⟨j, List.mem_range.mpr hj, hk⟩
  have hstatus := h.placed.shows (.queue 0) (k, .ready) (List.mem_map_of_mem hmem)
  refine ⟨h.tasks.lt_issued ?_, hstatus⟩
  rw [hstatus]
  intro hc
  cases hc

/-- A body that waits has a child in the queue of its own level. -/
theorem exists_child (h : Consistent oneNode.workers root s) (hfirst : DepthFirst d s)
    (hd : d ≤ 10)
    (hstack : (s.worker 0 0).stack = k :: rest) (hblocked : (s.tasks.frame k).ctl = .blocked)
    (hndep : 0 < s.tasks.ndep k)
    (hhand : (s.worker 0 0).ctl.entries = ([] : List (Nat × Status β))) :
    ∃ j : Nat, j < 10 ∧ (j : Int) = (s.tasks.desc k).level ∧
      (s.node 0).queues.publicGrq j ≠ [] := by
  -- the counter is that of the open children, so there is one
  have hcount := (h.tasks.active (h.placed.status_stack hstack)).ndep
  simp only [Frame.owed, hblocked] at hcount
  obtain ⟨c, hchild, hopen⟩ := List.countP_pos_iff.mp
    (show 0 < s.tasks.countOpen (s.tasks.frame k).children by omega)
  obtain ⟨hc, hparent⟩ := (h.tasks.child k c).mp hchild
  have hlive : Live s.tasks c := ⟨hc, by simpa [Tasks.isOpen] using hopen⟩
  have hk := (h.lt_of_mem_stack (k := k) (by rw [hstack]; exact List.mem_cons_self)).1
  -- it is at one of the places, and all but the queue are excluded
  obtain ⟨p, hp⟩ := h.placed.exists_entry hlive
  have hworker : ∀ i v, s.worker i v = {} ∨ i = 0 ∧ v = 0 := fun i v ↦
    (h.sound.worker i v).symm.imp_right isWorker_oneNode.mp
  cases p with
  | queue i =>
      obtain ⟨c', hc', heq⟩ := List.mem_map.mp hp
      obtain ⟨rfl, -⟩ := Prod.mk.inj heq
      -- a queue of another node is empty
      obtain rfl : i = 0 := by
        rcases h.sound.queues i with hi | hempty
        · exact Nat.lt_one_iff.mp hi
        · rw [hempty] at hc'
          cases hc'
      rw [Queues.tasks, hfirst.descends.privateQueue, List.nil_append, List.mem_flatMap] at hc'
      obtain ⟨j, hj, hmem⟩ := hc'
      refine ⟨j, List.mem_range.mp hj, ?_, List.ne_nil_of_mem hmem⟩
      rw [← (hfirst.descends.publicQueue j c' hmem).1]
      exact hfirst.nested.rqIndex_level hd hc hk hparent
  | server i =>
      -- without other nodes no server has anything
      have hloop : (s.node i).server = .loop :=
        (h.sound.serving i).resolve_left fun hserves ↦ Nat.lt_irrefl 1 hserves.2
      simp only [entries, hloop, ServerCtl.entries] at hp
      cases hp
  | hand i v =>
      rcases hworker i v with hidle | ⟨rfl, rfl⟩
      · simp only [entries, hidle, WorkerCtl.entries] at hp
        cases hp
      -- the worker holds nothing while it searches
      · simp only [entries, hhand] at hp
        cases hp
  | stack i v =>
      rcases hworker i v with hidle | ⟨rfl, rfl⟩
      · simp only [entries, hidle, List.map_nil] at hp
        cases hp
      · -- a child of the top began after it, and what is below it before
        obtain ⟨c', hc', heq⟩ := List.mem_map.mp hp
        obtain ⟨rfl, -⟩ := Prod.mk.inj heq
        have hlt := h.tasks.parent_lt c' hc k hparent
        have hsorted := h.stacked.sorted (0, 0)
        simp only [hstack, List.pairwise_cons] at hsorted
        rw [hstack] at hc'
        rcases List.mem_cons.mp hc' with rfl | hbelow
        · exact absurd hlt (Nat.lt_irrefl c')
        · have hafter := h.ordered.after c' hc k hparent (by
            rw [(h.lt_of_mem_stack (k := c') (by rw [hstack]; exact hc')).2]
            trivial)
          exact absurd hafter (Nat.not_lt.mpr (hsorted.1 c' hbelow).le)
  | net =>
      simp only [entries, hfirst.net, List.flatMap_nil] at hp
      cases hp

/-- The first task that is found is a child of the body that waits. -/
theorem parent_of_found (h : Consistent oneNode.workers root s) (hfirst : DepthFirst d s)
    (hd : d ≤ 10) {again : Bool} (hctl : (s.worker 0 0).ctl = .next again (.publicQueue j))
    {c : Nat} (hc : c ∈ (s.node 0).queues.publicGrq j) :
    ∃ p rest, (s.worker 0 0).stack = p :: rest ∧ (s.tasks.desc c).parent = some p := by
  have hsearches := hfirst.searches
  rw [hctl] at hsearches
  obtain ⟨-, ⟨k, rest, hstack, hblocked, hndep⟩, hj, habove⟩ := hsearches
  refine ⟨k, rest, hstack, ?_⟩
  -- the child of the waiting body is not in a queue that was empty
  obtain ⟨j', hj', hlevel, hqueued⟩ := h.exists_child hfirst hd hstack hblocked hndep (by
    rw [hctl]
    rfl)
  have hle : j' ≤ j := by
    by_contra hlt
    exact hqueued (habove j' (Nat.lt_of_not_le hlt) hj')
  obtain ⟨hindex, p, hp, hparent⟩ := hfirst.descends.publicQueue j c hc
  have hborn : ∀ a ∈ (s.worker 0 0).stack, a < s.tasks.issued :=
    fun a ha ↦ (h.lt_of_mem_stack ha).1
  have hfound := hfirst.nested.rqIndex_level hd (h.ready_of_mem_queue hj hc).1 (hborn p hp) hparent
  rw [hindex] at hfound
  -- the body that waits has the highest level of the stack
  have hbelow := hfirst.nested.level_lt_of_chained hfirst.descends.chained hborn
  rw [hstack] at hp hbelow
  rcases List.mem_cons.mp hp with rfl | hrest
  · exact hparent
  · have hlt := (List.pairwise_cons.mp hbelow).1 p hrest
    omega

/-- A body that returns has no child left in a queue. -/
theorem not_parent_of_return (h : Consistent oneNode.workers root s) {result : β}
    (hstack : (s.worker 0 0).stack = k :: rest) (hctl : (s.tasks.frame k).ctl = .running)
    (hcode : (s.tasks.frame k).code = .ret result) (hj : j < 10) {c : Nat}
    (hc : c ∈ (s.node 0).queues.publicGrq j) : (s.tasks.desc c).parent ≠ some k := by
  intro hparent
  obtain ⟨hborn, hready⟩ := h.ready_of_mem_queue hj hc
  have hchild := (h.tasks.child k c).mpr ⟨hborn, hparent⟩
  have hnone := (h.tasks.returns (h.placed.status_stack hstack) hctl hcode).2
  have hdone := Tasks.countOpen_eq_zero hnone hchild
  rw [hready] at hdone
  cases hdone

end Consistent

/-! ## Every step -/

theorem queues_setQueues_self (s : State β) (i : Nat) (q : Queues Nat) :
    ((s.setQueues i q).node i).queues = q := by
  simp [State.setQueues, State.setNode]

namespace DepthFirst

theorem of {c : WorkerCtl} (hnested : s'.tasks.Nested d) (hnet : s'.net = [])
    (hworker : s'.worker 0 0 = ⟨stack, c⟩) (hqueues : (s'.node 0).queues = q)
    (hdescends : Descends s'.tasks stack q) (hsearches : Searches s'.tasks stack q c) :
    DepthFirst d s' where
  net := hnet
  nested := hnested
  descends := by
    rw [hworker, hqueues]
    exact hdescends
  searches := by
    rw [hworker, hqueues]
    exact hsearches

theorem start (hnests : root.Nests d) : DepthFirst d (.start root : State β) :=
  of (Tasks.Nested.start hnests) rfl rfl rfl
    ⟨List.isChain_singleton 0, rfl, fun _ _ hk ↦ by cases hk⟩ trivial

theorem bodyStep (hfirst : DepthFirst d s) (h : Consistent oneNode.workers root s)
    (hnested : s'.tasks.Nested d) {target : Nat} (hctl : (s.worker 0 0).ctl = .body)
    (hstack : (s.worker 0 0).stack = k :: rest)
    (hs : bodyStep oneNode.workers s 0 0 k rest target = some s') : DepthFirst d s' := by
  have hworker : s.worker 0 0 = ⟨k :: rest, .body⟩ := by rw [← hctl, ← hstack]
  have hdescends := hfirst.descends
  rw [hstack] at hdescends
  have hborn : ∀ p ∈ k :: rest, p < s.tasks.issued := by
    intro p hp
    rw [← hstack] at hp
    exact (h.lt_of_mem_stack hp).1
  have hqueue : ∀ {j c}, c ∈ (s.node 0).queues.publicGrq j → j < 10 := by
    intro j c hc
    rw [← (hdescends.publicQueue j c hc).1]
    exact rqIndex_lt _
  unfold Parallel.bodyStep at hs
  split at hs
  case h_1 queue child code hrun hcode =>
    have hone : oneNode.workers.length = 1 := rfl
    simp only [insertTask, if_pos hone] at hs
    cases hs
    apply of hnested hfirst.net hworker
    · exact queues_setQueues_self _ 0 _
    · exact hdescends.createChild (hborn k List.mem_cons_self)
        (fun p hp ↦ hborn p (List.mem_cons_of_mem k hp))
        fun j c hc ↦ (h.ready_of_mem_queue (hqueue hc) hc).1
    · trivial
  case h_2 result hrun hcode =>
    have hhome : (s.tasks.desc k).homenode = 0 := Nat.lt_one_iff.mp (h.sound.home k)
    simp only [if_pos hhome] at hs
    cases hs
    apply of hnested hfirst.net (worker_setWorker_self _) rfl
    · have hpop := hdescends.pop fun j c hc ↦
        h.not_parent_of_return hstack hrun hcode (hqueue hc) hc
      exact hpop.congr rfl
    · trivial
  case h_3 code hrun hcode =>
    split at hs
    case isTrue hndep =>
      obtain ⟨t, ht, rfl⟩ := Option.map_eq_some_iff.mp hs
      simp only [Tasks.bodyStep, hrun, hcode, if_pos hndep] at ht
      cases ht
      exact of hnested hfirst.net hworker rfl (hdescends.congr rfl) trivial
    case isFalse hndep =>
      cases hs
      apply of hnested hfirst.net (worker_setWorker_self _) rfl hfirst.descends
      exact ⟨rfl, ⟨k, rest, hstack, hrun, Int.not_le.mp hndep⟩, trivial⟩
  case h_4 hcreate hret hwait =>
    obtain ⟨t, ht, rfl⟩ := Option.map_eq_some_iff.mp hs
    have hdesc : t.desc = s.tasks.desc := by
      cases Tasks.bodyStep_cases ht with
      | startSpawn | countChild | beginWait => rfl
      | createChild hctl hcode => exact absurd hcode (hcreate _ _ _ hctl)
      | endWait hctl hcode => exact absurd hcode (hwait _ hctl)
      | complete hctl hcode | answer hctl hcode => exact absurd hcode (hret _ hctl)
    exact of hnested hfirst.net hworker rfl (hdescends.congr hdesc) trivial

theorem lookAt (hfirst : DepthFirst d s) (h : Consistent oneNode.workers root s) (hd : d ≤ 10)
    (hnested : s'.tasks.Nested d) {again : Bool} {pos : Pos}
    (hctl : (s.worker 0 0).ctl = .next again pos)
    (hs : lookAt oneNode.workers s 0 0 again pos = some s') : DepthFirst d s' := by
  have hsearches := hfirst.searches
  rw [hctl] at hsearches
  obtain ⟨hagain, hwaits, hpos⟩ := hsearches
  cases pos with
  | privateQueue =>
      simp only [Parallel.lookAt, Queues.torcIPqDequeue, hfirst.descends.privateQueue] at hs
      cases hs
      apply of hnested hfirst.net (worker_setWorker_self _) rfl hfirst.descends
      exact ⟨hagain, hwaits, by decide, fun j' hlt hj' ↦ by omega⟩
  | publicQueue j =>
      obtain ⟨hj, habove⟩ := hpos
      cases hqueue : (s.node 0).queues.publicGrq j with
      | cons c l =>
          simp only [Parallel.lookAt, Queues.torcIRqDequeue, hqueue] at hs
          cases hs
          apply of hnested hfirst.net (worker_setWorker_self _)
          · exact queues_setQueues_self s 0 _
          · exact hfirst.descends.dequeue hqueue
          · apply h.parent_of_found hfirst hd hctl
            rw [hqueue]
            exact List.mem_cons_self
      | nil =>
          have hbelow : ∀ j', j ≤ j' → j' < 10 → (s.node 0).queues.publicGrq j' = [] := by
            intro j' hle hj'
            rcases Nat.lt_or_eq_of_le hle with hlt | rfl
            · exact habove j' hlt hj'
            · exact hqueue
          cases j with
          | zero =>
              -- one of its children would be in a queue, and all are empty
              obtain ⟨k, rest, hstack, hblocked, hndep⟩ := hwaits
              obtain ⟨j', hj', -, hqueued⟩ := h.exists_child hfirst hd hstack hblocked hndep (by
                rw [hctl]
                rfl)
              exact absurd (hbelow j' (Nat.zero_le j') hj') hqueued
          | succ j =>
              simp only [Parallel.lookAt, Queues.torcIRqDequeue, hqueue] at hs
              cases hs
              apply of hnested hfirst.net (worker_setWorker_self _) rfl hfirst.descends
              exact ⟨hagain, hwaits, Nat.lt_of_succ_lt hj, hbelow⟩
  | steal node => exact hpos.elim

theorem step (hfirst : DepthFirst d s) (h : Consistent oneNode.workers root s) (hd : d ≤ 10)
    {a : Act} (hs : step oneNode.workers s a = some s') : DepthFirst d s' := by
  -- the steps of the cluster are steps of the tasks or leave them
  have hnested : s'.tasks.Nested d := by
    rcases h.tasks_or_step (step_change h.sound hs) with hsame | hstep
    · rw [hsame]
      exact hfirst.nested
    · exact hfirst.nested.step h.tasks hstep
  cases a with
  | work i v target =>
      simp only [Parallel.step] at hs
      split at hs
      case isFalse => cases hs
      case isTrue hw =>
        obtain ⟨rfl, rfl⟩ := isWorker_oneNode.mp hw.1
        unfold workerStep at hs
        split at hs
        case h_1 k rest hctl hstack => exact hfirst.bodyStep h hnested hctl hstack hs
        case h_2 => cases hs
        case h_3 again pos hctl => exact hfirst.lookAt h hd hnested hctl hs
        case h_4 again node hctl =>
          have hsearches := hfirst.searches
          rw [hctl] at hsearches
          exact hsearches.elim
        case h_5 k hctl =>
          have hsearches := hfirst.searches
          rw [hctl] at hsearches
          obtain ⟨p, rest, hstack, hparent⟩ := hsearches
          have hdescends := hfirst.descends
          rw [hstack] at hdescends
          cases hs
          apply of hnested hfirst.net (worker_setWorker_self _) rfl
          · rw [hstack]
            exact (hdescends.push hparent).congr rfl
          · trivial
  | receive i src thread =>
      -- on one node there are no messages
      simp only [Parallel.step] at hs
      rw [if_neg fun hi ↦ Nat.lt_irrefl 1 hi.1] at hs
      cases hs
  | serve i =>
      simp only [Parallel.step] at hs
      rw [if_neg fun hi ↦ Nat.lt_irrefl 1 hi.1] at hs
      cases hs
  | setStealing i on =>
      cases hs
      exact of hnested hfirst.net rfl (queues_setStealing s i on 0) hfirst.descends
        hfirst.searches

end DepthFirst

/-! ## The end of a search -/

/-- The steps before the last public queue has been looked into. -/
def queuesLeft : Pos → Nat
  | .privateQueue => 11
  | .publicQueue j => j + 1
  | .steal _ => 0

/-- The worker has found a child of the body that waits on top of its stack. -/
def FoundChild (s s' : State β) : Prop :=
  ∃ k p rest, s'.worker 0 0 = ⟨p :: rest, .got k⟩ ∧ (s.worker 0 0).stack = p :: rest ∧
    s'.tasks = s.tasks ∧ (s.tasks.desc k).parent = some p

theorem worker_setCtl_zero (s : State β) (c : WorkerCtl) :
    (s.setCtl 0 0 c).worker 0 0 = ⟨(s.worker 0 0).stack, c⟩ := by
  rw [State.setCtl, worker_setWorker_self]

namespace DepthFirst

/-- A look into a queue finds a child or leaves one queue less. -/
theorem look (hfirst : DepthFirst d s) (h : Consistent oneNode.workers root s) (hd : d ≤ 10)
    {again : Bool} {pos : Pos} (hctl : (s.worker 0 0).ctl = .next again pos) :
    ∃ s', Parallel.step oneNode.workers s (.work 0 0 0) = some s' ∧ s'.tasks = s.tasks ∧
      ∃ c, s'.worker 0 0 = ⟨(s.worker 0 0).stack, c⟩ ∧
        ((∃ k, c = .got k) ∨ ∃ pos', c = .next false pos' ∧
          queuesLeft pos' < queuesLeft pos) := by
  have hworker : IsWorker oneNode.workers 0 0 ∧ 0 < torcTotalNumThreads oneNode.workers := by
    decide
  have hstep : Parallel.step oneNode.workers s (.work 0 0 0) =
      Parallel.lookAt oneNode.workers s 0 0 again pos := by
    rw [Parallel.step, if_pos hworker]
    simp only [workerStep, hctl]
  have hsearches := hfirst.searches
  rw [hctl] at hsearches
  obtain ⟨rfl, -, hpos⟩ := hsearches
  rw [hstep]
  cases pos with
  | privateQueue =>
      refine ⟨s.setCtl 0 0 (.next false (.publicQueue 9)), ?_, rfl, _, worker_setCtl_zero s _,
        .inr ⟨.publicQueue 9, rfl, by decide⟩⟩
      simp only [Parallel.lookAt, Queues.torcIPqDequeue, hfirst.descends.privateQueue, nothingAt]
  | publicQueue j =>
      cases hqueue : (s.node 0).queues.publicGrq j with
      | cons k l =>
          refine ⟨(s.setQueues 0 ((s.node 0).queues.setPublic j l)).setCtl 0 0
            (.got k), ?_, rfl, _,
            worker_setCtl_zero _ _, .inl ⟨k, rfl⟩⟩
          simp only [Parallel.lookAt, Queues.torcIRqDequeue, hqueue]
      | nil =>
          cases j with
          | succ j =>
              refine ⟨s.setCtl 0 0 (.next false (.publicQueue j)), ?_, rfl, _,
                worker_setCtl_zero s _, .inr ⟨.publicQueue j, rfl, Nat.lt_succ_self (j + 1)⟩⟩
              simp only [Parallel.lookAt, Queues.torcIRqDequeue, hqueue, nothingAt]
          | zero =>
              -- the second round would begin here
              obtain ⟨s', hs, hagain⟩ : ∃ s', Parallel.lookAt oneNode.workers s 0 0 false
                  (.publicQueue 0) = some s' ∧ s'.worker 0 0 =
                    ⟨(s.worker 0 0).stack, .next true .privateQueue⟩ := by
                simp only [Parallel.lookAt, Queues.torcIRqDequeue, hqueue, nothingAt]
                refine ⟨_, rfl, ?_⟩
                split
                case isTrue =>
                  have hself : ¬ (0 + 1) % oneNode.workers.length ≠ 0 := by decide
                  rw [stealNext, if_neg hself]
                  exact worker_setCtl_zero _ _
                case isFalse => exact worker_setCtl_zero s _
              have hnext := (hfirst.step h hd (hstep.trans hs)).searches
              rw [hagain] at hnext
              exact absurd hnext.1 (by decide)
  | steal node => exact hpos.elim

/-- The search ends with a child of the body that waits. -/
theorem finds (hfirst : DepthFirst d s) (h : Consistent oneNode.workers root s) (hd : d ≤ 10)
    {again : Bool} {pos : Pos} (hctl : (s.worker 0 0).ctl = .next again pos) :
    ∃ n s', n ≤ queuesLeft pos ∧ FoundChild s s' ∧
      (system oneNode.workers root).run s (List.replicate n (.work 0 0 0)) = some s' := by
  induction hm : queuesLeft pos using Nat.strong_induction_on generalizing s again pos with
  | _ m ih =>
      subst hm
      obtain ⟨s', hs, htasks, c, hworker, hfound | ⟨pos', rfl, hlt⟩⟩ :=
        hfirst.look h hd hctl
      -- found by this look, or by the looks at the queues that are left
      · obtain ⟨k, rfl⟩ := hfound
        have hleft : 0 < queuesLeft pos := by
          have hsearches := hfirst.searches
          rw [hctl] at hsearches
          cases pos with
          | privateQueue => decide
          | publicQueue j => exact Nat.succ_pos j
          | steal node => exact hsearches.2.2.elim
        have hgot := (hfirst.step h hd hs).searches
        rw [hworker] at hgot
        obtain ⟨p, rest, hstack, hparent⟩ := hgot
        rw [htasks] at hparent
        refine ⟨1, s', hleft, ⟨k, p, rest, ?_, hstack, htasks, hparent⟩, ?_⟩
        · rw [hworker, hstack]
        · exact System.run_cons hs
      · have hs' := h.change (fun w hw ↦ (oneNode.counts w hw).2) (step_change h.sound hs)
        have hctl' : (s'.worker 0 0).ctl = .next false pos' := by rw [hworker]
        obtain ⟨n, s'', hn, ⟨k, p, rest, hgot, hstack, htasks', hparent⟩, hrun⟩ :=
          ih _ hlt (hfirst.step h hd hs) hs' hctl' rfl
        rw [hworker] at hstack
        rw [htasks] at htasks' hparent
        refine ⟨n + 1, s'', Nat.lt_of_le_of_lt hn hlt,
          ⟨k, p, rest, hgot, hstack, htasks', hparent⟩,
          ?_⟩
        rw [List.replicate_succ]
        exact (System.run_cons hs).trans hrun

end DepthFirst

/-- On one worker the bodies on the stack are each a child of the one below, so that there are no
more of them than tasks are nested, and a body that waits finds one of its own children in its first
round over the queues. -/
theorem depth_first (p : Program β oneNode.workers) (hd : d ≤ 10) (hnests : p.body.Nests d)
    (h : (system oneNode.workers p.body).Reachable s) :
    s.tasks.Chained (s.worker 0 0).stack ∧ (s.worker 0 0).stack.length ≤ d + 1 ∧
      ∀ again pos, (s.worker 0 0).ctl = .next again pos →
        (again = false ∧ ∀ node, pos ≠ .steal node) ∧
        ∃ n s', n ≤ 11 ∧ FoundChild s s' ∧
          (system oneNode.workers p.body).run s (List.replicate n (.work 0 0 0)) = some s' := by
  have hinv : Consistent oneNode.workers p.body s ∧ DepthFirst d s := by
    apply h.invariant fun s ↦ Consistent oneNode.workers p.body s ∧ DepthFirst d s
    · rintro s rfl
      exact ⟨Consistent.start oneNode p.joins p.aims, DepthFirst.start hnests⟩
    · intro s s' a hinv _ hs
      exact ⟨hinv.1.change (fun w hw ↦ (oneNode.counts w hw).2) (step_change hinv.1.sound hs),
        hinv.2.step hinv.1 hd hs⟩
  obtain ⟨hconsistent, hfirst⟩ := hinv
  -- the chain bounds the stack, since levels go up along it
  refine ⟨hfirst.descends.chained, ?_, ?_⟩
  · cases hstack : (s.worker 0 0).stack with
    | nil => exact Nat.zero_le _
    | cons k rest =>
        have hchained := hfirst.descends.chained
        rw [hstack] at hchained
        have hborn : ∀ j ∈ k :: rest, j < s.tasks.issued := by
          intro j hj
          rw [← hstack] at hj
          exact (hconsistent.lt_of_mem_stack hj).1
        have hlength := hfirst.nested.length_le hchained hborn
        have hlevel := hfirst.nested.level_le (hborn k List.mem_cons_self)
        rw [List.length_cons]
        omega
  · intro again pos hctl
    have hsearches := hfirst.searches
    rw [hctl] at hsearches
    obtain ⟨hagain, -, hpos⟩ := hsearches
    obtain ⟨n, s', hn, hfound, hrun⟩ := hfirst.finds hconsistent hd hctl
    refine ⟨⟨hagain, fun node heq ↦ ?_⟩, n, s', hn.trans ?_, hfound, hrun⟩
    · rw [heq] at hpos
      exact hpos
    · cases pos with
      | privateQueue => exact Nat.le_refl 11
      | publicQueue j => exact Nat.succ_le_succ hpos.1.le
      | steal node => exact Nat.zero_le 11

/-- A child with a child. -/
def grandchild : Program Nat oneNode.workers where
  body := .spawn none (.spawn none (.ret 7) (.waitall fun vars ↦
    .ret ((vars.headD none).getD 0))) (.waitall fun vars ↦ .ret ((vars.headD none).getD 0))
  joins := ⟨⟨rfl, fun _ ↦ rfl⟩, fun _ ↦ rfl⟩
  aims := ⟨by decide, ⟨by decide, trivial, fun _ ↦ trivial⟩, fun _ ↦ trivial⟩

/-- The child waits and looks for its own child. -/
theorem depth_first_grandchild :
    ∃ s, (system oneNode.workers grandchild.body).Reachable s ∧
      (s.worker 0 0).stack = [1, 0] ∧ s.tasks.Chained (s.worker 0 0).stack ∧
        (s.worker 0 0).stack.length ≤ 2 + 1 ∧
        ∃ n s', n ≤ 11 ∧ FoundChild s s' ∧
          (system oneNode.workers grandchild.body).run s (List.replicate n (.work 0 0 0)) =
            some s' := by
  have hend : ((system oneNode.workers grandchild.body).run (.start grandchild.body)
      (List.replicate 22 (.work 0 0 0))).map (fun s ↦ s.worker 0 0) =
        some ⟨[1, 0], .next false .privateQueue⟩ := by rfl
  obtain ⟨s, hreach, hworker⟩ := System.Reachable.eval (.init rfl) hend
  have hnests : grandchild.body.Nests 2 :=
    ⟨by decide, ⟨by decide, trivial, fun _ ↦ trivial⟩, fun _ ↦ trivial⟩
  obtain ⟨hchained, hlength, hfinds⟩ := depth_first grandchild (by decide) hnests hreach
  obtain ⟨-, hfinds⟩ := hfinds false .privateQueue (by rw [hworker])
  exact ⟨s, hreach, by rw [hworker], hchained, hlength, hfinds⟩

/-- With eleven levels the last two share a queue. -/
def eleven : Nat → Body Nat
  | 0 => .spawn none (.spawn none (.ret 0) (.waitall fun _ ↦ .ret 0)) (.spawn none (.ret 0)
      (.waitall fun _ ↦ .ret 0))
  | n + 1 => .spawn none (eleven n) (.waitall fun _ ↦ .ret 0)

/-- The second child of task 9 runs while the first one waits for its own. -/
example : ((system oneNode.workers (eleven 9)).run (.start (eleven 9))
    (List.replicate 136 (.work 0 0 0))).map (fun s ↦ (s.worker 0 0).stack) =
      some [11, 10, 9, 8, 7, 6, 5, 4, 3, 2, 1, 0] := by decide +kernel

end Torc.Parallel
