import Torc.Parallel.Settling

/-!
# No program gets stuck

A body that waits runs other tasks on top of its own frame, and gets on only when these have
returned.  The body that began last of all waits for none of the others: its open children are in
queues, where some worker finds them.
-/

namespace Torc.Parallel

open Transition Ledger
open Cluster (Pos IsWorker)

variable {β : Type} {workers : List Nat} {root : Body β} {s s' : State β} {i v k : Nat}

/-! ## Runs -/

/-- Some run leads to a state in which the tasks have got on. -/
def GetsOn (workers : List Nat) (root : Body β) (s : State β) : Prop :=
  ∃ s', (system workers root).LeadsTo (Follows workers) s s' ∧ Consistent workers root s' ∧
    s'.tasks.total Tasks.workRates < s.tasks.total Tasks.workRates

theorem GetsOn.of_leadsTo (h : GetsOn workers root s')
    (hlead : (system workers root).LeadsTo (Follows workers) s s')
    (htasks : s'.tasks = s.tasks) : GetsOn workers root s := by
  obtain ⟨t, hlead', ht, hlt⟩ := h
  rw [htasks] at hlt
  exact ⟨t, hlead.trans hlead', ht, hlt⟩

theorem Consistent.leadsTo_work (h : Consistent workers root s) (hworker : IsWorker workers i v)
    (hstep : workerStep workers s i v ((s.node i).roundRobin.target workers i v) = some s') :
    (system workers root).LeadsTo (Follows workers) s s' := by
  apply System.LeadsTo.single (a := .work i v ((s.node i).roundRobin.target workers i v))
  · exact beq_self_eq_true _
  · exact (if_pos ⟨hworker, h.aimed.turn i v hworker⟩).trans hstep

/-- Searches and messages come to an end unless the tasks get on before. -/
theorem Consistent.settles (h : Consistent workers root s)
    (hcounts : ∀ w ∈ workers, w ≤ maxNvps) :
    GetsOn workers root s ∨ ∃ s', (system workers root).LeadsTo (Follows workers) s s' ∧
      Consistent workers root s' ∧ s'.tasks = s.tasks ∧ Settled s' := by
  obtain ⟨s', hlead, hend⟩ :=
    System.exists_leadsTo_of_lt (system workers root) (Follows workers)
    (fun t ↦ Consistent workers root t ∧ t.tasks = s.tasks)
    (fun t ↦ Consistent workers root t ∧
      (t.tasks.total Tasks.workRates < s.tasks.total Tasks.workRates ∨
        t.tasks = s.tasks ∧ Settled t))
    (unsettled workers) (by
      rintro t ⟨ht, htasks⟩
      rcases ht.settled_or_enabled with hsettled | ⟨θ, a, t', hok, -, hstep, hmove⟩
      · exact ⟨t, System.LeadsTo.refl .., .inl ⟨ht, .inr ⟨htasks, hsettled⟩⟩⟩
      · have ht' := ht.change hcounts (.move hmove)
        refine ⟨t', System.LeadsTo.single hok hstep, ?_⟩
        rcases ht.lowers hmove with hlt | ⟨hsame, hlt⟩
        · rw [htasks] at hlt
          exact .inl ⟨ht', .inl hlt⟩
        · exact .inr ⟨⟨ht', hsame.trans htasks⟩, hlt⟩)
    ⟨h, rfl⟩
  obtain ⟨hs', hlt | ⟨htasks, hsettled⟩⟩ := hend
  · exact .inl ⟨s', hlead, hs', hlt⟩
  · exact .inr ⟨s', hlead, hs', htasks, hsettled⟩

/-! ## Searches that find a task -/

theorem Consistent.getsOn_got (h : Consistent workers root s)
    (hcounts : ∀ w ∈ workers, w ≤ maxNvps)
    (hworker : IsWorker workers i v) (hctl : (s.worker i v).ctl = .got k) :
    GetsOn workers root s := by
  have hmove : Move workers s (.worker i v) (execute s i v k) := .execute hworker hctl
  refine ⟨execute s i v k, h.leadsTo_work hworker ?_, h.change hcounts (.move hmove), ?_⟩
  · simp only [workerStep, hctl]
  · exact h.tasks.work_step (.execute (h.placed.status_got hctl))

/-- The step of a search at `pos`, behind which the tasks get on. -/
theorem Consistent.getsOn_look (h : Consistent workers root s)
    (hcounts : ∀ w ∈ workers, w ≤ maxNvps) (hworker : IsWorker workers i v) {again : Bool}
    {pos : Pos} (hctl : (s.worker i v).ctl = .next again pos)
    (hlook : lookAt workers s i v again pos = some s') (htasks : s'.tasks = s.tasks)
    (hnext : Consistent workers root s' → GetsOn workers root s') : GetsOn workers root s := by
  have hmove := lookAt_move h.sound hworker hctl hlook
  have hs' := h.change hcounts (.move hmove)
  apply (hnext hs').of_leadsTo (h.leadsTo_work hworker ?_) htasks
  simp only [workerStep, hctl]
  exact hlook

theorem worker_setCtl_self (s : State β) (i v : Nat) (c : WorkerCtl) :
    ((s.setCtl i v c).worker i v).ctl = c := by
  rw [State.setCtl, worker_setWorker_self]

theorem Consistent.getsOn_found (h : Consistent workers root s)
    (hcounts : ∀ w ∈ workers, w ≤ maxNvps) (hworker : IsWorker workers i v) {again : Bool}
    {pos : Pos} {q : Queues Nat} (hctl : (s.worker i v).ctl = .next again pos)
    (hlook : lookAt workers s i v again pos = some ((s.setQueues i q).setCtl i v (.got k))) :
    GetsOn workers root s := by
  apply h.getsOn_look hcounts hworker hctl hlook rfl
  intro hs'
  exact hs'.getsOn_got hcounts hworker (worker_setCtl_self ..)

theorem Consistent.getsOn_publicQueue (h : Consistent workers root s)
    (hcounts : ∀ w ∈ workers, w ≤ maxNvps) (hworker : IsWorker workers i v)
    {again : Bool} {j : Nat}
    (hctl : (s.worker i v).ctl = .next again (.publicQueue j))
    (htask : ∃ j' ≤ j, (s.node i).queues.publicGrq j' ≠ []) : GetsOn workers root s := by
  induction j generalizing s with
  | zero =>
      obtain ⟨j', hj', hne⟩ := htask
      obtain rfl := Nat.le_zero.mp hj'
      obtain ⟨k, rest, hqueue⟩ := List.exists_cons_of_ne_nil hne
      apply h.getsOn_found hcounts hworker hctl
      simp only [lookAt, Queues.torcIRqDequeue, hqueue]
      rfl
  | succ j ih =>
      cases hqueue : (s.node i).queues.publicGrq (j + 1) with
      | cons k rest =>
          apply h.getsOn_found hcounts hworker hctl
          simp only [lookAt, Queues.torcIRqDequeue, hqueue]
          rfl
      | nil =>
          have hlook : lookAt workers s i v again (.publicQueue (j + 1)) =
              some (s.setCtl i v (.next again (.publicQueue j))) := by
            simp only [lookAt, Queues.torcIRqDequeue, hqueue]
            rfl
          apply h.getsOn_look hcounts hworker hctl hlook rfl
          intro hs'
          apply ih hs' (worker_setCtl_self ..)
          obtain ⟨j', hj', hne⟩ := htask
          refine ⟨j', ?_, hne⟩
          by_contra hlt
          have hlast : j' = j + 1 := by omega
          subst hlast
          exact hne hqueue

/-- A search from its beginning finds a task if the queues of the node have one. -/
theorem Consistent.getsOn_search (h : Consistent workers root s)
    (hcounts : ∀ w ∈ workers, w ≤ maxNvps) (hworker : IsWorker workers i v) {again : Bool}
    (hctl : (s.worker i v).ctl = .next again .privateQueue)
    (htask : (s.node i).queues.tasks ≠ []) : GetsOn workers root s := by
  cases hqueue : (s.node i).queues.privateGrq with
  | cons k rest =>
      apply h.getsOn_found hcounts hworker hctl
      simp only [lookAt, Queues.torcIPqDequeue, hqueue]
      rfl
  | nil =>
      have hlook : lookAt workers s i v again .privateQueue =
          some (s.setCtl i v (.next again (.publicQueue 9))) := by
        simp only [lookAt, Queues.torcIPqDequeue, hqueue]
        rfl
      apply h.getsOn_look hcounts hworker hctl hlook rfl
      intro hs'
      apply hs'.getsOn_publicQueue hcounts hworker (worker_setCtl_self ..)
      obtain ⟨k, hk⟩ := List.exists_mem_of_ne_nil _ htask
      rw [Queues.tasks, hqueue, List.nil_append, List.mem_flatMap] at hk
      obtain ⟨j, hj, hmem⟩ := hk
      exact ⟨j, Nat.le_of_lt_succ (List.mem_range.mp hj), List.ne_nil_of_mem hmem⟩

/-! ## Settled states -/

/-- A task that is not done is on a stack or in a queue. -/
theorem Settled.running_or_ready (hsettled : Settled s) (h : Placed s) (hlive : Live s.tasks k) :
    (s.tasks.status k = .running ∧ ∃ w : Nat × Nat, k ∈ (s.worker w.1 w.2).stack) ∨
      s.tasks.status k = .ready ∧ ∃ i, k ∈ (s.node i).queues.tasks := by
  obtain ⟨p, hp⟩ := h.exists_entry hlive
  have hshows := h.shows p _ hp
  cases p with
  | queue i =>
      obtain ⟨k', hk', heq⟩ := List.mem_map.mp hp
      obtain ⟨rfl, hstatus⟩ := Prod.mk.inj heq
      exact .inr ⟨hstatus.symm, i, hk'⟩
  | server i =>
      simp only [entries, hsettled.server i, ServerCtl.entries] at hp
      cases hp
  | hand i v =>
      simp only [entries, hsettled.ctl i v, WorkerCtl.entries] at hp
      cases hp
  | stack i v =>
      obtain ⟨k', hk', heq⟩ := List.mem_map.mp hp
      obtain ⟨rfl, hstatus⟩ := Prod.mk.inj heq
      exact .inl ⟨hstatus.symm, (i, v), hk'⟩
  | net =>
      simp only [entries, hsettled.net] at hp
      cases hp

theorem Settled.unsettled_eq_zero (hsettled : Settled s) : unsettled workers s = 0 := by
  have hnode : ∀ i, nodeRank workers s i = 0 := by
    intro i
    unfold nodeRank
    rw [hsettled.server i]
    simp [hsettled.ctl, WorkerCtl.rank, ServerCtl.rank]
  unfold unsettled
  simp [hnode, hsettled.net, netRank]

/-- A body that does not wait for open children goes on. -/
theorem Consistent.getsOn_body (h : Consistent workers root s)
    (hcounts : ∀ w ∈ workers, w ≤ maxNvps) (hsettled : Settled s) {rest : List Nat}
    (hruns : Runs workers s i v k rest)
    (hgo : (s.tasks.frame k).ctl = .blocked → s.tasks.ndep k ≤ 0) : GetsOn workers root s := by
  have hworker := hruns.isWorker
  have hactive := h.tasks.active (h.placed.status_stack hruns.stack)
  obtain ⟨s', hs⟩ := exists_bodyStep i v rest hactive.fits h.aimed.tasks
    (h.aimed.turn i v hworker) hgo
  have hmove : Move workers s (.worker i v) s' := by
    rcases bodyStep_move hruns hs with hmove | ⟨⟨hblocked, hndep⟩, -⟩
    · exact hmove
    · exact absurd (hgo hblocked) (Int.not_le.mpr hndep)
  refine ⟨s', h.leadsTo_work hworker ?_, h.change hcounts (.move hmove), ?_⟩
  · simp only [workerStep, hruns.ctl, hruns.stack]
    exact hs
  · -- nothing else is left to be done
    rcases h.lowers hmove with hlt | ⟨-, hlt⟩
    · exact hlt
    · rw [hsettled.unsettled_eq_zero] at hlt
      exact absurd hlt (Nat.not_lt_zero _)

/-- A worker whose body waits for open children, or that has none, looks for a task. -/
theorem Consistent.workerStep_poll (h : Consistent workers root s)
    (hctl : (s.worker i v).ctl = .body)
    (hnone : (s.worker i v).stack = [] → ¬ (i = 0 ∧ v = 0))
    (hwaits : ∀ k rest, (s.worker i v).stack = k :: rest →
      (s.tasks.frame k).ctl = .blocked ∧ 0 < s.tasks.ndep k) (target : Nat) :
    workerStep workers s i v target = some (s.setCtl i v (.next false .privateQueue)) := by
  cases hstack : (s.worker i v).stack with
  | nil =>
      simp only [workerStep, hctl, hstack]
      exact if_neg (hnone hstack)
  | cons k rest =>
      obtain ⟨hblocked, hndep⟩ := hwaits k rest hstack
      have hfits := (h.tasks.active (h.placed.status_stack hstack)).fits
      cases hcode : (s.tasks.frame k).code with
      | waitall code =>
          simp only [workerStep, hctl, hstack, bodyStep, hblocked, hcode,
            if_neg (Int.not_le.mpr hndep)]
      | ret | spawn => simp [Frame.Fits, hblocked, hcode] at hfits

/-- Its search finds a task in the queues of its node. -/
theorem Consistent.getsOn_poll (h : Consistent workers root s)
    (hcounts : ∀ w ∈ workers, w ≤ maxNvps) (hsettled : Settled s)
    (hworker : IsWorker workers i v)
    (htask : (s.node i).queues.tasks ≠ [])
    (hpoll : ∀ target, workerStep workers s i v target =
      some (s.setCtl i v (.next false .privateQueue))) : GetsOn workers root s := by
  have hs' := h.change hcounts (.poll hworker (hsettled.ctl i v))
  have hsearch := hs'.getsOn_search hcounts hworker (worker_setCtl_self ..) htask
  exact hsearch.of_leadsTo (h.leadsTo_work hworker (hpoll _)) rfl

/-- Worker 0 of the node of a task finds it. -/
theorem Consistent.getsOn_queue (h : Consistent workers root s)
    (hcounts : ∀ w ∈ workers, 0 < w ∧ w ≤ maxNvps) (hsettled : Settled s)
    (hroot : 0 ∈ (s.worker 0 0).stack) (htask : (s.node i).queues.tasks ≠ []) :
    GetsOn workers root s := by
  have hle : ∀ w ∈ workers, w ≤ maxNvps := fun w hw ↦ (hcounts w hw).2
  have hi : i < workers.length := (h.sound.queues i).resolve_right htask
  have hworker : IsWorker workers i 0 := by
    refine ⟨hi, ?_⟩
    rw [List.getD_eq_getElem _ _ hi]
    exact (hcounts _ (List.getElem_mem hi)).1
  have hctl := hsettled.ctl i 0
  have hnone : (s.worker i 0).stack = [] → ¬ (i = 0 ∧ 0 = 0) := by
    rintro hstack ⟨rfl, -⟩
    rw [hstack] at hroot
    cases hroot
  by_cases hgo : ∃ k rest, (s.worker i 0).stack = k :: rest ∧
      ((s.tasks.frame k).ctl = .blocked → s.tasks.ndep k ≤ 0)
  · obtain ⟨k, rest, hstack, hgo⟩ := hgo
    exact h.getsOn_body hle hsettled ⟨hworker, hctl, hstack⟩ hgo
  · apply h.getsOn_poll hle hsettled hworker htask
    apply h.workerStep_poll hctl hnone
    intro k rest hstack
    by_contra hwaits
    refine hgo ⟨k, rest, hstack, fun hblocked ↦ ?_⟩
    exact Int.not_lt.mp fun hndep ↦ hwaits ⟨hblocked, hndep⟩

/-- Where every task has begun or is ready, the body that began last of all goes on, or one of its
children is ready. -/
theorem Consistent.exists_latest (h : Consistent workers root s) (hreturned : s.returned = false)
    (hlive : ∀ k, Live s.tasks k → s.tasks.status k = .ready ∨
      s.tasks.status k = .running ∧ ∃ w : Nat × Nat, k ∈ (s.worker w.1 w.2).stack) :
    0 ∈ (s.worker 0 0).stack ∧ ∃ j u t rest, (s.worker j u).stack = t :: rest ∧
      (((s.tasks.frame t).ctl = .blocked → s.tasks.ndep t ≤ 0) ∨
        ∃ c, Live s.tasks c ∧ s.tasks.status c = .ready) := by
  -- the program is on a stack, so that some body began last
  have hroot : ∃ w : Nat × Nat, 0 ∈ (s.worker w.1 w.2).stack := by
    rcases hlive 0 ⟨h.tasks.pos, hreturned⟩ with hready | ⟨-, hw⟩
    · have hbegun := h.ordered.root
      rw [hready] at hbegun
      exact hbegun.elim
    · exact hw
  obtain ⟨w, hw⟩ := hroot
  have hbound : ∀ w : Nat × Nat, ∀ t ∈ (s.worker w.1 w.2).stack,
      s.tasks.begun t < s.tasks.clock := by
    intro w t ht
    apply h.ordered.clock
    rw [h.placed.shows (.stack w.1 w.2) (t, .running) (List.mem_map_of_mem ht)]
    trivial
  obtain ⟨⟨j, u⟩, t, rest, hstack, hlatest⟩ := h.stacked.sorted.exists_latest hbound hw
  constructor
  · obtain ⟨hi, hv⟩ := h.stacked.program w.1 w.2 hw
    rw [hi, hv] at hw
    exact hw
  · refine ⟨j, u, t, rest, hstack, ?_⟩
    by_cases hgo : (s.tasks.frame t).ctl = .blocked → s.tasks.ndep t ≤ 0
    · exact .inl hgo
    · right
      obtain ⟨hblocked, hndep⟩ := Classical.not_imp.mp hgo
      have hcount := (h.tasks.active (h.placed.status_stack hstack)).ndep
      simp only [Frame.owed, hblocked] at hcount
      obtain ⟨c, hchild, hopen⟩ := List.countP_pos_iff.mp
        (show 0 < s.tasks.countOpen (s.tasks.frame t).children by omega)
      obtain ⟨hc, hparent⟩ := (h.tasks.child t c).mp hchild
      have hlive' : Live s.tasks c := ⟨hc, by simpa [Tasks.isOpen] using hopen⟩
      rcases hlive c hlive' with hready | ⟨hrun, w', hw'⟩
      · exact ⟨c, hlive', hready⟩
      · -- a child that has begun began after its parent, which is the latest of all
        have hafter := h.ordered.after c hc t hparent (by rw [hrun]; trivial)
        exact absurd hafter (Nat.not_lt.mpr (hlatest w' c hw'))

theorem Consistent.getsOn_settled (h : Consistent workers root s)
    (hcounts : ∀ w ∈ workers, 0 < w ∧ w ≤ maxNvps) (hsettled : Settled s)
    (hreturned : s.returned = false) : GetsOn workers root s := by
  obtain ⟨hprogram, j, u, t, rest, hstack, hgo | ⟨c, hlive, hready⟩⟩ :=
    h.exists_latest hreturned fun k hk ↦ by
      rcases hsettled.running_or_ready h.placed hk with hrun | ⟨hready, -⟩
      · exact .inr hrun
      · exact .inl hready
  · have hworker : IsWorker workers j u := by
      rcases h.sound.worker j u with hworker | hnone
      · exact hworker
      · rw [hnone] at hstack
        cases hstack
    exact h.getsOn_body (fun w hw ↦ (hcounts w hw).2) hsettled
      ⟨hworker, hsettled.ctl j u, hstack⟩ hgo
  · rcases hsettled.running_or_ready h.placed hlive with ⟨hrun, -⟩ | ⟨-, i, hi⟩
    · rw [hrun] at hready
      cases hready
    · exact h.getsOn_queue hcounts hsettled hprogram (List.ne_nil_of_mem hi)

/-! ## The end of the program -/

theorem Consistent.leadsTo_returned (h : Consistent workers root s)
    (hcounts : ∀ w ∈ workers, 0 < w ∧ w ≤ maxNvps) :
    ∃ s', (system workers root).LeadsTo (Follows workers) s s' ∧ s'.returned = true ∧
      Finished root s' := by
  have hle : ∀ w ∈ workers, w ≤ maxNvps := fun w hw ↦ (hcounts w hw).2
  obtain ⟨s', hlead, hs', hreturned⟩ := System.exists_leadsTo_of_lt
    (system workers root) (Follows workers)
    (Consistent workers root) (fun t ↦ Consistent workers root t ∧ t.returned = true)
    (fun t ↦ t.tasks.total Tasks.workRates) (by
      intro t ht
      rcases ht.settles hle with ⟨t', hlead, ht', hlt⟩ | ⟨t', hlead, ht', htasks, hsettled⟩
      · exact ⟨t', hlead, .inr ⟨ht', hlt⟩⟩
      · cases hreturned : t'.returned with
        | true => exact ⟨t', hlead, .inl ⟨ht', hreturned⟩⟩
        | false =>
            have hgo := ht'.getsOn_settled hcounts hsettled hreturned
            obtain ⟨t'', hlead', ht'', hlt⟩ := hgo.of_leadsTo hlead htasks
            exact ⟨t'', hlead', .inr ⟨ht'', hlt⟩⟩)
    h
  exact ⟨s', hlead, hreturned, hs'.toCoherent.finished hreturned⟩

/-- From every reachable state the program can get to its end, with calls of `torc_to_rq_end` that
do not overlap on a node, and has its serial outcome there. -/
theorem never_stuck (L : Layout) (p : Program β L.workers)
    (h : (system L.workers p.body).Reachable s) :
    ∃ s', (system L.workers p.body).LeadsTo (Follows L.workers) s s' ∧ s'.returned = true ∧
      Finished p.body s' :=
  (consistent_of_reachable L p h).leadsTo_returned L.counts

/-- A child for node 0 that spawns one there, each waited for. -/
def nestedChild : Program Nat twoNodes.workers where
  body := .spawn (some 0)
    (.spawn (some 0) (.ret 7) (.waitall fun vars ↦ .ret ((vars.headD none).getD 0)))
    (.waitall fun vars ↦ .ret ((vars.headD none).getD 0))
  joins := ⟨⟨rfl, fun _ ↦ rfl⟩, fun _ ↦ rfl⟩
  aims := ⟨by decide, ⟨by decide, trivial, fun _ ↦ trivial⟩, fun _ ↦ trivial⟩

/-- The child runs inside the wait of the program and waits itself when the other node asks for its
child. -/
def nestedChildAsked : List Act :=
  .setStealing 1 true :: List.replicate 21 (.work 0 0 0) ++ List.replicate 13 (.work 1 0 0)

set_option maxRecDepth 8000 in
theorem never_stuck_nestedChild : ∃ s, (system twoNodes.workers nestedChild.body).Reachable s ∧
    (s.worker 0 0).stack = [1, 0] ∧ s.net.length = 1 ∧ (s.node 1).internodeM = true ∧
    ∃ s', (system twoNodes.workers nestedChild.body).LeadsTo (Follows twoNodes.workers) s s' ∧
      s'.returned = true ∧ Finished nestedChild.body s' := by
  have hend : ((system twoNodes.workers nestedChild.body).run (.start nestedChild.body)
      nestedChildAsked).map
        (fun s ↦ ((s.worker 0 0).stack, s.net.length, (s.node 1).internodeM)) =
        some ([1, 0], 1, true) := by decide
  obtain ⟨s, hreach, hs⟩ := System.Reachable.eval (.init rfl) hend
  simp only [Prod.mk.injEq] at hs
  obtain ⟨hstack, hnet, hheld⟩ := hs
  exact ⟨s, hreach, hstack, hnet, hheld, never_stuck twoNodes nestedChild hreach⟩

end Torc.Parallel
