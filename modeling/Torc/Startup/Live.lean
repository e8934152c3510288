import Torc.Startup.Rank
import Torc.Lib.Fairness

/-!
# The initialisation comes to its end

A worker 0 that waits in a collective operation waits for the node that is behind, one that waits
for its workers waits for one that counts itself, and a server never keeps the lock.
-/

namespace Torc.Startup

open Transition

variable {threadSafe : Bool} {workers : List Nat} {s s' : State} {nd : Node} {k i v : Nat}

/-! ## Threads that can go on -/

/-- Worker 0 has a step that takes it on, once the lock is free. -/
def State.MainPending (workers : List Nat) (s : State) (i : Nat) : Prop :=
  match (s.node i).main with
  | .inside _ => Complete workers s i
  | .wait => workers.getD i 0 ≤ (s.node i).createdWorkers
  | .loop => False
  | _ => True

def State.WorkerPending (workers : List Nat) (s : State) (i v : Nat) : Prop :=
  (s.node i).worker v = .count ∨
    (s.node i).worker v = .wait ∧ workers.getD i 0 ≤ (s.node i).createdWorkers

theorem State.MainPending.congr (h : s.MainPending workers i) (hsame : s.Same s') :
    s'.MainPending workers i := by
  unfold MainPending at h ⊢
  rw [(hsame.node i).main, (hsame.node i).createdWorkers]
  unfold Complete at h ⊢
  rw [hsame.calls]
  exact h

theorem State.WorkerPending.congr (h : s.WorkerPending workers i v) (hsame : s.Same s') :
    s'.WorkerPending workers i v := by
  unfold WorkerPending at h ⊢
  rw [(hsame.node i).worker, (hsame.node i).createdWorkers]
  exact h

theorem Node.Counts.exists_count (h : nd.Counts k) (hstage : 15 ≤ nd.main.stage)
    (hk : nd.createdWorkers < k) : ∃ v, nd.worker v = .count := by
  by_contra hnone
  have hall : nd.counted k = Finset.range k := by
    apply Finset.filter_true_of_mem
    intro v hv
    by_cases hzero : v = 0
    · exact .inl ⟨hzero, hstage⟩
    · have hborn := (h.born v).mpr
        ⟨Nat.pos_of_ne_zero hzero, by
          rw [MainCtl.begun_of_stage (by omega)]
          exact Finset.mem_range.mp hv⟩
      cases hctl : nd.worker v with
      | unborn => exact absurd hctl hborn
      | count => exact absurd ⟨v, hctl⟩ hnone
      | wait => exact .inr (.inl hctl)
      | loop => exact .inr (.inr hctl)
  rw [h.created, hall, Finset.card_range] at hk
  exact Nat.lt_irrefl k hk

/-- Some thread can go on until all are in their loops. -/
theorem Inv.exists_pending (h : Inv threadSafe workers s) (hnodes : 0 < workers.length)
    (hrank : s.rank workers ≠ 0) : (∃ i < workers.length, s.MainPending workers i) ∨
      ∃ i < workers.length, ∃ v, s.WorkerPending workers i v := by
  by_contra hnone
  have hmain : ∀ i < workers.length, ¬ s.MainPending workers i :=
    fun i hi hpending ↦ hnone (.inl ⟨i, hi, hpending⟩)
  have hworker : ∀ i < workers.length, ∀ v, ¬ s.WorkerPending workers i v :=
    fun i hi v hpending ↦ hnone (.inr ⟨i, hi, v, hpending⟩)
  have hcomplete : ∀ i < workers.length, Complete workers s i → (s.node i).main = .loop := by
    intro i hi hall
    have hblocked := hmain i hi
    unfold State.MainPending at hblocked
    cases hctl : (s.node i).main with
    | inside c => simp [hctl, hall] at hblocked
    | wait =>
        rw [hctl] at hblocked
        obtain ⟨v, hv⟩ := (h.counts i hi).exists_count (by simp [hctl, MainCtl.stage])
          (Nat.lt_of_not_le hblocked)
        exact absurd (.inl hv) (hworker i hi v)
    | loop => rfl
    | _ => simp [hctl] at hblocked
  have hloop : ∀ i < workers.length, (s.node i).main = .loop := by
    obtain ⟨i, hi, hlast⟩ := Rounds.exists_last (fun i ↦ (s.calls i).length) hnodes
    have hend := hcomplete i hi hlast
    intro j hj
    apply hcomplete j hj
    intro l hl
    have hle := hlast l hl
    rw [h.length_calls hi, hend] at hle
    rw [h.length_calls hj]
    exact (s.node j).main.started_le.trans hle
  apply hrank
  apply Finset.sum_eq_zero
  intro i hi
  have hi := Finset.mem_range.mp hi
  have hcreated := h.created_of_loop hi (hloop i hi) i hi
  rw [Node.rank, hloop i hi]
  apply Nat.add_eq_zero_iff.mpr
  refine ⟨by simp [MainCtl.rank, MainCtl.stage, MainCtl.rounds],
    Finset.sum_eq_zero fun v hv ↦ ?_⟩
  obtain ⟨hpos, hv⟩ := Finset.mem_Ico.mp hv
  rcases hcreated.counted v hv with ⟨hzero, -⟩ | hwait | hend
  · omega
  · exact absurd (.inr ⟨hwait, hcreated.created.ge⟩) (hworker i hi v)
  · rw [hend]
    rfl

/-! ## Steps of these threads -/

theorem exists_mainStep (h : s.MainPending workers i)
    (hfree : ∀ sec, (s.node i).main = .enterCs sec → threadSafe = true ∨
      (s.node i).commM = false) :
    ∃ s', mainStep threadSafe workers s i = some s' := by
  unfold State.MainPending at h
  unfold mainStep
  cases hctl : (s.node i).main <;> simp only [hctl] at h ⊢
  case enterCs sec =>
    rcases hfree sec hctl with hsafe | hfree
    · simp [hsafe]
    · rw [hfree]
      split <;> simp
  case inside c =>
    rw [if_pos h]
    simp
  case startWorker | fill | wait => split <;> simp
  all_goals simp

theorem mainStep_ne (h : s.MainPending workers i)
    (hs : mainStep threadSafe workers s i = some s') : (s'.node i).main ≠ (s.node i).main := by
  unfold State.MainPending at h
  unfold mainStep at hs
  cases hctl : (s.node i).main <;> simp only [hctl] at h hs ⊢
  case inside c =>
    rw [if_pos h] at hs
    cases hs
    cases c <;> simp [Call.after]
  case wait =>
    rw [if_neg (Nat.not_lt.mpr h)] at hs
    cases hs
    simp [State.setMain]
  case leaveCs sec =>
    cases hs
    cases sec <;> simp [Section.after]
  case enterCs | startWorker | fill =>
    split at hs <;> (try split at hs) <;> cases hs <;> simp [State.setMain]
  all_goals
    cases hs
    simp [State.setMain, State.start]

theorem exists_workerStep (h : s.WorkerPending workers i v) :
    ∃ s', workerStep workers s i v = some s' := by
  unfold workerStep
  rcases h with hcount | ⟨hwait, hk⟩
  · simp [hcount]
  · simp only [hwait]
    split <;> simp

theorem workerStep_ne (h : s.WorkerPending workers i v)
    (hs : workerStep workers s i v = some s') :
    (s'.node i).worker v ≠ (s.node i).worker v := by
  unfold workerStep at hs
  rcases h with hcount | ⟨hwait, hk⟩
  · simp only [hcount] at hs ⊢
    cases hs
    simp
  · simp only [hwait, if_neg (Nat.not_lt.mpr hk)] at hs ⊢
    cases hs
    simp [State.setWorker]

theorem step_main (hi : i < workers.length) :
    (system threadSafe workers).step (.main i) s = mainStep threadSafe workers s i :=
  if_pos hi

theorem step_worker (hi : i < workers.length) :
    (system threadSafe workers).step (.worker i v) s = workerStep workers s i v :=
  if_pos hi

theorem step_server (hi : i < workers.length) :
    (system threadSafe workers).step (.server i) s = serverStep threadSafe s i :=
  if_pos hi

theorem Act.of_thread {a : Act} (h : a.thread = some (i, some v)) :
    a = .worker i v ∨ a = .main i ∧ v = 0 := by
  cases a <;> cases h
  case main => exact .inr ⟨rfl, rfl⟩
  case worker => exact .inl rfl

theorem Act.eq_server {a : Act} (h : a.thread = some (i, none)) : a = .server i := by
  cases a <;> cases h
  rfl

/-! ## The lock -/

theorem Local.holding {n : Nat} {nd' : Node} (h : Local threadSafe n k nd nd')
    (hlocked : nd.Locked threadSafe) (hpolls : nd.server = .holding) :
    nd'.server = .holding ∨ nd'.commM = false := by
  cases h with
  | startServer hctl =>
      have hstage := hlocked.served (by rw [hpolls]; simp)
      simp [hctl, MainCtl.stage] at hstage
  | poll hserver =>
      rw [hpolls] at hserver
      cases hserver
  | polled => exact .inr rfl
  | _ => exact .inl hpolls

theorem Step.holding (h : Step threadSafe workers s s') (hinv : Inv threadSafe workers s)
    (hi : i < workers.length) (hpolls : (s.node i).server = .holding) :
    (s'.node i).server = .holding ∨ (s'.node i).commM = false := by
  cases h with
  | same => exact .inl hpolls
  | @node j nd hj hlocal =>
      by_cases hij : i = j
      · subst hij
        rw [State.node_setNode_self]
        exact hlocal.holding (hinv.locked i hi) hpolls
      · rw [State.node_setNode_of_ne hij]
        exact .inl hpolls
  | @call j c hj =>
      by_cases hij : i = j
      · subst hij
        simp [State.start, State.setMain, hpolls]
      · simp [State.start, State.setMain, State.node_setNode_of_ne hij, hpolls]
  | @complete j c hj =>
      by_cases hij : i = j
      · subst hij
        simp [hpolls]
      · simp [State.node_setNode_of_ne hij, hpolls]

section Fair

variable {r : Run (system threadSafe workers)}

theorem leads_free (hfair : r.Fair Act.thread) (hinv : ∀ n, Inv threadSafe workers (r.state n))
    (hi : i < workers.length) :
    r.Leads (fun s ↦ (s.node i).server = .holding) (fun s ↦ (s.node i).commM = false) := by
  apply hfair.leads (i, none)
  · intro n hpolls
    rcases (step_cases (r.step n)).holding (hinv n) hi hpolls with hkeep | hfree
    · by_cases hthread : (r.act n).thread = some (i, none)
      · have hs := r.step n
        rw [Act.eq_server hthread, step_server hi] at hs
        simp only [serverStep, hpolls] at hs
        rw [← Option.some.inj hs]
        simp
      · exact .inr ⟨hkeep, hthread⟩
    · exact .inl hfree
  · intro n hkeep
    have hs : ∃ s', serverStep threadSafe (r.state n) i = some s' := by
      simp [serverStep, hkeep n le_rfl]
    obtain ⟨s', hs⟩ := hs
    exact ⟨n, le_rfl, .server i, s', rfl, (step_server hi).trans hs⟩

theorem exists_free (hfair : r.Fair Act.thread) (hinv : ∀ n, Inv threadSafe workers (r.state n))
    (hi : i < workers.length) (n : Nat) (hout : ¬ ((r.state n).node i).main.InSection) :
    ∃ m, n ≤ m ∧ ((r.state m).node i).commM = false := by
  cases hfree : ((r.state n).node i).commM with
  | false => exact ⟨n, le_rfl, hfree⟩
  | true =>
      obtain ⟨-, hsection | hpolls⟩ := ((hinv n).locked i hi).held.mp hfree
      · exact absurd hsection hout
      · exact leads_free hfair hinv hi n hpolls

/-! ## Fair runs -/

theorem leads_main (hpos : ∀ w ∈ workers, 0 < w) (hfair : r.Fair Act.thread)
    (hinv : ∀ n, Inv threadSafe workers (r.state n)) (hi : i < workers.length) (d : Nat) :
    r.Leads (fun s ↦ s.MainPending workers i ∧ s.rank workers = d)
      (fun s ↦ s.rank workers < d) := by
  apply hfair.leads (i, some 0)
  · rintro n ⟨hpending, hd⟩
    rcases (step_cases (r.step n)).rank (hinv n) hpos with hlt | hsame
    · exact .inl (hlt.trans_eq hd)
    · refine .inr ⟨⟨hpending.congr hsame, hsame.rank.trans hd⟩, fun hthread ↦ ?_⟩
      have hs := r.step n
      rcases Act.of_thread hthread with hact | ⟨hact, -⟩
      · rw [hact, step_worker hi, workerStep, ((hinv n).counts i hi).zero_unborn] at hs
        cases hs
      · rw [hact, step_main hi] at hs
        exact mainStep_ne hpending hs (hsame.node i).main
  · intro n hkeep
    by_cases hcs : ∃ sec, ((r.state n).node i).main = .enterCs sec
    · obtain ⟨sec, hsec⟩ := hcs
      have hout : ¬ ((r.state n).node i).main.InSection := by
        rw [hsec]
        exact id
      obtain ⟨m, hm, hfree⟩ := exists_free hfair hinv hi n hout
      obtain ⟨s', hs⟩ := exists_mainStep (hkeep m hm).1 fun _ _ ↦ .inr hfree
      exact ⟨m, hm, .main i, s', rfl, (step_main hi).trans hs⟩
    · have hs : ∃ s', mainStep threadSafe workers (r.state n) i = some s' :=
        exists_mainStep (hkeep n le_rfl).1 fun sec hsec ↦ absurd ⟨sec, hsec⟩ hcs
      obtain ⟨s', hs⟩ := hs
      exact ⟨n, le_rfl, .main i, s', rfl, (step_main hi).trans hs⟩

theorem leads_worker (hpos : ∀ w ∈ workers, 0 < w) (hfair : r.Fair Act.thread)
    (hinv : ∀ n, Inv threadSafe workers (r.state n)) (hi : i < workers.length) (v d : Nat) :
    r.Leads (fun s ↦ s.WorkerPending workers i v ∧ s.rank workers = d)
      (fun s ↦ s.rank workers < d) := by
  apply hfair.leads (i, some v)
  · rintro n ⟨hpending, hd⟩
    rcases (step_cases (r.step n)).rank (hinv n) hpos with hlt | hsame
    · exact .inl (hlt.trans_eq hd)
    · refine .inr ⟨⟨hpending.congr hsame, hsame.rank.trans hd⟩, fun hthread ↦ ?_⟩
      have hs := r.step n
      rcases Act.of_thread hthread with hact | ⟨-, hzero⟩
      · rw [hact, step_worker hi] at hs
        exact workerStep_ne hpending hs (congrFun (hsame.node i).worker v)
      · have hunborn := ((hinv n).counts i hi).zero_unborn
        rcases hpending with hcount | ⟨hwait, -⟩
        · rw [hzero, hunborn] at hcount
          cases hcount
        · rw [hzero, hunborn] at hwait
          cases hwait
  · intro n hkeep
    obtain ⟨s', hs⟩ := exists_workerStep (hkeep n le_rfl).1
    exact ⟨n, le_rfl, .worker i v, s', rfl, (step_worker hi).trans hs⟩

end Fair

/-! ## The end of the initialisation -/

/-- All workers of all nodes are in their scheduler loops. -/
structure Started (threadSafe : Bool) (workers : List Nat) (s : State) : Prop where
  inv : Inv threadSafe workers s
  rank : s.rank workers = 0

theorem Started.step (h : Started threadSafe workers s) (hpos : ∀ w ∈ workers, 0 < w) {a : Act}
    (hs : (system threadSafe workers).step a s = some s') : Started threadSafe workers s' where
  inv := h.inv.step hpos (step_cases hs)
  rank := by
    rcases (step_cases hs).rank h.inv hpos with hlt | hsame
    · rw [h.rank] at hlt
      cases hlt
    · exact hsame.rank.trans h.rank

/-- In a fair run all workers of all nodes come to their scheduler loops and stay there. -/
theorem fair_run_starts (L : Layout) {r : Run (system threadSafe L.workers)}
    (hstart : r.state 0 = {}) (hfair : r.Fair Act.thread) :
    ∃ n, ∀ m, n ≤ m → ∀ i < L.workers.length, ∀ v < L.workers.getD i 0,
      (r.state m).InLoop i v := by
  have hinv : ∀ n, Inv threadSafe L.workers (r.state n) :=
    fun n ↦ inv_of_reachable L.pos (r.reachable hstart n)
  have hlower : ∀ n, ¬ (r.state n).rank L.workers = 0 →
      ∃ m, n ≤ m ∧ (r.state m).rank L.workers < (r.state n).rank L.workers := by
    intro n hn
    rcases (hinv n).exists_pending L.nodes hn with ⟨i, hi, hpending⟩ | ⟨i, hi, v, hpending⟩
    · exact leads_main L.pos hfair hinv hi _ n ⟨hpending, rfl⟩
    · exact leads_worker L.pos hfair hinv hi v _ n ⟨hpending, rfl⟩
  obtain ⟨n, hn⟩ :=
    r.exists_of_lt (fun s ↦ s.rank L.workers) (fun s ↦ s.rank L.workers = 0) hlower
  have hstarted : ∀ m, n ≤ m → Started threadSafe L.workers (r.state m) := by
    intro m hm
    induction m, hm using Nat.le_induction with
    | base => exact ⟨hinv n, hn⟩
    | succ m hm ih => exact ih.step L.pos (r.step m)
  exact ⟨n, fun m hm i hi v hv ↦ inLoop_of_rank (hstarted m hm).rank hi hv⟩

/-! ## What goes on behind it -/

/-- The workers have nothing left to do. -/
theorem Started.stopped (h : Started threadSafe workers s) (i v : Nat) :
    ¬ (system threadSafe workers).CanAct Act.thread (i, some v) s := by
  rintro ⟨a, s', hthread, hs⟩
  rcases Act.of_thread hthread with rfl | ⟨rfl, -⟩
  · have hs' : Startup.step threadSafe workers s (.worker i v) = some s' := hs
    rw [Startup.step] at hs'
    split at hs'
    · rename_i hi
      have hborn : (s.node i).worker v ≠ .unborn → (s.node i).worker v = .loop := by
        intro hborn
        obtain ⟨hpos, hv⟩ := ((h.inv.counts i hi).born v).mp hborn
        rw [main_of_rank h.rank hi] at hv
        rcases inLoop_of_rank h.rank hi hv with ⟨hzero, -⟩ | hloop
        · omega
        · exact hloop
      unfold workerStep at hs'
      cases hctl : (s.node i).worker v <;> simp [hctl] at hs' hborn
    · cases hs'
  · have hs' : Startup.step threadSafe workers s (.main i) = some s' := hs
    rw [Startup.step] at hs'
    split at hs'
    · rename_i hi
      simp [mainStep, main_of_rank h.rank hi] at hs'
    · cases hs'

/-- With a thread-safe MPI the servers wait for messages, and do not poll. -/
theorem Started.server_stopped (h : Started true workers s) (i : Nat) :
    ¬ (system true workers).CanAct Act.thread (i, none) s := by
  rintro ⟨a, s', hthread, hs⟩
  obtain rfl := Act.eq_server hthread
  have hs' : Startup.step true workers s (.server i) = some s' := hs
  rw [Startup.step] at hs'
  split at hs'
  · rename_i hi
    have hfree : (s.node i).server ≠ .holding := by
      intro hpolls
      exact absurd ((h.inv.locked i hi).polls hpolls).1 (by decide)
    unfold serverStep at hs'
    cases hserver : (s.node i).server <;> simp_all
  · cases hs'

/-- Without one they take the lock and give it back for ever. -/
theorem Started.polls (h : Started false workers s) (hnodes : 1 < workers.length)
    (hi : i < workers.length) : ∃ s', (system false workers).step (.server i) s = some s' ∧
      ((s.node i).commM = true ∨ (s'.node i).commM = true) := by
  have hmain := main_of_rank h.rank hi
  have hserver : (s.node i).server ≠ .unborn :=
    (h.inv.tables i hi).server hnodes (by simp [hmain, MainCtl.stage])
  have hheld := (h.inv.locked i hi).held
  rw [step_server hi]
  cases hctl : (s.node i).server with
  | unborn => exact absurd hctl hserver
  | holding =>
      simp only [serverStep, hctl]
      exact ⟨_, rfl, .inl (hheld.mpr ⟨rfl, .inr hctl⟩)⟩
  | polling =>
      cases hcommM : (s.node i).commM with
      | false =>
          simp only [serverStep, hctl, hcommM]
          exact ⟨_, rfl, .inr (by simp)⟩
      | true =>
          -- only worker 0, which is in its loop, could hold the lock
          obtain ⟨-, hsection | hholding⟩ := hheld.mp hcommM
          · rw [hmain] at hsection
            exact absurd hsection id
          · rw [hctl] at hholding
            cases hholding

/-- The servers of the two nodes in turn. -/
theorem fair_of_servers {r : Run (system false unequalNodes.workers)} {N : Nat}
    (hend : ∀ n, r.act (N + n) = .server (n % 2) ∧
      Started false unequalNodes.workers (r.state (N + n))) : r.Fair Act.thread := by
  have hlater : ∀ n, N ≤ n → Started false unequalNodes.workers (r.state n) := by
    intro n hn
    rw [← Nat.add_sub_cancel' hn]
    exact (hend (n - N)).2
  apply Run.fair_of_recurring (N := N)
  rintro ⟨i, v | v⟩
  · by_cases hi : i < 2
    · left
      intro n
      refine ⟨N + (2 * n + i), by omega, ?_⟩
      rw [(hend _).1, Nat.mul_add_mod, Nat.mod_eq_of_lt hi]
      rfl
    · right
      rintro n - ⟨a, s', hthread, hs⟩
      obtain rfl := Act.eq_server hthread
      have hs' : Startup.step false unequalNodes.workers (r.state n) (.server i) = some s' := hs
      have hnone : Startup.step false unequalNodes.workers (r.state n) (.server i) = none :=
        if_neg hi
      rw [hnone] at hs'
      cases hs'
  · right
    exact fun n hn ↦ (hlater n hn).stopped i v

/-- The actions of the initialisation up to its end. -/
def startActs (threadSafe : Bool) : List Act :=
  (startRun ++ [Act.main 1, Act.main 1]).filter fun a ↦ !threadSafe || a ≠ .server 0

theorem exists_started (threadSafe : Bool) :
    ∃ s, (system threadSafe unequalNodes.workers).run {} (startActs threadSafe) = some s ∧
      Started threadSafe unequalNodes.workers s := by
  have hend : ((system threadSafe unequalNodes.workers).run {} (startActs threadSafe)).map
      (fun s ↦ s.rank unequalNodes.workers) = some 0 := by
    cases threadSafe <;> decide +kernel
  obtain ⟨s, hrun, hrank⟩ := Option.map_eq_some_iff.mp hend
  exact ⟨s, hrun, inv_of_reachable unequalNodes.pos (.run (.init rfl) hrun), hrank⟩

/-- A thread-safe MPI, and one for which the servers take `comm_m` again and again. -/
theorem fair_run_starts_unequalNodes :
    (∃ r : Run (system true unequalNodes.workers), r.state 0 = {} ∧ r.Fair Act.thread ∧
      ∃ n, ∀ m, n ≤ m →
      ∀ i < 2, ∀ v < unequalNodes.workers.getD i 0, (r.state m).InLoop i v) ∧
    ∃ r : Run (system false unequalNodes.workers), r.state 0 = {} ∧ r.Fair Act.thread ∧
      (∀ i < 2, ∀ n, ∃ m, n ≤ m ∧ ((r.state m).node i).commM = true) ∧
      ∃ n, ∀ m, n ≤ m →
      ∀ i < 2, ∀ v < unequalNodes.workers.getD i 0, (r.state m).InLoop i v := by
  constructor
  · obtain ⟨s, hrun, hs⟩ := exists_started true
    obtain ⟨r, hstart, hend⟩ := Run.exists_of_run (P := Started true unequalNodes.workers)
      (fun _ ↦ .idle) hrun hs fun _ s hs ↦ ⟨s, rfl, hs⟩
    have hfair : r.Fair Act.thread := by
      apply Run.fair_of_recurring (N := (startActs true).length)
      rintro ⟨i, v⟩
      right
      intro n hn
      have hstarted := (hend (n - (startActs true).length)).2
      rw [Nat.add_sub_cancel' hn] at hstarted
      cases v with
      | none => exact hstarted.server_stopped i
      | some v => exact hstarted.stopped i v
    exact ⟨r, hstart, hfair, fair_run_starts unequalNodes hstart hfair⟩
  · obtain ⟨s, hrun, hs⟩ := exists_started false
    obtain ⟨r, hstart, hend⟩ := Run.exists_of_run (P := Started false unequalNodes.workers)
      (fun n ↦ .server (n % 2)) hrun hs fun n s hs ↦ by
        obtain ⟨s', hstep, -⟩ := hs.polls (by decide) (Nat.mod_lt n Nat.two_pos)
        exact ⟨s', hstep, hs.step unequalNodes.pos hstep⟩
    have hfair : r.Fair Act.thread := fair_of_servers hend
    refine ⟨r, hstart, hfair, fun i hi n ↦ ?_, fair_run_starts unequalNodes hstart hfair⟩
    obtain ⟨hact, hstarted⟩ := hend (2 * n + i)
    obtain ⟨s', hstep, hlock⟩ := hstarted.polls (by decide) hi
    have hnext := r.step ((startActs false).length + (2 * n + i))
    rw [hact, Nat.mul_add_mod, Nat.mod_eq_of_lt hi, hstep] at hnext
    cases hnext
    rcases hlock with hbefore | hafter
    · exact ⟨_, by omega, hbefore⟩
    · exact ⟨_, by omega, hafter⟩

end Torc.Startup
