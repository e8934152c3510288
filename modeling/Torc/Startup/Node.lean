import Torc.Startup.Steps
import Mathlib.Data.Finset.Card
import Mathlib.Data.Finset.Range
import Mathlib.Data.List.GetD

/-!
# One node during the initialisation

The lock, the count of the created workers and the tables of a node, with what its own threads do to
them.
-/

namespace Torc.Startup

open Transition

variable {threadSafe : Bool} {workers : List Nat} {nd nd' : Node} {n k v : Nat}

/-! ## The lock -/

/-- `comm_m` is held by worker 0 or by the server, never by both. -/
structure Node.Locked (threadSafe : Bool) (nd : Node) : Prop where
  held : nd.commM = true ↔ threadSafe = false ∧ (nd.main.InSection ∨ nd.server = .holding)
  polls : nd.server = .holding → threadSafe = false ∧ ¬ nd.main.InSection
  served : nd.server ≠ .unborn → 2 ≤ nd.main.stage

theorem Node.Locked.congr (h : nd.Locked threadSafe) (hcomm : nd'.commM = nd.commM)
    (hserver : nd'.server = nd.server) (hsection : nd'.main.InSection ↔ nd.main.InSection)
    (hstage : nd.main.stage ≤ nd'.main.stage) : nd'.Locked threadSafe where
  held := by
    rw [hcomm, hserver, hsection]
    exact h.held
  polls := by
    rw [hserver, hsection]
    exact h.polls
  served := by
    rw [hserver]
    exact fun hborn ↦ (h.served hborn).trans hstage

theorem Section.after_stage (sec : Section) : 2 ≤ sec.after.stage := by
  cases sec <;> decide

theorem Section.first_stage (sec : Section) : 2 ≤ (MainCtl.call sec.first).stage := by
  cases sec <;> decide

theorem Node.Locked.step (h : nd.Locked threadSafe) (hstep : Local threadSafe n k nd nd') :
    nd'.Locked threadSafe := by
  cases hstep with
  | rqInit hctl | workersStarted hctl | filled hctl | waited hctl | startWorker hctl | fill hctl
  | count hctl =>
      apply h.congr <;> simp [hctl, MainCtl.InSection, MainCtl.stage]
  | workerCount | workerLoop => exact ⟨h.held, h.polls, h.served⟩
  | startServer hctl =>
      have hunborn : nd.server = .unborn := by
        by_contra hborn
        have hstage := h.served hborn
        simp [hctl, MainCtl.stage] at hstage
      have hfree : nd.commM ≠ true := by
        rw [Ne, h.held, hunborn, hctl]
        simp [MainCtl.InSection]
      refine ⟨?_, ?_, fun _ ↦ le_rfl⟩
      · simp only [hunborn]
        split <;> simp [hfree, MainCtl.InSection]
      · simp only [hunborn]
        split <;> simp
  | @enterSafe sec hctl hsafe =>
      have hfree : nd.commM ≠ true := by
        rw [Ne, h.held, hsafe]
        simp
      refine ⟨by simp [hfree, hsafe], ?_, fun _ ↦ sec.first_stage⟩
      intro hpolls
      rw [(h.polls hpolls).1] at hsafe
      cases hsafe
  | @enter sec hctl hsafe hfree =>
      refine ⟨by simp [hsafe, MainCtl.InSection], ?_, fun _ ↦ sec.first_stage⟩
      intro hpolls
      rw [h.held.mpr ⟨hsafe, .inr hpolls⟩] at hfree
      cases hfree
  | @leave sec hctl =>
      have hserver : nd.server ≠ .holding := by
        intro hpolls
        apply (h.polls hpolls).2
        rw [hctl]
        trivial
      have hout : ¬ sec.after.InSection := by
        cases sec <;> exact id
      refine ⟨?_, fun hpolls ↦ absurd hpolls hserver, fun _ ↦ sec.after_stage⟩
      have hheld := h.held
      cases threadSafe <;> simp_all [MainCtl.InSection]
  | poll hserver hsafe hfree =>
      have hout : ¬ nd.main.InSection := by
        intro hsection
        rw [h.held.mpr ⟨hsafe, .inl hsection⟩] at hfree
        cases hfree
      refine ⟨by simp [hsafe], fun _ ↦ ⟨hsafe, hout⟩,
        fun _ ↦ h.served (by rw [hserver]; simp)⟩
  | polled hserver =>
      obtain ⟨hsafe, hout⟩ := h.polls hserver
      exact ⟨by simp [hout], by simp, fun _ ↦ h.served (by rw [hserver]; simp)⟩

/-! ## The workers -/

/-- The workers below this one have been started, worker 0 apart. -/
def MainCtl.begun (k : Nat) : MainCtl → Nat
  | .rqInit | .startServer => 1
  | .startWorker v => v
  | _ => k

def Node.Counted (nd : Node) (v : Nat) : Prop :=
  (v = 0 ∧ 15 ≤ nd.main.stage) ∨ nd.worker v = .wait ∨ nd.worker v = .loop

instance (nd : Node) (v : Nat) : Decidable (nd.Counted v) :=
  inferInstanceAs (Decidable (_ ∨ _))

def Node.counted (nd : Node) (k : Nat) : Finset Nat :=
  (Finset.range k).filter nd.Counted

structure Node.Counts (k : Nat) (nd : Node) : Prop where
  range : ∀ v, nd.main = .startWorker v → 0 < v ∧ v ≤ k
  born : ∀ v, nd.worker v ≠ .unborn ↔ 0 < v ∧ v < nd.main.begun k
  created : nd.createdWorkers = (nd.counted k).card
  full : 16 ≤ nd.main.stage ∨ (∃ v, nd.worker v = .loop) → k ≤ nd.createdWorkers

theorem Node.Counts.all_counted (h : nd.Counts k) (hk : k ≤ nd.createdWorkers) (hv : v < k) :
    nd.Counted v := by
  rw [h.created] at hk
  have hcard : (nd.counted k).card = (Finset.range k).card := by
    apply Nat.le_antisymm (Finset.card_filter_le _ _)
    rw [Finset.card_range]
    exact hk
  exact Finset.filter_card_eq hcard v (Finset.mem_range.mpr hv)

theorem Node.counted_congr (h : ∀ v < k, nd'.Counted v ↔ nd.Counted v) :
    nd'.counted k = nd.counted k :=
  Finset.filter_congr fun v hv ↦ h v (Finset.mem_range.mp hv)

/-- Thread `v` counts itself. -/
theorem Node.counted_insert (hv : v < k) (hnew : ¬ nd.Counted v)
    (h : ∀ u < k, nd'.Counted u ↔ u = v ∨ nd.Counted u) :
    (nd'.counted k).card = (nd.counted k).card + 1 := by
  have hinsert : nd'.counted k = insert v (nd.counted k) := by
    ext u
    rw [Finset.mem_insert, Node.counted, Node.counted, Finset.mem_filter, Finset.mem_filter,
      Finset.mem_range]
    constructor
    · rintro ⟨hu, hcounted⟩
      rcases (h u hu).mp hcounted with rfl | hold
      · exact .inl rfl
      · exact .inr ⟨hu, hold⟩
    · rintro (rfl | ⟨hu, hold⟩)
      · exact ⟨hv, (h u hv).mpr (.inl rfl)⟩
      · exact ⟨hu, (h u hu).mpr (.inr hold)⟩
  rw [hinsert, Finset.card_insert_of_notMem]
  exact fun hmem ↦ hnew (Finset.mem_filter.mp hmem).2

theorem exists_loop_of_update {worker : Nat → WorkerCtl} {ctl : WorkerCtl} (hctl : ctl ≠ .loop)
    (h : ∃ u, Function.update worker v ctl u = .loop) : ∃ u, worker u = .loop := by
  obtain ⟨u, hu⟩ := h
  by_cases huv : u = v
  · subst huv
    rw [Function.update_self] at hu
    exact absurd hu hctl
  · rw [Function.update_of_ne huv] at hu
    exact ⟨u, hu⟩

theorem Node.Counts.begun_le (h : nd.Counts k) (hk : 0 < k) : nd.main.begun k ≤ k := by
  cases hctl : nd.main with
  | rqInit | startServer => exact hk
  | startWorker v => exact (h.range v hctl).2
  | _ => exact le_rfl

/-- A step of worker 0 that neither starts a worker nor counts. -/
theorem Node.Counts.congr (h : nd.Counts k) (hworker : nd'.worker = nd.worker)
    (hcreated : nd'.createdWorkers = nd.createdWorkers)
    (hrange : ∀ v, nd'.main = .startWorker v → 0 < v ∧ v ≤ k)
    (hbegun : nd'.main.begun k = nd.main.begun k)
    (hcounted : 15 ≤ nd'.main.stage ↔ 15 ≤ nd.main.stage)
    (hfull : 16 ≤ nd'.main.stage → 16 ≤ nd.main.stage ∨ k ≤ nd.createdWorkers) :
    nd'.Counts k where
  range := hrange
  born v := by
    rw [hworker, hbegun]
    exact h.born v
  created := by
    have hsame : nd'.counted k = nd.counted k := by
      apply Node.counted_congr
      intro v _
      unfold Node.Counted
      rw [hcounted, hworker]
    rw [hcreated, hsame]
    exact h.created
  full := by
    rw [hcreated, hworker]
    rintro (hstage | hloop)
    · rcases hfull hstage with hstage | hk
      · exact h.full (.inl hstage)
      · exact hk
    · exact h.full (.inr hloop)

theorem Node.Counts.step (h : nd.Counts k) (hk : 0 < k) (hstep : Local threadSafe n k nd nd') :
    nd'.Counts k := by
  cases hstep with
  | rqInit hctl | filled hctl | fill hctl =>
      apply h.congr <;> simp [hctl, MainCtl.stage, MainCtl.begun]
  | startServer hctl =>
      apply h.congr <;> simp [hctl, MainCtl.stage, MainCtl.begun]
      omega
  | waited hctl hcreated =>
      apply h.congr <;> simp [hctl, MainCtl.stage, MainCtl.begun, hcreated]
  | poll | polled => exact ⟨h.range, h.born, h.created, h.full⟩
  | @workersStarted v hctl hv =>
      obtain ⟨-, hle⟩ := h.range v hctl
      obtain rfl := Nat.le_antisymm hle hv
      apply h.congr <;> simp [hctl, MainCtl.stage, MainCtl.begun]
  | @enterSafe sec hctl | @enter sec hctl | @leave sec hctl =>
      cases sec <;> apply h.congr <;>
        simp [hctl, MainCtl.stage, MainCtl.begun, Section.first, Section.after]
  | @startWorker v hctl hv =>
      obtain ⟨hpos, -⟩ := h.range v hctl
      -- the thread is not born yet, so it is not counted before its own step
      have hunborn : nd.worker v = .unborn := by
        by_contra hborn
        have hlt := ((h.born v).mp hborn).2
        simp [hctl, MainCtl.begun] at hlt
      refine ⟨?_, ?_, ?_, ?_⟩
      · intro u hu
        cases hu
        omega
      · intro u
        by_cases huv : u = v
        · subst huv
          simp [MainCtl.begun, hpos]
        · have hborn := h.born u
          rw [hctl] at hborn
          simp only [Function.update_of_ne huv, hborn, MainCtl.begun]
          omega
      · refine h.created.trans (congrArg Finset.card (Node.counted_congr fun u _ ↦ ?_)).symm
        by_cases huv : u = v
        · subst huv
          simp [Node.Counted, MainCtl.stage, hctl, hunborn]
        · simp [Node.Counted, MainCtl.stage, hctl, Function.update_of_ne huv]
      · rintro (hstage | hloop)
        · simp [MainCtl.stage] at hstage
        · exact h.full (.inr (exists_loop_of_update (by simp) hloop))
  | count hctl =>
      -- worker 0 adds itself to created_workers without being born
      have hzero : nd.worker 0 = .unborn := by
        by_contra hborn
        exact Nat.lt_irrefl 0 ((h.born 0).mp hborn).1
      refine ⟨?_, ?_, ?_, ?_⟩
      · intro v hv
        cases hv
      · intro v
        simpa [hctl, MainCtl.begun] using h.born v
      · refine (congrArg (· + 1) h.created).trans (Node.counted_insert hk ?_ fun u _ ↦ ?_).symm
        · simp [Node.Counted, hctl, MainCtl.stage, hzero]
        · simp [Node.Counted, hctl, MainCtl.stage]
      · rintro (hstage | hloop)
        · simp [MainCtl.stage] at hstage
        · exact Nat.le_succ_of_le (h.full (.inr hloop))
  | @workerCount v hctl =>
      obtain ⟨hpos, hbegun⟩ := (h.born v).mp (by rw [hctl]; simp)
      have hv : v < k := hbegun.trans_le (h.begun_le hk)
      refine ⟨h.range, ?_, ?_, ?_⟩
      · intro u
        by_cases huv : u = v
        · subst huv
          simp [hpos, hbegun]
        · simpa only [Function.update_of_ne huv] using h.born u
      -- the thread that counts itself is the only new one of the counted set
      · refine (congrArg (· + 1) h.created).trans (Node.counted_insert hv ?_ fun u _ ↦ ?_).symm
        · simp [Node.Counted, hctl, hpos.ne']
        · by_cases huv : u = v
          · subst huv
            simp [Node.Counted]
          · simp [Node.Counted, huv]
      · rintro (hstage | hloop)
        · exact Nat.le_succ_of_le (h.full (.inl hstage))
        · exact Nat.le_succ_of_le (h.full (.inr (exists_loop_of_update (by simp) hloop)))
  | @workerLoop v hctl hcreated =>
      obtain ⟨hpos, hbegun⟩ := (h.born v).mp (by rw [hctl]; simp)
      refine ⟨h.range, ?_, ?_, fun _ ↦ hcreated⟩
      · intro u
        by_cases huv : u = v
        · subst huv
          simp [hpos, hbegun]
        · simpa only [Function.update_of_ne huv] using h.born u
      · refine h.created.trans (congrArg Finset.card (Node.counted_congr fun u _ ↦ ?_)).symm
        by_cases huv : u = v
        · subst huv
          simp [Node.Counted, hctl]
        · simp [Node.Counted, Function.update_of_ne huv]

/-! ## The tables -/

/-- The entries of `node_info` below this one have been filled. -/
def MainCtl.filled (n : Nat) : MainCtl → Nat
  | .fill j => j
  | ctl => if ctl.stage < 10 then 0 else n

structure Node.Tables (workers : List Nat) (nd : Node) : Prop where
  server : 1 < workers.length → 2 ≤ nd.main.stage → nd.server ≠ .unborn
  gathered : 6 ≤ nd.main.stage → ∀ j < workers.length, nd.gathered j = workers.getD j 0
  info : ∀ j < nd.main.filled workers.length, nd.nodeInfo j = workers.getD j 0

theorem Node.Tables.congr (h : nd.Tables workers) (hserver : nd'.server = nd.server)
    (hgathered : nd'.gathered = nd.gathered) (hinfo : nd'.nodeInfo = nd.nodeInfo)
    (hstarted : 2 ≤ nd'.main.stage → 2 ≤ nd.main.stage)
    (hsent : 6 ≤ nd'.main.stage → 6 ≤ nd.main.stage)
    (hfilled : nd'.main.filled workers.length ≤ nd.main.filled workers.length) :
    nd'.Tables workers where
  server hnodes hstage := by
    rw [hserver]
    exact h.server hnodes (hstarted hstage)
  gathered hstage j hj := by
    rw [hgathered]
    exact h.gathered (hsent hstage) j hj
  info j hj := by
    rw [hinfo]
    exact h.info j (hj.trans_le hfilled)

theorem Node.Tables.step (h : nd.Tables workers)
    (hstep : Local threadSafe workers.length k nd nd') : nd'.Tables workers := by
  cases hstep with
  | rqInit hctl | startWorker hctl | workersStarted hctl | count hctl | waited hctl =>
      apply h.congr <;> simp [hctl, MainCtl.stage, MainCtl.filled]
  | @enterSafe sec hctl | @enter sec hctl | @leave sec hctl =>
      cases sec <;> apply h.congr <;>
        simp [hctl, MainCtl.stage, MainCtl.filled, Section.first, Section.after]
  | workerCount | workerLoop => exact ⟨h.server, h.gathered, h.info⟩
  | poll hserver | polled hserver =>
      refine ⟨fun _ _ ↦ by simp, h.gathered, h.info⟩
  | startServer hctl =>
      refine ⟨?_, ?_, ?_⟩
      · intro hnodes _
        simp [hnodes]
      · simp [MainCtl.stage]
      · simp [MainCtl.stage, MainCtl.filled]
  | @fill j hctl hj =>
      have hsent := h.gathered (by simp [hctl, MainCtl.stage])
      refine ⟨fun hnodes _ ↦ h.server hnodes (by simp [hctl, MainCtl.stage]),
        fun _ ↦ hsent, ?_⟩
      intro l hl
      rcases Nat.lt_succ_iff_lt_or_eq.mp hl with hlt | rfl
      · have hinfo := h.info l (by simpa [hctl, MainCtl.filled] using hlt)
        simpa only [Function.update_of_ne hlt.ne] using hinfo
      · simpa only [Function.update_self] using hsent l hj
  | @filled j hctl hj =>
      refine ⟨fun hnodes _ ↦ h.server hnodes (by simp [hctl, MainCtl.stage]),
        fun _ ↦ h.gathered (by simp [hctl, MainCtl.stage]), ?_⟩
      intro l hl
      have hl' : l < workers.length := by simpa [MainCtl.filled, MainCtl.stage] using hl
      exact h.info l (by simpa [hctl, MainCtl.filled] using hl'.trans_le hj)

end Torc.Startup
