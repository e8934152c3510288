import Torc.Shutdown.Machine
import Torc.Lib.Update
import Mathlib.Data.Finset.Card
import Mathlib.Data.Finset.Range
import Mathlib.Data.List.GetD

/-!
# The barrier of `_torc_md_end`

`active_workers` counts the workers that have not exited, so worker 0 enters the barrier as the last
one of its node and leaves it when no worker of any node is in its scheduler loop.
-/

namespace Torc.Shutdown

open Transition

variable {threadSafe : Bool} {workers : List Nat} {s s' : State} {i k w src dst : Nat}
  {p q : Phase} {m m' : Message}

/-! ## The parts of a state -/

theorem setWorker_self (s : State) (k w : Nat) (p : Phase) :
    (s.setWorker k w p).worker k w = p :=
  Update.update_update_self s.worker k w p

theorem setWorker_other (s : State) (p : Phase) {k' w' : Nat} (h : ¬ (k' = k ∧ w' = w)) :
    (s.setWorker k w p).worker k' w' = s.worker k' w' :=
  Update.update_update_of_ne s.worker p h

theorem setNet_self (s : State) (src dst : Nat) (l : List Message) :
    (s.setNet src dst l).net src dst = l :=
  Update.update_update_self s.net src dst l

theorem setNet_other (s : State) (l : List Message) {a b : Nat} (h : ¬ (a = src ∧ b = dst)) :
    (s.setNet src dst l).net a b = s.net a b :=
  Update.update_update_of_ne s.net l h

theorem mem_send {a b : Nat} (h : m' ∈ (s.send src dst m).net a b) :
    m' ∈ s.net a b ∨ m' = m := by
  by_cases hab : a = src ∧ b = dst
  · obtain ⟨rfl, rfl⟩ := hab
    rw [State.send, setNet_self] at h
    rcases List.mem_append.mp h with h | h
    · exact .inl h
    · exact .inr (List.mem_singleton.mp h)
  · rw [State.send, setNet_other s _ hab] at h
    exact .inl h

theorem mem_setNet_tail {a b : Nat} {l : List Message} (hnet : s.net src dst = m :: l)
    (h : m' ∈ (s.setNet src dst l).net a b) : m' ∈ s.net a b := by
  by_cases hab : a = src ∧ b = dst
  · obtain ⟨rfl, rfl⟩ := hab
    rw [setNet_self] at h
    rw [hnet]
    exact .tail _ h
  · rwa [setNet_other s l hab] at h

theorem lt_length_of_worker (h : w < workers.getD k 0) : k < workers.length := by
  by_contra hk
  rw [List.getD_eq_default workers 0 (Nat.le_of_not_lt hk)] at h
  omega

/-! ## The barrier -/

/-- Before `_torc_md_end`. -/
def Phase.Early : Phase → Prop
  | .body _ | .round _ _ | .awaiting _ _ _ | .idle _ | .terminating _ => True
  | _ => False

theorem Phase.Early.ne_ended (h : p.Early) : p ≠ .ended := by
  rintro rfl
  exact h

theorem Phase.Early.not_atBarrier (h : p.Early) : ¬ p.AtBarrier := by
  cases p with
  | barrier | passed | shutdown => exact absurd h id
  | _ => exact id

/-- Worker 0 has passed the barrier. -/
def Phase.Through : Phase → Prop
  | .passed | .shutdown => True
  | _ => False

theorem Phase.Through.atBarrier (h : p.Through) : p.AtBarrier := by
  cases p with
  | passed | shutdown => trivial
  | _ => exact absurd h id

/-- The workers of node `k`, less worker 0, that have not exited. -/
def remaining (workers : List Nat) (s : State) (k : Nat) : Finset Nat :=
  (Finset.range (workers.getD k 0)).filter fun w ↦ 0 < w ∧ s.worker k w ≠ .ended

theorem mem_remaining :
    w ∈ remaining workers s k ↔ w < workers.getD k 0 ∧ 0 < w ∧ s.worker k w ≠ .ended := by
  simp only [remaining, Finset.mem_filter, Finset.mem_range]

structure Core (workers : List Nat) (s : State) : Prop where
  count : ∀ k, 0 < workers.getD k 0 → s.activeWorkers k = (remaining workers s k).card + 1
  alone : ∀ k, (s.worker k 0).AtBarrier →
    ∀ w < workers.getD k 0, 0 < w → s.worker k w = .ended
  together : ∀ k, (s.worker k 0).Through → ∀ j < workers.length, (s.worker j 0).AtBarrier
  order : ∀ src i, .terminateLocalServerThread ∈ s.net src i → s.worker i 0 = .shutdown

/-- Behind the barrier all workers of all nodes have left their loops. -/
theorem Core.allLeft (h : Core workers s) (hi : (s.worker i 0).Through) : AllLeft workers s := by
  intro k hk w hw hactive
  have hbarrier := h.together i hi k hk
  by_cases hzero : w = 0
  · subst hzero
    cases hphase : s.worker k 0 with
    | barrier | passed | shutdown =>
        rw [hphase] at hactive
        exact hactive
    | _ =>
        rw [hphase] at hbarrier
        exact hbarrier
  · rw [h.alone k hbarrier w hw (Nat.pos_of_ne_zero hzero)] at hactive
    exact hactive

theorem remaining_congr (h : ∀ w, 0 < w → (s'.worker k w = .ended ↔ s.worker k w = .ended)) :
    remaining workers s' k = remaining workers s k := by
  ext w
  rw [mem_remaining, mem_remaining]
  constructor
  · rintro ⟨hw, hpos, hne⟩
    exact ⟨hw, hpos, fun he ↦ hne ((h w hpos).mpr he)⟩
  · rintro ⟨hw, hpos, hne⟩
    exact ⟨hw, hpos, fun he ↦ hne ((h w hpos).mp he)⟩

/-- A step that moves no worker to or past `_torc_md_end`. -/
theorem Core.of (h : Core workers s)
    (hworker : ∀ k w, s'.worker k w = s.worker k w ∨ (s.worker k w).Early ∧
      (s'.worker k w).Early)
    (hactive : s'.activeWorkers = s.activeWorkers)
    (hnet : ∀ src i, .terminateLocalServerThread ∈ s'.net src i →
      .terminateLocalServerThread ∈ s.net src i) : Core workers s' := by
  have hended : ∀ k w, s'.worker k w = .ended ↔ s.worker k w = .ended := by
    intro k w
    rcases hworker k w with heq | ⟨hold, hnew⟩
    · rw [heq]
    · exact ⟨fun he ↦ absurd he hnew.ne_ended, fun he ↦ absurd he hold.ne_ended⟩
  have hbarrier : ∀ k, (s'.worker k 0).AtBarrier → s'.worker k 0 = s.worker k 0 :=
    fun k hk ↦ (hworker k 0).resolve_right fun hc ↦ hc.2.not_atBarrier hk
  have hstay : ∀ k, (s.worker k 0).AtBarrier → s'.worker k 0 = s.worker k 0 :=
    fun k hk ↦ (hworker k 0).resolve_right fun hc ↦ hc.1.not_atBarrier hk
  -- who has exited and who is at the barrier is as before
  refine ⟨fun k hk ↦ ?_, fun k hk w hw hpos ↦ ?_, fun k hk j hj ↦ ?_, fun src i hm ↦ ?_⟩
  · rw [hactive, h.count k hk, remaining_congr fun w _ ↦ hended k w]
  · rw [hbarrier k hk] at hk
    exact (hended k w).mpr (h.alone k hk w hw hpos)
  · rw [hbarrier k hk.atBarrier] at hk
    have hj := h.together k hk j hj
    rwa [hstay j hj]
  · have hold := h.order src i (hnet src i hm)
    have hat : (s.worker i 0).AtBarrier := by
      rw [hold]
      trivial
    rw [hstay i hat, hold]

/-- No worker moves. -/
theorem Core.same (h : Core workers s) (hworker : s'.worker = s.worker)
    (hactive : s'.activeWorkers = s.activeWorkers)
    (hnet : ∀ src i, .terminateLocalServerThread ∈ s'.net src i →
      .terminateLocalServerThread ∈ s.net src i) : Core workers s' :=
  h.of (fun k w ↦ .inl (by rw [hworker])) hactive hnet

theorem send_keeps_order (hm : m ≠ .terminateLocalServerThread) (src i : Nat)
    (h : .terminateLocalServerThread ∈ (s.send dst k m).net src i) :
    .terminateLocalServerThread ∈ s.net src i :=
  (mem_send h).resolve_right fun hc ↦ hm hc.symm

/-- A worker enters `_torc_md_end`; worker 0 stays counted. -/
theorem Core.left (h : Core workers s) (hw : w < workers.getD k 0) (hp : s.worker k w = p)
    (hearly : p.Early) : Core workers (mdEnd s k w) := by
  have hworker : (mdEnd s k w).worker = (s.setWorker k w .ended).worker := by
    simp only [mdEnd]
    split <;> rfl
  have hnet : (mdEnd s k w).net = s.net := by
    simp only [mdEnd]
    split <;> rfl
  have hother :
      ∀ {k' w'}, ¬ (k' = k ∧ w' = w) → (mdEnd s k w).worker k' w' = s.worker k' w' := by
    intro k' w' hne
    rw [hworker, setWorker_other s .ended hne]
  have hself : (mdEnd s k w).worker k w = .ended := by rw [hworker, setWorker_self]
  -- worker 0 at the barrier is past `_torc_md_end`, so it is not the worker that enters it
  have hbarrier : ∀ k', ((mdEnd s k w).worker k' 0).AtBarrier →
      (mdEnd s k w).worker k' 0 = s.worker k' 0 := by
    intro k' hk'
    refine hother ?_
    rintro ⟨rfl, hzero⟩
    rw [hzero, hself] at hk'
    exact hk'
  have hstay : ∀ k', (s.worker k' 0).AtBarrier →
      (mdEnd s k w).worker k' 0 = s.worker k' 0 := by
    intro k' hk'
    refine hother ?_
    rintro ⟨rfl, hzero⟩
    rw [hzero, hp] at hk'
    exact hearly.not_atBarrier hk'
  refine ⟨fun k' hk' ↦ ?_, fun k' hk' w' hw' hpos ↦ ?_, fun k' hk' j hj ↦ ?_,
    fun src i hm ↦ ?_⟩
  · by_cases hzero : w = 0
    · -- worker 0 is in none of the sets and is not counted off
      have hsame : (mdEnd s k w).activeWorkers = s.activeWorkers := by
        simp only [mdEnd, if_pos hzero]
        rfl
      rw [hsame, h.count k' hk', remaining_congr fun w' hpos ↦ ?_]
      rw [hother fun hc ↦ by omega]
    · by_cases hnode : k' = k
      · -- the count of the node goes down with the set
        subst hnode
        have hmem : w ∈ remaining workers s k' := by
          rw [mem_remaining, hp]
          exact ⟨hw, Nat.pos_of_ne_zero hzero, hearly.ne_ended⟩
        have hless : remaining workers (mdEnd s k' w) k' = (remaining workers s k').erase w := by
          ext w'
          rw [Finset.mem_erase, mem_remaining, mem_remaining]
          by_cases hsame : w' = w
          · rw [hsame, hself]
            exact ⟨fun hc ↦ absurd rfl hc.2.2, fun hc ↦ absurd rfl hc.1⟩
          · rw [hother fun hc ↦ hsame hc.2]
            exact ⟨fun hc ↦ ⟨hsame, hc⟩, fun hc ↦ hc.2⟩
        have hactive : (mdEnd s k' w).activeWorkers k' = s.activeWorkers k' - 1 := by
          simp only [mdEnd, if_neg hzero, Function.update_self]
        have hcard := Finset.card_erase_add_one hmem
        rw [hactive, h.count k' hk', hless]
        omega
      · have hactive : (mdEnd s k w).activeWorkers k' = s.activeWorkers k' := by
          simp only [mdEnd, if_neg hzero, Function.update_of_ne hnode]
        rw [hactive, h.count k' hk', remaining_congr fun w' _ ↦ ?_]
        rw [hother fun hc ↦ hnode hc.1]
  -- `alone`: the new one has ended, the others had
  · rw [hbarrier k' hk'] at hk'
    have hended := h.alone k' hk' w' hw' hpos
    by_cases hsame : k' = k ∧ w' = w
    · obtain ⟨rfl, rfl⟩ := hsame
      exact hself
    · rw [hother hsame, hended]
  -- `together`
  · rw [hbarrier k' hk'.atBarrier] at hk'
    have hj := h.together k' hk' j hj
    rwa [hstay j hj]
  -- `order`: nothing is sent
  · rw [hnet] at hm
    have hold := h.order src i hm
    have hat : (s.worker i 0).AtBarrier := by
      rw [hold]
      trivial
    rw [hstay i hat, hold]

/-- Worker 0 moves on at or behind the barrier. -/
theorem Core.onward (h : Core workers s)
    (hworker : s'.worker = (s.setWorker k 0 q).worker) (hq : q.AtBarrier)
    (halone : ∀ w < workers.getD k 0, 0 < w → s.worker k w = .ended)
    (hthrough : q.Through → ∀ j < workers.length, (s.worker j 0).AtBarrier)
    (hactive : s'.activeWorkers = s.activeWorkers)
    (hnet : ∀ src i, .terminateLocalServerThread ∈ s'.net src i →
      s'.worker i 0 = .shutdown) : Core workers s' := by
  have hself : s'.worker k 0 = q := by rw [hworker, setWorker_self]
  have hother : ∀ {k' w'}, ¬ (k' = k ∧ w' = 0) → s'.worker k' w' = s.worker k' w' := by
    intro k' w' hne
    rw [hworker, setWorker_other s q hne]
  have hat : ∀ j, (s.worker j 0).AtBarrier → (s'.worker j 0).AtBarrier := by
    intro j hj
    by_cases hjk : j = k
    · rw [hjk, hself]
      exact hq
    · rwa [hother fun hc ↦ hjk hc.1]
  refine ⟨fun k' hk' ↦ ?_, fun k' hk' w' hw' hpos ↦ ?_, fun k' hk' j hj ↦ ?_, hnet⟩
  -- the other workers are as they were
  · rw [hactive, h.count k' hk', remaining_congr fun w' hpos ↦ ?_]
    rw [hother fun hc ↦ by omega]
  · rw [hother fun hc ↦ by omega]
    by_cases hnode : k' = k
    · subst hnode
      exact halone w' hw' hpos
    · rw [hother fun hc ↦ hnode hc.1] at hk'
      exact h.alone k' hk' w' hw' hpos
  -- only worker 0 of node `k` moves, and it stays at or behind the barrier
  · by_cases hnode : k' = k
    · subst hnode
      rw [hself] at hk'
      exact hat j (hthrough hk' j hj)
    · rw [hother fun hc ↦ hnode hc.1] at hk'
      exact hat j (h.together k' hk' j hj)

/-- What a step of a worker in its loop does to the others: its phase changes, and it sends no
order to exit. -/
structure Moved (s s' : State) (k w : Nat) (p q : Phase) : Prop where
  before : s.worker k w = p
  worker : s'.worker = (s.setWorker k w q).worker
  earlyBefore : p.Early
  early : q.Early
  activeWorkers : s'.activeWorkers = s.activeWorkers
  server : s'.server = s.server
  net : ∀ src i, .terminateLocalServerThread ∈ s'.net src i →
    .terminateLocalServerThread ∈ s.net src i

/-- A worker moves on in its loop or enters `_torc_md_end`. -/
theorem workerStep_cases {n : Nat} {a : WorkerAct}
    (hs : workerStep threadSafe n s k w a = some s') :
    (∃ p q, Moved s s' k w p q) ∨ (s.worker k w).Early ∧ s' = mdEnd s k w := by
  cases a with
  | finish =>
      -- the body under it goes on, and an answer away from home
      simp only [workerStep] at hs
      split at hs
      · rename_i hp
        split at hs
        · cases hs
        · split at hs
          · cases hs
            exact .inl ⟨_, _, hp, rfl, trivial, trivial, rfl, rfl, fun _ _ hm ↦ hm⟩
          · cases hs
            exact .inl ⟨_, _, hp, rfl, trivial, trivial, rfl, rfl,
              send_keeps_order Message.noConfusion⟩
      · cases hs
  | finalize =>
      simp only [workerStep] at hs
      split at hs
      · rename_i hp
        split at hs
        · cases hs
        · cases hs
          exact .inl ⟨_, _, hp, rfl, trivial, trivial, rfl, rfl, fun _ _ hm ↦ hm⟩
      · cases hs
  | take t =>
      -- in `get_next_task` and `direct_synchronous_stealing_request`
      simp only [workerStep] at hs
      split at hs
      · rename_i hp
        obtain ⟨-, heq⟩ := Option.ite_none_right_eq_some.mp hs
        cases heq
        exact .inl ⟨_, _, hp, rfl, trivial, trivial, rfl, rfl, fun _ _ hm ↦ hm⟩
      · cases hs
  | miss =>
      simp only [workerStep] at hs
      split at hs
      · rename_i stack hp
        obtain ⟨-, heq⟩ := Option.ite_none_right_eq_some.mp hs
        cases heq
        have hq : (if s.internodeStealing k then Phase.round (roundNodes n k) stack
            else .idle stack).Early := by
          split <;> trivial
        exact .inl ⟨_, _, hp, rfl, trivial, hq, rfl, rfl, fun _ _ hm ↦ hm⟩
      · cases hs
  | ask =>
      simp only [workerStep] at hs
      split at hs
      · rename_i hp
        split at hs
        · cases hs
          exact .inl ⟨_, _, hp, rfl, trivial, trivial, rfl, rfl, fun _ _ hm ↦ hm⟩
        · cases hs
          exact .inl ⟨_, _, hp, rfl, trivial, trivial, rfl, rfl,
            send_keeps_order Message.noConfusion⟩
      · rename_i hp
        cases hs
        exact .inl ⟨_, _, hp, rfl, trivial, trivial, rfl, rfl, fun _ _ hm ↦ hm⟩
      · cases hs
  | reply =>
      simp only [workerStep] at hs
      split at hs
      · rename_i hp
        split at hs
        · cases hs
        · cases hs
          exact .inl ⟨_, _, hp, rfl, trivial, trivial, rfl, rfl, fun _ _ hm ↦ hm⟩
        · cases hs
          exact .inl ⟨_, _, hp, rfl, trivial, trivial, rfl, rfl, fun _ _ hm ↦ hm⟩
      · cases hs
  | giveUp =>
      simp only [workerStep] at hs
      split at hs
      · rename_i hp
        obtain ⟨-, heq⟩ := Option.ite_none_right_eq_some.mp hs
        cases heq
        exact .inl ⟨_, _, hp, rfl, trivial, trivial, rfl, rfl, fun _ _ hm ↦ hm⟩
      · cases hs
  | resume =>
      simp only [workerStep] at hs
      split at hs
      · rename_i hp
        cases hs
        exact .inl ⟨_, _, hp, rfl, trivial, trivial, rfl, rfl, fun _ _ hm ↦ hm⟩
      · cases hs
  | notify =>
      -- in `torc_finalize` and after it
      simp only [workerStep] at hs
      split at hs
      · rename_i hp
        cases hs
        exact .inl ⟨_, _, hp, rfl, trivial, trivial, rfl, rfl,
          send_keeps_order Message.noConfusion⟩
      · cases hs
  | leave =>
      simp only [workerStep] at hs
      split at hs
      · rename_i hp
        obtain ⟨-, heq⟩ := Option.ite_none_right_eq_some.mp hs
        cases heq
        rw [hp]
        exact .inr ⟨trivial, rfl⟩
      · rename_i hp
        cases hs
        rw [hp]
        exact .inr ⟨trivial, rfl⟩
      · cases hs

theorem Core.moved (h : Core workers s) (hmoved : Moved s s' k w p q) : Core workers s' := by
  refine h.of (fun k' w' ↦ ?_) hmoved.activeWorkers hmoved.net
  rw [hmoved.worker]
  by_cases hsame : k' = k ∧ w' = w
  · obtain ⟨rfl, rfl⟩ := hsame
    rw [setWorker_self, hmoved.before]
    exact .inr ⟨hmoved.earlyBefore, hmoved.early⟩
  · exact .inl (setWorker_other s q hsame)

theorem Core.workerStep (h : Core workers s) (hw : w < workers.getD k 0) {n : Nat} {a : WorkerAct}
    (hs : workerStep threadSafe n s k w a = some s') : Core workers s' := by
  rcases workerStep_cases hs with ⟨p, q, hmoved⟩ | ⟨hearly, rfl⟩
  · exact h.moved hmoved
  · exact h.left hw rfl hearly

/-- What a message does concerns no worker, and it is no order to exit. -/
theorem process_worker {work : Option Task} (hs : process s i src work m = some s') :
    s'.worker = s.worker ∧ s'.activeWorkers = s.activeWorkers ∧ s'.net = s.net := by
  cases m with
  | torcNormalEnqueue t =>
      simp only [process] at hs
      split at hs <;> cases hs <;> exact ⟨rfl, rfl, rfl⟩
  | directSynchronousStealingRequest sourcevpid =>
      simp only [process] at hs
      split at hs
      · cases hs
        exact ⟨rfl, rfl, rfl⟩
      · obtain ⟨-, heq⟩ := Option.ite_none_right_eq_some.mp hs
        cases heq
        exact ⟨rfl, rfl, rfl⟩
  | _ =>
      cases hs
      exact ⟨rfl, rfl, rfl⟩

theorem bodyStep_keeps (a : BodyAct) :
    (bodyStep s k a).worker = s.worker ∧ (bodyStep s k a).activeWorkers = s.activeWorkers ∧
      ∀ src i, .terminateLocalServerThread ∈ (bodyStep s k a).net src i →
        .terminateLocalServerThread ∈ s.net src i := by
  cases a with
  | spawn dst direct =>
      simp only [bodyStep]
      split
      · exact ⟨rfl, rfl, fun _ _ hm ↦ hm⟩
      · exact ⟨rfl, rfl, send_keeps_order Message.noConfusion⟩
  | control dst on =>
      simp only [bodyStep]
      split
      · exact ⟨rfl, rfl, fun _ _ hm ↦ hm⟩
      · exact ⟨rfl, rfl, send_keeps_order Message.noConfusion⟩

theorem Core.shutdown (h : Core workers s) (hp : s.worker k 0 = .passed)
    (hworker : s'.worker = (s.setWorker k 0 .shutdown).worker)
    (hactive : s'.activeWorkers = s.activeWorkers)
    (hnet : ∀ src i, .terminateLocalServerThread ∈ s'.net src i →
      .terminateLocalServerThread ∈ s.net src i ∨ i = k) : Core workers s' := by
  have hat : (s.worker k 0).AtBarrier := by
    rw [hp]
    trivial
  have hthrough : (s.worker k 0).Through := by
    rw [hp]
    trivial
  -- the only order to exit that is sent goes to the node itself
  refine h.onward hworker trivial (h.alone k hat) (fun _ ↦ h.together k hthrough) hactive
    fun src i hm ↦ ?_
  rw [hworker]
  by_cases hnode : i = k
  · rw [hnode, setWorker_self]
  · rw [setWorker_other s _ fun hc ↦ hnode hc.1]
    exact h.order src i ((hnet src i hm).resolve_right hnode)

theorem Core.step (h : Core workers s) {a : Act}
    (hs : (system threadSafe workers).step a s = some s') : Core workers s' := by
  simp only [system] at hs
  cases a with
  | inBody k thread a =>
      obtain ⟨-, heq⟩ := Option.ite_none_right_eq_some.mp hs
      cases heq
      obtain ⟨hworker, hactive, hnet⟩ := bodyStep_keeps (s := s) (k := k) a
      exact h.same hworker hactive hnet
  | worker k w a =>
      obtain ⟨hw, hs⟩ := Option.ite_none_right_eq_some.mp hs
      exact h.workerStep hw hs
  | enterBarrier k =>
      obtain ⟨⟨hpos, hended, hone⟩, heq⟩ := Option.ite_none_right_eq_some.mp hs
      cases heq
      -- a count of 1 leaves no other worker of the node
      have hcard : (remaining workers s k).card = 0 := by
        have hcount := h.count k hpos
        omega
      refine h.onward rfl trivial (fun w hw hwpos ↦ ?_) (fun hc ↦ absurd hc id) rfl
        fun src i hm ↦ ?_
      · by_contra hne
        have hmem : w ∈ remaining workers s k := mem_remaining.mpr ⟨hw, hwpos, hne⟩
        rw [Finset.card_eq_zero.mp hcard] at hmem
        exact Finset.notMem_empty w hmem
      · have hold := h.order src i hm
        rw [setWorker_other s _ fun hc ↦ ?_, hold]
        rw [hc.1, hended] at hold
        cases hold
  | leaveBarrier k =>
      obtain ⟨⟨hp, hall⟩, heq⟩ := Option.ite_none_right_eq_some.mp hs
      cases heq
      have hat : (s.worker k 0).AtBarrier := by
        rw [hp]
        trivial
      -- `MPI_Barrier` returns only when worker 0 of every node has called it
      refine h.onward rfl trivial (h.alone k hat) (fun _ ↦ hall) rfl fun src i hm ↦ ?_
      have hold := h.order src i hm
      rw [setWorker_other s _ fun hc ↦ ?_, hold]
      rw [hc.1, hp] at hold
      cases hold
  | shutdown k =>
      obtain ⟨⟨hp, -⟩, hs⟩ := Option.ite_none_right_eq_some.mp hs
      split at hs
      · cases hs
        refine h.shutdown hp rfl rfl fun src i hm ↦ ?_
        by_cases hnode : src = k ∧ i = k
        · exact .inr hnode.2
        · rw [State.send, setNet_other _ _ hnode] at hm
          exact .inl hm
      · cases hs
        exact h.shutdown hp rfl rfl fun src i hm ↦ .inl hm
  | poll i =>
      obtain ⟨-, heq⟩ := Option.ite_none_right_eq_some.mp hs
      cases heq
      exact h.same rfl rfl fun _ _ hm ↦ hm
  | retry i =>
      obtain ⟨-, heq⟩ := Option.ite_none_right_eq_some.mp hs
      cases heq
      exact h.same rfl rfl fun _ _ hm ↦ hm
  | exit i =>
      obtain ⟨-, heq⟩ := Option.ite_none_right_eq_some.mp hs
      cases heq
      exact h.same rfl rfl fun _ _ hm ↦ hm
  | receive i src work =>
      obtain ⟨-, hs⟩ := Option.ite_none_right_eq_some.mp hs
      split at hs
      · cases hs
      · rename_i m l hnet
        obtain ⟨hworker, hactive, hnet'⟩ := process_worker hs
        refine h.same hworker hactive fun src' i' hm ↦ ?_
        rw [hnet'] at hm
        exact mem_setNet_tail hnet hm
  | complete i =>
      simp only [Shutdown.step] at hs
      split at hs
      · obtain ⟨-, heq⟩ := Option.ite_none_right_eq_some.mp hs
        cases heq
        exact h.same rfl rfl (send_keeps_order Message.noConfusion)
      · cases hs

theorem core_initial (workers : List Nat) : Core workers (initial workers) where
  count k hk := by
    have hall :
        remaining workers (initial workers) k = (Finset.range (workers.getD k 0)).erase 0 := by
      ext w
      rw [mem_remaining, Finset.mem_erase, Finset.mem_range]
      constructor
      · rintro ⟨hw, hpos, -⟩
        exact ⟨Nat.pos_iff_ne_zero.mp hpos, hw⟩
      · rintro ⟨hne, hw⟩
        refine ⟨hw, Nat.pos_of_ne_zero hne, ?_⟩
        simp only [initial]
        split <;> exact Phase.noConfusion
    rw [hall, Finset.card_erase_add_one (Finset.mem_range.mpr hk), Finset.card_range]
    rfl
  alone k hk := by
    simp only [initial] at hk
    split at hk <;> exact absurd hk id
  together k hk := by
    simp only [initial] at hk
    split at hk <;> exact absurd hk id
  order src i hm := by cases hm

end Torc.Shutdown
