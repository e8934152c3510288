import Torc.Queue
import Torc.WaitExit

/-!
# Blocking until there is no more work

The loop of `_torc_block2` with the reads of its counter and the polls of `_torc_scheduler_loop(1)`
as separate steps.  The other threads of the node take tasks from the queues and put tasks into them
at any time, and a child completes at any time.
-/

namespace Torc.Block2

open Transition
open ForkJoin (beginWait depsatisfy)
open Waiting (pollCtl)
open WaitExit (afterLoop)

/-- A task in a queue; `since` counts the polls that had begun when it was put there. -/
structure Queued where
  task : Nat
  since : Nat
  deriving DecidableEq

/-- Where `get_next_task` looks for a task. -/
inductive Source
  | privateQueue
  | publicQueue (k : Nat)
  | otherNodes
  deriving DecidableEq

def sources : List Source :=
  .privateQueue :: [9, 8, 7, 6, 5, 4, 3, 2, 1, 0].map .publicQueue ++ [.otherNodes]

/-- Before the call; in `_torc_block2`, where `running` is back in the body; inside
`_torc_scheduler_loop(1)`, in the first or the second `get_next_task` with the sources it has still
to look at; executing a task from there; ended by `_torc_md_end`. -/
inductive Place
  | calling
  | ctl (c : Waiting.Ctl)
  | looking (again : Bool) (rest : List Source)
  | executing
  | ended
  deriving DecidableEq

/-- `polls` counts the polls of the call that have begun, and `work` is what the poll of the current
iteration returned. -/
structure State where
  ndep : Nat → Int
  opened : Nat
  queues : Queues Queued
  place : Place := .calling
  polls : Nat := 0
  work : Option Bool := none

/-- The caller's steps, among them what another node replies to a request for work, and those of the
other threads. -/
inductive Act
  | begin
  | poll
  | schedulerLoop
  | look (stolen : Option Nat)
  | executed
  | applFinished
  | childDone
  | takePrivate
  | takePublic (k : Nat)
  | put (insertPrivate inFront : Bool) (level : Int) (task : Nat)
  deriving DecidableEq

/-- `get_next_task` looks at one source; what is left of the queues if a task was there. -/
def lookAt (q : Queues Queued) (stolen : Option Nat) : Source → Option (Queues Queued)
  | .privateQueue => q.torcIPqDequeue.map Prod.snd
  | .publicQueue k => (q.torcIRqDequeue k).map Prod.snd
  | .otherNodes => stolen.map fun _ ↦ q

/-- A queue insertion by some thread. -/
def insert (q : Queues Queued) (insertPrivate inFront : Bool) (level : Int) (x : Queued) :
    Queues Queued :=
  match insertPrivate, inFront with
  | true, true => q.torcToIPq x
  | true, false => q.torcToIPqEnd x
  | false, true => q.torcToIRq level x
  | false, false => q.torcToIRqEnd level x

/-- `self` is the address of the caller's descriptor. -/
def step (self : Nat) : Act → State → Option State
  | .begin, s =>
      if s.place = .calling then
        some { s with ndep := beginWait s.ndep self, place := .ctl (.check .waitall2) }
      else none
  | .poll, s =>
      match s.place with
      -- one read of `ndep`: the unlocked one, the one under the lock, or the one behind the poll
      | .ctl c => (pollCtl (s.ndep self) c).map fun r ↦
          { s with
            ndep := Function.update s.ndep self r.1
            place := .ctl r.2
            work := if r.2 = .check .waitall2 then none else s.work }
      | _ => none
  | .schedulerLoop, s =>
      if s.place = .ctl (.polling .waitall2) then
        some { s with place := .looking false sources, polls := s.polls + 1 }
      else none
  | .look stolen, s =>
      match s.place with
      | .looking again (source :: rest) =>
          match lookAt s.queues stolen source with
          -- the task may be any, so that what it does are steps of the other threads
          | some q => some { s with queues := q, place := .executing }
          | none => some { s with place := .looking again rest }
      -- after the first attempt the thread sleeps and tries once more
      | .looking false [] => some { s with place := .looking true sources }
      | .looking true [] =>
          some { s with place := .ctl (afterLoop false .waitall2), work := some false }
      | _ => none
  | .executed, s =>
      -- the next iteration begins
      if s.place = .executing then
        some { s with place := .ctl (afterLoop true .waitall2), work := none }
      else none
  | .applFinished, s =>
      if s.place = .looking false [] then some { s with place := .ended } else none
  | .childDone, s =>
      if 0 < s.opened then
        some { s with ndep := depsatisfy s.ndep (some self), opened := s.opened - 1 }
      else none
  | .takePrivate, s => s.queues.torcIPqDequeue.map fun r ↦ { s with queues := r.2 }
  | .takePublic k, s =>
      if k < 10 then (s.queues.torcIRqDequeue k).map fun r ↦ { s with queues := r.2 } else none
  | .put insertPrivate inFront level task, s =>
      some { s with queues := insert s.queues insertPrivate inFront level ⟨task, s.polls⟩ }

/-- A call of `torc_waitall2` with any counter, any open children and any tasks in the queues. -/
def system (self : Nat) : System State Act where
  init s := s.place = .calling ∧ s.polls = 0 ∧ s.work = none ∧
    ∀ x ∈ s.queues.tasks, x.since = 0
  step := step self

/-- The step takes the caller back to its body. -/
def Returns (s s' : State) : Prop :=
  s.place ≠ .ctl .running ∧ s'.place = .ctl .running

/-- No task is in the queues that was there when the last poll began. -/
def NothingLeft (s : State) : Prop :=
  ∀ x ∈ s.queues.tasks, s.polls ≤ x.since

/-- The iteration that just ended had a counter of 0 and a poll without a task. -/
structure Finished (self : Nat) (s : State) : Prop where
  ndep : s.ndep self = 0
  poll : s.work = some false
  nothingLeft : NothingLeft s

/-- The locked read finds the counter positive, as the read before it did. -/
def StillPositive (self : Nat) (a : Act) (s : State) : Prop :=
  a = .poll → s.place = .ctl .locked → 0 < s.ndep self

/-! ## What a poll has seen -/

/-- The queues `q'` come from `q` by taking tasks out and putting tasks in after `polls` polls. -/
structure LaterThan (polls : Nat) (q q' : Queues Queued) : Prop where
  inPrivate : ∀ x ∈ q'.privateGrq, x ∈ q.privateGrq ∨ polls ≤ x.since
  inPublic : ∀ k, ∀ x ∈ q'.publicGrq k, x ∈ q.publicGrq k ∨ polls ≤ x.since

/-- The sources that are not among `rest` have no task from before the poll. -/
structure Scanned (polls : Nat) (q : Queues Queued) (rest : List Source) : Prop where
  inPrivate : .privateQueue ∉ rest → ∀ x ∈ q.privateGrq, polls ≤ x.since
  inPublic : ∀ k < 10, .publicQueue k ∉ rest → ∀ x ∈ q.publicGrq k, polls ≤ x.since

variable {self polls : Nat} {s s' : State} {a : Act} {q q' : Queues Queued} {rest : List Source}

theorem LaterThan.refl (polls : Nat) (q : Queues Queued) : LaterThan polls q q :=
  ⟨fun _ hx ↦ .inl hx, fun _ _ hx ↦ .inl hx⟩

theorem torcIPqDequeue_later {x : Queued} (h : q.torcIPqDequeue = some (x, q')) :
    LaterThan polls q q' := by
  unfold Queues.torcIPqDequeue at h
  split at h
  · cases h
  · rename_i hq
    cases h
    exact ⟨fun y hy ↦ .inl (hq ▸ List.mem_cons_of_mem _ hy), fun k y hy ↦ .inl hy⟩

/-- Replacing one public queue. -/
theorem setPublic_later {i : Nat} {l : List Queued}
    (hl : ∀ x ∈ l, x ∈ q.publicGrq i ∨ polls ≤ x.since) :
    LaterThan polls q (q.setPublic i l) := by
  refine ⟨fun x hx ↦ .inl hx, fun k x hx ↦ ?_⟩
  by_cases hk : k = i
  · subst hk
    rw [Queues.setPublic_self] at hx
    exact hl x hx
  · have hsame : (q.setPublic i l).publicGrq k = q.publicGrq k := Function.update_of_ne hk ..
    exact .inl (hsame ▸ hx)

theorem torcIRqDequeue_later {k : Nat} {x : Queued} (h : q.torcIRqDequeue k = some (x, q')) :
    LaterThan polls q q' := by
  unfold Queues.torcIRqDequeue at h
  split at h
  · cases h
  · rename_i hq
    cases h
    exact setPublic_later fun y hy ↦ .inl (hq ▸ List.mem_cons_of_mem _ hy)

theorem insert_later (insertPrivate inFront : Bool) (level : Int) (x : Queued) :
    LaterThan x.since q (insert q insertPrivate inFront level x) := by
  have hcons : ∀ l : List Queued, ∀ y ∈ x :: l, y ∈ l ∨ x.since ≤ y.since := by
    intro l y hy
    rcases List.mem_cons.mp hy with rfl | hy
    · exact .inr (Nat.le_refl _)
    · exact .inl hy
  have hsnoc : ∀ l : List Queued, ∀ y ∈ l ++ [x], y ∈ l ∨ x.since ≤ y.since := by
    intro l y hy
    rcases List.mem_append.mp hy with hy | hy
    · exact .inl hy
    · obtain rfl := List.mem_singleton.mp hy
      exact .inr (Nat.le_refl _)
  cases insertPrivate <;> cases inFront
  · exact setPublic_later (hsnoc _)
  · exact setPublic_later (hcons _)
  · exact ⟨hsnoc _, fun k y hy ↦ .inl hy⟩
  · exact ⟨hcons _, fun k y hy ↦ .inl hy⟩

theorem Scanned.later (h : Scanned polls q rest) (hq : LaterThan polls q q') :
    Scanned polls q' rest where
  inPrivate hrest x hx := (hq.inPrivate x hx).elim (h.inPrivate hrest x) id
  inPublic k hk hrest x hx := (hq.inPublic k x hx).elim (h.inPublic k hk hrest x) id

/-- A source that was found empty has been scanned. -/
theorem Scanned.empty {source : Source} {stolen : Option Nat}
    (h : Scanned polls q (source :: rest)) (hnone : lookAt q stolen source = none) :
    Scanned polls q rest where
  inPrivate hrest x hx := by
    by_cases hsource : source = .privateQueue
    · subst hsource
      have hdeq : q.torcIPqDequeue = none := Option.map_eq_none_iff.mp hnone
      unfold Queues.torcIPqDequeue at hdeq
      split at hdeq
      · rename_i hnil
        rw [hnil] at hx
        cases hx
      · cases hdeq
    · exact h.inPrivate
        (fun hmem ↦ (List.mem_cons.mp hmem).elim (fun h ↦ hsource h.symm) hrest) x hx
  inPublic k hk hrest x hx := by
    by_cases hsource : source = .publicQueue k
    · subst hsource
      have hdeq : q.torcIRqDequeue k = none := Option.map_eq_none_iff.mp hnone
      unfold Queues.torcIRqDequeue at hdeq
      split at hdeq
      · rename_i hnil
        rw [hnil] at hx
        cases hx
      · cases hdeq
    · exact h.inPublic k hk
        (fun hmem ↦ (List.mem_cons.mp hmem).elim (fun h ↦ hsource h.symm) hrest) x hx

theorem Scanned.start (polls : Nat) (q : Queues Queued) : Scanned polls q sources where
  inPrivate hrest := absurd (by decide) hrest
  inPublic k hk hrest := by
    refine absurd ?_ hrest
    interval_cases k <;> decide

theorem Scanned.nothingLeft (h : Scanned s.polls s.queues []) : NothingLeft s := by
  intro x hx
  rcases List.mem_append.mp hx with hx | hx
  · exact h.inPrivate List.not_mem_nil x hx
  · obtain ⟨k, hk, hx⟩ := List.mem_flatMap.mp hx
    exact h.inPublic k (List.mem_range.mp hk) List.not_mem_nil x hx

/-! ## Every run -/

/-- What the caller knows about the queues during a poll and behind it. -/
def Inv (s : State) : Prop :=
  match s.place with
  | .looking _ rest => Scanned s.polls s.queues rest
  | .ctl .noWork => s.work = some false ∧ Scanned s.polls s.queues []
  | .ctl (.check .waitall) => False
  | _ => True

theorem pollCtl_ne {n : Int} {c : Waiting.Ctl} {r : Int × Waiting.Ctl}
    (h : pollCtl n c = some r) : r.2 ≠ .noWork ∧ r.2 ≠ .check .waitall := by
  unfold pollCtl at h
  split at h
  all_goals cases h
  all_goals split <;> simp

/-- A step of the other threads: the caller stays where it is, and only later tasks come into the
queues. -/
structure OfOthers (s s' : State) : Prop where
  place : s'.place = s.place
  polls : s'.polls = s.polls
  work : s'.work = s.work
  queues : LaterThan s.polls s.queues s'.queues

theorem Inv.others (h : Inv s) (ho : OfOthers s s') : Inv s' := by
  unfold Inv at h ⊢
  rw [ho.place]
  cases hplace : s.place with
  | looking again rest =>
      simp only [hplace, ho.polls] at h ⊢
      exact h.later ho.queues
  | ctl c =>
      simp only [hplace] at h ⊢
      cases c with
      | noWork =>
          simp only [ho.work, ho.polls] at h ⊢
          exact ⟨h.1, h.2.later ho.queues⟩
      | check w => cases w <;> exact h
      | _ => trivial
  | _ => simp only

theorem Inv.poll (h : step self .poll s = some s') : Inv s' := by
  simp only [step] at h
  split at h
  · obtain ⟨r, hr, rfl⟩ := Option.map_eq_some_iff.mp h
    obtain ⟨hnoWork, hcheck⟩ := pollCtl_ne hr
    unfold Inv
    simp only
    split
    · rename_i hplace
      cases hplace
    · rename_i hplace
      exact absurd (Place.ctl.inj hplace) hnoWork
    · rename_i hplace
      exact absurd (Place.ctl.inj hplace) hcheck
    · trivial
  · cases h

/-- A step is a test of the counter, one of the other threads, or one that leaves the caller in the
call. -/
theorem step_cases (hs : step self a s = some s') :
    a = .poll ∨ OfOthers s s' ∨ (s'.place ≠ .ctl .running ∧ (Inv s → Inv s')) := by
  cases a with
  | poll => exact .inl rfl
  | begin =>
      obtain ⟨-, heq⟩ := Option.ite_none_right_eq_some.mp hs
      cases heq
      exact .inr (.inr ⟨nofun, fun _ ↦ trivial⟩)
  | schedulerLoop =>
      obtain ⟨-, heq⟩ := Option.ite_none_right_eq_some.mp hs
      cases heq
      exact .inr (.inr ⟨nofun, fun _ ↦ .start _ _⟩)
  | look stolen =>
      refine .inr (.inr ?_)
      simp only [step] at hs
      split at hs
      · rename_i again source rest hplace
        split at hs
        · cases hs
          exact ⟨nofun, fun _ ↦ trivial⟩
        · rename_i hnone
          cases hs
          refine ⟨nofun, fun h ↦ ?_⟩
          simp only [Inv, hplace] at h
          exact h.empty hnone
      · cases hs
        exact ⟨nofun, fun _ ↦ .start _ _⟩
      · -- all sources were found empty, twice
        rename_i hplace
        cases hs
        refine ⟨nofun, fun h ↦ ?_⟩
        simp only [Inv, hplace] at h
        exact ⟨rfl, h⟩
      · cases hs
  | executed =>
      obtain ⟨-, heq⟩ := Option.ite_none_right_eq_some.mp hs
      cases heq
      exact .inr (.inr ⟨nofun, fun _ ↦ trivial⟩)
  | applFinished =>
      obtain ⟨-, heq⟩ := Option.ite_none_right_eq_some.mp hs
      cases heq
      exact .inr (.inr ⟨nofun, fun _ ↦ trivial⟩)
  | childDone =>
      obtain ⟨-, heq⟩ := Option.ite_none_right_eq_some.mp hs
      cases heq
      exact .inr (.inl ⟨rfl, rfl, rfl, .refl _ _⟩)
  | takePrivate =>
      obtain ⟨r, hr, rfl⟩ := Option.map_eq_some_iff.mp hs
      exact .inr (.inl ⟨rfl, rfl, rfl, torcIPqDequeue_later hr⟩)
  | takePublic k =>
      obtain ⟨-, heq⟩ := Option.ite_none_right_eq_some.mp hs
      obtain ⟨r, hr, rfl⟩ := Option.map_eq_some_iff.mp heq
      exact .inr (.inl ⟨rfl, rfl, rfl, torcIRqDequeue_later hr⟩)
  | put insertPrivate inFront level task =>
      cases hs
      exact .inr (.inl
        ⟨rfl, rfl, rfl, insert_later insertPrivate inFront level ⟨task, s.polls⟩⟩)

theorem Inv.step (h : Inv s) (hs : step self a s = some s') : Inv s' := by
  rcases step_cases hs with rfl | hothers | ⟨-, hkeeps⟩
  · exact .poll hs
  · exact h.others hothers
  · exact hkeeps h

/-- Only a test of the counter takes the caller back. -/
theorem returns_poll (hs : step self a s = some s') (hret : Returns s s') : a = .poll := by
  obtain ⟨hnot, hplace⟩ := hret
  rcases step_cases hs with hpoll | hothers | ⟨hne, -⟩
  · exact hpoll
  · rw [hothers.place] at hplace
    exact absurd hplace hnot
  · exact absurd hplace hne

/-- The test behind the poll takes the caller back if the counter is 0, the locked one if it has
come down to 0. -/
theorem pollCtl_running {n : Int} {c : Waiting.Ctl} {r : Int × Waiting.Ctl}
    (h : pollCtl n c = some r) (hret : r.2 = .running) (hc : c ≠ .check .waitall) :
    (c = .locked ∧ n ≤ 0) ∨ (c = .noWork ∧ n = 0 ∧ r.1 = n) := by
  unfold pollCtl at h
  split at h
  · exact absurd rfl hc
  · cases h
    simp only at hret
    split at hret <;> cases hret
  · cases h
    by_cases hn : n ≤ 0
    · exact .inl ⟨rfl, hn⟩
    · rw [if_neg hn] at hret
      cases hret
  · cases h
    by_cases hn : n = 0
    · exact .inr ⟨rfl, hn, rfl⟩
    · simp only [if_neg hn] at hret
      cases hret
  · cases h

theorem Inv.finished (h : Inv s) (hok : StillPositive self a s)
    (hs : Block2.step self a s = some s')
    (hret : Returns s s') : Finished self s' := by
  obtain rfl := returns_poll hs hret
  simp only [Block2.step] at hs
  split at hs
  · rename_i c hplace
    obtain ⟨r, hr, rfl⟩ := Option.map_eq_some_iff.mp hs
    have hrunning : r.2 = .running := Place.ctl.inj hret.2
    have hcheck : c ≠ .check .waitall := by
      rintro rfl
      simp only [Inv, hplace] at h
    rcases pollCtl_running hr hrunning hcheck with ⟨rfl, hn⟩ | ⟨rfl, hn, hkeep⟩
    · have hpos := hok rfl hplace
      omega
    · simp only [Inv, hplace] at h
      refine ⟨?_, ?_, h.2.nothingLeft⟩
      · show Function.update s.ndep self r.1 self = 0
        rw [Function.update_self, hkeep, hn]
      · show (if r.2 = .check .waitall2 then none else s.work) = some false
        rw [hrunning]
        exact h.1
  · cases hs

instance (self : Nat) (a : Act) (s : State) : Decidable (StillPositive self a s) :=
  inferInstanceAs (Decidable (_ → _ → _))

/-- A caller with one child and a task in its private queue. -/
def oneChild : State :=
  { ndep := fun _ ↦ 2, opened := 1, queues := { privateGrq := [⟨7, 0⟩] } }

/-- The locked read finds the counter positive and the first poll executes the task.  Then the child
completes, and the second poll finds nothing. -/
def oneChildRun : List Act :=
  [.begin, .poll, .poll, .schedulerLoop, .look none, .executed, .childDone, .poll,
    .schedulerLoop] ++ List.replicate 26 (.look none)

end Torc.Block2
