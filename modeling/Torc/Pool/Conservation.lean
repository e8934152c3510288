import Torc.Pool.Machine
import Torc.Lib.Ledger

/-!
# Conservation of descriptors

Where the descriptors are, what each step does to that, and how many of them there are.
-/

namespace Torc.Pool

open Transition Ledger
open CurrentTask (Thread)

inductive Place
  | reuse
  | queued
  | hands (t : Thread)
  deriving DecidableEq

def ThreadState.descs (x : ThreadState) : List Nat :=
  x.stack.map Frame.desc

def contents (s : State) : Place → List Nat
  | .reuse => s.reuseQ
  | .queued => s.queues.tasks
  | .hands t => (s.thread t).descs

/-- The code that the thread is in goes on to insert, execute or put back the descriptor. -/
def Job.Kept (me : Nat) : Job → Prop
  | .received m => processReceived me m ≠ some .request ∧ processReceived me m ≠ some .direct
  | .direct | .dropped => False
  | _ => True

/-- Each descriptor that was allocated is in `reuse_q`, in one ready queue or in the hands of one
thread, once, and the thread will not forget it. -/
structure Conserved (me : Nat) (s : State) : Prop where
  located : Located (fun d ↦ d < s.allocated) (contents s)
  kept : ∀ t, ∀ f ∈ (s.thread t).stack, f.job.Kept me

/-- The server gets no stealing request and no task for direct execution. -/
def Keeps (me : Nat) (a : Act) : Prop :=
  ∀ m, a.move = .turn (.receive m) →
    processReceived me m ≠ some .request ∧ processReceived me m ≠ some .direct

/-- No descriptor is put back while a thread has found `reuse_q` empty and not yet allocated. -/
def Undisturbed (kthreads : Nat) (a : Act) (s : State) : Prop :=
  a.move = .putBack → ∀ t ∈ threads kthreads, (s.thread t).atCalloc = false

/-! ## What a step does -/

variable {me kthreads : Nat} {s s' : State} {t u : Thread}

theorem set_self (s : State) (t : Thread) (x : ThreadState) : (s.set t x).thread t = x :=
  Function.update_self ..

theorem set_other (s : State) (x : ThreadState) (h : u ≠ t) :
    (s.set t x).thread u = s.thread u :=
  Function.update_of_ne h ..

/-- A step of thread `t` leaves its descriptors as they are, or one descriptor more or less is in
its hands and the other way round in `reuse_q` or the ready queues, or it allocates. -/
inductive Change (s : State) (t : Thread) : State → Prop
  | keep (x : ThreadState) (h : x.descs = (s.thread t).descs) : Change s t (s.set t x)
  | reuse (x : ThreadState) (d : Nat) (rest : List Nat) (hq : s.reuseQ = d :: rest)
      (h : x.descs = d :: (s.thread t).descs) : Change s t ({ s with reuseQ := rest }.set t x)
  | calloc (x : ThreadState) (h : x.descs = s.allocated :: (s.thread t).descs) :
      Change s t ({ s with allocated := s.allocated + 1 }.set t x)
  | put (x : ThreadState) (d : Nat) (h : (s.thread t).descs = d :: x.descs) :
      Change s t ({ s with reuseQ := s.reuseQ ++ [d] }.set t x)
  | insert (x : ThreadState) (d : Nat) (q : Queues Nat) (hq : q.tasks.Perm (d :: s.queues.tasks))
      (h : (s.thread t).descs = d :: x.descs) : Change s t ({ s with queues := q }.set t x)
  | fetch (x : ThreadState) (d : Nat) (q : Queues Nat) (hq : s.queues.tasks.Perm (d :: q.tasks))
      (h : x.descs = d :: (s.thread t).descs) : Change s t ({ s with queues := q }.set t x)

theorem enqueue_tasks (q : Queues Nat) (level : Int) (insertPrivate inFront : Bool) (desc : Nat) :
    (enqueue q level insertPrivate inFront desc).tasks.Perm (desc :: q.tasks) := by
  cases insertPrivate <;> cases inFront
  · exact q.torcToIRqEnd_tasks level desc
  · exact q.torcToIRq_tasks level desc
  · exact q.torcToIPqEnd_tasks desc
  · exact q.torcToIPq_tasks desc

theorem dequeue_tasks {q q' : Queues Nat} {source : Option Nat} {d : Nat}
    (h : dequeue q source = some (d, q')) : q.tasks.Perm (d :: q'.tasks) := by
  cases source with
  | none => exact .of_eq (Queues.torcIPqDequeue_tasks h)
  | some i =>
      simp only [dequeue] at h
      split at h
      · rename_i hi
        exact Queues.torcIRqDequeue_tasks hi h
      · cases h

theorem get_change (hs : get s t = some s') : Change s t s' := by
  unfold get at hs
  split at hs
  · rename_i stack job hx
    cases hs
    exact .keep _ (by rw [hx]; rfl)
  · rename_i stack job hx
    split at hs
    · cases hs
      exact .keep _ (by rw [hx]; rfl)
    · rename_i d rest hq
      cases hs
      exact .reuse _ d rest hq (by rw [hx]; rfl)
  · rename_i stack job hx
    cases hs
    exact .calloc _ (by rw [hx]; rfl)
  · cases hs

theorem process_change {d : Nat} {m : TorcT} {rest : List Frame}
    (hx : s.thread t = ⟨⟨d, .received m⟩ :: rest, none⟩)
    (hkept : (Job.received m).Kept me) (hs : process me s t d m rest = some s') :
    Change s t s' := by
  unfold process at hs
  split at hs
  · cases hs
    exact .keep _ (by rw [hx]; rfl)
  · rename_i insertPrivate inFront _
    cases hs
    exact .insert _ d _ (enqueue_tasks _ _ _ _ _) (by rw [hx]; rfl)
  · rename_i hdirect
    exact absurd hdirect hkept.2
  · rename_i hrequest
    exact absurd hrequest hkept.1
  · cases hs

theorem move_change {a : Move} (hkept : ∀ f ∈ (s.thread t).stack, f.job.Kept me)
    (hs : move me t s a = some s') : Change s t s' := by
  cases a with
  | call job =>
      obtain ⟨-, heq⟩ := Option.ite_none_right_eq_some.mp hs
      cases heq
      exact .keep _ rfl
  | get => exact get_change hs
  | turn a =>
      simp only [move] at hs
      split at hs
      · rename_i d job rest hx
        obtain ⟨job', -, rfl⟩ := Option.map_eq_some_iff.mp hs
        exact .keep _ (by rw [hx]; rfl)
      · cases hs
  | insert inFront level =>
      simp only [move] at hs
      split at hs
      · rename_i d rest hx
        cases hs
        exact .insert _ d _ (enqueue_tasks _ _ _ _ _) (by rw [hx]; rfl)
      · cases hs
  | fetch source =>
      obtain ⟨-, heq⟩ := Option.ite_none_right_eq_some.mp hs
      obtain ⟨r, hr, rfl⟩ := Option.map_eq_some_iff.mp heq
      exact .fetch _ r.1 r.2 (dequeue_tasks hr) rfl
  | fetchWork =>
      simp only [move] at hs
      split at hs
      · rename_i d rest hx
        cases hs
        exact .insert _ d _ (Queues.torcToIPqEnd_tasks _ _) (by rw [hx]; rfl)
      · cases hs
  | putBack =>
      simp only [move] at hs
      split at hs
      · rename_i d rest hx
        cases hs
        exact .put _ d (by rw [hx]; rfl)
      · cases hs
  | process =>
      simp only [move] at hs
      split at hs
      · rename_i d m rest hx
        refine process_change hx (hkept ⟨d, .received m⟩ ?_) hs
        rw [hx]
        exact List.mem_cons_self
      · cases hs
  | forget =>
      simp only [move] at hs
      split at hs
      · -- a thread that obliges has nothing to drop
        rename_i d rest hx
        refine absurd (hkept ⟨d, .dropped⟩ ?_) id
        rw [hx]
        exact List.mem_cons_self
      · cases hs

/-! ## Places -/

theorem contents_set (s : State) (x : ThreadState) {r : Place} (h : r ≠ .hands t) :
    contents (s.set t x) r = contents s r := by
  cases r with
  | hands u => exact congrArg ThreadState.descs (set_other s x fun hu ↦ h (by rw [hu]))
  | _ => rfl

theorem contents_set_self (s : State) (x : ThreadState) :
    contents (s.set t x) (.hands t) = x.descs :=
  congrArg ThreadState.descs (set_self s t x)

theorem Change.located (hc : Change s t s')
    (h : Located (fun d ↦ d < s.allocated) (contents s)) :
    Located (fun d ↦ d < s'.allocated) (contents s') := by
  cases hc with
  | keep x hx =>
      refine h.stays fun d r ↦ ?_
      by_cases hr : r = .hands t
      · rw [hr, contents_set_self, hx]
        rfl
      · rw [contents_set s x hr]
  | reuse x d rest hq hx =>
      refine h.moves (t := d) (p := .reuse) (q := .hands t) (Moves.of_perm ?_ ?_ nofun ?_)
      · exact .of_eq hq
      · rw [contents_set_self, hx]
        exact .refl _
      · intro r hreuse hhands
        rw [contents_set _ x hhands]
        cases r with
        | reuse => exact absurd rfl hreuse
        | _ => rfl
  | calloc x hx =>
      refine h.issues (t := s.allocated) (q := .hands t) (Issues.of_perm ?_ ?_)
        (Nat.lt_irrefl _) fun d ↦ Nat.lt_succ_iff_lt_or_eq
      · rw [contents_set_self, hx]
        exact .refl _
      · intro r hr
        rw [contents_set _ x hr]
        cases r <;> rfl
  | put x d hx =>
      refine h.moves (t := d) (p := .hands t) (q := .reuse) (Moves.of_perm ?_ ?_ nofun ?_)
      · rw [contents_set_self]
        exact .of_eq hx
      · exact List.perm_append_singleton d s.reuseQ
      · intro r hhands hreuse
        rw [contents_set _ x hhands]
        cases r with
        | reuse => exact absurd rfl hreuse
        | _ => rfl
  | insert x d q hq hx =>
      refine h.moves (t := d) (p := .hands t) (q := .queued) (Moves.of_perm ?_ ?_ nofun ?_)
      · rw [contents_set_self]
        exact .of_eq hx
      · exact hq
      · intro r hhands hqueued
        rw [contents_set _ x hhands]
        cases r with
        | queued => exact absurd rfl hqueued
        | _ => rfl
  | fetch x d q hq hx =>
      refine h.moves (t := d) (p := .queued) (q := .hands t) (Moves.of_perm ?_ ?_ nofun ?_)
      · exact hq
      · rw [contents_set_self, hx]
        exact .refl _
      · intro r hqueued hhands
        rw [contents_set _ x hhands]
        cases r with
        | queued => exact absurd rfl hqueued
        | _ => rfl

/-! ## Obligations -/

theorem kept_cons {d : Nat} {job : Job} {rest : List Frame} (hjob : job.Kept me)
    (hrest : ∀ f ∈ rest, f.job.Kept me) :
    ∀ f ∈ (⟨d, job⟩ :: rest : List Frame), f.job.Kept me := by
  intro f hf
  rcases List.mem_cons.mp hf with rfl | hf
  · exact hjob
  · exact hrest f hf

theorem calls_kept {x : ThreadState} {job : Job} (h : x.calls t job) : job.Kept me := by
  cases job <;> trivial

theorem next_kept {a : Turn} {job job' : Job} (hjob : job.Kept me)
    (hok : ∀ m, a = .receive m →
      processReceived me m ≠ some .request ∧ processReceived me m ≠ some .direct)
    (h : a.next me job = some job') : job'.Kept me := by
  unfold Turn.next at h
  split at h
  · cases h
    trivial
  · rename_i work
    cases h
    cases work <;> trivial
  · cases h
    trivial
  · cases h
    trivial
  · exact absurd hjob id
  · rename_i m
    split at h
    · cases h
      exact hok m rfl
    · cases h
  · cases h

/-- The new state of the thread that takes a step. -/
def Obliging (me : Nat) (x : ThreadState) : Prop :=
  (∀ f ∈ x.stack, f.job.Kept me) ∧
  ∀ stage job, x.getting = some (stage, job) → job.Kept me

theorem obliging_none {stack : List Frame} (h : ∀ f ∈ stack, f.job.Kept me) :
    Obliging me ⟨stack, none⟩ := by
  refine ⟨h, fun stage job heq ↦ ?_⟩
  cases heq

theorem get_obliging (h : Obliging me (s.thread t)) (hs : get s t = some s') :
    Obliging me (s'.thread t) := by
  unfold get at hs
  split at hs
  · rename_i stack job hx
    rw [hx] at h
    cases hs
    rw [set_self]
    refine ⟨h.1, fun stage job' heq ↦ ?_⟩
    cases heq
    exact h.2 .test job rfl
  · rename_i stack job hx
    rw [hx] at h
    split at hs
    · cases hs
      rw [set_self]
      refine ⟨h.1, fun stage job' heq ↦ ?_⟩
      cases heq
      exact h.2 .dequeue job rfl
    · cases hs
      rw [set_self]
      exact obliging_none (kept_cons (h.2 .dequeue job rfl) h.1)
  · rename_i stack job hx
    rw [hx] at h
    cases hs
    rw [set_self]
    exact obliging_none (kept_cons (h.2 .calloc job rfl) h.1)
  · cases hs

theorem process_obliging {d : Nat} {m : TorcT} {rest : List Frame}
    (hrest : ∀ f ∈ rest, f.job.Kept me) (hkept : (Job.received m).Kept me)
    (hs : process me s t d m rest = some s') : Obliging me (s'.thread t) := by
  unfold process at hs
  split at hs
  · cases hs
    rw [set_self]
    exact obliging_none (kept_cons trivial hrest)
  · cases hs
    rw [set_self]
    exact obliging_none hrest
  · rename_i hdirect
    exact absurd hdirect hkept.2
  · rename_i hrequest
    exact absurd hrequest hkept.1
  · cases hs

theorem move_obliging {a : Move} (h : Obliging me (s.thread t))
    (hok : ∀ m, a = .turn (.receive m) →
      processReceived me m ≠ some .request ∧ processReceived me m ≠ some .direct)
    (hs : move me t s a = some s') : Obliging me (s'.thread t) := by
  cases a with
  | call job =>
      obtain ⟨⟨-, hcalls⟩, heq⟩ := Option.ite_none_right_eq_some.mp hs
      cases heq
      rw [set_self]
      refine ⟨h.1, fun stage job' heq ↦ ?_⟩
      cases heq
      exact calls_kept hcalls
  | get => exact get_obliging h hs
  | turn a =>
      simp only [move] at hs
      split at hs
      · rename_i d job rest hx
        rw [hx] at h
        obtain ⟨hjob, hrest⟩ := List.forall_mem_cons.mp h.1
        obtain ⟨job', hnext, rfl⟩ := Option.map_eq_some_iff.mp hs
        rw [set_self]
        exact obliging_none
          (kept_cons (next_kept hjob (fun m hm ↦ hok m (by rw [hm])) hnext) hrest)
      · cases hs
  | fetch source =>
      obtain ⟨-, heq⟩ := Option.ite_none_right_eq_some.mp hs
      obtain ⟨r, -, rfl⟩ := Option.map_eq_some_iff.mp heq
      rw [set_self]
      exact obliging_none (kept_cons trivial h.1)
  | process =>
      simp only [move] at hs
      split at hs
      · rename_i d m rest hx
        rw [hx] at h
        obtain ⟨hjob, hrest⟩ := List.forall_mem_cons.mp h.1
        exact process_obliging hrest hjob hs
      · cases hs
  | insert inFront level | fetchWork | putBack | forget =>
      -- the latest descriptor leaves the hands
      simp only [move] at hs
      split at hs
      · rename_i rest hx
        rw [hx] at h
        cases hs
        rw [set_self]
        exact obliging_none (List.forall_mem_cons.mp h.1).2
      · cases hs

theorem Change.other (hc : Change s t s') (hu : u ≠ t) : s'.thread u = s.thread u := by
  cases hc <;> exact set_other _ _ hu

theorem Change.records (hc : Change s t s') : s'.peak = s.peak ∧ s'.demand = s.demand := by
  cases hc <;> exact ⟨rfl, rfl⟩

/-! ## Counting -/

theorem nodup_threads (kthreads : Nat) : (threads kthreads).Nodup := by
  refine List.nodup_cons.mpr ⟨?_, List.nodup_range.map fun _ _ ↦ Thread.worker.inj⟩
  simp

/-- A sum over the threads when one of them changes. -/
theorem sum_map_set {ts : List Thread} (hnodup : ts.Nodup) (ht : t ∈ ts) (w : ThreadState → Nat)
    (hother : ∀ u, u ≠ t → s'.thread u = s.thread u) :
    (ts.map fun u ↦ w (s'.thread u)).sum + w (s.thread t) =
      (ts.map fun u ↦ w (s.thread u)).sum + w (s'.thread t) := by
  induction ts with
  | nil => cases ht
  | cons u ts ih =>
      obtain ⟨hu, hnodup⟩ := List.nodup_cons.mp hnodup
      simp only [List.map_cons, List.sum_cons]
      by_cases htu : t = u
      · subst htu
        have hrest : (ts.map fun u ↦ w (s'.thread u)) = ts.map fun u ↦ w (s.thread u) := by
          apply List.map_congr_left
          intro u hmem
          rw [hother u fun heq ↦ hu (heq ▸ hmem)]
        rw [hrest]
        omega
      · have hmem : t ∈ ts := (List.mem_cons.mp ht).resolve_left htu
        have hsum := ih hnodup hmem
        rw [hother u fun heq ↦ htu heq.symm]
        omega

/-- Every descriptor is in `reuse_q` or in use. -/
theorem Change.count (hc : Change s t s') (ht : t ∈ threads kthreads)
    (h : s.allocated = s.reuseQ.length + s.inUse (threads kthreads)) :
    s'.allocated = s'.reuseQ.length + s'.inUse (threads kthreads) := by
  have hsum := sum_map_set (nodup_threads kthreads) ht (fun x ↦ x.stack.length)
    fun u hu ↦ hc.other hu
  have hlength : ∀ x : ThreadState, x.stack.length = x.descs.length := fun x ↦
    (List.length_map _).symm
  unfold State.inUse at h ⊢
  cases hc with
  | keep x hx =>
      rw [set_self, hlength x, hx, ← hlength] at hsum
      show s.allocated = s.reuseQ.length + (s.queues.tasks.length + _)
      omega
  | reuse x d rest hq hx =>
      rw [set_self, hlength x, hx, List.length_cons, ← hlength] at hsum
      rw [hq, List.length_cons] at h
      show s.allocated = rest.length + (s.queues.tasks.length + _)
      omega
  | calloc x hx =>
      rw [set_self, hlength x, hx, List.length_cons, ← hlength] at hsum
      show s.allocated + 1 = s.reuseQ.length + (s.queues.tasks.length + _)
      omega
  | put x d hx =>
      rw [set_self, hlength (s.thread t), hx, List.length_cons, ← hlength] at hsum
      show s.allocated = (s.reuseQ ++ [d]).length + (s.queues.tasks.length + _)
      rw [List.length_append, List.length_singleton]
      omega
  | insert x d q hq hx =>
      rw [set_self, hlength (s.thread t), hx, List.length_cons, ← hlength] at hsum
      have hlen := hq.length_eq
      rw [List.length_cons] at hlen
      show s.allocated = s.reuseQ.length + (q.tasks.length + _)
      omega
  | fetch x d q hq hx =>
      rw [set_self, hlength x, hx, List.length_cons, ← hlength] at hsum
      have hlen := hq.length_eq
      rw [List.length_cons] at hlen
      show s.allocated = s.reuseQ.length + (q.tasks.length + _)
      omega

/-! ## Allocations -/

theorem get_atCalloc (hs : get s t = some s') :
    (s'.reuseQ = s.reuseQ ∧ s'.allocated = s.allocated ∧
      ((s'.thread t).atCalloc = true → s.reuseQ = [])) ∨
    (s.reuseQ ≠ [] ∧ s'.allocated = s.allocated ∧ (s'.thread t).atCalloc = false) ∨
    ((s.thread t).atCalloc = true ∧ s'.reuseQ = s.reuseQ ∧ s'.allocated = s.allocated + 1 ∧
      (s'.thread t).atCalloc = false) := by
  unfold get at hs
  split at hs
  · cases hs
    refine .inl ⟨rfl, rfl, fun hat ↦ ?_⟩
    rw [set_self] at hat
    by_contra hne
    rw [if_neg hne] at hat
    cases hat
  · split at hs
    · rename_i hq
      cases hs
      exact .inl ⟨rfl, rfl, fun _ ↦ hq⟩
    · rename_i d rest hq
      cases hs
      refine .inr (.inl ⟨?_, rfl, ?_⟩)
      · rw [hq]
        exact List.cons_ne_nil d rest
      · rw [set_self]
        rfl
  · rename_i stack job hx
    cases hs
    refine .inr (.inr ⟨?_, rfl, rfl, ?_⟩)
    · rw [hx]
      rfl
    · rw [set_self]
      rfl
  · cases hs

/-- Inside `process_a_received_descriptor` the server gets no descriptor. -/
theorem process_outside {d : Nat} {m : TorcT} {rest : List Frame}
    (hs : process me s t d m rest = some s') :
    ∃ (s₀ : State) (stack : List Frame), s' = s₀.set t ⟨stack, none⟩ ∧
    s₀.reuseQ = s.reuseQ ∧
      s₀.allocated = s.allocated := by
  unfold process at hs
  split at hs
  · cases hs
    exact ⟨_, _, rfl, rfl, rfl⟩
  · cases hs
    exact ⟨_, _, rfl, rfl, rfl⟩
  · cases hs
    exact ⟨_, _, rfl, rfl, rfl⟩
  · split at hs
    · cases hs
      exact ⟨_, _, rfl, rfl, rfl⟩
    · cases hs
      exact ⟨_, _, rfl, rfl, rfl⟩
  · cases hs

/-- A thread comes to `calloc` only when `reuse_q` is empty, and allocates only there. -/
theorem move_atCalloc {a : Move} (hs : move me t s a = some s') :
    (s'.reuseQ = s.reuseQ ∧ s'.allocated = s.allocated ∧
      ((s'.thread t).atCalloc = true → (s.thread t).atCalloc = true ∨ s.reuseQ = [])) ∨
    (s.reuseQ ≠ [] ∧ s'.allocated = s.allocated ∧ (s'.thread t).atCalloc = false) ∨
    (a = .putBack ∧ s'.allocated = s.allocated ∧ (s'.thread t).atCalloc = false) ∨
    ((s.thread t).atCalloc = true ∧ s'.reuseQ = s.reuseQ ∧ s'.allocated = s.allocated + 1 ∧
      (s'.thread t).atCalloc = false) := by
  -- in most steps the thread is not inside `_torc_get_reused_desc` afterwards
  have hleft : ∀ (s₀ : State) (stack : List Frame), s' = s₀.set t ⟨stack, none⟩ →
      s₀.reuseQ = s.reuseQ → s₀.allocated = s.allocated →
      s'.reuseQ = s.reuseQ ∧ s'.allocated = s.allocated ∧
        ((s'.thread t).atCalloc = true → (s.thread t).atCalloc = true ∨ s.reuseQ = []) := by
    rintro s₀ stack rfl hreuse hallocated
    refine ⟨hreuse, hallocated, fun hat ↦ ?_⟩
    rw [set_self] at hat
    cases hat
  cases a with
  | call job =>
      obtain ⟨-, heq⟩ := Option.ite_none_right_eq_some.mp hs
      cases heq
      refine .inl ⟨rfl, rfl, fun hat ↦ ?_⟩
      rw [set_self] at hat
      cases hat
  | get =>
      rcases get_atCalloc hs with ⟨hreuse, hallocated, hat⟩ | hreused | hcalloc
      · exact .inl ⟨hreuse, hallocated, fun hnow ↦ .inr (hat hnow)⟩
      · exact .inr (.inl hreused)
      · exact .inr (.inr (.inr hcalloc))
  | fetch source =>
      obtain ⟨-, heq⟩ := Option.ite_none_right_eq_some.mp hs
      obtain ⟨r, -, rfl⟩ := Option.map_eq_some_iff.mp heq
      exact .inl (hleft _ _ rfl rfl rfl)
  | putBack =>
      simp only [move] at hs
      split at hs
      · cases hs
        refine .inr (.inr (.inl ⟨rfl, rfl, ?_⟩))
        rw [set_self]
        rfl
      · cases hs
  | turn a =>
      simp only [move] at hs
      split at hs
      · obtain ⟨job', -, rfl⟩ := Option.map_eq_some_iff.mp hs
        exact .inl (hleft _ _ rfl rfl rfl)
      · cases hs
  | insert inFront level =>
      simp only [move] at hs
      split at hs
      · cases hs
        exact .inl (hleft _ _ rfl rfl rfl)
      · cases hs
  | fetchWork =>
      simp only [move] at hs
      split at hs
      · cases hs
        exact .inl (hleft _ _ rfl rfl rfl)
      · cases hs
  | forget =>
      simp only [move] at hs
      split at hs
      · cases hs
        exact .inl (hleft _ _ rfl rfl rfl)
      · cases hs
  | process =>
      simp only [move] at hs
      split at hs
      · obtain ⟨s₀, stack, heq, hreuse, hallocated⟩ := process_outside hs
        exact .inl (hleft s₀ stack heq hreuse hallocated)
      · cases hs

/-! ## Every run -/

structure Inv (me kthreads : Nat) (s : State) : Prop where
  located : Located (fun d ↦ d < s.allocated) (contents s)
  obliging : ∀ t, Obliging me (s.thread t)
  count : s.allocated = s.reuseQ.length + s.inUse (threads kthreads)
  demand : s.allocated + s.obtaining (threads kthreads) ≤ s.demand

theorem contents_record (ts : List Thread) (s : State) : contents (s.record ts) = contents s := by
  funext r
  cases r <;> rfl

theorem Inv.start (me kthreads : Nat) : Inv me kthreads {} where
  located := by
    refine ⟨fun d hd ↦ absurd hd (Nat.not_lt_zero d), fun d _ r ↦ ?_⟩
    cases r <;> rfl
  obliging _ := obliging_none fun _ hf ↦ absurd hf List.not_mem_nil
  count := by
    have hzero : ((threads kthreads).map fun _ ↦ 0).sum = 0 := by simp
    show 0 = 0 + (0 + ((threads kthreads).map fun _ ↦ 0).sum)
    rw [hzero]
  demand := by
    have hzero : ((threads kthreads).map fun _ ↦ 0).sum = 0 := by simp
    show 0 + ((threads kthreads).map fun _ ↦ 0).sum ≤ 0
    rw [hzero]

theorem Inv.step (h : Inv me kthreads s) {a : Act} (hok : Keeps me a)
    (hs : (system me kthreads).step a s = some s') : Inv me kthreads s' := by
  obtain ⟨ht, hs⟩ := Option.ite_none_right_eq_some.mp hs
  obtain ⟨s₁, hmove, rfl⟩ := Option.map_eq_some_iff.mp hs
  have hchange : Change s a.thread s₁ := move_change (h.obliging a.thread).1 hmove
  have hcount := hchange.count ht h.count
  refine ⟨?_, fun u ↦ ?_, hcount, ?_⟩
  · rw [contents_record]
    exact hchange.located h.located
  · show Obliging me (s₁.thread u)
    by_cases hu : u = a.thread
    · rw [hu]
      exact move_obliging (h.obliging a.thread) hok hmove
    · rw [hchange.other hu]
      exact h.obliging u
  · show s₁.allocated + s₁.obtaining (threads kthreads) ≤
      max s₁.demand (s₁.inUse (threads kthreads) + s₁.obtaining (threads kthreads))
    rw [hchange.records.2]
    have hsum := sum_map_set (nodup_threads kthreads) ht (fun x ↦ if x.atCalloc then 1 else 0)
      fun u hu ↦ hchange.other hu
    have hdemand := h.demand
    change s₁.obtaining (threads kthreads) + _ = s.obtaining (threads kthreads) + _ at hsum
    rcases move_atCalloc hmove with ⟨hreuse, hallocated, hat⟩ | ⟨-, hallocated, hat⟩ |
      ⟨-, hallocated, hat⟩ | ⟨hbefore, -, hallocated, hat⟩
    · by_cases hempty : s₁.reuseQ = []
      · -- every descriptor is in use
        rw [hempty, List.length_nil] at hcount
        omega
      · have hle : (if (s₁.thread a.thread).atCalloc then 1 else 0) ≤
            if (s.thread a.thread).atCalloc then 1 else 0 := by
          by_cases hnow : (s₁.thread a.thread).atCalloc = true
          · rw [(hat hnow).resolve_right fun hnil ↦ hempty (hreuse.trans hnil)]
            split <;> decide
          · rw [if_neg hnow]
            exact Nat.zero_le _
        omega
    · rw [hat] at hsum
      simp only [Bool.false_eq_true, ↓reduceIte] at hsum
      omega
    · rw [hat] at hsum
      simp only [Bool.false_eq_true, ↓reduceIte] at hsum
      omega
    · rw [hat, hbefore] at hsum
      simp only [Bool.false_eq_true, ↓reduceIte] at hsum
      omega

theorem Inv.conserved (h : Inv me kthreads s) : Conserved me s :=
  ⟨h.located, fun t ↦ (h.obliging t).1⟩

theorem inv_of_reachable (h : (system me kthreads).ReachableIf (fun a _ ↦ Keeps me a) s) :
    Inv me kthreads s := by
  refine h.invariant (Inv me kthreads) (fun s hs ↦ ?_) fun _ _ _ hinv hok hs ↦ hinv.step hok hs
  obtain rfl : s = {} := hs
  exact Inv.start me kthreads

/-- Without a descriptor put back in between, the thread at `calloc` is right that there is none. -/
structure Prompt (kthreads : Nat) (s : State) : Prop where
  empty : ∀ t ∈ threads kthreads, (s.thread t).atCalloc = true → s.reuseQ = []
  peak : s.allocated ≤ s.peak

theorem Prompt.step (hinv : Inv me kthreads s) (h : Prompt kthreads s) {a : Act}
    (hok : Keeps me a ∧ Undisturbed kthreads a s)
    (hs : (system me kthreads).step a s = some s') : Prompt kthreads s' := by
  have hcount := (hinv.step hok.1 hs).count
  obtain ⟨ht, hs⟩ := Option.ite_none_right_eq_some.mp hs
  obtain ⟨s₁, hmove, rfl⟩ := Option.map_eq_some_iff.mp hs
  have hchange : Change s a.thread s₁ := move_change (hinv.obliging a.thread).1 hmove
  have hpeak := h.peak
  change s₁.allocated = s₁.reuseQ.length + s₁.inUse (threads kthreads) at hcount
  -- for the other threads nothing has changed
  have hempty : (∀ t ∈ threads kthreads, (s.thread t).atCalloc = true → s₁.reuseQ = []) →
      ((s₁.thread a.thread).atCalloc = true → s₁.reuseQ = []) →
        ∀ t ∈ threads kthreads, (s₁.thread t).atCalloc = true → s₁.reuseQ = [] := by
    intro hothers hself t ht hat
    by_cases hta : t = a.thread
    · rw [hta] at hat
      exact hself hat
    · rw [hchange.other hta] at hat
      exact hothers t ht hat
  have hmax : s₁.allocated = s.allocated → s₁.allocated ≤
      max s₁.peak (s₁.inUse (threads kthreads)) := by
    intro heq
    rw [hchange.records.1]
    omega
  rcases move_atCalloc hmove with ⟨hreuse, hallocated, hat⟩ | ⟨hne, hallocated, hat⟩ |
    ⟨hput, hallocated, hat⟩ | ⟨hbefore, hreuse, hallocated, hat⟩
  · refine ⟨hempty (fun t ht hnow ↦ hreuse.trans (h.empty t ht hnow)) fun hnow ↦ ?_,
      hmax hallocated⟩
    rw [hreuse]
    exact (hat hnow).elim (h.empty a.thread ht) id
  · exact ⟨hempty (fun t ht hnow ↦ absurd (h.empty t ht hnow) hne)
      (fun hnow ↦ absurd hnow (by rw [hat]; decide)), hmax hallocated⟩
  · refine ⟨hempty (fun t ht hnow ↦ ?_) fun hnow ↦ absurd hnow (by rw [hat]; decide),
      hmax hallocated⟩
    rw [hok.2 hput t ht] at hnow
    cases hnow
  · have hnil : s₁.reuseQ = [] := hreuse.trans (h.empty a.thread ht hbefore)
    refine ⟨fun _ _ _ ↦ hnil, ?_⟩
    rw [hnil, List.length_nil] at hcount
    show s₁.allocated ≤ max s₁.peak (s₁.inUse (threads kthreads))
    omega

theorem prompt_of_reachable
    (h : (system me kthreads).ReachableIf (fun a s ↦ Keeps me a ∧ Undisturbed kthreads a s) s) :
    Prompt kthreads s := by
  have hboth : Inv me kthreads s ∧ Prompt kthreads s := by
    refine h.invariant (fun s ↦ Inv me kthreads s ∧ Prompt kthreads s) (fun s hs ↦ ?_)
      fun _ _ _ hinv hok hs ↦ ⟨hinv.1.step hok.1 hs, hinv.2.step hinv.1 hok hs⟩
    obtain rfl : s = {} := hs
    exact ⟨Inv.start me kthreads, ⟨fun _ _ _ ↦ rfl, Nat.le_refl 0⟩⟩
  exact hboth.2

/-- In every run in which the server gets no stealing request and no task for direct execution, the
descriptors are conserved and no more of them are allocated than were in demand at one time; and no
more than were in use at one time if none is put back while another thread is about to allocate. -/
theorem conserved_of_keeps (L : Layout) (me : Nat) (s : State)
    (h : (system me (kthreadsOf L me)).ReachableIf (fun a _ ↦ Keeps me a) s) :
    Conserved me s ∧ s.allocated ≤ s.demand ∧
      ((system me (kthreadsOf L me)).ReachableIf
          (fun a s ↦ Keeps me a ∧ Undisturbed (kthreadsOf L me) a s) s →
        s.allocated ≤ s.peak) := by
  have hinv := inv_of_reachable h
  have hdemand := hinv.demand
  exact ⟨hinv.conserved, by omega, fun h ↦ (prompt_of_reachable h).peak⟩

def keepsCheck (me kthreads : Nat) (a : Act) (s : State) : Bool :=
  match a.move with
  | .turn (.receive m) =>
      processReceived me m ≠ some .request ∧ processReceived me m ≠ some .direct
  | .putBack => (threads kthreads).all fun t ↦ !(s.thread t).atCalloc
  | _ => true

theorem keeps_of_check (a : Act) (s : State) (h : keepsCheck me kthreads a s = true) :
    Keeps me a ∧ Undisturbed kthreads a s := by
  constructor
  · intro m hm
    simp only [keepsCheck, hm] at h
    exact of_decide_eq_true h
  · intro hput t ht
    simp only [keepsCheck, hput, List.all_eq_true, Bool.not_eq_true'] at h
    exact h t ht

/-- Worker 0 creates a task and executes it, and the server uses the descriptor again for an
answer. -/
def recycleRun : List Act :=
  [.call .fill, .get, .get, .insert false 1, .fetch (some 0), .turn .execute, .turn .finish,
    .putBack].map (Act.mk (.worker 0)) ++
  [.call .waiting, .get, .get, .turn (.receive { type := .torcAnswer }), .process, .putBack].map
    (Act.mk .server)

theorem conserved_of_keeps_sample :
    ∃ s, (system 0 1).ReachableIf (fun a _ ↦ Keeps 0 a) s ∧ s.allocated = 1 ∧
    s.reuseQ = [0] ∧
      Conserved 0 s ∧ s.allocated ≤ s.peak := by
  have hend : ((system 0 1).runIf (keepsCheck 0 1) {} recycleRun).map
      (fun s ↦ (s.allocated, s.reuseQ)) = some (1, [0]) := by decide
  obtain ⟨s, hreach, hs⟩ := System.ReachableIf.eval keeps_of_check (.init rfl) hend
  obtain ⟨hallocated, hreuse⟩ := Prod.mk.inj hs
  have hkeeps : (system 0 1).ReachableIf (fun a _ ↦ Keeps 0 a) s := hreach.mono fun _ _ h ↦ h.1
  obtain ⟨hconserved, -, hpeak⟩ := conserved_of_keeps oneNode 0 s hkeeps
  exact ⟨s, hkeeps, hallocated, hreuse, hconserved, hpeak hreach⟩

/-- The server answers a stealing request with no work to give. -/
def requestRun : List Act :=
  [.call .waiting, .get, .get, .turn (.receive { type := .directSynchronousStealingRequest }),
    .process, .forget].map (Act.mk .server)

/-- Two requests cost two descriptors, one at a time. -/
theorem not_conserved :
    ∃ s, (system 0 1).Reachable s ∧ s.allocated = 2 ∧ s.peak = 1 ∧ s.demand = 1 ∧
      ¬ Conserved 0 s := by
  let acts := requestRun ++ requestRun
  have hend : ((system 0 1).run {} acts).map
      (fun s ↦ (s.allocated, s.peak, s.demand, contents s)) =
      some (2, 1, 1, fun _ ↦ []) := by
    refine congrArg (fun held : Place → List Nat ↦ some (2, 1, 1, held)) (funext fun p ↦ ?_)
    cases p with
    | reuse => rfl
    | queued => rfl
    | hands t =>
        cases t with
        | server => rfl
        | worker v => rfl
  obtain ⟨s, hreach, hs⟩ := System.Reachable.eval (.init rfl) hend
  simp only [Prod.mk.injEq] at hs
  obtain ⟨hallocated, hpeak, hdemand, hheld⟩ := hs
  refine ⟨s, hreach, hallocated, hpeak, hdemand, fun h ↦ ?_⟩
  obtain ⟨p, hp⟩ := h.located.at_one 0 (by rw [hallocated]; decide)
  have hmem : 0 ∈ contents s p := hp.mem
  rw [congrFun hheld p] at hmem
  cases hmem

end Torc.Pool
