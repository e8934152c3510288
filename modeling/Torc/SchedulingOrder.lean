import Torc.Queue

/-!
# The order of tasks

Histories of insertions and removals at the queues of a node, and the two loops that choose a task
from them.  During a choice other threads go on inserting tasks.
-/

namespace Torc.SchedulingOrder

/-- A call of one of the four insertions. -/
structure Insertion where
  insertPrivate : Bool
  insertInFront : Bool
  level : Int
  task : Nat
  deriving DecidableEq

/-- A queued task; `stamp` counts the insertions before its own. -/
structure Entry extends Insertion where
  stamp : Nat
  deriving DecidableEq

inductive Source
  | privateQueue
  | publicQueue (k : Nat)
  deriving DecidableEq

structure State where
  queues : Queues Entry := {}
  clock : Nat := 0

/-- A removal takes the head of a queue, whoever calls it; on an empty queue it returns `NULL`. -/
inductive Op
  | insert (i : Insertion)
  | remove (source : Source)

def dequeue (q : Queues Entry) : Source → Option (Entry × Queues Entry)
  | .privateQueue => q.torcIPqDequeue
  | .publicQueue k => q.torcIRqDequeue k

def State.insert (s : State) (i : Insertion) : State where
  queues := s.queues.insertAt i.insertPrivate i.insertInFront i.level { i with stamp := s.clock }
  clock := s.clock + 1

def State.apply (s : State) : Op → State
  | .insert i => s.insert i
  | .remove source =>
      match dequeue s.queues source with
      | some r => { s with queues := r.2 }
      | none => s

/-- The queues after a history. -/
def after (ops : List Op) : State :=
  ops.foldl State.apply {}

/-- Where `get_next_task` looks, in this order. -/
def nextTaskSources : List Source :=
  .privateQueue :: [9, 8, 7, 6, 5, 4, 3, 2, 1, 0].map .publicQueue

/-- Where the handler of a stealing request looks. -/
def stealSources : List Source :=
  (List.range 10).map .publicQueue

/-- The sources one after the other; the other threads have inserted `arrivals source` when the loop
comes to `source`. -/
def select (arrivals : Source → List Insertion) : List Source → State → Option Entry × State
  | [], s => (none, s)
  | source :: rest, s =>
      let s' := (arrivals source).foldl State.insert s
      match dequeue s'.queues source with
      -- `break`: the sources behind it are not looked at
      | some r => (some r.1, { s' with queues := r.2 })
      | none => select arrivals rest s'

/-- The queue that a task belongs to. -/
def Insertion.source (i : Insertion) : Source :=
  if i.insertPrivate then .privateQueue else .publicQueue (rqIndex i.level)

def entries (q : Queues Entry) : Source → List Entry
  | .privateQueue => q.privateGrq
  | .publicQueue k => q.publicGrq k

/-- `get_next_task` chose well from the tasks that were queued when it began: a private task, else
one of the deepest level, and of the tasks inserted at the tail the oldest one. -/
structure NextTask (s : State) (r : Option Entry × State) : Prop where
  empty : r.1 = none → s.queues.tasks = []
  privateFirst : s.queues.privateGrq ≠ [] → ∃ t, r.1 = some t ∧ t.insertPrivate = true ∧
    s.queues.privateGrq.Sublist (t :: r.2.queues.privateGrq)
  deepest : ∀ t, r.1 = some t → t.insertPrivate = false →
    ∀ k < 10, ∀ u ∈ s.queues.publicGrq k, rqIndex u.level ≤ rqIndex t.level
  inOrder : ∀ t, r.1 = some t → t.insertInFront = false →
    ∀ u ∈ entries s.queues t.source, u.insertInFront = false → t.stamp ≤ u.stamp

/-- The handler chose well: a public task of the shallowest level. -/
structure StolenTask (s : State) (r : Option Entry × State) : Prop where
  empty : r.1 = none → ∀ k < 10, s.queues.publicGrq k = []
  isPublic : ∀ t, r.1 = some t → t.insertPrivate = false
  shallowest : ∀ t, r.1 = some t →
    ∀ k < 10, ∀ u ∈ s.queues.publicGrq k, rqIndex t.level ≤ rqIndex u.level
  inOrder : ∀ t, r.1 = some t → t.insertInFront = false →
    ∀ u ∈ entries s.queues t.source, u.insertInFront = false → t.stamp ≤ u.stamp

/-- Without insertions during the choices. -/
structure Undisturbed (s : State) : Prop where
  next : (select (fun _ ↦ []) nextTaskSources s).1 = s.queues.nextLocal.map Prod.fst
  nextNone : s.queues.nextLocal = none ↔ s.queues.tasks = []
  oldest : ∀ t rest, s.queues.privateGrq = t :: rest → s.queues.nextLocal.map Prod.fst = some t
  stolen : (select (fun _ ↦ []) stealSources s).1 =
    (s.queues.firstOf (List.range 10)).map Prod.fst
  stolenNone : s.queues.firstOf (List.range 10) = none ↔ ∀ k < 10, s.queues.publicGrq k = []

/-! ## One queue -/

/-- The tasks of a queue are those that belong there, and those inserted at its tail stand in the
order of their insertion. -/
structure Ordered (clock : Nat) (source : Source) (l : List Entry) : Prop where
  place : ∀ e ∈ l, e.source = source
  stamp : ∀ e ∈ l, e.stamp < clock
  order : l.Pairwise fun a b ↦
    a.insertInFront = false → b.insertInFront = false → a.stamp < b.stamp

variable {clock : Nat} {source source' : Source} {l : List Entry} {e t : Entry} {s : State}
  {q : Queues Entry} {i : Insertion}

theorem Ordered.nil : Ordered clock source [] :=
  ⟨fun _ h ↦ absurd h List.not_mem_nil, fun _ h ↦ absurd h List.not_mem_nil, .nil⟩

theorem Ordered.later (h : Ordered clock source l) : Ordered (clock + 1) source l :=
  ⟨h.place, fun e he ↦ Nat.lt_succ_of_lt (h.stamp e he), h.order⟩

theorem Ordered.tail (h : Ordered clock source (e :: l)) : Ordered clock source l :=
  ⟨fun x hx ↦ h.place x (List.mem_cons_of_mem _ hx),
    fun x hx ↦ h.stamp x (List.mem_cons_of_mem _ hx), (List.pairwise_cons.mp h.order).2⟩

theorem Ordered.atHead (h : Ordered clock source l) (hsource : e.source = source)
    (hstamp : e.stamp = clock) (hfront : e.insertInFront = true) :
    Ordered (clock + 1) source (e :: l) := by
  refine ⟨fun x hx ↦ ?_, fun x hx ↦ ?_,
    List.pairwise_cons.mpr ⟨fun x _ htail ↦ ?_, h.order⟩⟩
  · rcases List.mem_cons.mp hx with rfl | hx
    · exact hsource
    · exact h.place x hx
  · rcases List.mem_cons.mp hx with rfl | hx
    · omega
    · exact Nat.lt_succ_of_lt (h.stamp x hx)
  · rw [hfront] at htail
    cases htail

theorem Ordered.atTail (h : Ordered clock source l) (hsource : e.source = source)
    (hstamp : e.stamp = clock) : Ordered (clock + 1) source (l ++ [e]) := by
  refine ⟨fun x hx ↦ ?_, fun x hx ↦ ?_, List.pairwise_append.mpr
    ⟨h.order, List.pairwise_singleton _ _, fun x hx y hy _ _ ↦ ?_⟩⟩
  · rcases List.mem_append.mp hx with hx | hx
    · exact h.place x hx
    · rw [List.mem_singleton.mp hx]
      exact hsource
  · rcases List.mem_append.mp hx with hx | hx
    · exact Nat.lt_succ_of_lt (h.stamp x hx)
    · rw [List.mem_singleton.mp hx]
      omega
  · -- every stamp so far is below the clock
    rw [List.mem_singleton.mp hy, hstamp]
    exact h.stamp x hx

/-! ## All queues -/

theorem entries_insertAt (q : Queues Entry) (i : Insertion) (t : Entry) (source : Source) :
    entries (q.insertAt i.insertPrivate i.insertInFront i.level t) source =
      if source = i.source then
        if i.insertInFront then t :: entries q source else entries q source ++ [t]
      else entries q source := by
  obtain ⟨insertPrivate, insertInFront, level, task⟩ := i
  cases insertPrivate with
  | true =>
      cases source with
      | privateQueue => cases insertInFront <;> rfl
      | publicQueue k => cases insertInFront <;> rfl
  | false =>
      cases source with
      | privateQueue => cases insertInFront <;> rfl
      | publicQueue k =>
          have hsource : (⟨false, insertInFront, level, task⟩ : Insertion).source =
              .publicQueue (rqIndex level) := rfl
          by_cases hk : k = rqIndex level
          · subst hk
            rw [hsource, if_pos rfl]
            cases insertInFront <;> exact Queues.setPublic_self ..
          · rw [hsource, if_neg fun h ↦ hk (Source.publicQueue.inj h)]
            cases insertInFront <;> exact Function.update_of_ne hk ..

theorem dequeue_some {q' : Queues Entry} (h : dequeue q source = some (t, q')) :
    entries q source = t :: entries q' source ∧
      ∀ other, other ≠ source → entries q' other = entries q other := by
  cases source with
  | privateQueue =>
      simp only [dequeue, Queues.torcIPqDequeue] at h
      split at h
      · cases h
      · rename_i hq
        cases h
        refine ⟨hq, fun other hother ↦ ?_⟩
        cases other with
        | privateQueue => exact absurd rfl hother
        | publicQueue k => rfl
  | publicQueue k =>
      simp only [dequeue, Queues.torcIRqDequeue] at h
      split at h
      · cases h
      · rename_i rest hq
        cases h
        refine ⟨?_, fun other hother ↦ ?_⟩
        · simp only [entries, Queues.setPublic_self, hq]
        · cases other with
          | privateQueue => rfl
          | publicQueue j =>
              exact Function.update_of_ne (fun h ↦ hother (congrArg Source.publicQueue h)) ..

theorem dequeue_eq_none_iff (q : Queues Entry) (source : Source) :
    dequeue q source = none ↔ entries q source = [] := by
  cases source with
  | privateQueue =>
      simp only [dequeue, Queues.torcIPqDequeue, entries]
      split <;> simp_all
  | publicQueue k =>
      simp only [dequeue, Queues.torcIRqDequeue, entries]
      split <;> simp_all

/-- Every queue is in order. -/
def Inv (s : State) : Prop :=
  ∀ source, Ordered s.clock source (entries s.queues source)

theorem Inv.insert (h : Inv s) (i : Insertion) : Inv (s.insert i) := by
  intro source
  show Ordered (s.clock + 1) source (entries (s.queues.insertAt _ _ _ _) source)
  rw [entries_insertAt]
  by_cases hsource : source = i.source
  · rw [if_pos hsource]
    cases hfront : i.insertInFront with
    | true => exact (h source).atHead hsource.symm rfl hfront
    | false => exact (h source).atTail hsource.symm rfl
  · rw [if_neg hsource]
    exact (h source).later

theorem Inv.dequeue {q' : Queues Entry} (h : Inv s)
    (hq : dequeue s.queues source = some (t, q')) : Inv { s with queues := q' } := by
  obtain ⟨hhead, hother⟩ := dequeue_some hq
  intro other
  by_cases heq : other = source
  · subst heq
    have hall := h other
    rw [hhead] at hall
    exact hall.tail
  · show Ordered s.clock other (entries q' other)
    rw [hother other heq]
    exact h other

theorem Inv.apply (h : Inv s) (op : Op) : Inv (s.apply op) := by
  cases op with
  | insert i => exact h.insert i
  | remove source =>
      simp only [State.apply]
      split
      · rename_i r hr
        exact h.dequeue hr
      · exact h

theorem inv_after (ops : List Op) : Inv (after ops) := by
  have hrun : ∀ s, Inv s → Inv (ops.foldl State.apply s) := by
    induction ops with
    | nil => exact fun s h ↦ h
    | cons op ops ih => exact fun s h ↦ ih _ (h.apply op)
  refine hrun {} fun source ↦ ?_
  cases source <;> exact .nil

/-! ## Choices -/

theorem entries_insert_sublist (s : State) (i : Insertion) (source : Source) :
    (entries s.queues source).Sublist (entries (s.insert i).queues source) := by
  show (entries s.queues source).Sublist (entries (s.queues.insertAt _ _ _ _) source)
  rw [entries_insertAt]
  split
  · split
    · exact List.sublist_cons_self _ _
    · exact List.sublist_append_left _ _
  · exact List.Sublist.refl _

/-- Insertions leave what is queued in its order. -/
theorem insertions_spec (is : List Insertion) (h : Inv s) :
    Inv (is.foldl State.insert s) ∧
      ∀ source, (entries s.queues source).Sublist
        (entries (is.foldl State.insert s).queues source) := by
  induction is generalizing s with
  | nil => exact ⟨h, fun _ ↦ List.Sublist.refl _⟩
  | cons i is ih =>
      obtain ⟨hinv, hsub⟩ := ih (h.insert i)
      exact ⟨hinv, fun source ↦ (entries_insert_sublist s i source).trans (hsub source)⟩

/-- The outcome of a loop over `sources`: the sources before that of the task were empty from the
beginning, and the task was at the head of its queue. -/
structure Selected (s : State) (sources : List Source) (r : Option Entry × State) : Prop where
  empty : r.1 = none → ∀ source ∈ sources, entries s.queues source = []
  taken : ∀ t, r.1 = some t → ∃ before behind, sources = before ++ t.source :: behind ∧
    (∀ source ∈ before, entries s.queues source = []) ∧
    (entries s.queues t.source).Sublist (t :: entries r.2.queues t.source) ∧
    Ordered r.2.clock t.source (t :: entries r.2.queues t.source)

theorem select_spec (arrivals : Source → List Insertion) (sources : List Source) (h : Inv s) :
    Selected s sources (select arrivals sources s) := by
  induction sources generalizing s with
  | nil =>
      exact ⟨fun _ _ hmem ↦ absurd hmem List.not_mem_nil, fun t ht ↦ (nomatch ht)⟩
  | cons source rest ih =>
      obtain ⟨hinv, hsub⟩ := insertions_spec (arrivals source) h
      unfold select
      simp only
      split
      · -- the task is at the head of this queue
        rename_i r hr
        obtain ⟨hhead, -⟩ := dequeue_some hr
        refine ⟨fun hnone ↦ (nomatch hnone), fun t ht ↦ ?_⟩
        cases ht
        have hordered := hinv source
        rw [hhead] at hordered
        have hsource : r.1.source = source := hordered.place r.1 List.mem_cons_self
        have hsublist := hsub source
        rw [hhead] at hsublist
        refine ⟨[], rest, ?_, fun _ hmem ↦ absurd hmem List.not_mem_nil, ?_, ?_⟩
        · rw [hsource, List.nil_append]
        · rw [hsource]
          exact hsublist
        · rw [hsource]
          exact hordered
      · -- the queue was empty, also before the insertions
        rename_i hnone
        have hempty : entries s.queues source = [] := by
          have hnil := hsub source
          rw [(dequeue_eq_none_iff _ source).mp hnone] at hnil
          exact List.sublist_nil.mp hnil
        obtain ⟨hall, htaken⟩ := ih hinv
        refine ⟨fun hr x hx ↦ ?_, fun t ht ↦ ?_⟩
        · rcases List.mem_cons.mp hx with rfl | hx
          · exact hempty
          · have hnil := hsub x
            rw [hall hr x hx] at hnil
            exact List.sublist_nil.mp hnil
        · obtain ⟨before, behind, heq, hbefore, hhead, hordered⟩ := htaken t ht
          refine ⟨source :: before, behind, by rw [heq, List.cons_append], fun x hx ↦ ?_,
            (hsub t.source).trans hhead, hordered⟩
          rcases List.mem_cons.mp hx with rfl | hx
          · exact hempty
          · have hnil := hsub x
            rw [hbefore x hx] at hnil
            exact List.sublist_nil.mp hnil

variable {sources : List Source} {r : Option Entry × State}

/-- Tasks inserted at the tail come in the order of their insertion. -/
theorem Selected.inOrder (h : Selected s sources r) (ht : r.1 = some t)
    (htail : t.insertInFront = false) {u : Entry} (hu : u ∈ entries s.queues t.source)
    (hutail : u.insertInFront = false) : t.stamp ≤ u.stamp := by
  obtain ⟨before, behind, -, -, hsub, hordered⟩ := h.taken t ht
  rcases List.mem_cons.mp (hsub.subset hu) with rfl | hmem
  · exact Nat.le_refl _
  · exact Nat.le_of_lt ((List.pairwise_cons.mp hordered.order).1 u hmem htail hutail)

/-- In an ordered list of sources every other one with tasks comes behind the one chosen. -/
theorem Selected.source_le (h : Selected s sources r) (ht : r.1 = some t)
    {before : Source → Source → Prop} (hsorted : sources.Pairwise before)
    (hsource : source ∈ sources)
    (hne : entries s.queues source ≠ []) : source = t.source ∨ before t.source source := by
  obtain ⟨front, behind, heq, hempty, -⟩ := h.taken t ht
  rw [heq] at hsource hsorted
  rcases List.mem_append.mp hsource with hmem | hmem
  · exact absurd (hempty source hmem) hne
  · rcases List.mem_cons.mp hmem with rfl | hmem
    · exact .inl rfl
    · exact .inr ((List.pairwise_cons.mp (List.pairwise_append.mp hsorted).2.1).1 source hmem)

/-! ## Levels -/

/-- The place of a queue in the loop of `get_next_task`, counted from its end. -/
def Source.rank : Source → Nat
  | .privateQueue => 10
  | .publicQueue k => k

theorem nextTaskSources_sorted : nextTaskSources.Pairwise fun a b ↦ b.rank < a.rank := by
  decide

theorem stealSources_sorted : stealSources.Pairwise fun a b ↦ a.rank < b.rank := by
  decide

theorem mem_nextTaskSources {k : Nat} (hk : k < 10) : .publicQueue k ∈ nextTaskSources := by
  refine List.mem_cons_of_mem _ (List.mem_map_of_mem ?_)
  interval_cases k <;> decide

theorem mem_stealSources {k : Nat} : .publicQueue k ∈ stealSources ↔ k < 10 := by
  refine ⟨fun h ↦ ?_, fun hk ↦ List.mem_map_of_mem (List.mem_range.mpr hk)⟩
  obtain ⟨j, hj, heq⟩ := List.mem_map.mp h
  cases heq
  exact List.mem_range.mp hj

theorem source_of_private (h : i.insertPrivate = true) : i.source = .privateQueue := by
  rw [Insertion.source, if_pos h]

theorem source_of_public (h : i.insertPrivate = false) :
    i.source = .publicQueue (rqIndex i.level) := by
  rw [Insertion.source, if_neg (Bool.eq_false_iff.mp h)]

/-- The tasks of a public queue have its level. -/
theorem Inv.level (h : Inv s) {k : Nat} {u : Entry} (hu : u ∈ s.queues.publicGrq k) :
    rqIndex u.level = k := by
  have hsource : u.source = .publicQueue k := (h (.publicQueue k)).place u hu
  unfold Insertion.source at hsource
  split at hsource
  · cases hsource
  · exact Source.publicQueue.inj hsource

theorem Selected.nextTask (hinv : Inv s) (h : Selected s nextTaskSources r) : NextTask s r where
  empty hnone := by
    rw [Queues.tasks_eq_nil_iff]
    exact ⟨h.empty hnone .privateQueue List.mem_cons_self,
      fun k hk ↦ h.empty hnone (.publicQueue k) (mem_nextTaskSources hk)⟩
  privateFirst hne := by
    have hqueued : entries s.queues .privateQueue ≠ [] := hne
    have hmem : Source.privateQueue ∈ nextTaskSources := List.mem_cons_self
    cases ht : r.1 with
    | none => exact absurd (h.empty ht .privateQueue hmem) hqueued
    | some t =>
        have hsource : t.source = .privateQueue := by
          rcases h.source_le ht nextTaskSources_sorted hmem hqueued with heq | hrank
          · exact heq.symm
          · -- nothing comes before the private queue
            cases hp : t.insertPrivate with
            | true => exact source_of_private hp
            | false =>
                rw [source_of_public hp] at hrank
                have hlt := rqIndex_lt t.level
                simp only [Source.rank] at hrank
                omega
        obtain ⟨before, behind, -, -, hsub, -⟩ := h.taken t ht
        rw [hsource] at hsub
        refine ⟨t, rfl, ?_, hsub⟩
        cases hp : t.insertPrivate with
        | true => rfl
        | false => cases (source_of_public hp).symm.trans hsource
  deepest t ht hp k hk u hu := by
    rw [hinv.level hu]
    have hqueued : entries s.queues (.publicQueue k) ≠ [] := List.ne_nil_of_mem hu
    rcases h.source_le ht nextTaskSources_sorted (mem_nextTaskSources hk) hqueued with heq | hrank
    · rw [source_of_public hp] at heq
      exact (Source.publicQueue.inj heq).le
    · rw [source_of_public hp] at hrank
      exact Nat.le_of_lt hrank
  inOrder t ht htail u hu hutail := h.inOrder ht htail hu hutail

theorem Selected.stolenTask (hinv : Inv s) (h : Selected s stealSources r) : StolenTask s r := by
  have hpublic : ∀ t, r.1 = some t → t.insertPrivate = false := by
    intro t ht
    obtain ⟨before, behind, heq, -⟩ := h.taken t ht
    cases hp : t.insertPrivate with
    | false => rfl
    | true =>
        have hmem : Source.privateQueue ∈ stealSources := by
          rw [heq, source_of_private hp]
          exact List.mem_append_right _ List.mem_cons_self
        obtain ⟨j, -, hj⟩ := List.mem_map.mp hmem
        cases hj
  refine ⟨fun hnone k hk ↦ h.empty hnone (.publicQueue k) (mem_stealSources.mpr hk), hpublic,
    fun t ht k hk u hu ↦ ?_, fun t ht htail u hu hutail ↦ h.inOrder ht htail hu hutail⟩
  rw [hinv.level hu]
  have hqueued : entries s.queues (.publicQueue k) ≠ [] := List.ne_nil_of_mem hu
  rcases h.source_le ht stealSources_sorted (mem_stealSources.mpr hk) hqueued with heq | hrank
  · rw [source_of_public (hpublic t ht)] at heq
    exact (Source.publicQueue.inj heq).ge
  · rw [source_of_public (hpublic t ht)] at hrank
    exact Nat.le_of_lt hrank

/-! ## Nothing else happens -/

theorem select_quiet (ks : List Nat) (s : State) :
    (select (fun _ ↦ []) (ks.map .publicQueue) s).1 = (s.queues.firstOf ks).map Prod.fst := by
  induction ks with
  | nil => rfl
  | cons k ks ih =>
      simp only [List.map_cons, select, Queues.firstOf, List.foldl_nil, dequeue]
      cases s.queues.torcIRqDequeue k with
      | none => exact ih
      | some r => rfl

theorem firstOf_eq_none_iff (q : Queues Entry) (ks : List Nat) :
    q.firstOf ks = none ↔ ∀ k ∈ ks, q.publicGrq k = [] := by
  refine ⟨fun h k hk ↦ Queues.firstOf_eq_none h hk, fun h ↦ ?_⟩
  induction ks with
  | nil => rfl
  | cons k ks ih =>
      have hk : q.torcIRqDequeue k = none :=
        (dequeue_eq_none_iff q (.publicQueue k)).mpr (h k List.mem_cons_self)
      rw [Queues.firstOf, hk]
      exact ih fun j hj ↦ h j (List.mem_cons_of_mem _ hj)

theorem undisturbed (s : State) : Undisturbed s where
  next := by
    have hloop := select_quiet [9, 8, 7, 6, 5, 4, 3, 2, 1, 0] s
    simp only [nextTaskSources, select, Queues.nextLocal, List.foldl_nil, dequeue]
    cases s.queues.torcIPqDequeue with
    | none => exact hloop
    | some r => rfl
  nextNone := ⟨fun h ↦ Queues.tasks_eq_nil_iff.mpr (Queues.nextLocal_eq_none h),
    Queues.nextLocal_of_tasks_eq_nil⟩
  oldest t rest hqueue := by
    simp only [Queues.nextLocal, Queues.torcIPqDequeue, hqueue, Option.map_some]
  stolen := select_quiet (List.range 10) s
  stolenNone := by
    rw [firstOf_eq_none_iff]
    exact ⟨fun h k hk ↦ h k (List.mem_range.mpr hk),
      fun h k hk ↦ h k (List.mem_range.mp hk)⟩

/-- After every history of insertions and removals, and whatever other threads insert during the
choice, `get_next_task` goes depth first and the handler of a stealing request breadth first. -/
theorem scheduling_order (ops : List Op) (arrivals : Source → List Insertion) :
    NextTask (after ops) (select arrivals nextTaskSources (after ops)) ∧
      StolenTask (after ops) (select arrivals stealSources (after ops)) ∧
      Undisturbed (after ops) :=
  ⟨(select_spec arrivals nextTaskSources (inv_after ops)).nextTask (inv_after ops),
    (select_spec arrivals stealSources (inv_after ops)).stolenTask (inv_after ops),
    undisturbed (after ops)⟩

/-- Of three tasks a worker takes the deepest one and a thief the shallowest one that came first. -/
example :
    let s := after [.insert ⟨false, false, 2, 1⟩, .insert ⟨false, false, 2, 2⟩,
      .insert ⟨false, false, 40, 3⟩]
    (s.queues.nextLocal.map fun r ↦ r.1.task) = some 3 ∧
      ((select (fun _ ↦ []) stealSources s).1.map fun t ↦ t.task) = some 1 := by
  decide

end Torc.SchedulingOrder
