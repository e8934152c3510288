import Torc.Create
import Torc.Queue
import Torc.Route
import Mathlib.Data.List.Forall2

/-!
# Enqueueing on another node

The six routines insert a descriptor into a queue of their own node or send it to another, where the
server reads the position from its fields.
-/

namespace Torc

/-! ## The fields that the routines set -/

def torcToNrq (desc : TorcT) : TorcT :=
  { desc with targetQueue := -1, interNode := true, insertInFront := true }

def torcToNrqEnd (desc : TorcT) : TorcT :=
  { desc with targetQueue := -1, interNode := true }

def torcToRq (desc : TorcT) : TorcT :=
  { desc with targetQueue := -1, interNode := true, insertInFront := true, insertPrivate := false }

/-- On a cluster of several nodes, as `torcToLrqEnd` and `torcToRqEnd`. -/
def torcToLrq (targetQueue : Int) (desc : TorcT) : TorcT :=
  { desc with targetQueue := targetQueue, interNode := true, insertInFront := true }

inductive EnqueueRoutine
  | rq | rqEnd | nrq | nrqEnd | lrq | lrqEnd
  deriving DecidableEq

namespace EnqueueRoutine

/-- `targetQueue` is that of the routines for a worker. -/
def fields (targetQueue : Int) (desc : TorcT) : EnqueueRoutine → TorcT
  | .rq => torcToRq desc
  | .rqEnd => torcToRqEnd targetQueue desc
  | .nrq => torcToNrq desc
  | .nrqEnd => torcToNrqEnd desc
  | .lrq => torcToLrq targetQueue desc
  | .lrqEnd => torcToLrqEnd targetQueue desc

/-- Which of `torc_to_i_rq` and `torc_to_i_rq_end` the routine calls. -/
def front : EnqueueRoutine → Bool
  | .rq | .nrq | .lrq => true
  | .rqEnd | .nrqEnd | .lrqEnd => false

/-- The routine on the target node itself. -/
def enqueueLocally (r : EnqueueRoutine) (targetQueue : Int) (desc : TorcT) (q : Queues TorcT) :
    Queues TorcT :=
  let desc := readArguments (r.fields targetQueue desc)
  if r.front then q.torcToIRq desc.level desc else q.torcToIRqEnd desc.level desc

end EnqueueRoutine

/-- The branch for `TORC_NORMAL_ENQUEUE` of `process_a_received_descriptor` on node `me`; none is
the `Invalid message tag`. -/
def processNormalEnqueue (me : Nat) (mem : Nat → Int) (desc : TorcT) (q : Queues TorcT) :
    Option (Queues TorcT) :=
  if maxNvps < desc.sourcevpid then none
  -- a task that comes home is put at the head of a public queue
  else if desc.homenode = me then some (q.torcToIRq desc.level desc)
  else
    let desc := (receiveArguments me desc.sourcevpid mem desc).1
    -- executed by the server itself
    if desc.rteType = rteDirect then some q
    else some (q.insertAt desc.insertPrivate desc.insertInFront desc.level desc)

/-- The routine called by thread `tag` of node `src`, and the server of node `me`. -/
def EnqueueRoutine.enqueueRemotely (r : EnqueueRoutine) (targetQueue : Int) (src tag me : Nat)
    (mem : Nat → Int) (desc : TorcT) (q : Queues TorcT) : Option (Queues TorcT) :=
  processNormalEnqueue me mem (stampSource src tag (r.fields targetQueue desc) .torcNormalEnqueue) q

/-- Unless the server executes it, the descriptor is queued as `receive_arguments` leaves it. -/
theorem processNormalEnqueue_tasks {node : Nat} {mem : Nat → Int} {desc : TorcT}
    (htag : desc.sourcevpid ≤ maxNvps) (h : desc.homenode = node ∨ desc.rteType ≠ rteDirect)
    (q : Queues TorcT) :
    ∃ q', processNormalEnqueue node mem desc q = some q' ∧
      q'.tasks.Perm ((receiveEnqueued node mem desc).1 :: q.tasks) := by
  rw [processNormalEnqueue, receiveEnqueued, if_neg (Nat.not_lt.mpr htag)]
  by_cases hhome : desc.homenode = node
  · rw [if_pos hhome, if_pos hhome]
    exact ⟨_, rfl, q.torcToIRq_tasks _ desc⟩
  · have htype : (receiveArguments node desc.sourcevpid mem desc).1.rteType ≠ rteDirect :=
      h.resolve_left hhome
    rw [if_neg hhome, if_neg hhome]
    simp only [if_neg htype]
    exact ⟨_, rfl, q.insertAt_tasks _ _ _ _⟩

/-! ## The same queues -/

/-- The same element, or two copies of the descriptor. -/
def SameEntry (desc a b : TorcT) : Prop :=
  a = b ∨ (SameTask desc a ∧ SameTask desc b)

structure SameQueues (desc : TorcT) (q q' : Queues TorcT) : Prop where
  inPrivate : List.Forall₂ (SameEntry desc) q.privateGrq q'.privateGrq
  inPublic : ∀ k, List.Forall₂ (SameEntry desc) (q.publicGrq k) (q'.publicGrq k)

/-- Both ways lead to the same queues whatever the target has in them. -/
def EnqueueRoutine.Agrees (r : EnqueueRoutine) (targetQueue : Int) (src tag me : Nat)
    (mem : Nat → Int) (desc : TorcT) : Prop :=
  ∀ q, ∃ q', r.enqueueRemotely targetQueue src tag me mem desc q = some q' ∧
    SameQueues desc q' (r.enqueueLocally targetQueue desc q)

theorem forall₂_same (desc : TorcT) (l : List TorcT) : List.Forall₂ (SameEntry desc) l l :=
  List.forall₂_same.mpr fun _ _ ↦ .inl rfl

variable {desc a b : TorcT} {q : Queues TorcT} {i : Nat} {l l' : List TorcT}

theorem SameQueues.setPublic (h : List.Forall₂ (SameEntry desc) l l') :
    SameQueues desc (q.setPublic i l) (q.setPublic i l') where
  inPrivate := forall₂_same desc q.privateGrq
  inPublic k := by
    show List.Forall₂ _ (Function.update q.publicGrq i l k) (Function.update q.publicGrq i l' k)
    by_cases hk : k = i
    · subst hk
      rw [Function.update_self, Function.update_self]
      exact h
    · rw [Function.update_of_ne hk, Function.update_of_ne hk]
      exact forall₂_same desc _

/-- A task that differs from the descriptor's. -/
def otherTask (desc : TorcT) : TorcT :=
  { taskId := desc.taskId + 1 }

theorem not_sameEntry_other (ha : SameTask desc a) :
    ¬ SameEntry desc a (otherTask desc) ∧ ¬ SameEntry desc (otherTask desc) a := by
  have hno : ¬ SameTask desc (otherTask desc) := by
    intro h
    have hother : desc.taskId + 1 = desc.taskId := h.taskId
    omega
  refine ⟨fun h ↦ ?_, fun h ↦ ?_⟩
  · rcases h with rfl | ⟨-, h⟩
    · exact hno ha
    · exact hno h
  · rcases h with rfl | ⟨h, -⟩
    · exact hno ha
    · exact hno h

/-- Two insertions of copies give the same queues everywhere exactly at the same position. -/
theorem insertAt_same_iff (ha : SameTask desc a) (hb : SameTask desc b) (p f f' : Bool) :
    (∀ q : Queues TorcT, SameQueues desc (q.insertAt p f desc.level a)
        (q.insertAt false f' desc.level b)) ↔ p = false ∧ f = f' := by
  -- a task that is already there tells head and tail apart
  let crowded : Queues TorcT := { publicGrq := fun _ ↦ [otherTask desc] }
  constructor
  · intro h
    cases p with
    | true =>
        have hlen := (h {}).inPrivate.length_eq
        cases f <;> cases f' <;> cases hlen
    | false =>
        refine ⟨rfl, ?_⟩
        have hlevel := (h crowded).inPublic (rqIndex desc.level)
        cases f with
        | true =>
            cases f' with
            | true => rfl
            | false =>
                simp only [Queues.insertAt, Queues.torcToIRq, Queues.torcToIRqEnd,
                  Queues.setPublic_self, Bool.false_eq_true, if_false, if_true] at hlevel
                exact absurd (List.forall₂_cons.mp hlevel).1 (not_sameEntry_other ha).1
        | false =>
            cases f' with
            | false => rfl
            | true =>
                simp only [Queues.insertAt, Queues.torcToIRq, Queues.torcToIRqEnd,
                  Queues.setPublic_self, Bool.false_eq_true, if_false, if_true] at hlevel
                exact absurd (List.forall₂_cons.mp hlevel).1 (not_sameEntry_other hb).2
  · rintro ⟨rfl, rfl⟩ q
    cases f with
    | true => exact .setPublic (.cons (.inr ⟨ha, hb⟩) (forall₂_same desc _))
    | false =>
        exact .setPublic (List.rel_append (forall₂_same desc _) (.cons (.inr ⟨ha, hb⟩) .nil))

/-! ## Every routine and descriptor -/

theorem EnqueueRoutine.fields_same (r : EnqueueRoutine) (targetQueue : Int) (desc : TorcT) :
    SameTask desc (r.fields targetQueue desc) := by
  cases r <;> exact ⟨rfl, rfl, rfl, rfl, rfl, rfl, rfl, rfl⟩

theorem receiveArguments_same (me tag : Nat) (mem : Nat → Int) (desc : TorcT) :
    SameTask desc (receiveArguments me tag mem desc).1 :=
  ⟨rfl, rfl, rfl, rfl, rfl, rfl, rfl, rfl⟩

theorem readArguments_same (desc : TorcT) : SameTask desc (readArguments desc) :=
  ⟨rfl, rfl, rfl, rfl, rfl, rfl, rfl, rfl⟩

/-- What the server finds in the two fields of the position. -/
theorem EnqueueRoutine.fields_position (r : EnqueueRoutine) (targetQueue : Int) (desc : TorcT) :
    ((r.fields targetQueue desc).insertPrivate = false ↔
        r = .rq ∨ r = .rqEnd ∨ desc.insertPrivate = false) ∧
      ((r.fields targetQueue desc).insertInFront = r.front ↔
        r.front = true ∨ desc.insertInFront = false) := by
  cases r <;> simp [fields, front, torcToRq, torcToRqEnd, torcToNrq, torcToNrqEnd, torcToLrq,
    torcToLrqEnd]

variable {r : EnqueueRoutine} {targetQueue : Int} {src tag me : Nat} {mem : Nat → Int}

theorem EnqueueRoutine.enqueueLocally_eq (q : Queues TorcT) :
    r.enqueueLocally targetQueue desc q =
      q.insertAt false r.front desc.level (readArguments (r.fields targetQueue desc)) := by
  rw [enqueueLocally, (readArguments_same _).level, (r.fields_same targetQueue desc).level]
  rfl

theorem EnqueueRoutine.sent_same (r : EnqueueRoutine) (targetQueue : Int) (src tag : Nat)
    (desc : TorcT) :
    SameTask desc (stampSource src tag (r.fields targetQueue desc) .torcNormalEnqueue) :=
  (r.fields_same targetQueue desc).trans ⟨rfl, rfl, rfl, rfl, rfl, rfl, rfl, rfl⟩

/-- The server of the home node inserts at the head, whatever the fields say. -/
theorem EnqueueRoutine.agrees_home_iff (htag : tag ≤ maxNvps) (hhome : desc.homenode = me) :
    r.Agrees targetQueue src tag me mem desc ↔ r.front = true := by
  have hsent := r.sent_same targetQueue src tag desc
  have hlocal := (r.fields_same targetQueue desc).trans (readArguments_same _)
  have hhead := insertAt_same_iff hsent hlocal false true r.front
  have hvalid : ¬ maxNvps < (stampSource src tag (r.fields targetQueue desc)
      .torcNormalEnqueue).sourcevpid := Nat.not_lt.mpr htag
  unfold Agrees enqueueRemotely processNormalEnqueue
  simp only [enqueueLocally_eq, if_neg hvalid, hsent.homenode, if_pos hhome, hsent.level,
    Option.some.injEq, exists_eq_left']
  exact hhead.trans ⟨fun h ↦ h.2.symm, fun h ↦ ⟨rfl, h.symm⟩⟩

theorem EnqueueRoutine.agrees_away_iff (htag : tag ≤ maxNvps) (hhome : desc.homenode ≠ me)
    (hdirect : desc.rteType ≠ rteDirect) :
    r.Agrees targetQueue src tag me mem desc ↔
      (r.fields targetQueue desc).insertPrivate = false ∧
        (r.fields targetQueue desc).insertInFront = r.front := by
  have hsent := r.sent_same targetQueue src tag desc
  have hlocal := (r.fields_same targetQueue desc).trans (readArguments_same _)
  have hreceived := hsent.trans (receiveArguments_same me
    (stampSource src tag (r.fields targetQueue desc) .torcNormalEnqueue).sourcevpid mem _)
  have hvalid : ¬ maxNvps < (stampSource src tag (r.fields targetQueue desc)
      .torcNormalEnqueue).sourcevpid := Nat.not_lt.mpr htag
  unfold Agrees enqueueRemotely processNormalEnqueue
  simp only [enqueueLocally_eq, if_neg hvalid, hsent.homenode, if_neg hhome, hreceived.rteType,
    if_neg hdirect, hreceived.level, Option.some.injEq, exists_eq_left']
  exact insertAt_same_iff hreceived hlocal _ _ _

/-- Sending a descriptor does what the routine does on the target itself exactly when the routine is
one for the head, if the target is its home, and otherwise when the fields that the routine does not
set are clear. -/
theorem remote_agrees_iff (r : EnqueueRoutine) (targetQueue : Int) {src tag : Nat}
    (htag : tag ≤ maxNvps) (me : Nat) (mem : Nat → Int) (desc : TorcT)
    (hdirect : desc.rteType ≠ rteDirect) :
    r.Agrees targetQueue src tag me mem desc ↔
      if desc.homenode = me then r.front = true
      else (r = .rq ∨ r = .rqEnd ∨ desc.insertPrivate = false) ∧
        (r.front = true ∨ desc.insertInFront = false) := by
  obtain ⟨hprivate, hfront⟩ := r.fields_position targetQueue desc
  by_cases hhome : desc.homenode = me
  · rw [if_pos hhome]
    exact EnqueueRoutine.agrees_home_iff htag hhome
  · rw [if_neg hhome, ← hprivate, ← hfront]
    exact EnqueueRoutine.agrees_away_iff htag hhome hdirect

theorem remote_agrees_iff_sample :
    EnqueueRoutine.lrqEnd.Agrees 2 0 0 1 (fun _ ↦ 0) { taskId := 5, level := 3 } :=
  (remote_agrees_iff .lrqEnd 2 (by decide) 1 (fun _ ↦ 0) { taskId := 5, level := 3 }
    (by decide)).mpr (by decide)

/-- A node with the task 9 in the queue for level 3. -/
def busyQueues : Queues TorcT :=
  Queues.torcToIRq {} 3 { taskId := 9 }

/-- A task of node 1. -/
def ownTask : TorcT :=
  { taskId := 5, level := 3, homenode := 1 }

/-- A task of node 0. -/
def hiddenTask : TorcT :=
  { taskId := 5, level := 3, insertPrivate := true }

/-- Node 1 gets its own task back for the tail and puts it at the head, and gets one for a public
queue and puts it into the private one. -/
theorem not_remote_agrees :
    (EnqueueRoutine.lrqEnd.enqueueRemotely 2 0 0 1 (fun _ ↦ 0) ownTask busyQueues).map (fun q ↦
        (q.publicGrq 2).map TorcT.taskId) = some [5, 9] ∧
      ((EnqueueRoutine.lrqEnd.enqueueLocally 2 ownTask busyQueues).publicGrq 2).map TorcT.taskId =
        [9, 5] ∧
      (EnqueueRoutine.nrq.enqueueRemotely 2 0 0 1
        (fun _ ↦ 0) hiddenTask busyQueues).map (fun q ↦
        q.privateGrq.map TorcT.taskId) = some [5] ∧
      ((EnqueueRoutine.nrq.enqueueLocally 2 hiddenTask busyQueues).privateGrq).map
        TorcT.taskId = [] ∧
      ¬ EnqueueRoutine.lrqEnd.Agrees 2 0 0 1 (fun _ ↦ 0) ownTask ∧
      ¬ EnqueueRoutine.nrq.Agrees 2 0 0 1 (fun _ ↦ 0) hiddenTask := by
  refine ⟨by decide, by decide, by decide, by decide, fun h ↦ ?_, fun h ↦ ?_⟩
  · exact absurd ((EnqueueRoutine.agrees_home_iff (by decide) rfl).mp h) (by decide)
  · exact absurd ((EnqueueRoutine.agrees_away_iff (by decide) (by decide) (by decide)).mp h).1
      (by decide)

/-- A descriptor as its creation leaves it, sent away from its home. -/
theorem created_agrees {r : Routine} {who : Creator} {taskId work : Nat} {h : ByteHeap}
    {cs : List CArg} {c : Creation} (hc : r.create who taskId work h cs = some c)
    (hdirect : c.desc.rteType ≠ rteDirect) {me : Nat} (hme : who.me ≠ me) (e : EnqueueRoutine)
    (targetQueue : Int) (src : Nat) {tag : Nat} (htag : tag ≤ maxNvps) (mem : Nat → Int) :
    e.Agrees targetQueue src tag me mem c.desc := by
  have hclear : c.desc.insertPrivate = false ∧ c.desc.insertInFront = false := by
    cases r <;>
      (obtain ⟨as, h', -, -, rfl⟩ := createWith_some hc
       exact ⟨rfl, rfl⟩)
  have hhome : c.desc.homenode ≠ me := (Routine.create_work hc).2.2.symm ▸ hme
  obtain ⟨hprivate, hfront⟩ := e.fields_position targetQueue c.desc
  rw [EnqueueRoutine.agrees_away_iff htag hhome hdirect, hprivate, hfront]
  exact ⟨.inr (.inr hclear.1), .inr hclear.2⟩

end Torc
