import Torc.Journey
import Torc.Lib.Blocks

/-!
# Argument buffers

The memory that the runtime allocates for the arguments of a task, by node: the private copies that
its creation makes and the buffers of `receive_arguments` on every node that it comes to.  They are
freed by `_torc_cleanup` at home, and by the answer and its handler after an execution elsewhere.
-/

namespace Torc

open Blocks

/-- A block with the node that allocated it. -/
abbrev Buffers := Ledger (Nat × Int)

def Buffers.apply (node : Nat) (l : Buffers) : Effect → Buffers
  | .calloc a _ => l.alloc (node, a)
  | .free a => Ledger.free l (node, a)
  | _ => l

/-- The calls of a routine on node `node`. -/
def Buffers.perform (node : Nat) (l : Buffers) (calls : List Effect) : Buffers :=
  calls.foldl (Buffers.apply node) l

/-- `torc_createf` and `torc_taskf` do not skip an empty argument. -/
def Routine.storesEmpty : Routine → Bool
  | .createf | .taskf _ => true
  | _ => false

/-- The second pass calls `malloc` for the argument. -/
def Routine.copies (r : Routine) (a : Arg) : Bool :=
  a.callway = .cop2 ∧ (r.storesEmpty ∨ a.quantity ≠ 0)

/-- The blocks that the creation of a descriptor leaves. -/
def Routine.copiesOf (r : Routine) (desc : TorcT) : List (Nat × Int) :=
  (desc.liveArgs.filter r.copies).map fun a ↦ (desc.homenode, a.localarg)

/-- The body of the loop of `_torc_cleanup`. -/
def cleanupArgument (a : Arg) : List Effect :=
  if a.callway = .cop2 ∧ 1 < a.quantity then
    if a.localarg ≠ 0 then [.free a.localarg] else []
  else []

/-- A move with the calls of both sides. -/
def Hop.buffers (held : Held) (hop : Hop) (l : Buffers) : Buffers :=
  (l.perform held.node (hop.sends held)).perform (hop.dst held) (hop.receives held)

def travelBuffers (held : Held) (l : Buffers) : List Hop → Buffers
  | [] => l
  | hop :: hops => travelBuffers (hop.land held) (hop.buffers held l) hops

/-- The end of an execution, by a thread with id `tag`: the answer and its handler, or
`_torc_cleanup` at home. -/
def finishBuffers (tag : Nat) (held : Held) (l : Buffers) : Buffers :=
  if held.desc.homenode ≠ held.node then
    let sent := stampSource held.node tag held.desc .torcAnswer
    (l.perform held.node
      (sendDescriptor held.node tag held.desc.homenode held.desc .torcAnswer)).perform
        sent.homenode (receiveResults sent.homenode sent.sourcevpid sent).2
  else l.perform held.node (held.desc.liveArgs.flatMap cleanupArgument)

/-- What is left when the task with this descriptor has completed after these moves. -/
def buffersAfter (r : Routine) (tag : Nat) (desc : TorcT) (hops : List Hop) : Buffers :=
  let held : Held := ⟨desc.homenode, desc⟩
  finishBuffers tag (travel held hops) (travelBuffers held ⟨r.copiesOf desc, []⟩ hops)

/-! ## Routes -/

def Hop.next (node : Nat) : Hop → Nat
  | .insert _ _ => node
  | .enqueue _ _ _ dst _ => dst
  | .steal thief _ _ => thief

/-- A descriptor is inserted only at home. -/
def Inserted (home : Nat) (node : Nat) : List Hop → Prop
  | [] => True
  | hop :: hops =>
      ((∃ roundRobin targetQueue, hop = .insert roundRobin targetQueue) → node = home) ∧
        Inserted home (hop.next node) hops

/-- No other node than `home` passes the descriptor on. -/
def PassedOnBy (home : Nat) (node : Nat) : List Hop → Prop
  | [] => True
  | hop :: hops => node = home ∧ PassedOnBy home (hop.next node) hops

/-- The node that executes the task. -/
def lastNode (node : Nat) (hops : List Hop) : Nat :=
  hops.foldl Hop.next node

/-! ## Arguments -/

/-- `receive_arguments` allocates for the argument. -/
def Arg.Buffered (a : Arg) : Prop :=
  a.quantity ≠ 0 ∧ (1 < a.quantity ∨ (a.callway ≠ .cop ∧ a.callway ≠ .vad))

/-- The answer frees what `receive_arguments` allocated. -/
def Arg.FreedByAnswer (a : Arg) : Prop :=
  1 < a.quantity ∧ (a.callway = .cop2 ∨ a.callway = .ref ∨ a.callway = .res)

instance (a : Arg) : Decidable a.Buffered :=
  inferInstanceAs (Decidable (_ ∧ _))

instance (a : Arg) : Decidable a.FreedByAnswer :=
  inferInstanceAs (Decidable (_ ∧ _))

/-- The frees fit what was allocated for the argument on these moves. -/
structure Released (r : Routine) (home : Nat) (hops : List Hop) (a : Arg) : Prop where
  stays : a.Buffered → PassedOnBy home home hops
  answered : lastNode home hops ≠ home → a.Buffered → a.FreedByAnswer
  copyAtHome : lastNode home hops = home → r.copies a → 1 < a.quantity
  copyAway : lastNode home hops ≠ home → r.copies a → a.quantity ≠ 0

/-! ## Arguments up to their buffers -/

/-- What decides about the buffers of an argument, and the address of its copy. -/
def Arg.key (a : Arg) : Nat × CallWay × Int :=
  (a.quantity, a.callway, a.localarg)

theorem Arg.key_eq {a b : Arg} (h : a.key = b.key) :
    a.quantity = b.quantity ∧ a.callway = b.callway ∧ a.localarg = b.localarg := by
  simpa [Arg.key] using h

theorem Arg.buffered_congr {a b : Arg} (h : a.key = b.key) : a.Buffered ↔ b.Buffered := by
  obtain ⟨hq, hc, -⟩ := Arg.key_eq h
  rw [Arg.Buffered, Arg.Buffered, hq, hc]

theorem Arg.freedByAnswer_congr {a b : Arg} (h : a.key = b.key) :
    a.FreedByAnswer ↔ b.FreedByAnswer := by
  obtain ⟨hq, hc, -⟩ := Arg.key_eq h
  rw [Arg.FreedByAnswer, Arg.FreedByAnswer, hq, hc]

theorem Routine.copies_congr (r : Routine) {a b : Arg} (h : a.key = b.key) :
    r.copies a = r.copies b := by
  obtain ⟨hq, hc, -⟩ := Arg.key_eq h
  rw [Routine.copies, Routine.copies, hq, hc]

theorem receiveArgument_key (me sourcenode tag : Nat) (mem : Int) (i : Nat) (a : Arg) :
    (receiveArgument me sourcenode tag mem i a).1.key = a.key := by
  unfold receiveArgument
  split
  · rfl
  · split <;> rfl

/-! ## Which blocks a routine allocates and frees -/

def Effect.calloc? : Effect → Option Int
  | .calloc a _ => some a
  | _ => none

def Effect.free? : Effect → Option Int
  | .free a => some a
  | _ => none

/-- The calls neither allocate nor free. -/
def Silent (calls : List Effect) : Prop :=
  ∀ e ∈ calls, e.calloc? = none ∧ e.free? = none

theorem Buffers.perform_silent {node : Nat} {calls : List Effect} (h : Silent calls) (l : Buffers) :
    l.perform node calls = l := by
  induction calls with
  | nil => rfl
  | cons e calls ih =>
      obtain ⟨hcalloc, hfree⟩ := h e List.mem_cons_self
      have hrest : Buffers.perform node l calls = l := ih fun e' he ↦ h e' (.tail _ he)
      cases e with
      | calloc a n => cases hcalloc
      | free a => cases hfree
      | isend dst tag p => exact hrest
      | irecv src tag p => exact hrest

theorem Buffers.perform_allocs (node : Nat) {calls : List Effect} {l : Buffers}
    {rest : List (Nat × Int)} (h : l.Holds rest) (hfree : ∀ e ∈ calls, e.free? = none) :
    (l.perform node calls).Holds
      ((calls.filterMap Effect.calloc?).map (Prod.mk node) ++ rest) := by
  have hfold : l.perform node calls =
      ((calls.filterMap Effect.calloc?).map (Prod.mk node)).foldl Ledger.alloc l := by
    clear h
    induction calls generalizing l with
    | nil => rfl
    | cons e calls ih =>
        have hrest : ∀ e' ∈ calls, e'.free? = none := fun e' he ↦ hfree e' (.tail _ he)
        cases e with
        | free a => cases hfree _ List.mem_cons_self
        | calloc a n => exact ih hrest
        | isend dst tag p => exact ih hrest
        | irecv src tag p => exact ih hrest
  rw [hfold]
  exact h.alloc_all

theorem Buffers.perform_frees {node : Nat} {calls : List Effect} {l : Buffers}
    {rest : List (Nat × Int)}
    (h : l.Holds ((calls.filterMap Effect.free?).map (Prod.mk node) ++ rest))
    (hcalloc : ∀ e ∈ calls, e.calloc? = none) : (l.perform node calls).Holds rest := by
  have hfold : l.perform node calls =
      ((calls.filterMap Effect.free?).map (Prod.mk node)).foldl Ledger.free l := by
    clear h
    induction calls generalizing l with
    | nil => rfl
    | cons e calls ih =>
        have hrest : ∀ e' ∈ calls, e'.calloc? = none := fun e' he ↦ hcalloc e' (.tail _ he)
        cases e with
        | calloc a n => cases hcalloc _ List.mem_cons_self
        | free a => exact ih hrest
        | isend dst tag p => exact ih hrest
        | irecv src tag p => exact ih hrest
  rw [hfold]
  exact h.free_all

/-- A loop over the arguments that makes one call for those that `keep` accepts. -/
theorem filterMap_zipIdx {β : Type*} (φ : Effect → Option β) (f : Arg → Nat → List Effect)
    (r : Arg → Nat → Arg) (keep : Arg → Bool) (g : Arg → β)
    (hf : ∀ a i, (f a i).filterMap φ = if keep (r a i) then [g (r a i)] else [])
    (as : List Arg) (n : Nat) :
    ((as.zipIdx n).flatMap fun p ↦ f p.1 p.2).filterMap φ =
      (((as.zipIdx n).map fun p ↦ r p.1 p.2).filter keep).map g := by
  induction as generalizing n with
  | nil => rfl
  | cons a as ih =>
      rw [List.zipIdx_cons, List.flatMap_cons, List.filterMap_append, ih, hf a n, List.map_cons,
        List.filter_cons]
      split <;> rfl

theorem silent_sendArguments (node tag : Nat) (desc : TorcT) :
    Silent (sendArguments node tag desc) := by
  intro e he
  obtain ⟨payload, rfl⟩ := effect_sendArguments he
  exact ⟨rfl, rfl⟩

theorem calloc_sendResults (tag : Nat) (desc : TorcT) :
    ∀ e ∈ sendResults tag desc, e.calloc? = none := by
  intro e he
  rcases effect_sendResults he with ⟨a, rfl⟩ | ⟨payload, rfl⟩ <;> rfl

theorem free_sendResults (tag : Nat) (desc : TorcT) :
    (sendResults tag desc).filterMap Effect.free? =
      (desc.liveArgs.filter fun a ↦ a.FreedByAnswer).map Arg.temparg := by
  have hone : ∀ a i, (sendResult desc.homenode tag i a).filterMap Effect.free? =
      if decide a.FreedByAnswer then [a.temparg] else [] := by
    intro a i
    obtain ⟨quantity, dtype, btype, callway, localarg, temparg⟩ := a
    simp only [sendResult, decide_eq_true_eq]
    by_cases hzero : quantity = 0
    · rw [if_pos hzero,
        if_neg fun hf : Arg.FreedByAnswer _ ↦ by simp [Arg.FreedByAnswer, hzero] at hf]
      rfl
    · rw [if_neg hzero]
      by_cases hmany : 1 < quantity <;> cases callway <;>
        simp [Arg.FreedByAnswer, hmany, List.filterMap_cons, Effect.free?]
  have hall := filterMap_zipIdx Effect.free? (fun a i ↦ sendResult desc.homenode tag i a)
    (fun a _ ↦ a) (fun a ↦ decide a.FreedByAnswer) Arg.temparg hone desc.liveArgs 0
  rw [show desc.liveArgs.zipIdx.map (fun p ↦ p.1) = desc.liveArgs
    from List.zipIdx_map_fst ..] at hall
  exact hall

theorem calloc_receiveResults (me tag : Nat) (desc : TorcT) :
    ∀ e ∈ (receiveResults me tag desc).2, e.calloc? = none := by
  intro e he
  rcases effect_receiveResults he with ⟨a, rfl⟩ | ⟨payload, rfl⟩ <;> rfl

theorem free_receiveResults (me tag : Nat) (desc : TorcT) :
    ((receiveResults me tag desc).2).filterMap Effect.free? =
      (desc.liveArgs.filter fun a ↦ a.callway = .cop2 ∧ a.quantity ≠ 0).map Arg.localarg := by
  have hone : ∀ a i, ((receiveResult me desc.sourcenode tag i a).2).filterMap Effect.free? =
      if decide (a.callway = .cop2 ∧ a.quantity ≠ 0) then [a.localarg] else [] := by
    intro a i
    unfold receiveResult
    cases hcall : a.callway <;> by_cases hzero : a.quantity = 0 <;> simp [hzero, Effect.free?]
  have hall := filterMap_zipIdx Effect.free?
    (fun a i ↦ (receiveResult me desc.sourcenode tag i a).2) (fun a _ ↦ a)
    (fun a ↦ decide (a.callway = .cop2 ∧ a.quantity ≠ 0)) Arg.localarg hone desc.liveArgs 0
  rw [show desc.liveArgs.zipIdx.map (fun p ↦ p.1) = desc.liveArgs
    from List.zipIdx_map_fst ..] at hall
  simp only [receiveResults, List.flatMap_map]
  exact hall

theorem liveArgs_receiveArguments (me tag : Nat) (mem : Nat → Int) (desc : TorcT) :
    (receiveArguments me tag mem desc).1.liveArgs = desc.liveArgs.zipIdx.map fun p ↦
      (receiveArgument me desc.sourcenode tag (mem p.2) p.2 p.1).1 := by
  simp only [receiveArguments]
  rw [TorcT.liveArgs, take_append_drop_of_length (by simp [TorcT.liveArgs]), List.map_map]
  rfl

theorem free_receiveArguments (me tag : Nat) (mem : Nat → Int) (desc : TorcT) :
    ∀ e ∈ (receiveArguments me tag mem desc).2, e.free? = none := by
  intro e he
  rcases effect_receiveArguments he with ⟨a, n, rfl⟩ | ⟨payload, rfl⟩ <;> rfl

/-- Each buffer is the `temparg` of its argument. -/
theorem calloc_receiveArguments (me tag : Nat) (mem : Nat → Int) (desc : TorcT) :
    ((receiveArguments me tag mem desc).2).filterMap Effect.calloc? =
      ((receiveArguments me tag mem desc).1.liveArgs.filter fun a ↦ a.Buffered).map
        Arg.temparg := by
  have hone : ∀ a i,
      ((receiveArgument me desc.sourcenode tag (mem i) i a).2).filterMap Effect.calloc? =
        if decide (receiveArgument me desc.sourcenode tag (mem i) i a).1.Buffered then
          [(receiveArgument me desc.sourcenode tag (mem i) i a).1.temparg]
        else [] := by
    intro a i
    rw [decide_eq_decide.mpr (Arg.buffered_congr
      (receiveArgument_key me desc.sourcenode tag (mem i) i a))]
    by_cases hbuffered : a.Buffered
    · rw [if_pos (decide_eq_true hbuffered)]
      obtain ⟨hzero, hbox⟩ := hbuffered
      rw [receiveArgument, if_neg hzero, if_pos hbox]
      dsimp only
      split <;> rfl
    · rw [if_neg fun hb ↦ hbuffered (of_decide_eq_true hb), receiveArgument]
      by_cases hzero : a.quantity = 0
      · rw [if_pos hzero]
        rfl
      · rw [if_neg hzero, if_neg fun hbox ↦ hbuffered ⟨hzero, hbox⟩]
        rfl
  rw [liveArgs_receiveArguments]
  simp only [receiveArguments, List.flatMap_map]
  exact filterMap_zipIdx Effect.calloc?
    (fun a i ↦ (receiveArgument me desc.sourcenode tag (mem i) i a).2)
    (fun a i ↦ (receiveArgument me desc.sourcenode tag (mem i) i a).1)
    (fun a ↦ decide a.Buffered)
    Arg.temparg hone desc.liveArgs 0

theorem calloc_cleanup (as : List Arg) :
    ∀ e ∈ as.flatMap cleanupArgument, e.calloc? = none := by
  intro e he
  obtain ⟨a, -, he⟩ := List.mem_flatMap.mp he
  unfold cleanupArgument at he
  split at he
  · split at he
    · cases List.mem_singleton.mp he
      rfl
    · cases he
  · cases he

theorem free_cleanup {as : List Arg}
    (hnull : ∀ a ∈ as, a.callway = .cop2 → 1 < a.quantity → a.localarg ≠ 0) :
    (as.flatMap cleanupArgument).filterMap Effect.free? =
      (as.filter fun a ↦ a.callway = .cop2 ∧ 1 < a.quantity).map Arg.localarg := by
  induction as with
  | nil => rfl
  | cons a as ih =>
      rw [List.flatMap_cons, List.filterMap_append, List.filter_cons,
        ih fun b hb ↦ hnull b (.tail _ hb)]
      unfold cleanupArgument
      by_cases hcopy : a.callway = .cop2 ∧ 1 < a.quantity
      · rw [if_pos hcopy, if_pos (hnull a List.mem_cons_self hcopy.1 hcopy.2),
          if_pos (decide_eq_true hcopy)]
        rfl
      · rw [if_neg hcopy, if_neg fun h ↦ hcopy (of_decide_eq_true h)]
        rfl

/-! ## What no move changes -/

theorem forall_of_keys {as bs : List Arg} (h : as.map Arg.key = bs.map Arg.key) {P : Arg → Prop}
    (hP : ∀ a b : Arg, a.key = b.key → (P a ↔ P b)) :
    (∀ a ∈ as, P a) ↔ ∀ b ∈ bs, P b := by
  induction as generalizing bs with
  | nil =>
      cases bs with
      | nil => rfl
      | cons b bs => cases h
  | cons a as ih =>
      cases bs with
      | nil => cases h
      | cons b bs =>
          obtain ⟨hab, hrest⟩ := List.cons.inj h
          rw [List.forall_mem_cons, List.forall_mem_cons, hP a b hab, ih hrest]

theorem copies_of_keys (r : Routine) {as bs : List Arg} (h : as.map Arg.key = bs.map Arg.key) :
    (as.filter r.copies).map Arg.localarg = (bs.filter r.copies).map Arg.localarg := by
  induction as generalizing bs with
  | nil =>
      cases bs with
      | nil => rfl
      | cons b bs => cases h
  | cons a as ih =>
      cases bs with
      | nil => cases h
      | cons b bs =>
          obtain ⟨hab, hrest⟩ := List.cons.inj h
          have hlocal := (Arg.key_eq hab).2.2
          rw [List.filter_cons, List.filter_cons, r.copies_congr hab]
          split
          · rw [List.map_cons, List.map_cons, hlocal, ih hrest]
          · exact ih hrest

theorem copiesOf_eq (r : Routine) {d d' : TorcT}
    (h : d.liveArgs.map Arg.key = d'.liveArgs.map Arg.key) (hhome : d.homenode = d'.homenode) :
    r.copiesOf d = r.copiesOf d' := by
  have hcopies := congrArg (List.map (Prod.mk d'.homenode)) (copies_of_keys r h)
  rw [List.map_map, List.map_map] at hcopies
  rw [Routine.copiesOf, Routine.copiesOf, hhome]
  exact hcopies

theorem receiveArguments_keys (me tag : Nat) (mem : Nat → Int) (desc : TorcT) :
    (receiveArguments me tag mem desc).1.liveArgs.map Arg.key = desc.liveArgs.map Arg.key := by
  rw [liveArgs_receiveArguments, List.map_map]
  calc desc.liveArgs.zipIdx.map _
      = desc.liveArgs.zipIdx.map (Arg.key ∘ Prod.fst) :=
        List.map_congr_left fun p _ ↦ receiveArgument_key me desc.sourcenode tag _ p.2 p.1
    _ = desc.liveArgs.map Arg.key := by
        rw [← List.map_map, List.zipIdx_map_fst]

theorem readArguments_keys (desc : TorcT) :
    (readArguments desc).liveArgs.map Arg.key = desc.liveArgs.map Arg.key := by
  have hlive : (readArguments desc).liveArgs =
      desc.liveArgs.map fun a ↦ { a with temparg := a.localarg } := by
    simp only [readArguments]
    rw [TorcT.liveArgs, take_append_drop_of_length (by simp [TorcT.liveArgs])]
  rw [hlive, List.map_map]
  rfl

/-! ## A journey -/

/-- The buffers that the descriptor refers to where it is. -/
def Held.buffers (held : Held) : List (Nat × Int) :=
  if held.node = held.desc.homenode then []
  else (held.desc.liveArgs.filter fun a ↦ a.Buffered).map fun a ↦ (held.node, a.temparg)

/-- On its way the task has its copies, the buffers of the node that holds it and those in `lost`,
which no descriptor refers to any more. -/
structure Carrying (r : Routine) (home : Nat) (as : List Arg) (lost : List (Nat × Int))
    (held : Held) (l : Buffers) : Prop where
  homenode : held.desc.homenode = home
  type : held.desc.type ≠ .torcNoWork
  keys : held.desc.liveArgs.map Arg.key = as.map Arg.key
  holds : l.Holds (lost ++ (held.buffers ++ r.copiesOf held.desc))

variable {r : Routine} {home : Nat} {as : List Arg} {lost : List (Nat × Int)} {held : Held}
  {l : Buffers}

theorem Hop.land_type (held : Held) (hop : Hop) (h : held.desc.type ≠ .torcNoWork) :
    (hop.land held).desc.type ≠ .torcNoWork := by
  cases hop with
  | insert roundRobin targetQueue =>
      show (place roundRobin targetQueue held.desc).type ≠ _
      rw [place_type]
      exact h
  | enqueue roundRobin targetQueue tag dst mem =>
      show (receiveEnqueued dst mem _).1.type ≠ _
      rw [receiveEnqueued_type]
      nofun
  | steal thief vpid mem =>
      show (receiveStolen thief vpid mem _).1.type ≠ _
      rw [receiveStolen_type]
      exact h

theorem Hop.land_node (held : Held) (hop : Hop) : (hop.land held).node = hop.next held.node := by
  cases hop <;> rfl

theorem Hop.silent_sends (held : Held) (hop : Hop) : Silent (hop.sends held) := by
  have hnil : Silent [] := fun _ h ↦ absurd h List.not_mem_nil
  cases hop with
  | insert roundRobin targetQueue => exact hnil
  | enqueue roundRobin targetQueue tag dst mem =>
      simp only [Hop.sends, sendDescriptor]
      split
      · exact hnil
      · exact silent_sendArguments dst tag _
  | steal thief vpid mem =>
      simp only [Hop.sends, directSendDescriptor]
      split
      · exact hnil
      · exact silent_sendArguments thief _ _

theorem buffers_home (h : held.node = held.desc.homenode) : held.buffers = [] :=
  if_pos h

/-- A move between nodes loses the buffers of the node that it leaves. -/
theorem Carrying.move (h : Carrying r home as lost held l) (hop : Hop)
    (hmove : ∀ roundRobin targetQueue, hop ≠ .insert roundRobin targetQueue) :
    Carrying r home as (lost ++ held.buffers) (hop.land held) (hop.buffers held l) := by
  have htransfer := Hop.transfer h.type hop hmove
  have hsame := Hop.land_same held hop
  have hland := Hop.land_type held hop h.type
  have hhome : (hop.land held).desc.homenode = home := hsame.homenode.trans h.homenode
  have hsends : hop.buffers held l = Buffers.perform (hop.dst held) l (hop.receives held) := by
    rw [Hop.buffers, Buffers.perform_silent (hop.silent_sends held)]
  by_cases hdst : held.desc.homenode = hop.dst held
  · -- the home node receives nothing
    obtain ⟨hreceives, hheld⟩ := htransfer.home hdst
    have hkeys : (hop.land held).desc.liveArgs.map Arg.key =
        held.desc.liveArgs.map Arg.key := by
      rw [hheld, htransfer.liveArgs]
    refine ⟨hhome, hland, hkeys.trans h.keys, ?_⟩
    have hnone : (hop.land held).buffers = [] := by
      apply buffers_home
      rw [hsame.homenode, hdst, hheld]
    rw [hsends, hreceives, hnone, List.nil_append, copiesOf_eq r hkeys hsame.homenode,
      List.append_assoc]
    exact h.holds
  · obtain ⟨tag, tag', mem, -, hreceives, hheld⟩ := htransfer.away hdst
    have hkeys : (hop.land held).desc.liveArgs.map Arg.key =
        held.desc.liveArgs.map Arg.key := by
      rw [hheld, receiveArguments_keys, htransfer.liveArgs]
    refine ⟨hhome, hland, hkeys.trans h.keys, ?_⟩
    have hbuffers : (hop.land held).buffers =
        (((hop.receives held).filterMap Effect.calloc?).map (Prod.mk (hop.dst held))) := by
      have hnot : (hop.land held).node ≠ (hop.land held).desc.homenode := by
        rw [hsame.homenode, hheld]
        exact fun heq ↦ hdst heq.symm
      rw [Held.buffers, if_neg hnot, hreceives, calloc_receiveArguments, List.map_map, hheld]
      rfl
    have hfree : ∀ e ∈ hop.receives held, e.free? = none := by
      rw [hreceives]
      exact free_receiveArguments _ _ _ _
    have hholds := Buffers.perform_allocs (hop.dst held) h.holds hfree
    rw [hsends, copiesOf_eq r hkeys hsame.homenode, hbuffers]
    refine hholds.perm ?_
    rw [← List.append_assoc lost]
    exact List.perm_append_comm_assoc ..

/-- At home an insertion touches no buffer. -/
theorem Carrying.insert (h : Carrying r home as lost held l) (hnode : held.node = home)
    (roundRobin : Bool) (targetQueue : Int) :
    Carrying r home as (lost ++ held.buffers) ((Hop.insert roundRobin targetQueue).land held)
      ((Hop.insert roundRobin targetQueue).buffers held l) := by
  let hop := Hop.insert roundRobin targetQueue
  have hsame := Hop.land_same held hop
  have hkeys : (hop.land held).desc.liveArgs.map Arg.key = held.desc.liveArgs.map Arg.key := by
    show (readArguments (place roundRobin targetQueue held.desc)).liveArgs.map Arg.key = _
    rw [readArguments_keys, place_liveArgs]
  have hnone : held.buffers = [] := buffers_home (hnode.trans h.homenode.symm)
  have hnone' : (hop.land held).buffers = [] := by
    apply buffers_home
    rw [hsame.homenode, h.homenode]
    exact hnode
  refine ⟨hsame.homenode.trans h.homenode, Hop.land_type held hop h.type,
    hkeys.trans h.keys, ?_⟩
  have hholds := h.holds
  rw [hnone] at hholds ⊢
  rw [hnone', copiesOf_eq r hkeys hsame.homenode, List.append_nil]
  exact hholds

theorem Carrying.hop (h : Carrying r home as lost held l) (hop : Hop)
    (hinsert : (∃ roundRobin targetQueue, hop = .insert roundRobin targetQueue) →
      held.node = home) :
    Carrying r home as (lost ++ held.buffers) (hop.land held) (hop.buffers held l) := by
  by_cases hop' : ∃ roundRobin targetQueue, hop = .insert roundRobin targetQueue
  · obtain ⟨roundRobin, targetQueue, rfl⟩ := hop'
    exact h.insert (hinsert ⟨roundRobin, targetQueue, rfl⟩) roundRobin targetQueue
  · exact h.move hop fun roundRobin targetQueue heq ↦ hop' ⟨roundRobin, targetQueue, heq⟩

theorem Carrying.buffers_eq_nil_iff (h : Carrying r home as lost held l) :
    held.buffers = [] ↔ held.node = home ∨ ∀ a ∈ as, ¬ a.Buffered := by
  have hall : (∀ a ∈ held.desc.liveArgs, ¬ a.Buffered) ↔ ∀ a ∈ as, ¬ a.Buffered :=
    forall_of_keys h.keys fun a b hab ↦ not_congr (Arg.buffered_congr hab)
  unfold Held.buffers
  by_cases hnode : held.node = held.desc.homenode
  · rw [if_pos hnode]
    exact ⟨fun _ ↦ .inl (hnode.trans h.homenode), fun _ ↦ rfl⟩
  · rw [if_neg hnode, List.map_eq_nil_iff, List.filter_eq_nil_iff, ← hall]
    simp only [decide_eq_true_eq]
    exact ⟨.inr, fun h' ↦ h'.resolve_left fun heq ↦ hnode (heq.trans h.homenode.symm)⟩

/-- Buffers are lost on a journey when a node other than home passes the descriptor on. -/
theorem Carrying.travel (h : Carrying r home as lost held l) {hops : List Hop}
    (hroute : Inserted home held.node hops) :
    ∃ lost', Carrying r home as lost' (travel held hops) (travelBuffers held l hops) ∧
      (lost' = [] ↔ lost = [] ∧
        (PassedOnBy home held.node hops ∨ ∀ a ∈ as, ¬ a.Buffered)) := by
  induction hops generalizing held l lost with
  | nil => exact ⟨lost, h, by simp [PassedOnBy]⟩
  | cons hop hops ih =>
      obtain ⟨hinsert, hrest⟩ := hroute
      rw [← Hop.land_node] at hrest
      obtain ⟨lost', h', hiff⟩ := ih (h.hop hop hinsert) hrest
      refine ⟨lost', h', hiff.trans ?_⟩
      rw [List.append_eq_nil_iff, h.buffers_eq_nil_iff, Hop.land_node]
      show _ ↔ lost = [] ∧
        ((held.node = home ∧ PassedOnBy home (hop.next held.node) hops) ∨ _)
      tauto

theorem travel_node (held : Held) (hops : List Hop) :
    (travel held hops).node = lastNode held.node hops := by
  induction hops generalizing held with
  | nil => rfl
  | cons hop hops ih =>
      show (travel (hop.land held) hops).node = lastNode (hop.next held.node) hops
      rw [ih, Hop.land_node]

/-! ## The end of an execution -/

theorem filter_perm {p q : Arg → Bool} (hqp : ∀ a, q a = true → p a = true) (bs : List Arg) :
    (bs.filter p).Perm (bs.filter q ++ bs.filter fun a ↦ !q a && p a) := by
  have hsplit := (List.filter_append_perm q (bs.filter p)).symm
  have hq : ∀ a, (q a && p a) = q a := by
    intro a
    cases hqa : q a with
    | false => rfl
    | true => rw [hqp a hqa, Bool.true_and]
  simp only [List.filter_filter, hq] at hsplit
  exact hsplit

/-- What is left of some blocks when those that `q` accepts are freed. -/
theorem Buffers.perform_part {node : Nat} {calls : List Effect} {rest : List (Nat × Int)}
    {p q : Arg → Bool} {g : Arg → Int} {bs : List Arg}
    (h : l.Holds ((bs.filter p).map (fun a ↦ (node, g a)) ++ rest))
    (hqp : ∀ a, q a = true → p a = true)
    (hfree : calls.filterMap Effect.free? = (bs.filter q).map g)
    (hcalloc : ∀ e ∈ calls, e.calloc? = none) :
    (l.perform node calls).Holds
      ((bs.filter fun a ↦ !q a && p a).map (fun a ↦ (node, g a)) ++ rest) := by
  apply Buffers.perform_frees _ hcalloc
  rw [hfree, List.map_map]
  refine h.perm ?_
  rw [← List.append_assoc]
  apply List.Perm.append_right
  have hperm := (filter_perm hqp bs).map fun a ↦ (node, g a)
  rw [List.map_append] at hperm
  exact hperm

theorem filter_nil_iff {p q : Arg → Bool} {bs : List Arg} :
    (bs.filter fun a ↦ !q a && p a) = [] ↔ ∀ a ∈ bs, p a = true → q a = true := by
  rw [List.filter_eq_nil_iff]
  apply forall₂_congr
  intro a _
  cases p a <;> cases q a <;> decide

theorem Carrying.copies_iff (h : Carrying r home as lost held l) (P : Nat → Prop)
    [DecidablePred P] :
    (∀ a ∈ held.desc.liveArgs, r.copies a = true →
      decide (a.callway = .cop2 ∧ P a.quantity) = true) ↔
        ∀ a ∈ as, r.copies a → P a.quantity := by
  rw [← forall_of_keys h.keys (P := fun a ↦ r.copies a → P a.quantity)]
  · apply forall₂_congr
    intro a _
    apply imp_congr_right
    intro hcopy
    exact ⟨fun hd ↦ (of_decide_eq_true hd).2,
      fun hq ↦ decide_eq_true ⟨(of_decide_eq_true hcopy).1, hq⟩⟩
  · intro a b hab
    rw [r.copies_congr hab, (Arg.key_eq hab).1]

theorem Carrying.finish_home (h : Carrying r home as lost held l) (hnode : held.node = home)
    (hnull : ∀ a ∈ held.desc.liveArgs, r.copies a → a.localarg ≠ 0) (tag : Nat) :
    (finishBuffers tag held l).Balanced ↔
      lost = [] ∧ ∀ a ∈ as, r.copies a → 1 < a.quantity := by
  have hhere : held.desc.homenode = held.node := h.homenode.trans hnode.symm
  have hcopied : ∀ a : Arg, decide (a.callway = .cop2 ∧ 1 < a.quantity) = true →
      r.copies a = true := by
    intro a ha
    obtain ⟨hcall, hq⟩ := of_decide_eq_true ha
    exact decide_eq_true ⟨hcall, .inr (by omega)⟩
  have hholds : l.Holds ((held.desc.liveArgs.filter r.copies).map
      (fun a ↦ (held.node, a.localarg)) ++ lost) := by
    have hheld := h.holds
    rw [buffers_home hhere.symm, List.nil_append, Routine.copiesOf, hhere] at hheld
    exact hheld.perm List.perm_append_comm
  have hfinish : finishBuffers tag held l =
      Buffers.perform held.node l (held.desc.liveArgs.flatMap cleanupArgument) := by
    unfold finishBuffers
    rw [if_neg fun hne ↦ hne hhere]
  have hleft := Buffers.perform_part hholds hcopied
    (free_cleanup fun a ha hcall hq ↦
      hnull a ha (hcopied a (decide_eq_true ⟨hcall, hq⟩))) (calloc_cleanup _)
  rw [hfinish, hleft.balanced_iff, List.append_eq_nil_iff, List.map_eq_nil_iff, filter_nil_iff,
    and_comm]
  exact and_congr_right fun _ ↦ h.copies_iff (1 < ·)

theorem Carrying.finish_away (h : Carrying r home as lost held l) (hnode : held.node ≠ home)
    (tag : Nat) :
    (finishBuffers tag held l).Balanced ↔
      lost = [] ∧ (∀ a ∈ as, a.Buffered → a.FreedByAnswer) ∧
        ∀ a ∈ as, r.copies a → a.quantity ≠ 0 := by
  have haway : held.desc.homenode ≠ held.node := fun heq ↦ hnode (heq.symm.trans h.homenode)
  let sent := stampSource held.node tag held.desc .torcAnswer
  have hanswered : ∀ a : Arg, decide a.FreedByAnswer = true → decide a.Buffered = true := by
    intro a ha
    have hq := (of_decide_eq_true ha).1
    exact decide_eq_true ⟨by omega, .inl hq⟩
  have hcopied : ∀ a : Arg, decide (a.callway = .cop2 ∧ a.quantity ≠ 0) = true →
      r.copies a = true := by
    intro a ha
    obtain ⟨hcall, hq⟩ := of_decide_eq_true ha
    exact decide_eq_true ⟨hcall, .inr hq⟩
  have hholds : l.Holds ((held.desc.liveArgs.filter fun a ↦ a.Buffered).map
      (fun a ↦ (held.node, a.temparg)) ++ (r.copiesOf held.desc ++ lost)) := by
    have hheld := h.holds
    rw [Held.buffers, if_neg fun heq ↦ haway heq.symm] at hheld
    refine hheld.perm (List.perm_append_comm.trans ?_)
    rw [List.append_assoc]
  -- the sender frees its buffers, the handler of the answer the copies
  have hsent := Buffers.perform_part hholds hanswered (free_sendResults tag sent)
    (calloc_sendResults tag sent)
  have hcopies := Buffers.perform_part (hsent.perm (by
      have hsame : r.copiesOf held.desc =
          (sent.liveArgs.filter r.copies).map fun a ↦ (home, a.localarg) := by
        rw [Routine.copiesOf, h.homenode]
        rfl
      rw [hsame]
      exact List.perm_append_comm_assoc ..)) hcopied
    (free_receiveResults home sent.sourcevpid sent) (calloc_receiveResults _ _ _)
  have hfinish : finishBuffers tag held l =
      Buffers.perform home (Buffers.perform held.node l (sendResults tag sent))
        (receiveResults home sent.sourcevpid sent).2 := by
    unfold finishBuffers
    rw [if_pos haway]
    show Buffers.perform held.desc.homenode _ (receiveResults held.desc.homenode _ _).2 = _
    rw [h.homenode]
    rfl
  rw [hfinish, hcopies.balanced_iff, List.append_eq_nil_iff, List.append_eq_nil_iff,
    List.map_eq_nil_iff, List.map_eq_nil_iff, filter_nil_iff, filter_nil_iff]
  have hbuffered : (∀ a ∈ held.desc.liveArgs, decide a.Buffered = true →
      decide a.FreedByAnswer = true) ↔ ∀ a ∈ as, a.Buffered → a.FreedByAnswer := by
    rw [← forall_of_keys h.keys (P := fun a ↦ a.Buffered → a.FreedByAnswer)]
    · simp only [decide_eq_true_eq]
    · intro a b hab
      rw [Arg.buffered_congr hab, Arg.freedByAnswer_congr hab]
  show ((∀ a ∈ held.desc.liveArgs, _) ∧ (∀ a ∈ held.desc.liveArgs, _) ∧ _) ↔ _
  rw [hbuffered, h.copies_iff (· ≠ 0)]
  tauto

/-! ## Every task and route -/

theorem storeArgument_same {h h' : ByteHeap} {ptr : Nat} {a a' : Arg}
    (hs : storeArgument h ptr a = some (a', h')) :
    a'.quantity = a.quantity ∧ a'.callway = a.callway := by
  obtain ⟨x, rfl⟩ := storeArgument_fields hs
  exact ⟨rfl, rfl⟩

theorem storeArgumentC_same {h h' : ByteHeap} {ptr : Nat} {a a' : Arg}
    (hs : storeArgumentC h ptr a = some (a', h')) :
    a'.quantity = a.quantity ∧ a'.callway = a.callway := by
  unfold storeArgumentC at hs
  split at hs
  · cases hs
    exact ⟨rfl, rfl⟩
  · exact storeArgument_same hs

theorem decodeArguments_forall
    {store : ByteHeap → Nat → Arg → Option (Arg × ByteHeap)}
    (hstore : ∀ {h h' ptr a a'}, store h ptr a = some (a', h') →
      a'.quantity = a.quantity ∧ a'.callway = a.callway)
    {P : Arg → Prop}
    (hP : ∀ a b : Arg, a.quantity = b.quantity → a.callway = b.callway → (P a ↔ P b))
    {h h' : ByteHeap} {cs : List CArg} {as : List Arg}
    (hd : decodeArguments store h cs = some (as, h')) :
    (∀ a ∈ as, P a) ↔ ∀ x ∈ cs, P (declareArgument x) := by
  induction cs generalizing h as with
  | nil =>
      cases hd
      simp
  | cons x cs ih =>
      simp only [decodeArguments, Option.bind_eq_bind, Option.bind_eq_some_iff] at hd
      obtain ⟨⟨a, h₁⟩, hone, ⟨as', h₂⟩, hrest, heq⟩ := hd
      cases heq
      obtain ⟨hq, hc⟩ := hstore hone
      rw [List.forall_mem_cons, List.forall_mem_cons, hP a _ hq hc, ih hrest]

theorem createWith_forall {store : ByteHeap → Nat → Arg → Option (Arg × ByteHeap)}
    {who : Creator}
    {parent : Option Nat} {level : Int} {rteType : Nat} {counted : Bool} {taskId work : Nat}
    {h : ByteHeap} {cs : List CArg} {c : Creation}
    (hstore : ∀ {h h' ptr a a'}, store h ptr a = some (a', h') →
      a'.quantity = a.quantity ∧ a'.callway = a.callway)
    (hc : createWith store who parent level rteType counted taskId work h cs = some c)
    {P : Arg → Prop}
    (hP : ∀ a b : Arg, a.quantity = b.quantity → a.callway = b.callway → (P a ↔ P b)) :
    (∀ a ∈ c.desc.liveArgs, P a) ↔ ∀ x ∈ cs, P (declareArgument x) := by
  obtain ⟨as, h', hd, -, rfl⟩ := createWith_some hc
  have hlive : as.take cs.length = as :=
    List.take_of_length_le (decodeArguments_length hd).le
  show (∀ a ∈ as.take cs.length, P a) ↔ _
  rw [hlive]
  exact decodeArguments_forall hstore hP hd

theorem Routine.create_forall {r : Routine} {who : Creator} {taskId work : Nat} {h : ByteHeap}
    {cs : List CArg} {c : Creation} (hc : r.create who taskId work h cs = some c)
    {P : Arg → Prop}
    (hP : ∀ a b : Arg, a.quantity = b.quantity → a.callway = b.callway → (P a ↔ P b)) :
    (∀ a ∈ c.desc.liveArgs, P a) ↔ ∀ x ∈ cs, P (declareArgument x) := by
  cases r with
  | createf => exact createWith_forall storeArgument_same hc hP
  | taskf type => exact createWith_forall storeArgument_same hc hP
  | task => exact createWith_forall storeArgumentC_same hc hP
  | taskEx invisible => exact createWith_forall storeArgumentC_same hc hP
  | taskDetached => exact createWith_forall storeArgumentC_same hc hP
  | taskDirect => exact createWith_forall storeArgumentC_same hc hP

/-- What a task leaves behind, from the descriptor that its creation filled. -/
theorem balanced_buffersAfter {r : Routine} {desc : TorcT} (htype : desc.type ≠ .torcNoWork)
    (hnull : ∀ a ∈ desc.liveArgs, r.copies a → a.localarg ≠ 0) {hops : List Hop}
    (hroute : Inserted desc.homenode desc.homenode hops) (tag : Nat) :
    (buffersAfter r tag desc hops).Balanced ↔
      ∀ a ∈ desc.liveArgs, Released r desc.homenode hops a := by
  have hstart : Carrying r desc.homenode desc.liveArgs [] ⟨desc.homenode, desc⟩
      ⟨r.copiesOf desc, []⟩ := by
    refine ⟨rfl, htype, rfl, ?_⟩
    rw [buffers_home rfl]
    exact ⟨List.Perm.refl _, rfl⟩
  obtain ⟨lost, h, hlost⟩ := hstart.travel hroute
  have hnode := travel_node ⟨desc.homenode, desc⟩ hops
  unfold buffersAfter
  by_cases hlast : lastNode desc.homenode hops = desc.homenode
  · -- `_torc_cleanup` at home tests each address for null before it frees
    have hnull' : ∀ a ∈ (travel ⟨desc.homenode, desc⟩ hops).desc.liveArgs, r.copies a →
        a.localarg ≠ 0 := by
      refine (forall_of_keys h.keys (P := fun a ↦ r.copies a → a.localarg ≠ 0) ?_).mpr hnull
      intro a b hab
      rw [r.copies_congr hab, (Arg.key_eq hab).2.2]
    rw [h.finish_home (hnode.trans hlast) hnull' tag, hlost]
    constructor
    · rintro ⟨⟨-, hpassed⟩, hcopies⟩ a ha
      exact ⟨fun hb ↦ hpassed.resolve_right fun hnone ↦ hnone a ha hb,
        fun hne ↦ absurd hlast hne,
        fun _ ↦ hcopies a ha, fun hne ↦ absurd hlast hne⟩
    · intro hall
      refine ⟨⟨rfl, ?_⟩, fun a ha ↦ (hall a ha).copyAtHome hlast⟩
      by_cases hb : ∃ a ∈ desc.liveArgs, a.Buffered
      · obtain ⟨a, ha, hb⟩ := hb
        exact .inl ((hall a ha).stays hb)
      · exact .inr fun a ha h ↦ hb ⟨a, ha, h⟩
  · -- the answer frees on both nodes
    rw [h.finish_away (fun heq ↦ hlast (hnode.symm.trans heq)) tag, hlost]
    constructor
    · rintro ⟨⟨-, hpassed⟩, hanswered, hcopies⟩ a ha
      exact ⟨fun hb ↦ hpassed.resolve_right fun hnone ↦ hnone a ha hb,
        fun _ ↦ hanswered a ha,
        fun heq ↦ absurd heq hlast, fun _ ↦ hcopies a ha⟩
    · intro hall
      refine ⟨⟨rfl, ?_⟩, fun a ha ↦ (hall a ha).answered hlast,
        fun a ha ↦ (hall a ha).copyAway hlast⟩
      by_cases hb : ∃ a ∈ desc.liveArgs, a.Buffered
      · obtain ⟨a, ha, hb⟩ := hb
        exact .inl ((hall a ha).stays hb)
      · exact .inr fun a ha h ↦ hb ⟨a, ha, h⟩

theorem released_congr (r : Routine) (home : Nat) (hops : List Hop) {a b : Arg}
    (hq : a.quantity = b.quantity) (hc : a.callway = b.callway)
    (h : Released r home hops a) : Released r home hops b := by
  obtain ⟨hstays, hanswered, hhome, haway⟩ := h
  simp only [Arg.Buffered, Arg.FreedByAnswer, Routine.copies, hq,
    hc] at hstays hanswered hhome haway
  exact ⟨hstays, hanswered, hhome, haway⟩

/-- Where `malloc` does not return null, all buffers of a task are freed exactly once when its
arguments fit its route. -/
theorem buffersAfter_balanced_iff (r : Routine) (who : Creator) (taskId work : Nat) (h : ByteHeap)
    (cs : List CArg) (c : Creation) (hc : r.create who taskId work h cs = some c)
    (hmalloc : ∀ a ∈ c.desc.liveArgs, r.copies a → a.localarg ≠ 0) (hops : List Hop)
    (hroute : Inserted who.me who.me hops) (tag : Nat) :
    (buffersAfter r tag c.desc hops).Balanced ↔
      ∀ x ∈ cs, Released r who.me hops (declareArgument x) := by
  have hhome : c.desc.homenode = who.me := (Routine.create_work hc).2.2
  have htype : c.desc.type = .unset := (Routine.create_header hc).2
  rw [← hhome] at hroute
  rw [balanced_buffersAfter (by rw [htype]; nofun) hmalloc hroute tag, hhome]
  exact Routine.create_forall hc fun a b hq hcall ↦
    ⟨released_congr r who.me hops hq hcall, released_congr r who.me hops hq.symm hcall.symm⟩

/-- `torc_task` on node 0 with one argument of type `char`. -/
def bufferTask (quantity : Nat) (callway : CallWay) : Option Creation :=
  torcTask { me := 0, table := [] } 0 8 { mem := fun _ ↦ 0, brk := 200 }
    [⟨quantity, ⟨0, .char⟩, callway, 100⟩]

def toNodeOne : Hop :=
  .enqueue false 1 0 1 fun _ ↦ 500

theorem buffersAfter_balanced_iff_sample :
    ∃ c, bufferTask 2 .cop2 = some c ∧ (buffersAfter .task 0 c.desc [toNodeOne]).Balanced := by
  obtain ⟨c, hc⟩ := Option.isSome_iff_exists.mp (show (bufferTask 2 .cop2).isSome by decide)
  have hmalloc : (bufferTask 2 .cop2).map (fun c ↦ decide (∀ a ∈ c.desc.liveArgs,
      Routine.task.copies a → a.localarg ≠ 0)) = some true := by decide
  rw [hc, Option.map_some, Option.some.injEq, decide_eq_true_eq] at hmalloc
  have hinserted : Inserted 0 0 [toNodeOne] := by
    refine ⟨?_, trivial⟩
    rintro ⟨roundRobin, targetQueue, heq⟩
    cases heq
  refine ⟨c, hc, (buffersAfter_balanced_iff .task { me := 0, table := [] } 0 8 _ _ c hc hmalloc
    [toNodeOne] hinserted 0).mpr ?_⟩
  intro x hx
  cases List.mem_singleton.mp hx
  exact ⟨fun _ ↦ ⟨rfl, trivial⟩, fun _ _ ↦ by decide, fun h ↦ absurd h (by decide),
    fun _ _ ↦ by decide⟩

/-- The buffer of a `CALL_BY_REF` argument with one element stays on the node that executes. -/
theorem not_buffersAfter_balanced :
    ∃ c, bufferTask 1 .ref = some c ∧
      (buffersAfter .task 0 c.desc [toNodeOne]).live = [(1, 500)] ∧
      ¬ (buffersAfter .task 0 c.desc [toNodeOne]).Balanced := by
  obtain ⟨c, hc⟩ := Option.isSome_iff_exists.mp (show (bufferTask 1 .ref).isSome by decide)
  have hend : (bufferTask 1 .ref).map (fun c ↦ (buffersAfter .task 0 c.desc [toNodeOne]).live) =
      some [(1, 500)] := by decide
  rw [hc, Option.map_some, Option.some.injEq] at hend
  refine ⟨c, hc, hend, fun hbalanced ↦ ?_⟩
  rw [hbalanced.1] at hend
  cases hend

end Torc
