import Torc.Landing

/-!
# Handles of MPI types

A descriptor carries the raw handles of the node that filled them in.  `receive_arguments`
translates those of the arguments that it receives, and the owner of a descriptor does not receive
any.
-/

namespace Torc

/-- When the body runs on the node that holds the descriptor, every `dtype` is a handle of it. -/
def HandlesValid (held : Held) : Prop :=
  ∀ a ∈ held.desc.liveArgs, a.dtype = torcB2mpiType held.node a.btype

instance (held : Held) : Decidable (HandlesValid held) :=
  inferInstanceAs (Decidable (∀ a ∈ held.desc.liveArgs, _ = _))

/-- `torc_getarg_size` in a body on node `me`; none where the handle is not one of the node. -/
def torcGetargSize (me : Nat) (desc : TorcT) (arg : Nat) : Option Nat :=
  desc.liveArgs[arg]?.bind fun a ↦
    if a.dtype.owner = me then some (mpiTypeSize a.dtype) else none

theorem HandlesValid.torcGetargSize {held : Held} (h : HandlesValid held) {i : Nat} {a : Arg}
    (ha : held.desc.liveArgs[i]? = some a) :
    torcGetargSize held.node held.desc i = some a.btype.size := by
  rw [Torc.torcGetargSize, ha, Option.bind_some, h a (List.mem_of_getElem? ha)]
  exact if_pos rfl

/-! ## Owners -/

/-- The move ends on another node than `home`. -/
def Hop.Leaves (home : Nat) : Hop → Prop
  | .insert _ _ => False
  | .enqueue _ _ _ dst _ => home ≠ dst
  | .steal thief _ _ => home ≠ thief

instance (home : Nat) (hop : Hop) : Decidable (hop.Leaves home) :=
  match hop with
  | .insert _ _ => isFalse fun h ↦ h
  | .enqueue _ _ _ dst _ => inferInstanceAs (Decidable (home ≠ dst))
  | .steal thief _ _ => inferInstanceAs (Decidable (home ≠ thief))

/-- The node whose handle a received argument has: the last one away from home. -/
def handleOwner (home : Nat) (hops : List Hop) : Nat :=
  hops.foldl (fun owner hop ↦ if hop.Leaves home then hop.next owner else owner) home

theorem handleOwner_append (home : Nat) (hops : List Hop) (hop : Hop) :
    handleOwner home (hops ++ [hop]) =
      if hop.Leaves home then hop.next (handleOwner home hops) else handleOwner home hops := by
  rw [handleOwner, List.foldl_append]
  rfl

theorem lastNode_append (node : Nat) (hops : List Hop) (hop : Hop) :
    lastNode node (hops ++ [hop]) = hop.next (lastNode node hops) := by
  rw [lastNode, List.foldl_append]
  rfl

theorem Hop.Leaves.next_eq {home : Nat} {hop : Hop} (h : hop.Leaves home) (node node' : Nat) :
    hop.next node = hop.next node' ∧ hop.next node ≠ home := by
  cases hop with
  | insert roundRobin targetQueue => exact h.elim
  | enqueue roundRobin targetQueue tag dst mem => exact ⟨rfl, Ne.symm h⟩
  | steal thief vpid mem => exact ⟨rfl, Ne.symm h⟩

theorem Hop.next_of_not_leaves {home : Nat} {hop : Hop} (h : ¬ hop.Leaves home) (node : Nat) :
    hop.next node = node ∨ hop.next node = home := by
  cases hop with
  | insert roundRobin targetQueue => exact .inl rfl
  | enqueue roundRobin targetQueue tag dst mem => exact .inr (not_not.mp h).symm
  | steal thief vpid mem => exact .inr (not_not.mp h).symm

/-- Away from home the owner is the node itself; at home it is so if no move has led away. -/
theorem handleOwner_spec (home : Nat) (hops : List Hop) :
    (lastNode home hops ≠ home → handleOwner home hops = lastNode home hops) ∧
      (handleOwner home hops = home ↔ ∀ hop ∈ hops, ¬ hop.Leaves home) := by
  induction hops using List.reverseRecOn with
  | nil =>
      exact ⟨fun h ↦ absurd rfl h, fun _ hop hmem ↦ absurd hmem List.not_mem_nil,
        fun _ ↦ rfl⟩
  | append_singleton hops hop ih =>
      obtain ⟨haway, hhome⟩ := ih
      rw [handleOwner_append, lastNode_append]
      by_cases hleaves : hop.Leaves home
      · obtain ⟨hnext, hne⟩ := hleaves.next_eq (handleOwner home hops) (lastNode home hops)
        rw [if_pos hleaves]
        refine ⟨fun _ ↦ hnext, fun heq ↦ absurd heq hne, fun hall ↦ ?_⟩
        exact absurd hleaves (hall hop (List.mem_append_right _ List.mem_cons_self))
      · rw [if_neg hleaves]
        refine ⟨fun hne ↦ ?_,
          hhome.trans ⟨fun hall h hmem ↦ ?_, fun hall h hmem ↦ ?_⟩⟩
        · -- the descriptor stayed where it was
          rcases hop.next_of_not_leaves hleaves (lastNode home hops) with hnext | hnext
          · rw [hnext] at hne ⊢
            exact haway hne
          · exact absurd hnext hne
        · rcases List.mem_append.mp hmem with hmem | hmem
          · exact hall h hmem
          · rw [List.mem_singleton.mp hmem]
            exact hleaves
        · exact hall h (List.mem_append_left _ hmem)

theorem handleOwner_eq_iff (home : Nat) (hops : List Hop) :
    handleOwner home hops = lastNode home hops ↔
      (lastNode home hops = home → ∀ hop ∈ hops, ¬ hop.Leaves home) := by
  obtain ⟨haway, hhome⟩ := handleOwner_spec home hops
  by_cases hlast : lastNode home hops = home
  · rw [hlast, hhome]
    exact ⟨fun h _ ↦ h, fun h ↦ h rfl⟩
  · exact iff_of_true (haway hlast) fun h ↦ absurd h hlast

/-! ## Every route -/

theorem travel_append (held : Held) (hops : List Hop) (hop : Hop) :
    travel held (hops ++ [hop]) = hop.land (travel held hops) := by
  rw [travel, List.foldl_append]
  rfl

theorem travel_type {held : Held} (h : held.desc.type ≠ .torcNoWork) (hops : List Hop) :
    (travel held hops).desc.type ≠ .torcNoWork := by
  induction hops using List.reverseRecOn with
  | nil => exact h
  | append_singleton hops hop ih =>
      rw [travel_append]
      exact hop.land_type _ ih

theorem Hop.dst_eq (held : Held) (hop : Hop) : hop.dst held = hop.next held.node := by
  cases hop <;> rfl

theorem Hop.away_iff (held : Held) (hop : Hop) :
    hop.Away held ↔ hop.Leaves held.desc.homenode := by
  cases hop <;> rfl

/-- Argument `i` of a descriptor that was filled at home, after some moves. -/
theorem travel_arg {desc : TorcT} (htype : desc.type ≠ .torcNoWork) {i : Nat} {a : Arg}
    (ha : desc.liveArgs[i]? = some a) (hown : a.dtype = torcB2mpiType desc.homenode a.btype)
    (hops : List Hop) :
    ∃ b, (travel ⟨desc.homenode, desc⟩ hops).desc.liveArgs[i]? = some b ∧ a.Kept b ∧
      b.dtype = torcB2mpiType
        (if a.Buffered then handleOwner desc.homenode hops else desc.homenode) a.btype := by
  induction hops using List.reverseRecOn with
  | nil =>
      refine ⟨a, ha, .refl a, ?_⟩
      rw [hown, show handleOwner desc.homenode [] = desc.homenode from rfl, ite_self]
  | append_singleton hops hop ih =>
      obtain ⟨b, hb, hkept, hdtype⟩ := ih
      have hsame := travel_same ⟨desc.homenode, desc⟩ hops
      obtain ⟨b', hb', hkept', hnew, hold⟩ := hop.land_arg (travel_type htype hops) hb
      rw [travel_append, handleOwner_append]
      refine ⟨b', hb', hkept.trans hkept', ?_⟩
      rw [Hop.away_iff, hsame.homenode, hkept.buffered] at hold
      rw [Hop.away_iff, hsame.homenode, Hop.dst_eq, hkept.buffered, hkept.btype] at hnew
      by_cases hbuffered : a.Buffered
      · rw [if_pos hbuffered] at hdtype ⊢
        by_cases hleaves : hop.Leaves desc.homenode
        · rw [if_pos hleaves, hnew hleaves hbuffered]
          congr 1
          exact (hleaves.next_eq _ _).1
        · rw [if_neg hleaves, hold fun h ↦ hleaves h.1, hdtype]
      · rw [if_neg hbuffered] at hdtype ⊢
        rw [hold fun h ↦ hbuffered h.2, hdtype]

/-- The argument as the creation routine declares it, and its `localarg`. -/
theorem Routine.create_arg {r : Routine} {who : Creator} {taskId work : Nat} {h : ByteHeap}
    {cs : List CArg} {c : Creation} (hc : r.create who taskId work h cs = some c) {i : Nat}
    {x : CArg} (hx : cs[i]? = some x) (hq : 0 < x.quantity) :
    ∃ y, c.desc.liveArgs[i]? = some { declareArgument x with localarg := y } := by
  obtain ⟨hd, -, hlive⟩ := Routine.create_args hc
  obtain ⟨a, h₁, h₂, ha, hstore⟩ := decodeArguments_getElem? hd hx
  rw [r.store_eq (a := declareArgument x) hq] at hstore
  obtain ⟨y, rfl⟩ := storeArgument_fields hstore
  exact ⟨y, (congrArg (·[i]?) hlive).trans ha⟩

theorem torcB2mpiType_eq_iff (n m : Nat) (btype : BType) :
    torcB2mpiType n btype = torcB2mpiType m btype ↔ n = m :=
  ⟨fun heq ↦ congrArg MpiDatatype.owner heq, fun heq ↦ by rw [heq]⟩

/-- One argument of the caller, before and after the moves. -/
theorem Routine.handle_valid_iff {r : Routine} {who : Creator} {taskId work : Nat} {h : ByteHeap}
    {cs : List CArg} {c : Creation} (hc : r.create who taskId work h cs = some c) {i : Nat}
    {x : CArg} (hx : cs[i]? = some x) (hq : 0 < x.quantity) (hown : x.dtype.owner = who.me)
    (hops : List Hop) :
    ∃ b, (travel ⟨who.me, c.desc⟩ hops).desc.liveArgs[i]? = some b ∧
      (b.dtype = torcB2mpiType (lastNode who.me hops) b.btype ↔
        ((declareArgument x).Buffered → lastNode who.me hops = who.me →
          ∀ hop ∈ hops, ¬ hop.Leaves who.me) ∧
        (¬ (declareArgument x).Buffered → lastNode who.me hops = who.me)) := by
  have hhome : c.desc.homenode = who.me := (Routine.create_work hc).2.2
  have htype : c.desc.type ≠ .torcNoWork := by
    rw [(Routine.create_header hc).2]
    nofun
  obtain ⟨y, ha⟩ := Routine.create_arg hc hx hq
  have hhandle : ({ declareArgument x with localarg := y } : Arg).dtype =
      torcB2mpiType c.desc.homenode (declareArgument x).btype := by
    rw [hhome, ← hown]
    rfl
  obtain ⟨b, hb, hkept, hdtype⟩ := travel_arg htype ha hhandle hops
  rw [hhome] at hb hdtype
  refine ⟨b, hb, ?_⟩
  have hbtype : b.btype = (declareArgument x).btype := hkept.btype
  have hbuf : ({ declareArgument x with localarg := y } : Arg).Buffered ↔
      (declareArgument x).Buffered := Iff.rfl
  rw [hdtype, hbtype, torcB2mpiType_eq_iff]
  by_cases hbuffered : (declareArgument x).Buffered
  · rw [if_pos (hbuf.mpr hbuffered), handleOwner_eq_iff]
    exact ⟨fun hall ↦ ⟨fun _ ↦ hall, fun hnot ↦ absurd hbuffered hnot⟩,
      fun hall ↦ hall.1 hbuffered⟩
  · rw [if_neg fun hb ↦ hbuffered (hbuf.mp hb)]
    exact ⟨fun hlast ↦ ⟨fun hb ↦ absurd hb hbuffered, fun _ ↦ hlast.symm⟩,
      fun hall ↦ (hall.2 hbuffered).symm⟩

/-- The handles are valid where the body runs exactly when the received arguments do not come back
home from elsewhere and all others stay there. -/
theorem handles_valid_iff {r : Routine} {who : Creator} {taskId work : Nat} {h : ByteHeap}
    {cs : List CArg} {c : Creation} (hc : r.create who taskId work h cs = some c)
    (hq : ∀ x ∈ cs, 0 < x.quantity) (hown : ∀ x ∈ cs, x.dtype.owner = who.me)
    (hops : List Hop) :
    HandlesValid (travel ⟨who.me, c.desc⟩ hops) ↔
      ∀ x ∈ cs,
        ((declareArgument x).Buffered → lastNode who.me hops = who.me →
          ∀ hop ∈ hops, ¬ hop.Leaves who.me) ∧
        (¬ (declareArgument x).Buffered → lastNode who.me hops = who.me) := by
  have hnode : (travel ⟨who.me, c.desc⟩ hops).node = lastNode who.me hops := travel_node _ hops
  constructor
  · intro hvalid x hx
    obtain ⟨i, hi⟩ := List.mem_iff_getElem?.mp hx
    obtain ⟨b, hb, hiff⟩ := Routine.handle_valid_iff hc hi (hq x hx) (hown x hx) hops
    have hdtype := hvalid b (List.mem_of_getElem? hb)
    rw [hnode] at hdtype
    exact hiff.mp hdtype
  · intro hall b hmem
    obtain ⟨i, hb⟩ := List.mem_iff_getElem?.mp hmem
    -- there are as many arguments as the caller passed
    have hlt : i < cs.length := by
      have hlen : (travel ⟨who.me, c.desc⟩ hops).desc.liveArgs.length ≤ cs.length := by
        rw [TorcT.liveArgs, List.length_take, (travel_same _ hops).narg,
          (Routine.create_args hc).2.1]
        exact Nat.min_le_left _ _
      have hi := (List.getElem?_eq_some_iff.mp hb).1
      omega
    have hx : cs[i] ∈ cs := List.getElem_mem hlt
    obtain ⟨b', hb', hiff⟩ := Routine.handle_valid_iff hc (List.getElem?_eq_getElem hlt)
      (hq _ hx) (hown _ hx) hops
    cases hb.symm.trans hb'
    rw [hnode]
    exact hiff.mpr (hall _ hx)

/-! ## An `int` by copy and two by reference -/

def handleArgs : List CArg :=
  [⟨1, ⟨0, .int⟩, .cop, 100⟩, ⟨2, ⟨0, .int⟩, .ref, 104⟩]

def handleTask (cs : List CArg) : Option Creation :=
  torcTask { me := 0, table := [] } 0 8 { mem := fun _ ↦ 0, brk := 200 } cs

/-- Node 0 takes its task back from node 1. -/
def backHome : List Hop :=
  [toNodeOne, .steal 0 1 fun _ ↦ 600]

/-- The owners of the handles that the body finds. -/
def handlesAfter (cs : List CArg) (hops : List Hop) : Option (List (Nat × Bool)) :=
  (handleTask cs).map fun c ↦ (travel ⟨0, c.desc⟩ hops).desc.liveArgs.map fun a ↦
    (a.dtype.owner, decide (a.dtype = torcB2mpiType (lastNode 0 hops) a.btype))

theorem handles_valid_iff_sample :
    ∃ c, handleTask [⟨2, ⟨0, .int⟩, .ref, 104⟩] = some c ∧
      HandlesValid (travel ⟨0, c.desc⟩ [toNodeOne]) := by
  obtain ⟨c, hc⟩ := Option.isSome_iff_exists.mp
    (show (handleTask [⟨2, ⟨0, .int⟩, .ref, 104⟩]).isSome by decide)
  have hcreate : Routine.task.create { me := 0, table := [] } 0 8
      { mem := fun _ ↦ 0, brk := 200 } [⟨2, ⟨0, .int⟩, .ref, 104⟩] = some c := hc
  exact ⟨c, hc, (handles_valid_iff hcreate (by decide) (by decide) [toNodeOne]).mpr (by decide)⟩

/-- On node 1 the scalar has the handle of node 0, and back on node 0 the array that of node 1. -/
theorem not_handles_valid :
    handlesAfter handleArgs [toNodeOne] = some [(0, false), (1, true)] ∧
      handlesAfter handleArgs backHome = some [(0, true), (1, false)] ∧
      ∃ c, handleTask handleArgs = some c ∧
      ¬ HandlesValid (travel ⟨0, c.desc⟩ [toNodeOne]) ∧
        ¬ HandlesValid (travel ⟨0, c.desc⟩ backHome) := by
  refine ⟨by decide, by decide, ?_⟩
  obtain ⟨c, hc⟩ := Option.isSome_iff_exists.mp
    (show (handleTask handleArgs).isSome by decide)
  have hend : (handleTask handleArgs).map (fun c ↦
      decide (HandlesValid (travel ⟨0, c.desc⟩ [toNodeOne]) ∨
        HandlesValid (travel ⟨0, c.desc⟩ backHome))) = some false := by decide
  rw [hc, Option.map_some, Option.some.injEq, decide_eq_false_iff_not, not_or] at hend
  exact ⟨c, hc, hend⟩

end Torc
