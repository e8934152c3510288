import Torc.ArgumentBuffers

/-!
# Landing

What a move leaves of one argument: the receiving routine may give it a new handle and a new
`temparg`, and nothing else.
-/

namespace Torc

/-- The fields that every routine between creation and execution keeps. -/
structure Arg.Kept (a b : Arg) : Prop where
  quantity : b.quantity = a.quantity
  btype : b.btype = a.btype
  callway : b.callway = a.callway
  localarg : b.localarg = a.localarg

theorem Arg.Kept.refl (a : Arg) : a.Kept a :=
  ⟨rfl, rfl, rfl, rfl⟩

theorem Arg.Kept.trans {a b c : Arg} (h : a.Kept b) (h' : b.Kept c) : a.Kept c where
  quantity := h'.quantity.trans h.quantity
  btype := h'.btype.trans h.btype
  callway := h'.callway.trans h.callway
  localarg := h'.localarg.trans h.localarg

theorem Arg.Kept.buffered {a b : Arg} (h : a.Kept b) : b.Buffered ↔ a.Buffered := by
  rw [Arg.Buffered, Arg.Buffered, h.quantity, h.callway]

theorem receiveArgument_kept (me sourcenode tag i : Nat) (m : Int) (a : Arg) :
    a.Kept (receiveArgument me sourcenode tag m i a).1 := by
  unfold receiveArgument
  split
  · exact .refl a
  · split <;> exact ⟨rfl, rfl, rfl, rfl⟩

theorem receiveArgument_dtype (me sourcenode tag i : Nat) (m : Int) (a : Arg) :
    (receiveArgument me sourcenode tag m i a).1.dtype =
      if a.Buffered then torcB2mpiType me a.btype else a.dtype := by
  unfold receiveArgument
  by_cases hq : a.quantity = 0
  · rw [if_pos hq, if_neg fun h : a.Buffered ↦ h.1 hq]
  · rw [if_neg hq]
    by_cases hc : 1 < a.quantity ∨ (a.callway ≠ .cop ∧ a.callway ≠ .vad)
    · have hre : a.Buffered := ⟨hq, hc⟩
      rw [if_pos hc, if_pos hre]
    · rw [if_neg hc, if_neg fun h : a.Buffered ↦ hc h.2]

/-- The move takes the descriptor to a node that receives its arguments. -/
def Hop.Away (held : Held) : Hop → Prop
  | .insert _ _ => False
  | .enqueue _ _ _ dst _ => held.desc.homenode ≠ dst
  | .steal thief _ _ => held.desc.homenode ≠ thief

/-- Argument `i` after a move. -/
theorem Hop.land_arg {held : Held} (htype : held.desc.type ≠ .torcNoWork) (hop : Hop) {i : Nat}
    {a : Arg} (ha : held.desc.liveArgs[i]? = some a) :
    ∃ b, (hop.land held).desc.liveArgs[i]? = some b ∧ a.Kept b ∧
      (hop.Away held → a.Buffered → b.dtype = torcB2mpiType (hop.dst held) a.btype) ∧
      (¬ (hop.Away held ∧ a.Buffered) → b.dtype = a.dtype) := by
  -- the two ways of reaching another node end in the same routine
  have hmove : (∀ roundRobin targetQueue, hop ≠ .insert roundRobin targetQueue) →
      (hop.Away held ↔ held.desc.homenode ≠ hop.dst held) →
      ∃ b, (hop.land held).desc.liveArgs[i]? = some b ∧ a.Kept b ∧
        (hop.Away held → a.Buffered → b.dtype = torcB2mpiType (hop.dst held) a.btype) ∧
        (¬ (hop.Away held ∧ a.Buffered) → b.dtype = a.dtype) := by
    intro hne haway
    have htr := hop.transfer htype hne
    by_cases hhome : held.desc.homenode = hop.dst held
    · obtain ⟨-, hland⟩ := htr.home hhome
      refine ⟨a, ?_, .refl a, fun h ↦ absurd hhome (haway.mp h), fun _ ↦ rfl⟩
      rw [hland]
      exact (congrArg (·[i]?) htr.liveArgs).trans ha
    · obtain ⟨tag, tag', mem, -, -, hland⟩ := htr.away hhome
      refine ⟨(receiveArgument (hop.dst held) (hop.sent held).sourcenode tag' (mem i) i a).1, ?_,
        receiveArgument_kept _ _ _ _ _ _, fun _ hre ↦ ?_, fun hnot ↦ ?_⟩
      · rw [hland]
        change (receiveArguments _ tag' mem (hop.sent held)).1.liveArgs[i]? = _
        rw [receiveArguments_getElem?, htr.liveArgs, ha]
        rfl
      · rw [receiveArgument_dtype, if_pos hre]
      · rw [receiveArgument_dtype, if_neg fun hre ↦ hnot ⟨haway.mpr hhome, hre⟩]
  cases hop with
  | insert roundRobin targetQueue =>
      refine ⟨{ a with temparg := a.localarg }, ?_, ⟨rfl, rfl, rfl, rfl⟩, fun h ↦ h.elim,
        fun _ ↦ rfl⟩
      change (readArguments (place roundRobin targetQueue held.desc)).liveArgs[i]? = _
      rw [readArguments_getElem?, place_liveArgs, ha]
      rfl
  | enqueue roundRobin targetQueue tag dst mem => exact hmove (fun _ _ h ↦ by cases h) Iff.rfl
  | steal thief vpid mem => exact hmove (fun _ _ h ↦ by cases h) Iff.rfl

end Torc
