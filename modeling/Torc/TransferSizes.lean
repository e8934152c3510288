import Torc.Landing

/-!
# Transfer sizes

Byte counts of arguments are `int` products and the element count of a broadcast passes through an
`int` on both sides.
-/

namespace Torc

/-! ## Machine integers -/

theorem cInt_eq_self_iff {x : Int} : cInt x = x ↔ -2 ^ 31 ≤ x ∧ x < 2 ^ 31 := by
  unfold cInt
  rw [Int.bmod_def]
  split <;> omega

theorem BType.size_le (btype : BType) : btype.size ≤ 16 := by
  cases btype <;> decide

/-- The product is computed without loss exactly when an `int` holds it. -/
theorem byteCount_eq_iff {quantity typesize : Nat} (hq : quantity < 2 ^ 31) (hs : typesize ≤ 16) :
    byteCount quantity typesize = quantity * typesize ↔ quantity * typesize < 2 ^ 31 := by
  refine ⟨fun heq ↦ ?_, byteCount_of_lt⟩
  have hle : quantity * typesize ≤ quantity * 16 := Nat.mul_le_mul_left _ hs
  have hcast : ((quantity : Int) * (typesize : Int)) = ((quantity * typesize : Nat) : Int) :=
    (Int.natCast_mul quantity typesize).symm
  unfold byteCount sizeT cInt at heq
  rw [hcast, Int.bmod_def] at heq
  generalize quantity * typesize = p at heq hle ⊢
  split at heq <;> omega

/-! ## Arguments -/

/-- The allocations for the argument have room for its elements and no more: the private copy that
a creation routine makes, filled with the elements, and the buffer of `receive_arguments` on any
node that the descriptor comes to. -/
structure ArgumentSizesExact (x : CArg) : Prop where
  copied : (declareArgument x).callway = .cop2 → ∀ (r : Routine) (h : ByteHeap), ∃ a h',
    r.store h x.ptr (declareArgument x) = some (a, h') ∧ h'.brk = h.brk + x.bytes ∧
      ∀ j < x.bytes, h'.mem (h.brk + j) = h.mem (x.ptr + j)
  received : ∀ a, (declareArgument x).Kept a → ∀ me sourcenode tag i m addr bytes,
    .calloc addr bytes ∈ (receiveArgument me sourcenode tag m i a).2 → bytes = x.bytes

theorem calloc_receiveArgument {me sourcenode tag i : Nat} {m addr : Int} {bytes : Nat} {a : Arg}
    (hc : .calloc addr bytes ∈ (receiveArgument me sourcenode tag m i a).2) :
    bytes = byteCount a.quantity a.btype.size := by
  rcases effect_receiveArgument hc with heq | ⟨payload, heq⟩
  · cases heq
    rfl
  · cases heq

theorem Arg.Buffered.calloc {a : Arg} (ha : a.Buffered) (me sourcenode tag i : Nat) (m : Int) :
    .calloc m (byteCount a.quantity a.btype.size) ∈
      (receiveArgument me sourcenode tag m i a).2 := by
  unfold receiveArgument
  rw [if_neg ha.1, if_pos ha.2]
  exact List.mem_cons_self

theorem argumentSizesExact_iff {x : CArg} (hq : 0 < x.quantity) (hint : x.quantity < 2 ^ 31) :
    ArgumentSizesExact x ↔ x.bytes < 2 ^ 31 := by
  have hcount : byteCount x.quantity x.dtype.ty.size = x.bytes ↔ x.bytes < 2 ^ 31 :=
    byteCount_eq_iff hint x.dtype.ty.size_le
  constructor
  · intro hexact
    by_contra hlarge
    -- so many elements are received into a buffer, whatever the call way
    have hmany : 1 < x.quantity := by
      by_contra hone
      have hle : x.bytes ≤ 1 * 16 :=
        Nat.mul_le_mul (by omega) x.dtype.ty.size_le
      omega
    have hbuffered : (declareArgument x).Buffered :=
      ⟨Nat.ne_of_gt hq, .inl hmany⟩
    have hbytes := hexact.received _ (.refl _) 0 0 0 0 0 0 _ (hbuffered.calloc 0 0 0 0 0)
    exact hlarge (hcount.mp hbytes)
  · intro hlt
    have hsize := hcount.mpr hlt
    refine ⟨fun hcop2 r h ↦ ?_, fun a hkept me sourcenode tag i m addr bytes hc ↦ ?_⟩
    · have hbytes : byteCount (declareArgument x).quantity
          (mpiTypeSize (declareArgument x).dtype) = x.bytes := hsize
      refine ⟨_, _, (r.store_eq hq h x.ptr).trans (storeArgument_cop2 hcop2), ?_,
        fun j hj ↦ ?_⟩
      · rw [ByteHeap.store_brk, ByteHeap.extend_brk, hbytes]
      · rw [hbytes]
        exact ByteHeap.store_mem_inside _ _ hj
    · rw [calloc_receiveArgument hc, hkept.quantity, hkept.btype]
      exact hsize

/-! ## Broadcasts -/

/-- The slots 1 to 3 of `localarg` in the descriptor of a broadcast. -/
structure BroadcastDesc where
  buffer : Int
  count : Int
  btype : BType

/-- What `torc_broadcast` sends to one node: the descriptor, and `MPI_Ssend` with its count. -/
structure BroadcastSend where
  node : Nat
  mydata : BroadcastDesc
  count : Int

/-- `torc_broadcast` on node `me` of `nodes`; `count` is a `long`, which `MPI_Ssend` takes as an
`int`. -/
def torcBroadcast (nodes me : Nat) (buffer count : Int) (datatype : MpiDatatype) :
    List BroadcastSend :=
  -- `localarg` keeps the count as it is
  let mydata : BroadcastDesc := ⟨buffer, count, torcMpi2bType datatype⟩
  (List.range nodes).filterMap fun node ↦
    if node ≠ me then some ⟨node, mydata, cInt count⟩ else none

/-- The count that the `TORC_BCAST` handler gives to `MPI_Irecv`. -/
def receiveBroadcast (desc : BroadcastDesc) : Int :=
  cInt desc.count

/-- Each other node is sent `count` elements and receives as many, or nothing is sent at all. -/
def BroadcastExact (nodes me : Nat) (buffer count : Int) (datatype : MpiDatatype) : Prop :=
  torcBroadcast nodes me buffer count datatype = [] ∨
    ∀ node < nodes, node ≠ me → ∃ call ∈ torcBroadcast nodes me buffer count datatype,
      call.node = node ∧ call.count = count ∧ receiveBroadcast call.mydata = count

theorem mem_torcBroadcast {nodes me : Nat} {buffer count : Int} {datatype : MpiDatatype}
    {call : BroadcastSend} :
    call ∈ torcBroadcast nodes me buffer count datatype ↔
      call.node < nodes ∧ call.node ≠ me ∧
        call = ⟨call.node, ⟨buffer, count, torcMpi2bType datatype⟩, cInt count⟩ := by
  simp only [torcBroadcast, List.mem_filterMap, List.mem_range, Option.ite_none_right_eq_some,
    Option.some.injEq]
  constructor
  · rintro ⟨node, hlt, hne, rfl⟩
    exact ⟨hlt, hne, rfl⟩
  · rintro ⟨hlt, hne, heq⟩
    exact ⟨call.node, hlt, hne, heq.symm⟩

/-- There is no check: the count is narrowed for every node. -/
theorem broadcastExact_iff {nodes me : Nat} {buffer count : Int} {datatype : MpiDatatype}
    (hcount : 0 < count) :
    BroadcastExact nodes me buffer count datatype ↔
      ((∃ node < nodes, node ≠ me) → count < 2 ^ 31) := by
  have hint : cInt count = count ↔ count < 2 ^ 31 := by
    rw [cInt_eq_self_iff]
    exact and_iff_right (by omega)
  constructor
  · rintro hexact ⟨node, hlt, hne⟩
    rcases hexact with hnil | hall
    · have hmem :
          (⟨node, ⟨buffer, count, torcMpi2bType datatype⟩, cInt count⟩ : BroadcastSend) ∈
          torcBroadcast nodes me buffer count datatype := mem_torcBroadcast.mpr ⟨hlt, hne, rfl⟩
      rw [hnil] at hmem
      cases hmem
    · obtain ⟨call, hmem, -, hsent, -⟩ := hall node hlt hne
      rw [(mem_torcBroadcast.mp hmem).2.2] at hsent
      exact hint.mp hsent
  · intro hlt
    refine .inr fun node hnode hne ↦ ?_
    have hnarrow := hint.mpr (hlt ⟨node, hnode, hne⟩)
    exact ⟨⟨node, ⟨buffer, count, torcMpi2bType datatype⟩, cInt count⟩,
      mem_torcBroadcast.mpr ⟨hnode, hne, rfl⟩, rfl, hnarrow, hnarrow⟩

/-- Sizes are exact as long as an `int` holds them. -/
theorem transfer_sizes_iff (x : CArg) (hq : 0 < x.quantity) (hint : x.quantity < 2 ^ 31)
    (nodes me : Nat) (buffer count : Int) (datatype : MpiDatatype) (hcount : 0 < count) :
    (ArgumentSizesExact x ↔ x.bytes < 2 ^ 31) ∧
      (BroadcastExact nodes me buffer count datatype ↔
        ((∃ node < nodes, node ≠ me) → count < 2 ^ 31)) :=
  ⟨argumentSizesExact_iff hq hint, broadcastExact_iff hcount⟩

theorem transfer_sizes_iff_sample :
    (ArgumentSizesExact ⟨3, ⟨0, .double⟩, .cop, 100⟩ ↔
        (⟨3, ⟨0, .double⟩, .cop, 100⟩ : CArg).bytes < 2 ^ 31) ∧
      (BroadcastExact 2 0 100 16 ⟨0, .int⟩ ↔
        ((∃ node < 2, node ≠ 0) → (16 : Int) < 2 ^ 31)) :=
  transfer_sizes_iff ⟨3, ⟨0, .double⟩, .cop, 100⟩ (by decide)
    (by decide) 2 0 100 16 ⟨0, .int⟩
    (by decide)

/-- For `2 ^ 29` doubles no byte is allocated, and of `2 ^ 32 + 5` elements five are broadcast. -/
theorem not_transfer_sizes :
    byteCount (2 ^ 29) (mpiTypeSize ⟨0, .double⟩) = 0 ∧
      ¬ ArgumentSizesExact ⟨2 ^ 29, ⟨0, .double⟩, .cop, 100⟩ ∧
      ((torcBroadcast 2 0 100 (2 ^ 32 + 5) ⟨0, .int⟩).map fun call ↦
        (call.node, call.count, receiveBroadcast call.mydata)) = [(1, 5, 5)] ∧
      ¬ BroadcastExact 2 0 100 (2 ^ 32 + 5) ⟨0, .int⟩ := by
  refine ⟨by decide, fun h ↦ ?_, by decide, fun h ↦ ?_⟩
  · exact absurd ((argumentSizesExact_iff (by decide) (by decide)).mp h) (by decide)
  · exact absurd ((broadcastExact_iff (by decide)).mp h ⟨1, by decide, by decide⟩) (by decide)

end Torc
