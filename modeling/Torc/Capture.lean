import Torc.Create
import Torc.Payload

/-!
# Capturing the arguments

What the two passes of a C routine leave in the descriptor and in the memory of the creating node.
-/

namespace Torc

open LittleEndian

/-- The bytes that the caller's pointer refers to. -/
def CArg.bytes (c : CArg) : Nat :=
  c.quantity * mpiTypeSize c.dtype

/-- An argument that the transfers can handle: not the undocumented `CALL_BY_VAD`, of a size that an
`int` holds, with a buffer that is allocated. -/
structure CArg.Valid (h : ByteHeap) (c : CArg) : Prop where
  notVad : c.callway ≠ .vad
  bytes_lt : c.bytes < 2 ^ 31
  allocated : c.ptr + c.bytes ≤ h.brk

theorem CArg.Valid.grow {h h' : ByteHeap} {c : CArg} (hc : c.Valid h) (hle : h.brk ≤ h'.brk) :
    c.Valid h' :=
  ⟨hc.notVad, hc.bytes_lt, hc.allocated.trans hle⟩

/-- Argument `a` of a descriptor was made from `c` when the memory was `h`, and its private copy is
in `h'`. -/
structure Captured (h h' : ByteHeap) (c : CArg) (a : Arg) : Prop where
  quantity : a.quantity = c.quantity
  dtype : a.dtype.ty = c.dtype.ty
  btype : a.btype = c.dtype.ty
  callway : a.callway = (declareArgument c).callway
  value : 0 < a.quantity → a.callway = .cop →
    a.bytes ≤ 8 ∧ ∀ j < a.bytes, byteOfInt a.localarg j = h.mem (c.ptr + j)
  copy : 0 < a.quantity → a.callway = .cop2 →
    h.brk ≤ a.localarg.toNat ∧ a.localarg.toNat + a.bytes ≤ h'.brk ∧
      ∀ j < a.bytes, h'.mem (a.localarg.toNat + j) = h.mem (c.ptr + j)
  address : 0 < a.quantity → a.callway ≠ .cop → a.callway ≠ .cop2 → a.localarg = c.ptr

theorem Captured.bytes {h h' : ByteHeap} {c : CArg} {a : Arg} (hc : Captured h h' c a) :
    a.bytes = c.bytes := by
  unfold Arg.bytes CArg.bytes mpiTypeSize
  rw [hc.quantity, hc.btype]

/-- A `CALL_BY_COP` of several elements has become a `CALL_BY_COP2`. -/
theorem declareArgument_scalar (c : CArg) (hcop : (declareArgument c).callway = .cop) :
    c.quantity ≤ 1 := by
  simp only [declareArgument] at hcop
  split at hcop
  · cases hcop
  · rename_i hnot
    exact Nat.le_of_not_lt fun hq ↦ hnot ⟨hcop, hq⟩

theorem declareArgument_callway {c : CArg} {w : CallWay} (hcop : w ≠ .cop) (hcop2 : w ≠ .cop2) :
    (declareArgument c).callway = w ↔ c.callway = w := by
  simp only [declareArgument]
  split
  · rename_i hc
    rw [hc.1]
    exact ⟨fun h ↦ absurd h.symm hcop2, fun h ↦ absurd h.symm hcop⟩
  · rfl

theorem declareArgument_callway_of_le {c : CArg} (hq : c.quantity ≤ 1) :
    (declareArgument c).callway = c.callway :=
  if_neg fun h ↦ absurd h.2 (Nat.not_lt_of_le hq)

theorem Captured.plain {h h' h₀ : ByteHeap} {c : CArg} {a : Arg} (hc : Captured h h' c a)
    (hv : c.Valid h₀) : a.Plain where
  notVad hvad := hv.notVad
    ((declareArgument_callway (by decide) (by decide)).mp (hc.callway.symm.trans hvad))
  scalar hcop := by
    rw [hc.quantity]
    exact declareArgument_scalar c (hc.callway.symm.trans hcop)
  dtype := hc.dtype.trans hc.btype.symm
  bytes_lt := hc.bytes ▸ hv.bytes_lt

theorem storeArgumentC_captured {h h' : ByteHeap} {c : CArg} {a : Arg} (hv : c.Valid h)
    (hs : storeArgumentC h c.ptr (declareArgument c) = some (a, h')) :
    h.Extends h' ∧ Captured h h' c a := by
  unfold storeArgumentC at hs
  split at hs
  · -- an empty argument: its address is skipped
    rename_i hq
    cases hs
    exact ⟨.refl h,
      { quantity := rfl
        dtype := rfl
        btype := rfl
        callway := rfl
        value := fun h ↦ by omega
        copy := fun h ↦ by omega
        address := fun h ↦ by omega }⟩
  · unfold storeArgument at hs
    split at hs
    -- CALL_BY_COP: the bytes of the value itself
    · rename_i hq _ hcop
      have hone : c.quantity = 1 := by
        have hle := declareArgument_scalar c hcop
        have hpos : c.quantity ≠ 0 := hq
        omega
      dsimp only at hs
      split at hs
      · rename_i hsize
        cases hs
        have hbytes : c.quantity * c.dtype.ty.size = mpiTypeSize c.dtype := by
          rw [hone, Nat.one_mul]
          rfl
        refine ⟨.refl h,
          { quantity := rfl
            dtype := rfl
            btype := rfl
            callway := rfl
            value := fun _ _ ↦ ⟨?size, fun j hj ↦ ?value⟩
            copy := fun _ hc2 ↦ nomatch hcop.symm.trans hc2
            address := fun _ hnot ↦ absurd hcop hnot }⟩
        case size =>
          change c.quantity * c.dtype.ty.size ≤ 8
          rw [hbytes]
          exact hsize.elim (fun h ↦ by rw [show mpiTypeSize c.dtype = 4 from h]; decide)
            fun h ↦ le_of_eq h
        case value =>
          change j < c.quantity * c.dtype.ty.size at hj
          rw [hbytes] at hj
          exact byteOfInt_intOfBytes _ hj
      · cases hs
    -- CALL_BY_COP2: a private copy in new memory
    · rename_i hq _ hcop2
      have hcount : byteCount (declareArgument c).quantity (mpiTypeSize (declareArgument c).dtype) =
          c.bytes := byteCount_of_lt hv.bytes_lt
      dsimp only at hs
      rw [hcount] at hs
      cases hs
      exact ⟨⟨Nat.le_add_right _ _, fun x hx ↦ ByteHeap.store_mem_outside _ _ (.inl hx)⟩,
        { quantity := rfl
          dtype := rfl
          btype := rfl
          callway := rfl
          value := fun _ hc ↦ nomatch hcop2.symm.trans hc
          copy := fun _ _ ↦
            ⟨le_refl _, le_refl _, fun j hj ↦ ByteHeap.store_mem_inside _ _ hj⟩
          address := fun _ _ hnot ↦ absurd hcop2 hnot }⟩
    -- the others: the address alone
    · rename_i hq _ hcop hcop2
      cases hs
      exact ⟨.refl h,
        { quantity := rfl
          dtype := rfl
          btype := rfl
          callway := rfl
          value := fun _ hc ↦ absurd hc hcop
          copy := fun _ hc ↦ absurd hc hcop2
          address := fun _ _ _ ↦ rfl }⟩

/-- What was captured stays so when memory was allocated before and after. -/
theorem Captured.widen {h₀ h h' h₁ : ByteHeap} {c : CArg} {a : Arg} (hc : Captured h h' c a)
    (hv : c.Valid h₀) (hbefore : h₀.Extends h) (hafter : h'.Extends h₁) :
    Captured h₀ h₁ c a where
  quantity := hc.quantity
  dtype := hc.dtype
  btype := hc.btype
  callway := hc.callway
  value hq hcop := by
    obtain ⟨hle, hval⟩ := hc.value hq hcop
    refine ⟨hle, fun j hj ↦ ?_⟩
    have hin : c.ptr + j < h₀.brk := by
      have halloc := hv.allocated
      rw [hc.bytes] at hj
      omega
    rw [hval j hj, hbefore.below _ hin]
  copy hq hcop2 := by
    obtain ⟨hlo, hhi, hval⟩ := hc.copy hq hcop2
    have hle := hbefore.brk_le
    have hle' := hafter.brk_le
    refine ⟨by omega, by omega, fun j hj ↦ ?_⟩
    have hin : c.ptr + j < h₀.brk := by
      have halloc := hv.allocated
      rw [hc.bytes] at hj
      omega
    rw [hafter.below _ (by omega), hval j hj, hbefore.below _ hin]
  address := hc.address

/-- All arguments of a task were captured, its private copies one after the other. -/
structure CapturedAll (h h' : ByteHeap) (cs : List CArg) (as : List Arg) : Prop
    extends h.Extends h' where
  each : ∀ (i : Nat) (c : CArg) (a : Arg), cs[i]? = some c → as[i]? = some a →
    Captured h h' c a
  ordered : ∀ (i i' : Nat) (a a' : Arg), i < i' → as[i]? = some a → as[i']? = some a' →
    0 < a.quantity → a.callway = .cop2 → 0 < a'.quantity → a'.callway = .cop2 →
      a.localarg.toNat + a.bytes ≤ a'.localarg.toNat

theorem decodeArguments_captured {h h' : ByteHeap} {cs : List CArg} {as : List Arg}
    (hv : ∀ c ∈ cs, c.Valid h) (hd : decodeArguments storeArgumentC h cs = some (as, h')) :
    CapturedAll h h' cs as := by
  induction cs generalizing h as with
  | nil =>
      cases hd
      exact ⟨.refl _, fun i c a hc ↦ by simp at hc, fun i i' a a' _ ha ↦ by simp at ha⟩
  | cons c cs ih =>
      simp only [decodeArguments, Option.bind_eq_bind, Option.bind_eq_some_iff] at hd
      obtain ⟨⟨a, h₁⟩, hone, ⟨as', h₂⟩, hrest, heq⟩ := hd
      cases heq
      have hvc := hv c List.mem_cons_self
      have hvs : ∀ c' ∈ cs, c'.Valid h := fun c' hc' ↦ hv c' (List.mem_cons_of_mem _ hc')
      obtain ⟨hext, hcap⟩ := storeArgumentC_captured hvc hone
      have hall := ih (fun c' hc' ↦ (hvs c' hc').grow hext.brk_le) hrest
      refine ⟨hext.trans hall.toExtends, ?_, ?_⟩
      · intro i c' b hc' hb
        cases i with
        | zero =>
            obtain rfl : c = c' := by simpa using hc'
            obtain rfl : a = b := by simpa using hb
            exact hcap.widen hvc (.refl h) hall.toExtends
        | succ i =>
            have hmem : c' ∈ cs := List.mem_of_getElem? (by simpa using hc')
            exact (hall.each i c' b (by simpa using hc') (by simpa using hb)).widen
              (hvs c' hmem) hext (.refl _)
      · intro i i' b b' hlt hb hb' hq hcop2 hq' hcop2'
        cases i' with
        | zero => omega
        | succ i' =>
            have hb'' : as'[i']? = some b' := by simpa using hb'
            cases i with
            | zero =>
                obtain rfl : a = b := by simpa using hb
                -- the later copies lie above the break that the first one left
                have hlen := decodeArguments_length hrest
                have hi : i' < cs.length := by
                  rw [← hlen]
                  exact (List.getElem?_eq_some_iff.mp hb'').1
                obtain ⟨hlo, -⟩ :=
                  (hall.each i' cs[i'] b' (List.getElem?_eq_getElem hi) hb'').copy
                  hq' hcop2'
                obtain ⟨-, hhi, -⟩ := hcap.copy hq hcop2
                omega
            | succ i =>
                exact hall.ordered i i' b b' (by omega) (by simpa using hb) hb'' hq hcop2 hq' hcop2'

end Torc
