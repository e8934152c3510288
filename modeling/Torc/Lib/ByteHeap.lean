import Mathlib.Data.Nat.Basic
import Mathlib.Algebra.Order.Group.Nat
import Mathlib.Tactic.Ring

/-!
# Byte-addressed memory

The memory of a process as bytes at natural addresses, with allocation at the break, and
little-endian two's-complement integers of a given number of bytes.
-/

/-- The memory of one process; no address from `brk` on is allocated. -/
structure ByteHeap where
  mem : Nat → UInt8
  brk : Nat

namespace ByteHeap

/-- Write the `n` bytes `f 0, …, f (n - 1)` from address `a` on. -/
def store (h : ByteHeap) (a n : Nat) (f : Nat → UInt8) : ByteHeap :=
  { h with mem := fun x ↦ if a ≤ x ∧ x < a + n then f (x - a) else h.mem x }

/-- Move the break: the new block starts at the old one. -/
def extend (h : ByteHeap) (n : Nat) : ByteHeap :=
  { h with brk := h.brk + n }

/-- A zeroed block of `n` bytes at an address from the break on. -/
def calloc (h : ByteHeap) (a n : Nat) : ByteHeap :=
  { h with brk := a + n }.store a n fun _ ↦ 0

@[simp] theorem calloc_brk (h : ByteHeap) (a n : Nat) : (h.calloc a n).brk = a + n := rfl

@[simp] theorem store_brk (h : ByteHeap) (a n : Nat) (f : Nat → UInt8) :
    (h.store a n f).brk = h.brk := rfl

@[simp] theorem extend_brk (h : ByteHeap) (n : Nat) : (h.extend n).brk = h.brk + n := rfl

@[simp] theorem extend_mem (h : ByteHeap) (n : Nat) : (h.extend n).mem = h.mem := rfl

theorem store_mem_inside (h : ByteHeap) {a n j : Nat} (f : Nat → UInt8) (hj : j < n) :
    (h.store a n f).mem (a + j) = f j := by
  change (if a ≤ a + j ∧ a + j < a + n then f (a + j - a) else h.mem (a + j)) = f j
  rw [if_pos ⟨by omega, by omega⟩, Nat.add_sub_cancel_left]

theorem store_mem_outside (h : ByteHeap) {a n x : Nat} (f : Nat → UInt8)
    (hx : x < a ∨ a + n ≤ x) : (h.store a n f).mem x = h.mem x := by
  change (if a ≤ x ∧ x < a + n then f (x - a) else h.mem x) = h.mem x
  exact if_neg fun hc ↦ by omega

theorem extend_store_zero (h : ByteHeap) (a : Nat) (f : Nat → UInt8) :
    (h.extend 0).store a 0 f = h := by
  have hmem : ((h.extend 0).store a 0 f).mem = h.mem := by
    funext x
    exact store_mem_outside _ _ (by omega)
  cases h
  simpa [store, extend] using hmem

theorem calloc_mem_below (h : ByteHeap) {a n x : Nat} (hx : x < a) :
    (h.calloc a n).mem x = h.mem x :=
  store_mem_outside _ _ (.inl hx)

/-- What was allocated is still there, with the same contents. -/
structure Extends (h h' : ByteHeap) : Prop where
  brk_le : h.brk ≤ h'.brk
  below : ∀ x < h.brk, h'.mem x = h.mem x

theorem Extends.refl (h : ByteHeap) : h.Extends h :=
  ⟨le_refl _, fun _ _ ↦ rfl⟩

theorem Extends.trans {h h' h'' : ByteHeap} (h₁ : h.Extends h') (h₂ : h'.Extends h'') :
    h.Extends h'' where
  brk_le := h₁.brk_le.trans h₂.brk_le
  below x hx := by rw [h₂.below x (Nat.lt_of_lt_of_le hx h₁.brk_le), h₁.below x hx]

end ByteHeap

/-! ## Little-endian integers -/

namespace LittleEndian

/-- The unsigned value of the first `n` bytes. -/
def natOfBytes (f : Nat → UInt8) : Nat → Nat
  | 0 => 0
  | n + 1 => natOfBytes f n + (f n).toNat * 256 ^ n

/-- The two's-complement value of the first `n` bytes. -/
def intOfBytes (f : Nat → UInt8) (n : Nat) : Int :=
  if natOfBytes f n < 256 ^ n / 2 then natOfBytes f n else (natOfBytes f n : Int) - (256 ^ n : Nat)

/-- Byte `j` of the two's-complement representation of `v`. -/
def byteOfInt (v : Int) (j : Nat) : UInt8 :=
  UInt8.ofNat (v / (256 ^ j : Nat) % 256).toNat

theorem natOfBytes_lt (f : Nat → UInt8) (n : Nat) : natOfBytes f n < 256 ^ n := by
  induction n with
  | zero => exact Nat.one_pos
  | succ n ih =>
      have hb : (f n).toNat < 256 := UInt8.toNat_lt (f n)
      have hle : (f n).toNat * 256 ^ n ≤ 255 * 256 ^ n :=
        Nat.mul_le_mul_right _ (by omega)
      rw [natOfBytes, pow_succ]
      omega

theorem natOfBytes_digit (f : Nat → UInt8) {n j : Nat} (hj : j < n) :
    natOfBytes f n / 256 ^ j % 256 = (f j).toNat := by
  induction n with
  | zero => omega
  | succ n ih =>
      have hpos : 0 < 256 ^ j := Nat.pow_pos (by decide)
      rw [natOfBytes]
      by_cases hjn : j = n
      · subst hjn
        have hb : (f j).toNat < 256 := UInt8.toNat_lt (f j)
        rw [Nat.add_mul_div_right _ _ hpos, Nat.div_eq_of_lt (natOfBytes_lt f j), Nat.zero_add,
          Nat.mod_eq_of_lt hb]
      · -- the byte added on top is a multiple of the next power
        have hlt : j < n := by omega
        have hsplit :
            (f n).toNat * 256 ^ n = ((f n).toNat * 256 ^ (n - j - 1) * 256) * 256 ^ j := by
          have hpow : 256 ^ n = 256 ^ (n - j - 1) * 256 * 256 ^ j := by
            rw [← pow_succ, ← pow_add]
            congr 1
            omega
          rw [hpow]
          ring
        rw [hsplit, Nat.add_mul_div_right _ _ hpos, Nat.add_mul_mod_self_right, ih hlt]

theorem byteOfInt_natCast (m j : Nat) :
    byteOfInt (m : Int) j = UInt8.ofNat (m / 256 ^ j % 256) := by
  unfold byteOfInt
  congr 1

theorem byteOfInt_sub_pow (m : Nat) {n j : Nat} (hj : j < n) :
    byteOfInt ((m : Int) - (256 ^ n : Nat)) j = byteOfInt (m : Int) j := by
  have hpos : (0 : Int) < (256 ^ j : Nat) := by exact_mod_cast Nat.pow_pos (by decide)
  have hsplit : ((256 ^ n : Nat) : Int) = (256 * 256 ^ (n - j - 1) : Int) * (256 ^ j : Nat) := by
    have hn : n = 1 + (n - j - 1) + j := by omega
    conv_lhs => rw [hn]
    push_cast
    ring
  unfold byteOfInt
  rw [hsplit, Int.sub_mul_ediv_right _ _ (by omega), Int.sub_mul_emod_self_left]

/-- The bytes of an integer loaded from `n` bytes are those bytes, also when it is stored in a wider
slot. -/
theorem byteOfInt_intOfBytes (f : Nat → UInt8) {n j : Nat} (hj : j < n) :
    byteOfInt (intOfBytes f n) j = f j := by
  have hnat : byteOfInt (natOfBytes f n : Int) j = f j := by
    rw [byteOfInt_natCast, natOfBytes_digit f hj]
    exact UInt8.ofNat_toNat
  unfold intOfBytes
  split
  · exact hnat
  · rw [byteOfInt_sub_pow _ hj]
    exact hnat

end LittleEndian
