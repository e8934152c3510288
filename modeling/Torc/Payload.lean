import Torc.Execute
import Torc.PayloadSchedule
import Torc.Lib.ByteHeap
import Torc.Lib.Mailbox

/-!
# Payloads

The bytes that the messages carry: what a sender's calls read from its memory and what a receiver's
calls do to its own, given the payloads in the order they were sent.
-/

namespace Torc

open LittleEndian

structure Payload where
  bytes : Nat
  byte : Nat → UInt8

/-- The bytes from slot `i` of an array of `INT64` on. -/
def slotBytes (slots : Nat → Int) (i j : Nat) : UInt8 :=
  byteOfInt (slots (i + j / 8)) (j % 8)

def payloadOf (h : ByteHeap) (desc : TorcT) (t : Transfer) : Payload :=
  { bytes := t.count * mpiTypeSize t.dtype
    byte := match t.buf with
      | .localSlot i => slotBytes (fun k ↦ (desc.args[k]?.map Arg.localarg).getD 0) i
      | .tempSlot i => slotBytes (fun k ↦ (desc.args[k]?.map Arg.temparg).getD 0) i
      | .addr a => fun j ↦ h.mem (a.toNat + j) }

/-- The payloads that the calls of a sender of `desc` with memory `h` emit. -/
def payloads (h : ByteHeap) (desc : TorcT) (calls : List Effect) : List Payload :=
  (calls.filterMap Effect.isend?).map (payloadOf h desc)

/-- What the calls of a receiver do to its memory, and the payloads they leave.  `calloc` returns
memory that was not in use; a receive without a payload waits for ever and one that is too short
for its payload is an error. -/
def perform : List Effect → ByteHeap → List Payload → Option (ByteHeap × List Payload)
  | [], h, ps => some (h, ps)
  | .calloc a n :: calls, h, ps =>
      if (h.brk : Int) ≤ a then perform calls (h.calloc a.toNat n) ps else none
  | .irecv _ _ t :: calls, h, ps =>
      match t.buf, ps with
      | .addr a, p :: ps =>
          if p.bytes ≤ t.count * mpiTypeSize t.dtype then
            perform calls (h.store a.toNat p.bytes p.byte) ps
          else none
      | _, _ => none
  | .free _ :: calls, h, ps => perform calls h ps
  | .isend _ _ _ :: calls, h, ps => perform calls h ps

theorem perform_append (xs ys : List Effect) (h : ByteHeap) (ps : List Payload) :
    perform (xs ++ ys) h ps = (perform xs h ps).bind fun r ↦ perform ys r.1 r.2 := by
  induction xs generalizing h ps with
  | nil => rfl
  | cons c xs ih =>
      cases c with
      | calloc a n =>
          simp only [List.cons_append, perform]
          split
          · exact ih _ _
          · rfl
      | irecv src tag t =>
          simp only [List.cons_append, perform]
          split
          · split
            · exact ih _ _
            · rfl
          · rfl
      | free a => exact ih h ps
      | isend dst tag t => exact ih h ps

theorem payloads_append (h : ByteHeap) (desc : TorcT) (xs ys : List Effect) :
    payloads h desc (xs ++ ys) = payloads h desc xs ++ payloads h desc ys := by
  simp only [payloads, List.filterMap_append, List.map_append]

/-! ## Messages -/

/-- A message with its source node and its tag. -/
abbrev PayloadMessage := Mailbox.Letter (Nat × Nat) Payload

/-- The messages that the calls of a sender on node `me` emit. -/
def packets (me : Nat) (h : ByteHeap) (desc : TorcT) (calls : List Effect) : List PayloadMessage :=
  calls.filterMap fun
    | .isend _ tag t => some ⟨(me, tag), payloadOf h desc t⟩
    | _ => none

/-- What the receives of a list of calls get: each takes the oldest of the messages that arrive from
its source with its tag, whatever that is. -/
def matched : List Effect → List PayloadMessage → Option (List Payload)
  | [], _ => some []
  | .irecv src tag _ :: calls, arriving =>
      (Mailbox.take (src, tag) arriving).bind fun (p, rest) ↦ (matched calls rest).map (p :: ·)
  | _ :: calls, arriving => matched calls arriving

/-- Receives with one source and tag get the oldest messages of that channel. -/
theorem matched_of_queue {calls : List Effect} {c : Nat × Nat} {arriving : List PayloadMessage}
    {ps l : List Payload} (hchan : ∀ src tag t, .irecv src tag t ∈ calls → (src, tag) = c)
    (hqueue : Mailbox.queue c arriving = ps ++ l)
    (hlen : ps.length = (calls.filterMap Effect.irecv?).length) :
    matched calls arriving = some ps := by
  induction calls generalizing arriving ps with
  | nil =>
      obtain rfl := List.length_eq_zero_iff.mp hlen
      rfl
  | cons e calls ih =>
      have htail : ∀ src tag t, .irecv src tag t ∈ calls → (src, tag) = c :=
        fun src tag t ht ↦ hchan src tag t (List.mem_cons_of_mem e ht)
      cases e with
      | irecv src tag t =>
          have hc := hchan src tag t List.mem_cons_self
          cases ps with
          | nil => cases hlen
          | cons p ps =>
              obtain ⟨rest, htake⟩ := Mailbox.exists_take hqueue
              have hrest := Mailbox.queue_eq_cons_of_take htake
              rw [hqueue] at hrest
              have hps := ih htail (List.cons.inj hrest).2.symm (Nat.succ.inj hlen)
              simp only [matched, hc, htake, Option.bind_some, hps, Option.map_some]
      | calloc | free | isend => exact ih htail hqueue hlen

/-! ## One argument -/

/-- The bytes of an argument. -/
def Arg.bytes (a : Arg) : Nat :=
  a.quantity * a.btype.size

/-- An argument of the C interface that travels: not `CALL_BY_VAD`, a `CALL_BY_COP` only as a
scalar, of a size that an `int` holds. -/
structure Arg.Plain (a : Arg) : Prop where
  notVad : a.callway ≠ .vad
  scalar : a.callway = .cop → a.quantity ≤ 1
  dtype : a.dtype.ty = a.btype
  bytes_lt : a.bytes < 2 ^ 31

/-- The argument needs memory of its own on a node other than its home. -/
def Arg.Boxed (a : Arg) : Prop :=
  0 < a.quantity ∧ a.callway ≠ .cop

/-- The argument has contents that go to the node of the body. -/
def Arg.Moved (a : Arg) : Prop :=
  a.Boxed ∧ a.callway ≠ .res

instance (a : Arg) : Decidable a.Boxed :=
  inferInstanceAs (Decidable (_ ∧ _))

instance (a : Arg) : Decidable a.Moved :=
  inferInstanceAs (Decidable (_ ∧ _))

theorem Arg.Plain.byteCount {a : Arg} (ha : a.Plain) :
    Torc.byteCount a.quantity a.btype.size = a.bytes :=
  byteCount_of_lt ha.bytes_lt

/-- The length of a message with the argument. -/
theorem Arg.Plain.bytes_eq {a : Arg} (ha : a.Plain) :
    a.quantity * mpiTypeSize a.dtype = a.bytes := by
  rw [mpiTypeSize, ha.dtype]
  rfl

theorem Arg.Plain.byAddress {a : Arg} (ha : a.Plain) (hcop : a.callway ≠ .cop)
    (hres : a.callway ≠ .res) :
    a.callway = .ref ∨ a.callway = .ptr ∨ a.callway = .cop2 := by
  have hvad := ha.notVad
  revert hcop hres hvad
  cases a.callway <;> decide

/-- The fields that no transfer touches. -/
structure Arg.Same (a b : Arg) : Prop where
  quantity : b.quantity = a.quantity
  dtype : b.dtype.ty = a.dtype.ty
  btype : b.btype = a.btype
  callway : b.callway = a.callway
  localarg : b.localarg = a.localarg

theorem Arg.Same.refl (a : Arg) : a.Same a :=
  ⟨rfl, rfl, rfl, rfl, rfl⟩

theorem Arg.Same.trans {a b c : Arg} (h : a.Same b) (h' : b.Same c) : a.Same c where
  quantity := h'.quantity.trans h.quantity
  dtype := h'.dtype.trans h.dtype
  btype := h'.btype.trans h.btype
  callway := h'.callway.trans h.callway
  localarg := h'.localarg.trans h.localarg

theorem Arg.Same.bytes {a b : Arg} (h : a.Same b) : b.bytes = a.bytes := by
  rw [Arg.bytes, Arg.bytes, h.quantity, h.btype]

theorem Arg.Same.boxed {a b : Arg} (h : a.Same b) : b.Boxed ↔ a.Boxed := by
  rw [Arg.Boxed, Arg.Boxed, h.quantity, h.callway]

theorem Arg.Same.moved {a b : Arg} (h : a.Same b) : b.Moved ↔ a.Moved := by
  rw [Arg.Moved, Arg.Moved, h.boxed, h.callway]

theorem Arg.Same.plain {a b : Arg} (h : a.Same b) (ha : a.Plain) : b.Plain where
  notVad := h.callway ▸ ha.notVad
  scalar := h.callway ▸ h.quantity ▸ ha.scalar
  dtype := (h.dtype.trans ha.dtype).trans h.btype.symm
  bytes_lt := h.bytes ▸ ha.bytes_lt

theorem payloads_sendArgument {a : Arg} (ha : a.Plain) (h : ByteHeap) (desc : TorcT)
    (node tag homenode sourcenode i : Nat) :
    payloads h desc (sendArgument node tag homenode sourcenode i a) =
      if a.Moved then [⟨a.bytes, fun j ↦ h.mem ((a.slot (homenode = sourcenode)).toNat + j)⟩]
      else [] := by
  by_cases hm : a.Moved
  · obtain ⟨⟨hq, hcop⟩, hres⟩ := hm
    rw [sendArgument_address (by omega) (ha.byAddress hcop hres), if_pos ⟨⟨hq, hcop⟩, hres⟩,
      ← ha.bytes_eq]
    rfl
  · rw [if_neg hm, sendArgument]
    by_cases hq : a.quantity = 0
    · rw [if_pos hq]
      rfl
    · rw [if_neg hq]
      by_cases hcop : a.callway = .cop
      · have hone : a.quantity = 1 := by
          have hle := ha.scalar hcop
          omega
        rw [if_pos (.inl hcop), if_pos hone]
        rfl
      · -- what is left is a result
        have hres : a.callway = .res := by
          by_contra hne
          exact hm ⟨⟨by omega, hcop⟩, hne⟩
        rw [if_neg fun h ↦ h.elim hcop ha.notVad, if_neg (by simp [hres])]
        rfl

theorem receiveArgument_arg {a : Arg} (ha : a.Plain) (me sourcenode tag i : Nat) (m : Int) :
    a.Same (receiveArgument me sourcenode tag m i a).1 ∧
      (a.Boxed → (receiveArgument me sourcenode tag m i a).1.temparg = m) ∧
      (¬ a.Boxed → 0 < a.quantity →
        (receiveArgument me sourcenode tag m i a).1.temparg = a.localarg) := by
  unfold receiveArgument
  by_cases hq : a.quantity = 0
  · rw [if_pos hq]
    exact ⟨.refl a, fun hb ↦ absurd hb.1 (by omega), fun _ hpos ↦ absurd hq (by omega)⟩
  · rw [if_neg hq]
    split
    · rename_i hc
      refine ⟨⟨rfl, ha.dtype.symm, rfl, rfl, rfl⟩, fun _ ↦ rfl, fun hnot ↦ ?_⟩
      have hcop : a.callway ≠ .cop := fun h ↦ by
        have hle := ha.scalar h
        exact hc.elim (fun hlt ↦ by omega) fun hne ↦ hne.1 h
      exact absurd ⟨by omega, hcop⟩ hnot
    · rename_i hc
      refine ⟨⟨rfl, rfl, rfl, rfl, rfl⟩, fun hb ↦ ?_, fun _ _ ↦ rfl⟩
      exact absurd (.inr ⟨hb.2, ha.notVad⟩) hc

/-- What receiving one argument does: nothing, or a new block with the payload in it. -/
theorem perform_receiveArgument {a : Arg} (ha : a.Plain) (me sourcenode tag i : Nat) (m : Int)
    {h h' : ByteHeap} {p : Payload} (hbytes : p.bytes = a.bytes) {rest ps : List Payload}
    (hp : perform (receiveArgument me sourcenode tag m i a).2 h
      ((if a.Moved then [p] else []) ++ rest) = some (h', ps)) :
    ps = rest ∧ (¬ a.Boxed → h' = h) ∧
      (a.Boxed → (h.brk : Int) ≤ m ∧ h'.brk = m.toNat + a.bytes ∧
        (∀ x < m.toNat, h'.mem x = h.mem x) ∧
        (a.Moved → ∀ j < a.bytes, h'.mem (m.toNat + j) = p.byte j)) := by
  unfold receiveArgument at hp
  by_cases hq : a.quantity = 0
  · have hbox : ¬ a.Boxed := fun hb ↦ absurd hb.1 (by omega)
    rw [if_pos hq, if_neg fun hm : a.Moved ↦ hbox hm.1] at hp
    cases hp
    exact ⟨rfl, fun _ ↦ rfl, fun hb ↦ absurd hb hbox⟩
  · rw [if_neg hq] at hp
    by_cases hc : a.callway = .cop
    · -- a scalar: its value came in the descriptor
      have hbox : ¬ a.Boxed := fun hb ↦ hb.2 hc
      have hone : a.quantity = 1 := by
        have := ha.scalar hc
        omega
      rw [if_neg fun hm : a.Moved ↦ hbox hm.1, if_neg (by simp [hone, hc])] at hp
      cases hp
      exact ⟨rfl, fun _ ↦ rfl, fun hb ↦ absurd hb hbox⟩
    · have hbox : a.Boxed := ⟨by omega, hc⟩
      rw [if_pos (.inr ⟨hc, ha.notVad⟩)] at hp
      have hsize : Torc.byteCount a.quantity (mpiTypeSize (torcB2mpiType me a.btype)) = a.bytes :=
        ha.byteCount
      simp only [perform, hsize] at hp
      split at hp
      · rename_i hbrk
        by_cases hres : a.callway = .res
        · have hm : ¬ a.Moved := fun hm ↦ hm.2 hres
          rw [if_neg hm, if_neg fun h ↦ h hres] at hp
          cases hp
          refine ⟨rfl, fun hb ↦ absurd hbox hb,
            fun _ ↦ ⟨hbrk, rfl, fun x hx ↦ ?_, ?_⟩⟩
          · exact h.calloc_mem_below hx
          · exact fun hm ↦ absurd hres hm.2
        · have hm : a.Moved := ⟨hbox, hres⟩
          have hfits : a.bytes ≤ a.quantity * mpiTypeSize (torcB2mpiType me a.btype) := le_rfl
          rw [if_pos hm, if_pos hres] at hp
          simp only [List.singleton_append, perform, hbytes, if_pos hfits] at hp
          cases hp
          refine ⟨rfl, fun hb ↦ absurd hbox hb,
            fun _ ↦ ⟨hbrk, rfl, fun x hx ↦ ?_, ?_⟩⟩
          · rw [ByteHeap.store_mem_outside _ _ (.inl hx), h.calloc_mem_below hx]
          · exact fun _ j hj ↦ ByteHeap.store_mem_inside _ _ hj
      · cases hp

/-! ## All arguments -/

theorem payloads_zipIdx (h : ByteHeap) (desc : TorcT) (f : Arg → Nat → List Effect)
    (g : Arg → List Payload) (as : List Arg) (n : Nat)
    (hfg : ∀ a ∈ as, ∀ i, payloads h desc (f a i) = g a) :
    payloads h desc ((as.zipIdx n).flatMap fun (a, i) ↦ f a i) = as.flatMap g := by
  induction as generalizing n with
  | nil => rfl
  | cons a as ih =>
      simp only [List.zipIdx_cons, List.flatMap_cons, payloads_append]
      rw [hfg a List.mem_cons_self n, ih (n + 1) fun b hb ↦ hfg b (List.mem_cons_of_mem _ hb)]

/-- `send_arguments` sends the contents of the arguments that have contents. -/
theorem payloads_sendArguments {desc : TorcT} (hplain : ∀ a ∈ desc.liveArgs, a.Plain)
    (h : ByteHeap) (node tag : Nat) :
    payloads h desc (sendArguments node tag desc) = desc.liveArgs.flatMap fun a ↦
      if a.Moved then
        [⟨a.bytes, fun j ↦ h.mem ((a.slot (desc.homenode = desc.sourcenode)).toNat + j)⟩]
      else [] := by
  apply payloads_zipIdx h desc
    (fun a i ↦ sendArgument node tag desc.homenode desc.sourcenode i a)
  intro a ha i
  exact payloads_sendArgument (hplain a ha) h desc node tag desc.homenode desc.sourcenode i

/-- The memory after `receive_arguments` of the arguments `as`, the first of which has index `n`:
the blocks lie one after the other above the old break, and nothing below it changed. -/
structure Received (as : List Arg) (n : Nat) (mem : Nat → Int) (p : Arg → Payload)
    (h h' : ByteHeap) : Prop extends h.Extends h' where
  block : ∀ k a, as[k]? = some a → a.Boxed →
    h.brk ≤ (mem (n + k)).toNat ∧ (mem (n + k)).toNat + a.bytes ≤ h'.brk ∧
      (a.Moved → ∀ j < a.bytes, h'.mem ((mem (n + k)).toNat + j) = (p a).byte j)
  ordered : ∀ k k' a a', k < k' → as[k]? = some a → as[k']? = some a' →
    a.Boxed → a'.Boxed →
    (mem (n + k)).toNat + a.bytes ≤ (mem (n + k')).toNat

theorem perform_receiveArguments (me sourcenode tag : Nat) (mem : Nat → Int) (p : Arg → Payload)
    (hbytes : ∀ a, (p a).bytes = a.bytes) {as : List Arg}
    (hplain : ∀ a ∈ as, a.Plain) (n : Nat)
    {h h' : ByteHeap} {ps : List Payload}
    (hp : perform ((as.zipIdx n).flatMap fun (a, i) ↦
        (receiveArgument me sourcenode tag (mem i) i a).2) h
      (as.flatMap fun a ↦ if a.Moved then [p a] else []) = some (h', ps)) :
    ps = [] ∧ Received as n mem p h h' := by
  induction as generalizing n h with
  | nil =>
      cases hp
      exact ⟨rfl, .refl _, fun k a ha ↦ by simp at ha, fun k k' a a' _ ha ↦ by simp at ha⟩
  | cons a as ih =>
      simp only [List.zipIdx_cons, List.flatMap_cons, perform_append] at hp
      obtain ⟨⟨h₁, ps₁⟩, hone, hrest⟩ := Option.bind_eq_some_iff.mp hp
      obtain ⟨rfl, hkeep, hbox⟩ := perform_receiveArgument (hplain a List.mem_cons_self) me
        sourcenode tag n (mem n) (hbytes a) hone
      obtain ⟨hnil, hr⟩ : ps = [] ∧ Received as (n + 1) mem p h₁ h' :=
        ih (fun b hb ↦ hplain b (List.mem_cons_of_mem _ hb)) (n + 1) hrest
      have hext : h.Extends h₁ := by
        by_cases hb : a.Boxed
        · obtain ⟨hm, hend, hold, -⟩ := hbox hb
          exact ⟨by omega, fun x hx ↦ hold x (by omega)⟩
        · rw [hkeep hb]
          exact .refl h
      have hhead : ∀ a', (a :: as)[0]? = some a' → a' = a := by
        intro a' ha'
        simpa using ha'.symm
      have hbrk := hext.brk_le
      -- the later arguments get their blocks above that of the first one
      refine ⟨hnil, hext.trans hr.toExtends, ?_, ?_⟩
      · intro k b hk hb
        cases k with
        | zero =>
            obtain rfl := hhead b hk
            obtain ⟨hm, hend, -, hcontents⟩ := hbox hb
            have hle := hr.brk_le
            rw [Nat.add_zero]
            refine ⟨by omega, by omega, fun hmoved j hj ↦ ?_⟩
            rw [hr.below _ (by omega), hcontents hmoved j hj]
        | succ k =>
            obtain ⟨hlo, hhi, hcontents⟩ := hr.block k b hk hb
            have hshift : n + 1 + k = n + (k + 1) := by omega
            rw [hshift] at hlo hhi hcontents
            exact ⟨by omega, hhi, hcontents⟩
      · intro k k' b b' hkk hk hk' hb hb'
        cases k' with
        | zero => omega
        | succ k' =>
            have hshift : n + 1 + k' = n + (k' + 1) := by omega
            cases k with
            | zero =>
                obtain rfl := hhead b hk
                obtain ⟨-, hend, -⟩ := hbox hb
                have hlo := (hr.block k' b' hk' hb').1
                rw [hshift] at hlo
                rw [Nat.add_zero]
                omega
            | succ k =>
                have hord := hr.ordered k k' b b' (by omega) hk hk' hb hb'
                have hshift' : n + 1 + k = n + (k + 1) := by omega
                rw [hshift, hshift'] at hord
                exact hord

/-! ## The answer -/

/-- The argument has contents that go back to its home. -/
def Arg.Returned (a : Arg) : Prop :=
  0 < a.quantity ∧ (a.callway = .ref ∨ a.callway = .res)

instance (a : Arg) : Decidable a.Returned :=
  inferInstanceAs (Decidable (_ ∧ _))

theorem payloads_free_if (h : ByteHeap) (desc : TorcT) (p : Prop) [Decidable p] (a : Int) :
    payloads h desc (if p then [.free a] else []) = [] := by
  split <;> rfl

theorem payloads_sendResult {a : Arg} (ha : a.Plain) (h : ByteHeap) (desc : TorcT)
    (homenode tag i : Nat) :
    payloads h desc (sendResult homenode tag i a) =
      if a.Returned then [⟨a.bytes, fun j ↦ h.mem (a.temparg.toNat + j)⟩] else [] := by
  unfold sendResult
  by_cases hq : a.quantity = 0
  · rw [if_pos hq, if_neg fun hr : a.Returned ↦ absurd hr.1 (by omega)]
    rfl
  · rw [if_neg hq, payloads_append, payloads_free_if, List.nil_append]
    by_cases hc : a.callway = .ref ∨ a.callway = .res
    · have hr : a.Returned := ⟨by omega, hc⟩
      rw [if_pos hc, if_pos hr, ← List.singleton_append, payloads_append, payloads_free_if,
        ← ha.bytes_eq]
      rfl
    · rw [if_neg hc, if_neg fun hr : a.Returned ↦ hc hr.2]
      rfl

theorem payloads_sendResults {desc : TorcT} (hplain : ∀ a ∈ desc.liveArgs, a.Plain)
    (h : ByteHeap) (tag : Nat) :
    payloads h desc (sendResults tag desc) = desc.liveArgs.flatMap fun a ↦
      if a.Returned then [⟨a.bytes, fun j ↦ h.mem (a.temparg.toNat + j)⟩] else [] := by
  apply payloads_zipIdx h desc (fun a i ↦ sendResult desc.homenode tag i a)
  intro a ha i
  exact payloads_sendResult (hplain a ha) h desc desc.homenode tag i

/-- Address `x` belongs to the home buffer of argument `a`. -/
def Arg.AtHome (a : Arg) (x : Nat) : Prop :=
  a.localarg.toNat ≤ x ∧ x < a.localarg.toNat + a.bytes

/-- What receiving one result does. -/
theorem perform_receiveResult (a : Arg) (me sourcenode tag i : Nat) (h : ByteHeap)
    {p : Payload} (hbytes : p.bytes = a.bytes) (rest : List Payload) :
    ∃ h', perform (receiveResult me sourcenode tag i a).2 h
        ((if a.Returned then [p] else []) ++ rest) = some (h', rest) ∧
      (∀ x, ¬ (a.Returned ∧ a.AtHome x) → h'.mem x = h.mem x) ∧
      (a.Returned → ∀ j < a.bytes, h'.mem (a.localarg.toNat + j) = p.byte j) := by
  unfold receiveResult
  by_cases hq : a.quantity = 0
  · have hr : ¬ a.Returned := fun hr ↦ absurd hr.1 (by omega)
    rw [if_pos hq, if_neg hr]
    exact ⟨h, rfl, fun _ _ ↦ rfl, fun h ↦ absurd h hr⟩
  · rw [if_neg hq]
    by_cases hc : a.callway = .ref ∨ a.callway = .res
    · have hr : a.Returned := ⟨by omega, hc⟩
      rw [if_pos hc.symm, if_pos hr]
      have hfits : a.bytes ≤ a.quantity * mpiTypeSize (torcB2mpiType me a.btype) := le_rfl
      simp only [List.singleton_append, perform, hbytes, if_pos hfits]
      refine ⟨h.store a.localarg.toNat a.bytes p.byte, rfl, fun x hx ↦ ?_, fun _ j hj ↦ ?_⟩
      · apply ByteHeap.store_mem_outside
        by_contra hin
        exact hx ⟨hr, by omega, by omega⟩
      · exact ByteHeap.store_mem_inside _ _ hj
    · have hr : ¬ a.Returned := fun hr ↦ hc hr.2
      rw [if_neg fun h ↦ hc h.symm, if_neg hr]
      refine ⟨h, ?_, fun _ _ ↦ rfl, fun h ↦ absurd h hr⟩
      split <;> rfl

/-- No two arguments that are returned have overlapping home buffers. -/
def ResultsApart (as : List Arg) : Prop :=
  as.Pairwise fun a b ↦ a.Returned → b.Returned → ∀ x, a.AtHome x → ¬ b.AtHome x

theorem perform_receiveResults {as : List Arg} (hapart : ResultsApart as)
    (me sourcenode tag : Nat) (p : Arg → Payload)
    (hbytes : ∀ a, (p a).bytes = a.bytes) (n : Nat) (h : ByteHeap) :
    ∃ h', perform ((as.zipIdx n).flatMap fun (a, i) ↦ (receiveResult me sourcenode tag i a).2) h
        (as.flatMap fun a ↦ if a.Returned then [p a] else []) = some (h', []) ∧
      (∀ x, (∀ a ∈ as, ¬ (a.Returned ∧ a.AtHome x)) → h'.mem x = h.mem x) ∧
      (∀ a ∈ as, a.Returned →
        ∀ j < a.bytes, h'.mem (a.localarg.toNat + j) = (p a).byte j) := by
  induction as generalizing n h with
  | nil => exact ⟨h, rfl, fun _ _ ↦ rfl, fun a ha ↦ by simp at ha⟩
  | cons a as ih =>
      obtain ⟨hfirst, hrest⟩ := List.pairwise_cons.mp hapart
      obtain ⟨h₁, hrun, hout, hin⟩ := perform_receiveResult a me sourcenode tag n h
        (hbytes a) (as.flatMap fun b ↦ if b.Returned then [p b] else [])
      obtain ⟨h₂, hrun', hout', hin'⟩ :=
        ih hrest (n + 1) h₁
      refine ⟨h₂, ?_, ?_, ?_⟩
      · simp only [List.zipIdx_cons, List.flatMap_cons, perform_append, hrun, Option.bind_some,
          hrun']
      · intro x hx
        rw [hout' x fun b hb ↦ hx b (List.mem_cons_of_mem _ hb), hout x (hx a List.mem_cons_self)]
      · intro b hb hr j hj
        rcases List.mem_cons.mp hb with rfl | hb
        · -- the later results go to other buffers
          rw [hout' _ fun b' hb' hc ↦ hfirst b' hb' hr hc.1 _
            ⟨by omega, by omega⟩ hc.2, hin hr j hj]
        · exact hin' b hb hr j hj

end Torc
