import Torc.Journey
import Torc.Lib.Relocation

/-!
# Location transparency

A body sees its arguments through the array `args`.  Whatever journey its descriptor made, the bytes
it finds there, the bytes it leaves there and, after the answer, the caller's buffers are those of
an execution on the home node.
-/

namespace Torc

open LittleEndian Relocation

/-! ## What a body can reach -/

/-- A byte that a body can address: in a slot of the descriptor or in the memory of the node;
`unset` is behind an entry of `args` that was not filled. -/
inductive Loc
  | slot (i j : Nat)
  | mem (x : Nat)
  | unset
  deriving DecidableEq

def Pointer.loc : Pointer → Nat → Loc
  | .slot i, j => .slot i j
  | .addr a, j => .mem (a.toNat + j)

/-- The location of byte `c.2` of argument `c.1` for a body called where the descriptor is. -/
def Traveller.layout (t : Traveller) (c : Nat × Nat) : Loc :=
  match (callArguments t.held.node t.held.desc).bind fun args ↦ args[c.1]?.join with
  | some q => q.loc c.2
  | none => .unset

def Traveller.store (t : Traveller) : Loc → UInt8
  | .slot i j =>
      byteOfInt ((t.held.desc.liveArgs[i]?.map
        (Arg.slot (t.held.node = t.held.desc.homenode))).getD 0) j
  | .mem x => (t.heaps t.held.node).mem x
  | .unset => 0

abbrev Body := Prog (Nat × Nat) UInt8

/-- The bytes after the body was called. -/
def Traveller.run (t : Traveller) (body : Body) : Loc → UInt8 :=
  body.run t.layout t.store

/-- The memory of the executing node after the body was called. -/
def Traveller.ran (t : Traveller) (body : Body) : ByteHeap :=
  { t.heaps t.held.node with mem := fun x ↦ t.run body (.mem x) }

/-- The results with the answer of the thread with id `tag`. -/
def Traveller.results (t : Traveller) (body : Body) (tag : Nat) : List Payload :=
  Torc.payloads (t.ran body) (stampSource t.held.node tag t.held.desc .torcAnswer)
    (sendDescriptor t.held.node tag t.held.desc.homenode t.held.desc .torcAnswer)

/-- The calls with which the home node receives them. -/
def Traveller.resultReceives (t : Traveller) (tag : Nat) : List Effect :=
  let sent := stampSource t.held.node tag t.held.desc .torcAnswer
  (receiveResults sent.homenode sent.sourcevpid sent).2

/-- What the handling of the answer does to the memory `g` of the home node, where `arriving` comes
in.  The slots of `CALL_BY_COP` arguments, which the body may have written, are not read again. -/
def Traveller.answer (t : Traveller) (tag : Nat) (g : ByteHeap) (arriving : List PayloadMessage) :
    Option (ByteHeap × List Payload) :=
  (matched (t.resultReceives tag) arriving).bind (perform (t.resultReceives tag) g)

/-- Each receive of a result gets the result it is for. -/
def Traveller.Answers (t : Traveller) (body : Body) (tag : Nat)
    (arriving : List PayloadMessage) : Prop :=
  matched (t.resultReceives tag) arriving = some (t.results body tag)

/-! ## What the caller passes -/

/-- Address `x` belongs to the caller's buffer. -/
def CArg.At (c : CArg) (x : Nat) : Prop :=
  c.ptr ≤ x ∧ x < c.ptr + c.bytes

/-- `CALL_BY_REF` and `CALL_BY_RES` arguments. -/
def CArg.Result (c : CArg) : Prop :=
  c.callway = .ref ∨ c.callway = .res

/-- At most 17 valid arguments, the buffers of results apart from each other and from those of
`CALL_BY_PTR` arguments. -/
structure Admissible (h : ByteHeap) (cs : List CArg) : Prop where
  valid : ∀ c ∈ cs, c.Valid h
  count : cs.length ≤ 17
  apart : ∀ (i k : Nat) (c d : CArg), i ≠ k → cs[i]? = some c →
    cs[k]? = some d → c.Result →
    d.Result ∨ d.callway = .ptr → ∀ x, c.At x → ¬ d.At x

def Live (cs : List CArg) (c : Nat × Nat) : Prop :=
  ∃ a, cs[c.1]? = some a ∧ c.2 < a.bytes

/-- Not a `CALL_BY_PTR` argument: private copies and results. -/
def Writable (cs : List CArg) (c : Nat × Nat) : Prop :=
  ∃ a, cs[c.1]? = some a ∧ a.callway ≠ .ptr

/-- A `CALL_BY_RES` argument. -/
def Output (cs : List CArg) (c : Nat × Nat) : Prop :=
  ∃ a, cs[c.1]? = some a ∧ c.2 < a.bytes ∧ a.callway = .res

/-- The caller's bytes when the task was created. -/
def captured (h : ByteHeap) (cs : List CArg) (i j : Nat) : UInt8 :=
  match cs[i]? with
  | some c => h.mem (c.ptr + j)
  | none => 0

/-! ## The start of a journey -/

variable {h h' : ByteHeap} {cs : List CArg} {as : List Arg} {t : Traveller} {home : Nat}

theorem CapturedAll.plain (hcap : CapturedAll h h' cs as) (hlen : as.length = cs.length)
    (hv : ∀ c ∈ cs, c.Valid h) : ∀ a ∈ as, a.Plain := by
  intro a ha
  obtain ⟨i, hi⟩ := List.getElem?_of_mem ha
  have hlt : i < cs.length := hlen ▸ (List.getElem?_eq_some_iff.mp hi).1
  exact (hcap.each i cs[i] a (List.getElem?_eq_getElem hlt) hi).plain
    (hv _ (List.getElem_mem hlt))

theorem CapturedAll.contents (hcap : CapturedAll h h' cs as) (hlen : as.length = cs.length)
    (hv : ∀ c ∈ cs, c.Valid h) {i : Nat} {a : Arg} (ha : as[i]? = some a)
    (hm : a.Moved) {j : Nat}
    (hj : j < a.bytes) : h'.mem (a.localarg.toNat + j) = captured h cs i j := by
  have hlt : i < cs.length := hlen ▸ (List.getElem?_eq_some_iff.mp ha).1
  have hc := List.getElem?_eq_getElem hlt
  have heach := hcap.each i cs[i] a hc ha
  have hcaptured : captured h cs i j = h.mem (cs[i].ptr + j) := by
    rw [captured, hc]
  rw [hcaptured]
  by_cases hcop2 : a.callway = .cop2
  · exact (heach.copy hm.1.1 hcop2).2.2 j hj
  · rw [heach.address hm.1.1 hm.1.2 hcop2]
    apply hcap.below
    have halloc := (hv _ (List.getElem_mem hlt)).allocated
    rw [heach.bytes] at hj
    change cs[i].ptr + j < h.brk
    omega

/-- A descriptor that a routine just filled, with the memories of the other nodes. -/
def Creation.start (c : Creation) (heaps : Nat → ByteHeap) : Traveller :=
  ⟨⟨c.desc.homenode, c.desc⟩, Function.update heaps c.desc.homenode c.heap⟩

/-- The routines of the C interface. -/
def Routine.OfC : Routine → Prop
  | .createf | .taskf _ => False
  | _ => True

theorem Routine.OfC.created {r : Routine} (hr : r.OfC) {who : Creator} {taskId work : Nat}
    {c : Creation} (hc : r.create who taskId work h cs = some c) :
    decodeArguments storeArgumentC h cs = some (c.desc.args, c.heap) ∧
      c.desc.narg = cs.length := by
  cases r with
  | createf => exact hr.elim
  | taskf type => exact hr.elim
  | _ =>
      obtain ⟨as, h', hd, _, rfl⟩ := createWith_some hc
      exact ⟨hd, rfl⟩

theorem start_carried {r : Routine} (hr : r.OfC) {who : Creator} {taskId work : Nat}
    {c : Creation} (hc : r.create who taskId work h cs = some c) (hv : ∀ c ∈ cs, c.Valid h)
    (heaps : Nat → ByteHeap) :
    CapturedAll h c.heap cs c.desc.args ∧ c.desc.args.length = cs.length ∧
      Carried who.me c.desc.args (captured h cs) (c.start heaps) := by
  obtain ⟨hd, hnarg⟩ := hr.created hc
  have hcap := decodeArguments_captured hv hd
  have hlen := decodeArguments_length hd
  have hhome := (r.create_work hc).2.2
  have htype := (r.create_header hc).2
  have hlive : c.desc.liveArgs = c.desc.args := by
    rw [TorcT.liveArgs, List.take_of_length_le (by omega)]
  refine ⟨hcap, hlen,
    { homenode := hhome
      type := fun h ↦ MsgType.noConfusion (htype.symm.trans h)
      narg := by rw [hlen]; exact hnarg
      same := fun i ↦ ?same
      atHome := ?atHome
      away := fun haway ↦ absurd hhome haway }⟩
  case same =>
    change Option.Rel Arg.Same c.desc.args[i]? c.desc.liveArgs[i]?
    rw [hlive]
    cases c.desc.args[i]? with
    | none => exact .none
    | some a => exact .some (.refl a)
  case atHome =>
    intro i a ha hm j hj
    change (Function.update heaps c.desc.homenode c.heap who.me).mem _ = _
    rw [hhome, Function.update_self]
    exact hcap.contents hlen hv ha hm hj

/-! ## What the body finds -/

variable {contents : Nat → Nat → UInt8}

theorem Carried.length (ht : Carried home as contents t) :
    t.held.desc.liveArgs.length = as.length := by
  apply Nat.le_antisymm
  · by_contra hlt
    obtain ⟨a, ha, -⟩ := ht.getElem? (List.getElem?_eq_getElem (Nat.lt_of_not_le hlt))
    exact Nat.lt_irrefl _ (List.getElem?_eq_some_iff.mp ha).1
  · by_contra hlt
    obtain ⟨b, hb, -⟩ := ht.getElem?' (List.getElem?_eq_getElem (Nat.lt_of_not_le hlt))
    exact Nat.lt_irrefl _ (List.getElem?_eq_some_iff.mp hb).1

/-- Every argument reaches the body. -/
theorem Carried.layout (ht : Carried home as contents t) (hcount : as.length ≤ 17) {i : Nat}
    {b : Arg} (hb : t.held.desc.liveArgs[i]? = some b) (j : Nat) :
    t.layout (i, j) = (coreArgument (t.held.node = t.held.desc.homenode) i b).loc j := by
  have hlen := ht.length
  have hnarg : t.held.desc.narg ≤ t.held.desc.args.length := by
    rw [TorcT.liveArgs, List.length_take, ← ht.narg] at hlen
    omega
  have hentry : (coreArguments t.held.node t.held.desc)[i]? =
      some (coreArgument (t.held.node = t.held.desc.homenode) i b) := by
    simp only [coreArguments, List.getElem?_map, List.getElem?_zipIdx, hb, Option.map_some,
      Nat.zero_add]
  unfold Traveller.layout
  rw [callArguments_eq (ht.narg ▸ hcount) hnarg, Option.bind_some, List.getElem?_map, hentry]
  rfl

theorem Carried.layout_cop (ht : Carried home as contents t) (hcount : as.length ≤ 17) {i : Nat}
    {b : Arg} (hb : t.held.desc.liveArgs[i]? = some b) (hcop : b.callway = .cop) (j : Nat) :
    t.layout (i, j) = .slot i j := by
  rw [ht.layout hcount hb, coreArgument, if_pos hcop]
  rfl

theorem Carried.layout_addr (ht : Carried home as contents t) (hcount : as.length ≤ 17) {i : Nat}
    {b : Arg} (hb : t.held.desc.liveArgs[i]? = some b) (hcop : b.callway ≠ .cop) (j : Nat) :
    t.layout (i, j) =
      .mem ((b.slot (t.held.node = t.held.desc.homenode)).toNat + j) := by
  rw [ht.layout hcount hb, coreArgument, if_neg hcop]
  rfl

/-- A live byte belongs to an argument of the caller, of the created descriptor and of the
travelling one. -/
theorem Carried.live (ht : Carried home as contents t) (hcap : CapturedAll h h' cs as)
    (hlen : as.length = cs.length) {c : CArg} {i : Nat} (hc : cs[i]? = some c) :
    ∃ a b, as[i]? = some a ∧ Captured h h' c a ∧ t.held.desc.liveArgs[i]? = some b ∧
    a.Same b := by
  have hi : i < as.length := hlen ▸ (List.getElem?_eq_some_iff.mp hc).1
  obtain ⟨b, hb, hsame⟩ := ht.getElem?' (List.getElem?_eq_getElem hi)
  exact ⟨as[i], b, List.getElem?_eq_getElem hi, hcap.each i c as[i] hc
    (List.getElem?_eq_getElem hi), hb, hsame⟩

theorem quantity_pos_of_bytes {a : Arg} {j : Nat} (hj : j < a.bytes) : 0 < a.quantity := by
  by_contra hq
  rw [Arg.bytes, Nat.eq_zero_of_not_pos hq, Nat.zero_mul] at hj
  exact Nat.not_lt_zero j hj

/-- The body finds the bytes that were captured, but for the outputs. -/
theorem Carried.seen (ht : Carried home as (captured h cs) t) (hcap : CapturedAll h h' cs as)
    (hlen : as.length = cs.length) (hcount : cs.length ≤ 17) {c : Nat × Nat} (hlive : Live cs c)
    (hout : ¬ Output cs c) : t.store (t.layout c) = captured h cs c.1 c.2 := by
  obtain ⟨i, j⟩ := c
  obtain ⟨c, hc, hj⟩ := hlive
  obtain ⟨a, b, ha, hac, hb, hsame⟩ := ht.live hcap hlen hc
  have hja : j < a.bytes := hac.bytes ▸ hj
  have hq := quantity_pos_of_bytes hja
  rw [← hlen] at hcount
  by_cases hcop : b.callway = .cop
  · have hcopa : a.callway = .cop := hsame.callway.symm.trans hcop
    have hslot : b.slot (t.held.node = t.held.desc.homenode) = a.localarg := by
      rw [← hsame.localarg]
      by_cases hnode : t.held.node = t.held.desc.homenode
      · rw [decide_eq_true hnode]
        rfl
      · rw [decide_eq_false hnode]
        exact (ht.away fun h ↦ hnode (h.trans ht.homenode.symm)).value b (List.mem_of_getElem? hb)
          (fun hbox ↦ hbox.2 hcop) (hsame.quantity ▸ hq)
    rw [ht.layout_cop hcount hb hcop]
    simp only [Traveller.store, hb, Option.map_some, Option.getD_some, hslot]
    rw [(hac.value hq hcopa).2 j hja, captured, hc]
  · have hres : b.callway ≠ .res := by
      intro hres
      have hresa : a.callway = .res := hsame.callway.symm.trans hres
      exact hout ⟨c, hc, hj, (declareArgument_callway (by decide) (by decide)).mp
        (hac.callway.symm.trans hresa)⟩
    have hm : b.Moved := ⟨⟨hsame.quantity ▸ hq, hcop⟩, hres⟩
    rw [ht.layout_addr hcount hb hcop]
    have hcontents := ht.slot_contents hb hm (hsame.bytes ▸ hja)
    rw [decide_eq_decide.mpr (eq_comm : t.held.node = t.held.desc.homenode ↔ _)]
    exact hcontents

/-! ## Separation -/

/-- An argument that is passed by address and is not a private copy is a result or
`CALL_BY_PTR`. -/
theorem Captured.buffer {c : CArg} {a : Arg} (hac : Captured h h' c a) (hv : c.Valid h)
    (hcop : a.callway ≠ .cop) (hcop2 : a.callway ≠ .cop2) : c.Result ∨ c.callway = .ptr := by
  have hvad := hv.notVad
  have hcall := hac.callway
  simp only [declareArgument] at hcall
  split at hcall
  · exact absurd hcall hcop2
  · rw [hcall] at hcop hcop2
    unfold CArg.Result
    revert hcop hcop2 hvad
    cases c.callway <;> decide

theorem Arg.AtHome.pos {a : Arg} {x : Nat} (hx : a.AtHome x) : 0 < a.quantity := by
  have hj : x - a.localarg.toNat < a.bytes := by
    have := hx.1
    have := hx.2
    omega
  exact quantity_pos_of_bytes hj

/-- The home memory of an argument that is not a private copy is the caller's buffer. -/
theorem Captured.at_buffer {c : CArg} {a : Arg} (hac : Captured h h' c a) (hv : c.Valid h)
    (hcop : a.callway ≠ .cop) (hcop2 : a.callway ≠ .cop2) {x : Nat} (hx : a.AtHome x) :
    c.At x ∧ x < h.brk := by
  have hptr := hac.address hx.pos hcop hcop2
  obtain ⟨hlo, hhi⟩ := hx
  rw [hptr, Int.toNat_natCast] at hlo hhi
  rw [hac.bytes] at hhi
  have halloc := hv.allocated
  exact ⟨⟨hlo, hhi⟩, by omega⟩

/-- On the home node the memory of a writable argument is apart from that of every other one. -/
theorem CapturedAll.home_apart (hcap : CapturedAll h h' cs as) (hadm : Admissible h cs)
    {i k : Nat} (hik : i ≠ k) {c d : CArg} {a b : Arg} (hc : cs[i]? = some c)
    (hd : cs[k]? = some d)
    (ha : as[i]? = some a) (hb : as[k]? = some b) (hw : c.callway ≠ .ptr)
    (hcopa : a.callway ≠ .cop)
    (hcopb : b.callway ≠ .cop) {x : Nat} (hxa : a.AtHome x) : ¬ b.AtHome x := by
  intro hxb
  have hca := hcap.each i c a hc ha
  have hdb := hcap.each k d b hd hb
  have hvc := hadm.valid c (List.mem_of_getElem? hc)
  have hvd := hadm.valid d (List.mem_of_getElem? hd)
  have hposa := hxa.pos
  have hposb := hxb.pos
  by_cases ha2 : a.callway = .cop2
  · by_cases hb2 : b.callway = .cop2
    · -- two private copies
      obtain ⟨hloa, hhia⟩ := hxa
      obtain ⟨hlob, hhib⟩ := hxb
      rcases Nat.lt_or_gt_of_ne hik with hlt | hlt
      · have hord := hcap.ordered i k a b hlt ha hb hposa ha2 hposb hb2
        omega
      · have hord := hcap.ordered k i b a hlt hb ha hposb hb2 hposa ha2
        omega
    · -- a private copy lies above the break of the creation
      have hbelow := (hdb.at_buffer hvd hcopb hb2 hxb).2
      have habove := (hca.copy hposa ha2).1
      have := hxa.1
      omega
  · have hbuf := (hca.at_buffer hvc hcopa ha2 hxa)
    by_cases hb2 : b.callway = .cop2
    · have habove := (hdb.copy hposb hb2).1
      have := hxb.1
      have := hbuf.2
      omega
    · have hres : c.Result := (hca.buffer hvc hcopa ha2).resolve_right hw
      exact hadm.apart i k c d hik hc hd hres (hdb.buffer hvd hcopb hb2) x hbuf.1
        (hdb.at_buffer hvd hcopb hb2 hxb).1

/-- The layout keeps every writable byte apart from all others. -/
theorem Carried.apart (ht : Carried home as contents t) (hcap : CapturedAll h h' cs as)
    (hlen : as.length = cs.length) (hadm : Admissible h cs) :
    Apart t.layout (Live cs) (Writable cs) := by
  rintro ⟨i, j⟩ ⟨k, l⟩ ⟨c, hc, hj⟩ ⟨c', hc', hw⟩ ⟨d, hd, hl⟩ heq
  obtain rfl : c = c' := Option.some.inj (hc.symm.trans hc')
  obtain ⟨a, a', ha, hca, ha', hsame⟩ := ht.live hcap hlen hc
  obtain ⟨b, b', hb, hdb, hb', hsame'⟩ := ht.live hcap hlen hd
  have hcount : as.length ≤ 17 := hlen ▸ hadm.count
  by_cases hcop : a'.callway = .cop
  · rw [ht.layout_cop hcount ha' hcop] at heq
    by_cases hcop' : b'.callway = .cop
    · rw [ht.layout_cop hcount hb' hcop'] at heq
      cases heq
      rfl
    · rw [ht.layout_addr hcount hb' hcop'] at heq
      cases heq
  · rw [ht.layout_addr hcount ha' hcop] at heq
    by_cases hcop' : b'.callway = .cop
    · rw [ht.layout_cop hcount hb' hcop'] at heq
      cases heq
    · rw [ht.layout_addr hcount hb' hcop'] at heq
      have haddr := Loc.mem.inj heq
      change j < c.bytes at hj
      change l < d.bytes at hl
      rw [← hca.bytes] at hj
      rw [← hdb.bytes] at hl
      by_cases hik : i = k
      · subst hik
        obtain rfl : a' = b' := Option.some.inj (ha'.symm.trans hb')
        congr 1
        omega
      · exfalso
        by_cases hnode : t.held.node = t.held.desc.homenode
        · -- at home the caller's own buffers, which are apart where the body may write
          rw [decide_eq_true hnode] at haddr
          change a'.localarg.toNat + j = b'.localarg.toNat + l at haddr
          rw [hsame.localarg, hsame'.localarg] at haddr
          refine hcap.home_apart hadm hik hc hd ha hb hw (hsame.callway ▸ hcop)
            (hsame'.callway ▸ hcop') (x := a.localarg.toNat + j) ⟨by omega, by omega⟩
            ⟨by omega, by omega⟩
        · -- elsewhere the blocks that `receive_arguments` allocated one after the other
          rw [decide_eq_false hnode] at haddr
          change a'.temparg.toNat + j = b'.temparg.toNat + l at haddr
          have haway := ht.away fun h ↦ hnode (h.trans ht.homenode.symm)
          have hbox : a'.Boxed := ⟨hsame.quantity ▸ quantity_pos_of_bytes hj, hcop⟩
          have hbox' : b'.Boxed := ⟨hsame'.quantity ▸ quantity_pos_of_bytes hl, hcop'⟩
          rw [← hsame.bytes] at hj
          rw [← hsame'.bytes] at hl
          rcases Nat.lt_or_gt_of_ne hik with hlt | hlt
          · have hord := haway.ordered i k a' b' hlt ha' hb' hbox hbox'
            omega
          · have hord := haway.ordered k i b' a' hlt hb' ha' hbox' hbox
            omega

/-! ## The answer -/

theorem Captured.returned {c : CArg} {a : Arg} (hac : Captured h h' c a) :
    a.Returned ↔ 0 < a.quantity ∧ c.Result := by
  have href := declareArgument_callway (c := c) (w := .ref) (by decide) (by decide)
  have hres := declareArgument_callway (c := c) (w := .res) (by decide) (by decide)
  rw [← hac.callway] at href hres
  rw [Arg.Returned, CArg.Result, href, hres]

theorem Arg.Same.atHome {a b : Arg} (hsame : a.Same b) {x : Nat} : b.AtHome x ↔ a.AtHome x := by
  rw [Arg.AtHome, Arg.AtHome, hsame.localarg, hsame.bytes]

theorem Arg.Same.returned {a b : Arg} (hsame : a.Same b) : b.Returned ↔ a.Returned := by
  rw [Arg.Returned, Arg.Returned, hsame.quantity, hsame.callway]

theorem CArg.Result.not_ptr {c : CArg} (hr : c.Result) : c.callway ≠ .ptr := by
  rcases hr with h | h <;> rw [h] <;> decide

theorem Arg.Returned.not_cop {a : Arg} (hr : a.Returned) :
    a.callway ≠ .cop ∧ a.callway ≠ .cop2 := by
  rcases hr.2 with h | h <;> rw [h] <;> decide

/-- Where a travelling argument comes from. -/
theorem Carried.origin (ht : Carried home as contents t) (hcap : CapturedAll h h' cs as)
    (hlen : as.length = cs.length) {i : Nat} {b : Arg} (hb : t.held.desc.liveArgs[i]? = some b) :
    ∃ c a, cs[i]? = some c ∧ as[i]? = some a ∧ Captured h h' c a ∧ a.Same b := by
  obtain ⟨a, ha, hsame⟩ := ht.getElem? hb
  have hi : i < cs.length := hlen ▸ (List.getElem?_eq_some_iff.mp ha).1
  have hc := List.getElem?_eq_getElem hi
  exact ⟨cs[i], a, hc, ha, hcap.each i cs[i] a hc ha, hsame⟩

theorem Carried.resultsApart (ht : Carried home as contents t) (hcap : CapturedAll h h' cs as)
    (hlen : as.length = cs.length) (hadm : Admissible h cs) :
    ResultsApart t.held.desc.liveArgs := by
  rw [ResultsApart, List.pairwise_iff_getElem]
  intro i k hi hk hlt hret hret' x hx hx'
  obtain ⟨c, a, hc, ha, hca, hsame⟩ := ht.origin hcap hlen (List.getElem?_eq_getElem hi)
  obtain ⟨d, b, hd, hb, -, hsame'⟩ := ht.origin hcap hlen (List.getElem?_eq_getElem hk)
  have hreta := hsame.returned.mp hret
  have hretb := hsame'.returned.mp hret'
  exact hcap.home_apart hadm (Nat.ne_of_lt hlt) hc hd ha hb (hca.returned.mp hreta).2.not_ptr
    hreta.not_cop.1 hretb.not_cop.1 (hsame.atHome.mp hx) (hsame'.atHome.mp hx')

/-- The answer writes what the body left in the results, and nothing else. -/
theorem Carried.answer (ht : Carried home as contents t) (hcap : CapturedAll h h' cs as)
    (hlen : as.length = cs.length) (hadm : Admissible h cs) (haway : t.held.node ≠ home)
    {body : Body} {tag : Nat} {arriving : List PayloadMessage}
    (hreach : t.Answers body tag arriving)
    (g : ByteHeap) :
    ∃ g', t.answer tag g arriving = some (g', []) ∧
      (∀ (i : Nat) (c : CArg), cs[i]? = some c → c.Result → ∀ j < c.bytes,
        g'.mem (c.ptr + j) = t.run body (t.layout (i, j))) ∧
      (∀ x, (∀ c ∈ cs, c.Result → ¬ c.At x) → g'.mem x = g.mem x) := by
  let sent := stampSource t.held.node tag t.held.desc .torcAnswer
  have hplain : ∀ b ∈ sent.liveArgs, b.Plain := ht.plain (hcap.plain hlen hadm.valid)
  let p : Arg → Payload :=
    fun b ↦ ⟨b.bytes, fun j ↦ (t.ran body).mem (b.temparg.toNat + j)⟩
  have hpay : payloads (t.ran body) sent (sendDescriptor t.held.node tag t.held.desc.homenode
      t.held.desc .torcAnswer) = sent.liveArgs.flatMap fun b ↦ if b.Returned then [p b] else [] :=
    payloads_sendResults hplain (t.ran body) tag
  obtain ⟨g', hrun, hout, hin⟩ := perform_receiveResults (ht.resultsApart hcap hlen hadm)
    sent.homenode sent.sourcenode sent.sourcevpid p (fun _ ↦ rfl) 0 g
  refine ⟨g', ?_, fun i c hc hres j hj ↦ ?_, fun x hx ↦ hout x fun b hb hret ↦ ?_⟩
  · have hrec : (receiveResults sent.homenode sent.sourcevpid sent).2 =
        sent.liveArgs.zipIdx.flatMap fun p ↦
          (receiveResult sent.homenode sent.sourcenode sent.sourcevpid p.2 p.1).2 := by
      simp only [receiveResults, List.flatMap_map]
    have hresults : t.results body tag =
        sent.liveArgs.flatMap fun b ↦ if b.Returned then [p b] else [] := hpay
    have hcalls : t.resultReceives tag = _ := hrec
    rw [Traveller.answer, hreach, Option.bind_some, hresults, hcalls]
    exact hrun
  · obtain ⟨a, b, ha, hca, hb, hsame⟩ := ht.live hcap hlen hc
    have hja : j < a.bytes := hca.bytes ▸ hj
    have hret : a.Returned := hca.returned.mpr ⟨quantity_pos_of_bytes hja, hres⟩
    have hptr := hca.address hret.1 hret.not_cop.1 hret.not_cop.2
    have hnode : t.held.node ≠ t.held.desc.homenode := ht.homenode ▸ haway
    have hval := hin b (List.mem_of_getElem? hb) (hsame.returned.mpr hret) j (hsame.bytes ▸ hja)
    rw [hsame.localarg, hptr, Int.toNat_natCast] at hval
    rw [hval, ht.layout_addr (hlen ▸ hadm.count) hb (hsame.callway ▸ hret.not_cop.1),
      decide_eq_false hnode]
    rfl
  · obtain ⟨i, hi⟩ := List.getElem?_of_mem hb
    obtain ⟨c, a, hc, ha, hca, hsame⟩ := ht.origin hcap hlen hi
    have hreta := hsame.returned.mp hret.1
    have hmem := List.mem_of_getElem? hc
    exact hx c hmem (hca.returned.mp hreta).2 (hca.at_buffer (hadm.valid c hmem) hreta.not_cop.1
      hreta.not_cop.2 (hsame.atHome.mp hret.2)).1

/-! ## The result -/

/-- A call of `body` where `t` is compared with one at home, where `t₀` is. -/
structure LocationTransparent (h : ByteHeap) (cs : List CArg) (t t₀ : Traveller) (body : Body) :
    Prop where
  seen : ∀ c, Live cs c → ¬ Output cs c → t.store (t.layout c) = captured h cs c.1 c.2
  left : ∀ c, Live cs c → t.run body (t.layout c) = t₀.run body (t₀.layout c)
  atHome : t.held.node = t.held.desc.homenode → ∀ c ∈ cs, c.Result → ∀ x, c.At x →
    t.run body (.mem x) = t₀.run body (.mem x)
  answered : t.held.node ≠ t.held.desc.homenode → ∀ tag g arriving,
    t.Answers body tag arriving → ∃ g', t.answer tag g arriving = some (g', []) ∧
      (∀ c ∈ cs, c.Result → ∀ x, c.At x → g'.mem x = t₀.run body (.mem x)) ∧
      (∀ x, (∀ c ∈ cs, c.Result → ¬ c.At x) → g'.mem x = g.mem x)
  untouched : ∀ x < h.brk, (∀ c ∈ cs, c.Result → ¬ c.At x) →
    t₀.run body (.mem x) = (t₀.heaps t₀.held.node).mem x

theorem Carried.layout_home (ht : Carried home as contents t) (hcap : CapturedAll h h' cs as)
    (hlen : as.length = cs.length) (hcount : cs.length ≤ 17)
    (hhome : t.held.node = home) {i : Nat}
    {c : CArg} (hc : cs[i]? = some c) (hres : c.Result) {j : Nat} (hj : j < c.bytes) :
    t.layout (i, j) = .mem (c.ptr + j) := by
  obtain ⟨a, b, ha, hca, hb, hsame⟩ := ht.live hcap hlen hc
  have hret : a.Returned :=
    hca.returned.mpr ⟨quantity_pos_of_bytes (a := a) (hca.bytes ▸ hj), hres⟩
  have hptr := hca.address hret.1 hret.not_cop.1 hret.not_cop.2
  rw [ht.layout_addr (hlen ▸ hcount) hb (hsame.callway ▸ hret.not_cop.1),
    decide_eq_true (hhome.trans ht.homenode.symm)]
  change Loc.mem (b.localarg.toNat + j) = _
  rw [hsame.localarg, hptr, Int.toNat_natCast]

/-- At home a body writes private copies and the buffers of results. -/
theorem Carried.home_frame (ht : Carried home as contents t) (hcap : CapturedAll h h' cs as)
    (hlen : as.length = cs.length) (hadm : Admissible h cs) (hhome : t.held.node = home)
    {body : Body} {written : Nat × Nat → Prop}
    (hbody : body.Respects t.layout (Live cs) (Writable cs) (Output cs) written t.store) {x : Nat}
    (hx : x < h.brk) (hfree : ∀ c ∈ cs, c.Result → ¬ c.At x) :
    t.run body (.mem x) = (t.heaps t.held.node).mem x := by
  apply Prog.run_frame body hbody
  rintro ⟨i, j⟩ ⟨c, hc, hj⟩ ⟨c', hc', hw⟩ heq
  obtain rfl : c = c' := Option.some.inj (hc.symm.trans hc')
  obtain ⟨a, b, ha, hca, hb, hsame⟩ := ht.live hcap hlen hc
  change j < c.bytes at hj
  rw [← hca.bytes] at hj
  have hcount : as.length ≤ 17 := hlen ▸ hadm.count
  by_cases hcop : b.callway = .cop
  · rw [ht.layout_cop hcount hb hcop] at heq
    cases heq
  · rw [ht.layout_addr hcount hb hcop, decide_eq_true (hhome.trans ht.homenode.symm)] at heq
    change Loc.mem (b.localarg.toNat + j) = _ at heq
    have haddr := Loc.mem.inj heq
    rw [hsame.localarg] at haddr
    have hcopa : a.callway ≠ .cop := hsame.callway ▸ hcop
    by_cases hcop2 : a.callway = .cop2
    · have habove := (hca.copy (quantity_pos_of_bytes hj) hcop2).1
      omega
    · have hmem := List.mem_of_getElem? hc
      have hat : a.AtHome x := ⟨by omega, by omega⟩
      exact hfree c hmem ((hca.buffer (hadm.valid c hmem) hcopa hcop2).resolve_right hw)
        (hca.at_buffer (hadm.valid c hmem) hcopa hcop2 hat).1

/-- A scalar, a buffer passed by reference and a result. -/
def mixedArgs : List CArg :=
  [⟨1, ⟨0, .int⟩, .cop, 100⟩, ⟨1, ⟨0, .char⟩, .ref, 200⟩,
    ⟨1, ⟨0, .char⟩, .res, 300⟩]

def mixedHeap : ByteHeap :=
  ⟨fun x ↦ if x = 100 then 7 else 0, 1000⟩

def mixedCreation : Creation :=
  (torcTask { me := 0, table := [] } 0 0 mixedHeap mixedArgs).get (by decide)

def mixedStart : Traveller :=
  mixedCreation.start fun _ ↦ mixedHeap

/-- To node 1 by the thread 3 of node 0. -/
def mixedEnqueue : Hop :=
  .enqueue true 0 3 1 fun i ↦ 1000 + 10 * i

/-- To the thread 5 of node 2. -/
def mixedSteal : Hop :=
  .steal 2 5 fun i ↦ 2000 + 10 * i

/-- One byte on the tag of the descriptors. -/
def stealingRequest (node : Nat) : PayloadMessage :=
  ⟨(node, maxNvps), 1, fun _ ↦ 9⟩

/-- A move whose payloads arrive behind a stealing request. -/
def Traveller.moving (t : Traveller) (hop : Hop) : JourneyEvent :=
  .move hop (stealingRequest t.held.node ::
    packets t.held.node (t.heaps t.held.node) (hop.sent t.held) (hop.sends t.held))

/-- The results with the answer of the thread with id `tag`. -/
def Traveller.resultPackets (t : Traveller) (body : Body) (tag : Nat) : List PayloadMessage :=
  packets t.held.node (t.ran body) (stampSource t.held.node tag t.held.desc .torcAnswer)
    (sendDescriptor t.held.node tag t.held.desc.homenode t.held.desc .torcAnswer)

def mixedOnce : Traveller :=
  (mixedStart.step (mixedStart.moving mixedEnqueue)).get (by decide)

def mixedAway : Traveller :=
  (mixedOnce.step (mixedOnce.moving mixedSteal)).get (by decide)

/-- Copy a byte of the scalar to both buffers. -/
def mixedBody : Body :=
  .read (0, 0) fun v ↦ .write (2, 0) v (.write (1, 0) v .done)

/-- The result of a server is on the tag of the descriptors, where a stealing request before it is
taken for it. -/
example : ((mixedAway.answer maxNvps mixedHeap
    (stealingRequest 2 :: mixedAway.resultPackets mixedBody maxNvps)).map fun r ↦ r.1.mem 200) =
      some 9 := by decide

/-! ## Where it makes a difference -/

/-- One buffer passed by reference twice. -/
def aliasedArgs : List CArg :=
  [⟨1, ⟨0, .char⟩, .ref, 100⟩, ⟨1, ⟨0, .char⟩, .ref, 100⟩]

def aliasedStart : Traveller :=
  ((torcTask { me := 0, table := [] } 0 0 mixedHeap aliasedArgs).get (by decide)).start fun _ ↦
    mixedHeap

def aliasedAway : Traveller :=
  (aliasedStart.step (aliasedStart.moving mixedEnqueue)).get (by decide)

def aliasedBody : Body :=
  .write (0, 0) 9 .done

/-- `2 ^ 29` doubles. -/
def hugeArgs : List CArg :=
  [⟨2 ^ 29, ⟨0, .double⟩, .cop2, 100⟩]

def hugeHeap : ByteHeap :=
  { mixedHeap with brk := 2 ^ 33 }

def manyArgs : List CArg :=
  List.replicate 18 ⟨1, ⟨0, .char⟩, .ptr, 100⟩

/-- The contents of an argument are not what was captured, on the creating node itself. -/
def Garbled (h : ByteHeap) (cs : List CArg) (cell : Nat × Nat) : Prop :=
  ∃ c, torcTask { me := 0, table := [] } 0 0 h cs = some c ∧ Live cs cell ∧
  ¬ Output cs cell ∧
    (c.start fun _ ↦ h).store ((c.start fun _ ↦ h).layout cell) ≠ captured h cs cell.1 cell.2

end Torc
