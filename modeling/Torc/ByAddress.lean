import Torc.Landing
import Torc.Transparency

/-!
# Arguments by address

A `CALL_BY_VAD` argument stores the caller's pointer in its slot.  The body gets the slot as for the
other call ways by address, while the routines that transfer arguments treat the slot as the value
of a `CALL_BY_COP`.
-/

namespace Torc

open Transition

/-! ## What a move sends for one argument -/

def Hop.sentFor (held : Held) (hop : Hop) (i : Nat) : List Torc.Transfer :=
  ((hop.sends held).filterMap Effect.isend?).filter fun t ↦ t.arg = i

/-- A move to another node sends the elements of argument `i` from where the sender has them, and
nothing else for it. -/
def Hop.Transmits (held : Held) (hop : Hop) (i : Nat) : Prop :=
  hop.Away held → ∀ a, held.desc.liveArgs[i]? = some a →
    hop.sentFor held i =
      [⟨i, .addr (a.slot (held.desc.homenode = held.node)), a.quantity, a.dtype⟩]

theorem sendArgument_arg {node tag homenode sourcenode i : Nat} {a : Arg} {t : Transfer}
    (ht : t ∈ (sendArgument node tag homenode sourcenode i a).filterMap Effect.isend?) :
    t.arg = i := by
  obtain ⟨e, he, het⟩ := List.mem_filterMap.mp ht
  obtain ⟨payload, rfl, harg⟩ := effect_sendArgument he
  cases het
  exact harg

/-- The loop of `send_arguments` sends for argument `k` what its `k`-th iteration sends. -/
theorem filter_zipIdx (f : Arg → Nat → List Effect)
    (hf : ∀ a i, ∀ t ∈ (f a i).filterMap Effect.isend?, t.arg = i)
    (as : List Arg) (n k : Nat) :
    ((((as.zipIdx n).flatMap fun (a, i) ↦ f a i).filterMap Effect.isend?).filter
        fun t ↦ t.arg = n + k) =
      (as[k]?.map fun a ↦ (f a (n + k)).filterMap Effect.isend?).getD [] := by
  induction as generalizing n k with
  | nil => rfl
  | cons a as ih =>
      simp only [List.zipIdx_cons, List.flatMap_cons, List.filterMap_append, List.filter_append]
      cases k with
      | zero =>
          -- all of the first iteration, nothing of the others
          have hhead : ((f a n).filterMap Effect.isend?).filter (fun t ↦ t.arg = n + 0) =
              (f a n).filterMap Effect.isend? := by
            rw [List.filter_eq_self]
            intro t ht
            exact decide_eq_true (hf a n t ht)
          have htail : ((((as.zipIdx (n + 1)).flatMap fun (a, i) ↦ f a i).filterMap
              Effect.isend?).filter fun t ↦ t.arg = n + 0) = [] := by
            rw [List.filter_eq_nil_iff]
            intro t ht heq
            obtain ⟨c, hc, hct⟩ := List.mem_filterMap.mp ht
            obtain ⟨p, hp, hcp⟩ := List.mem_flatMap.mp hc
            have hle := (List.mem_zipIdx hp).1
            have harg := hf p.1 p.2 t (List.mem_filterMap.mpr ⟨c, hcp, hct⟩)
            have hn := of_decide_eq_true heq
            omega
          rw [hhead, htail, List.append_nil]
          rfl
      | succ k =>
          have hhead : ((f a n).filterMap Effect.isend?).filter (fun t ↦ t.arg = n + (k + 1)) =
              [] := by
            rw [List.filter_eq_nil_iff]
            intro t ht heq
            have harg := hf a n t ht
            have hn := of_decide_eq_true heq
            omega
          have hshift : n + (k + 1) = n + 1 + k := by omega
          rw [hhead, List.nil_append, List.getElem?_cons_succ, hshift]
          exact ih (n + 1) k

theorem sendArgument_sends {a : Arg} (hq : 0 < a.quantity)
    (node tag homenode sourcenode i : Nat) :
    (sendArgument node tag homenode sourcenode i a).filterMap Effect.isend? =
        [⟨i, .addr (a.slot (homenode = sourcenode)), a.quantity, a.dtype⟩] ↔
      a.callway = .ref ∨ a.callway = .ptr ∨ a.callway = .cop2 := by
  by_cases haddr : a.callway = .ref ∨ a.callway = .ptr ∨ a.callway = .cop2
  · rw [sendArgument_address (by omega) haddr]
    exact iff_of_true rfl haddr
  · refine iff_of_false (fun h ↦ ?_) haddr
    rw [sendArgument, if_neg (by omega), if_neg haddr] at h
    split at h
    · -- the slot itself, or nothing
      split at h
      · cases h
      · split at h <;> cases h
    · cases h

/-- Of the arguments with elements, a move away transmits those of three call ways. -/
theorem Hop.transmits_iff {held : Held} (htype : held.desc.type ≠ .torcNoWork) {hop : Hop}
    (haway : hop.Away held) {i : Nat} {a : Arg} (ha : held.desc.liveArgs[i]? = some a)
    (hq : 0 < a.quantity) :
    hop.Transmits held i ↔ a.callway = .ref ∨ a.callway = .ptr ∨ a.callway = .cop2 := by
  have hne : ∀ roundRobin targetQueue, hop ≠ .insert roundRobin targetQueue := by
    rintro roundRobin targetQueue rfl
    exact haway
  have hdst : held.desc.homenode ≠ hop.dst held := by
    cases hop with
    | insert roundRobin targetQueue => exact haway.elim
    | enqueue roundRobin targetQueue tag dst mem => exact haway
    | steal thief vpid mem => exact haway
  have htr := hop.transfer htype hne
  obtain ⟨tag, -, -, hsends, -⟩ := htr.away hdst
  have hsent : hop.sentFor held i = (sendArgument (hop.dst held) tag held.desc.homenode held.node
      i a).filterMap Effect.isend? := by
    have hloop := filter_zipIdx
      (fun a i ↦ sendArgument (hop.dst held) tag held.desc.homenode held.node i a)
      (fun _ _ _ h ↦ sendArgument_arg h) held.desc.liveArgs 0 i
    rw [ha, Option.map_some, Option.getD_some, Nat.zero_add] at hloop
    rw [Hop.sentFor, hsends, sendArguments, htr.liveArgs, htr.homenode, htr.sourcenode]
    exact hloop
  have hargument := sendArgument_sends hq (hop.dst held) tag held.desc.homenode held.node i
  rw [← hargument, ← hsent]
  exact ⟨fun h ↦ h haway a ha, fun h _ b hb ↦ by
    obtain rfl : a = b := Option.some.inj (ha.symm.trans hb)
    exact h⟩

/-! ## Itineraries -/

/-- A journey with the moves it has made, each with the descriptor before it. -/
structure Itinerary where
  traveller : Traveller
  moves : List (Held × Hop) := []

def JourneyEvent.moves (held : Held) : JourneyEvent → List (Held × Hop)
  | .move hop _ => [(held, hop)]
  | .others _ _ => []

def itineraries (start : Traveller) : System Itinerary JourneyEvent where
  init := fun s ↦ s = ⟨start, []⟩
  step := fun e s ↦ (s.traveller.step e).map fun t ↦
    ⟨t, s.moves ++ e.moves s.traveller.held⟩

def Itinerary.Permitted (e : JourneyEvent) (s : Itinerary) : Prop :=
  e.Permitted s.traveller

/-- The body would find in its argument `i` a pointer to the elements that `x` had in memory `h`. -/
def Traveller.Finds (t : Traveller) (h : ByteHeap) (x : CArg) (i : Nat) : Prop :=
  ∃ p, (callArguments t.held.node t.held.desc).bind (fun args ↦ args[i]?.join) =
      some (.addr p) ∧
    ∀ j < x.bytes, (t.heaps t.held.node).mem (p.toNat + j) = h.mem (x.ptr + j)

/-- All moves transmitted the elements of argument `i`, and the body would find them. -/
def Itinerary.Delivers (s : Itinerary) (h : ByteHeap) (x : CArg) (i : Nat) : Prop :=
  (∀ m ∈ s.moves, m.2.Transmits m.1 i) ∧ s.traveller.Finds h x i

/-- No move took the descriptor away from its home node. -/
def Itinerary.StayedHome (s : Itinerary) : Prop :=
  ∀ m ∈ s.moves, ¬ m.2.Away m.1

/-- The macros of `_torc_core_execution` pass argument `i` in its place. -/
def PassedInPlace (narg i : Nat) : Prop :=
  (macroArguments narg).bind (·[i]?) = some i

instance (narg i : Nat) : Decidable (PassedInPlace narg i) :=
  inferInstanceAs (Decidable (_ = _))

theorem passedInPlace_of_le {narg i : Nat} (hnarg : narg ≤ 17) (hi : i < narg) :
    PassedInPlace narg i := by
  unfold PassedInPlace macroArguments
  rw [if_pos hnarg, Option.bind_some, List.getElem?_range hi]

/-- Otherwise the macros pass no argument there or an entry that was not filled. -/
theorem macroArguments_getElem? {narg i k : Nat} (hi : i < narg)
    (hk : (macroArguments narg).bind (·[i]?) = some k) : k = i ∨ k = narg := by
  by_cases hnarg : narg ≤ 17
  · have hp := passedInPlace_of_le hnarg hi
    exact .inl (Option.some.inj (hk.symm.trans hp))
  · by_cases htop : narg ≤ 23
    · have hall :
          ∀ n < 24, ∀ j < n, ∀ l ∈ (macroArguments n).bind (·[j]?), l = j ∨ l = n := by
        decide
      exact hall narg (by omega) i hi k hk
    · have hnone : macroArguments narg = none := by
        unfold macroArguments
        rw [if_neg hnarg]
        split <;> first | omega | rfl
      rw [hnone] at hk
      cases hk

/-! ## Every itinerary -/

/-- Argument `i` of a descriptor from node `home` is the pointer that `x` passes by address. -/
structure Addressed (home narg i : Nat) (x : CArg) (held : Held) : Prop where
  homenode : held.desc.homenode = home
  type : held.desc.type ≠ .torcNoWork
  narg : held.desc.narg = narg
  arg : ∃ a, held.desc.liveArgs[i]? = some a ∧ a.callway = .vad ∧ a.quantity = x.quantity ∧
    a.btype = x.dtype.ty ∧ a.localarg = x.ptr

variable {home narg i : Nat} {x : CArg} {h : ByteHeap} {s s' : Itinerary}

theorem Addressed.land {held : Held} (ha : Addressed home narg i x held) (hop : Hop) :
    Addressed home narg i x (hop.land held) := by
  have hsame := hop.land_same held
  obtain ⟨a, hi, hvad, hq, hty, hlocal⟩ := ha.arg
  obtain ⟨b, hb, hkept, -⟩ := hop.land_arg ha.type hi
  exact ⟨hsame.homenode.trans ha.homenode, hop.land_type held ha.type, hsame.narg.trans ha.narg,
    b, hb, hkept.callway.trans hvad, hkept.quantity.trans hq, hkept.btype.trans hty,
    hkept.localarg.trans hlocal⟩

/-- As long as the descriptor stays at home the elements are where the caller has them. -/
structure Itinerary.Inv (home narg i : Nat) (x : CArg) (h : ByteHeap) (s : Itinerary) : Prop where
  now : Addressed home narg i x s.traveller.held
  before : ∀ m ∈ s.moves, Addressed home narg i x m.1
  node : s.StayedHome → s.traveller.held.node = home
  elements : s.StayedHome → ∀ j < x.bytes,
    (s.traveller.heaps home).mem (x.ptr + j) = h.mem (x.ptr + j)

/-- A move that does not lead away stores nothing. -/
theorem carry_stays {t t' : Traveller} (htype : t.held.desc.type ≠ .torcNoWork) {hop : Hop}
    {arriving : List PayloadMessage} (hnode : t.held.node = t.held.desc.homenode)
    (hstays : ¬ hop.Away t.held) (hc : t.carry hop arriving = some t') :
    t'.held.node = t.held.desc.homenode ∧ t'.heaps = t.heaps := by
  obtain ⟨ps, g, -, hrun, rfl⟩ := carry_some hc
  have hdst : hop.dst t.held = t.held.desc.homenode := by
    cases hop with
    | insert roundRobin targetQueue => exact hnode
    | enqueue roundRobin targetQueue tag dst mem => exact (not_not.mp hstays).symm
    | steal thief vpid mem => exact (not_not.mp hstays).symm
  have hreceives : hop.receives t.held = [] := by
    by_cases hinsert : ∃ roundRobin targetQueue, hop = .insert roundRobin targetQueue
    · obtain ⟨roundRobin, targetQueue, rfl⟩ := hinsert
      rfl
    · have htr := hop.transfer htype fun roundRobin targetQueue heq ↦
        hinsert ⟨roundRobin, targetQueue, heq⟩
      exact (htr.home hdst.symm).1
  rw [hreceives, perform, Option.some.injEq, Prod.mk.injEq] at hrun
  refine ⟨(hop.land_node t.held).trans ?_, ?_⟩
  · cases hop <;> exact hdst
  · rw [← hrun.1]
    exact Function.update_eq_self ..

theorem Itinerary.Inv.step {start : Traveller} (hs : s.Inv home narg i x h)
    (hq : 0 < x.quantity) {e : JourneyEvent} (hok : s.Permitted e)
    (hstep : (itineraries start).step e s = some s') : s'.Inv home narg i x h := by
  obtain ⟨t, ht, rfl⟩ := Option.map_eq_some_iff.mp hstep
  cases e with
  | move hop arriving =>
      obtain ⟨ps, g, -, -, hland⟩ := carry_some ht
      have hnow : Addressed home narg i x t.held := by
        rw [hland]
        exact hs.now.land hop
      have hstayed : (⟨t, s.moves ++ [(s.traveller.held, hop)]⟩ : Itinerary).StayedHome →
          s.StayedHome ∧ ¬ hop.Away s.traveller.held := fun hall ↦
        ⟨fun m hm ↦ hall m (List.mem_append_left _ hm),
          hall _ (List.mem_append_right _ List.mem_cons_self)⟩
      have hcarry : (⟨t, s.moves ++ [(s.traveller.held, hop)]⟩ : Itinerary).StayedHome →
          t.held.node = home ∧ t.heaps = s.traveller.heaps := fun hall ↦ by
        obtain ⟨hbefore, hstays⟩ := hstayed hall
        have hnode := (hs.node hbefore).trans hs.now.homenode.symm
        have hc := carry_stays hs.now.type hnode hstays ht
        exact ⟨hc.1.trans hs.now.homenode, hc.2⟩
      refine ⟨hnow, fun m hm ↦ ?_, fun hall ↦ (hcarry hall).1, fun hall j hj ↦ ?_⟩
      · rcases List.mem_append.mp hm with hm | hm
        · exact hs.before m hm
        · rw [List.mem_singleton.mp hm]
          exact hs.now
      · show (t.heaps home).mem _ = _
        rw [(hcarry hall).2]
        exact hs.elements (hstayed hall).1 j hj
  | others node g =>
      cases ht
      have hmoves : s.moves ++ JourneyEvent.moves s.traveller.held (.others node g) = s.moves :=
        List.append_nil _
      rw [hmoves]
      refine ⟨hs.now, hs.before, hs.node, fun hall j hj ↦ ?_⟩
      show (Function.update s.traveller.heaps node g home).mem _ = _
      by_cases hnode : home = node
      · subst hnode
        obtain ⟨a, ha, hvad, haq, hty, hlocal⟩ := hs.now.arg
        -- the buffer belongs to the descriptor, which the other threads respect
        have howns : s.traveller.Owns home (x.ptr + j) := by
          refine .inl ⟨hs.now.homenode.symm, a, List.mem_of_getElem? ha,
            ⟨⟨by omega, ?_⟩, ?_⟩, ?_⟩
          · rw [hvad]
            decide
          · rw [hvad]
            decide
          · have hbytes : a.bytes = x.bytes := by
              rw [Arg.bytes, CArg.bytes, mpiTypeSize, haq, hty]
            rw [Arg.AtHome, hlocal, hbytes]
            omega
        rw [Function.update_self, hok.2 _ howns]
        exact hs.elements hall j hj
      · rw [Function.update_of_ne hnode]
        exact hs.elements hall j hj

theorem Itinerary.Inv.start {r : Routine} {who : Creator} {taskId work : Nat} {cs : List CArg}
    {c : Creation} (hc : r.create who taskId work h cs = some c) (hx : cs[i]? = some x)
    (hvad : x.callway = .vad) (hq : 0 < x.quantity) (hbuffer : x.ptr + x.bytes ≤ h.brk)
    (heaps : Nat → ByteHeap) :
    Itinerary.Inv who.me cs.length i x h ⟨c.start heaps, []⟩ := by
  obtain ⟨hd, hnarg, hlive⟩ := Routine.create_args hc
  have hhome : c.desc.homenode = who.me := (Routine.create_work hc).2.2
  have htype : c.desc.type = .unset := (Routine.create_header hc).2
  have hcall : (declareArgument x).callway = .vad := by
    have hcop : ¬ (x.callway = .cop ∧ 1 < x.quantity) := by
      rw [hvad]
      exact fun h ↦ nomatch h.1
    exact (if_neg hcop).trans hvad
  obtain ⟨a, h₁, h₂, ha, hstore⟩ := decodeArguments_getElem? hd hx
  rw [r.store_eq (a := declareArgument x) hq] at hstore
  have hpointer : storeArgument h₁ x.ptr (declareArgument x) =
      some ({ declareArgument x with localarg := x.ptr }, h₁) := by
    apply storeArgument_address
    · rw [hcall]
      decide
    · rw [hcall]
      decide
  cases hpointer.symm.trans hstore
  refine ⟨⟨hhome, ?_, hnarg, _, (congrArg (·[i]?) hlive).trans ha, hcall, rfl, rfl, rfl⟩,
    fun m hm ↦ absurd hm List.not_mem_nil, fun _ ↦ hhome, fun _ j hj ↦ ?_⟩
  · show c.desc.type ≠ _
    rw [htype]
    decide
  · show (Function.update heaps c.desc.homenode c.heap who.me).mem _ = _
    rw [hhome, Function.update_self]
    exact (decodeArguments_extends hd).below _ (by omega)

/-- At home the body finds the elements if the argument is passed in its place. -/
theorem Itinerary.Inv.finds (hs : s.Inv home narg i x h) (hstayed : s.StayedHome)
    (hplace : PassedInPlace narg i) : s.traveller.Finds h x i := by
  obtain ⟨a, ha, hvad, -, -, hlocal⟩ := hs.now.arg
  have hnode : s.traveller.held.node = s.traveller.held.desc.homenode :=
    (hs.node hstayed).trans hs.now.homenode.symm
  have hcop : ¬ a.callway = .cop := by
    rw [hvad]
    decide
  have hentry : (coreArguments s.traveller.held.node s.traveller.held.desc)[i]? =
      some (.addr x.ptr) := by
    simp only [coreArguments, List.getElem?_map, List.getElem?_zipIdx, ha, Option.map_some,
      Nat.zero_add, coreArgument, if_neg hcop, hnode, decide_true, Arg.slot, if_true, hlocal]
  obtain ⟨is, his, hi⟩ := Option.bind_eq_some_iff.mp hplace
  refine ⟨x.ptr, ?_, fun j hj ↦ ?_⟩
  · rw [callArguments, hs.now.narg, his]
    simp only [Option.map_some, Option.bind_some, List.getElem?_map, hi, hentry, Option.join_some]
  · rw [Int.toNat_natCast, hs.node hstayed]
    exact hs.elements hstayed j hj

/-- What the body finds in place of an argument was passed there. -/
theorem Itinerary.Inv.place (hs : s.Inv home narg i x h) (hi : i < narg)
    (hfinds : s.traveller.Finds h x i) : PassedInPlace narg i := by
  obtain ⟨p, hp, -⟩ := hfinds
  obtain ⟨args, hargs, hentry⟩ := Option.bind_eq_some_iff.mp hp
  rw [callArguments, hs.now.narg] at hargs
  obtain ⟨is, his, rfl⟩ := Option.map_eq_some_iff.mp hargs
  rw [List.getElem?_map] at hentry
  obtain ⟨k, hk, hcore⟩ := Option.map_eq_some_iff.mp (Option.join_eq_some_iff.mp hentry)
  -- the entry was filled, so that its index is below `narg`
  have hlt : k < (coreArguments s.traveller.held.node s.traveller.held.desc).length :=
    (List.getElem?_eq_some_iff.mp hcore).1
  have hlen : (coreArguments s.traveller.held.node s.traveller.held.desc).length ≤ narg := by
    simp only [coreArguments, List.length_map, List.length_zipIdx, TorcT.liveArgs,
      List.length_take, hs.now.narg]
    exact Nat.min_le_left _ _
  have hpassed : (macroArguments narg).bind (·[i]?) = some k := by
    rw [his, Option.bind_some, hk]
  rcases macroArguments_getElem? hi hpassed with rfl | rfl
  · exact hpassed
  · omega

/-- The elements of a `CALL_BY_VAD` argument reach the body, transmitted wherever the descriptor
went, exactly when it went nowhere and the macros pass the argument in its place. -/
theorem vad_delivered_iff {r : Routine} {who : Creator} {taskId work : Nat} {cs : List CArg}
    {c : Creation} (hc : r.create who taskId work h cs = some c) (hx : cs[i]? = some x)
    (hvad : x.callway = .vad) (hq : 0 < x.quantity) (hbuffer : x.ptr + x.bytes ≤ h.brk)
    (heaps : Nat → ByteHeap)
    (hs : (itineraries (c.start heaps)).ReachableIf Itinerary.Permitted s) :
    s.Delivers h x i ↔ s.StayedHome ∧ PassedInPlace cs.length i := by
  have hinv : s.Inv who.me cs.length i x h := by
    refine hs.invariant _ (fun s hinit ↦ ?_) fun s s' e hinv hok hstep ↦ hinv.step hq hok hstep
    obtain rfl : s = ⟨c.start heaps, []⟩ := hinit
    exact .start hc hx hvad hq hbuffer heaps
  constructor
  · rintro ⟨hsent, hfinds⟩
    refine ⟨fun m hm haway ↦ ?_, hinv.place (List.getElem?_eq_some_iff.mp hx).1 hfinds⟩
    have hm' := hinv.before m hm
    obtain ⟨a, ha, hcall, haq, -⟩ := hm'.arg
    have hthree := (Hop.transmits_iff hm'.type haway ha (by omega)).mp (hsent m hm)
    rw [hcall] at hthree
    simp at hthree
  · rintro ⟨hstayed, hplace⟩
    exact ⟨fun m hm haway ↦ absurd haway (hstayed m hm), hinv.finds hstayed hplace⟩

/-! ## A scalar and an array by address -/

/-- One `int` and four. -/
def vadArgs : List CArg :=
  [⟨1, ⟨0, .int⟩, .vad, 100⟩, ⟨4, ⟨0, .int⟩, .vad, 200⟩]

def vadCreation : Creation :=
  (torcTask { me := 0, table := [] } 0 0 mixedHeap vadArgs).get (by decide)

def vadStart : Traveller :=
  vadCreation.start fun _ ↦ ⟨fun _ ↦ 0, 1000⟩

def vadInserted : Itinerary :=
  ((itineraries vadStart).step (.move (.insert true 0) []) ⟨vadStart, []⟩).get (by decide)

/-- To node 1 by the thread 3 of node 0. -/
def vadEnqueue : Hop :=
  .enqueue true 0 3 1 fun i ↦ 1000 + 10 * i

def vadEnqueued : Itinerary :=
  ((itineraries vadStart).step (vadStart.moving vadEnqueue) ⟨vadStart, []⟩).get (by decide)

theorem vad_delivered_iff_sample :
    (vadInserted.Delivers mixedHeap ⟨4, ⟨0, .int⟩, .vad, 200⟩ 1 ∧
      vadInserted.StayedHome ∧ PassedInPlace vadArgs.length 1) ∧
      (vadEnqueued.Delivers mixedHeap ⟨4, ⟨0, .int⟩, .vad, 200⟩ 1 ↔
        vadEnqueued.StayedHome ∧ PassedInPlace vadArgs.length 1) ∧
        ¬ vadEnqueued.StayedHome := by
  have hc : Routine.task.create { me := 0, table := [] } 0 0 mixedHeap vadArgs =
      some vadCreation := (Option.some_get (by decide)).symm
  have hinserted : (itineraries vadStart).ReachableIf Itinerary.Permitted vadInserted :=
    .step (.init rfl) (a := .move (.insert true 0) []) rfl (Option.some_get _).symm
  have henqueued : (itineraries vadStart).ReachableIf Itinerary.Permitted vadEnqueued :=
    .step (.init rfl) (a := vadStart.moving vadEnqueue) trivial (Option.some_get _).symm
  have hstayed : vadInserted.StayedHome ∧ PassedInPlace vadArgs.length 1 := by
    refine ⟨fun m hm haway ↦ ?_, by decide⟩
    obtain rfl := List.mem_singleton.mp hm
    exact haway
  refine ⟨⟨(vad_delivered_iff hc rfl rfl (by decide)
    (by decide) _ hinserted).mpr hstayed, hstayed⟩,
    vad_delivered_iff hc rfl rfl (by decide) (by decide) _ henqueued, fun hall ↦ ?_⟩
  have haway : vadEnqueue.Away vadStart.held := show (0 : Nat) ≠ 1 by decide
  exact hall _ List.mem_cons_self haway

theorem Traveller.not_finds {t : Traveller} {p : Int} {j : Nat}
    (hp : (callArguments t.held.node t.held.desc).bind (fun args ↦ args[i]?.join) =
      some (.addr p))
    (hj : j < x.bytes) (hne : (t.heaps t.held.node).mem (p.toNat + j) ≠ h.mem (x.ptr + j)) :
    ¬ t.Finds h x i := by
  rintro ⟨p', hp', hall⟩
  cases hp.symm.trans hp'
  exact hne (hall j hj)

/-- On node 1 the scalar is the address 100, where node 1 has other contents.  For the array the two
slots from its own on were sent, and the body finds there the bytes of the pointer 200. -/
theorem not_vad_delivered :
    (itineraries vadStart).ReachableIf Itinerary.Permitted vadEnqueued ∧
      vadEnqueue.sentFor vadStart.held 0 = [] ∧
      vadEnqueue.sentFor vadStart.held 1 = [⟨1, .localSlot 1, 4, ⟨0, .int⟩⟩] ∧
      ¬ vadEnqueued.traveller.Finds mixedHeap ⟨1, ⟨0, .int⟩, .vad, 100⟩ 0 ∧
      ¬ vadEnqueued.traveller.Finds mixedHeap ⟨4, ⟨0, .int⟩, .vad, 200⟩ 1 := by
  refine ⟨?_, by decide, by decide, ?_, ?_⟩
  · exact .step (.init rfl) (a := vadStart.moving vadEnqueue) trivial (Option.some_get _).symm
  · exact Traveller.not_finds (p := 100) (j := 0) (by decide) (by decide) (by decide)
  · exact Traveller.not_finds (p := 1010) (j := 0) (by decide) (by decide) (by decide)

end Torc
