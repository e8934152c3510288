import Torc.Landing
import Torc.Transparency

/-!
# Arguments without elements

`torc_createf` and `torc_taskf` fill a descriptor by the second pass of `torc_task` without its test
for a quantity of 0.
-/

namespace Torc

open LittleEndian

/-- The addresses that `storeArgument` dereferences. -/
def dereferenced (ptr : Nat) (a : Arg) : List Nat :=
  match a.callway with
  | .cop =>
      let size := mpiTypeSize a.dtype
      if size = 4 ∨ size = 8 then List.range' ptr size else []
  | .cop2 => List.range' ptr (byteCount a.quantity (mpiTypeSize a.dtype))
  | _ => []

def dereferencedC (ptr : Nat) (a : Arg) : List Nat :=
  if a.quantity = 0 then [] else dereferenced ptr a

def Routine.dereferenced : Routine → Nat → Arg → List Nat
  | .createf | .taskf _ => Torc.dereferenced
  | _ => dereferencedC

/-- An argument as the second pass leaves it and the addresses it has dereferenced for it. -/
structure Filled where
  arg : Arg
  reads : List Nat

/-- The arguments that the second pass has filled at its end or before an `Error`. -/
structure Fill where
  filled : List Filled := []
  error : Bool := false

def Routine.fill (r : Routine) (h : ByteHeap) : List CArg → Fill
  | [] => {}
  | c :: cs =>
      match r.store h c.ptr (declareArgument c) with
      | none => { error := true }
      | some (a, h) =>
          let rest := r.fill h cs
          { rest with filled := ⟨a, r.dereferenced c.ptr (declareArgument c)⟩ :: rest.filled }

/-- The same entries, and no address that is not dereferenced there. -/
def Filled.Agrees (x y : Filled) : Prop :=
  x.arg = y.arg ∧ x.reads ⊆ y.reads

def Fill.Agrees (x y : Fill) : Prop :=
  x.error = y.error ∧ List.Forall₂ Filled.Agrees x.filled y.filled

/-- What a body called where the descriptor is finds of argument `i`: the entry of `args`, and the
slot of the descriptor that it may point to. -/
def Held.seen (held : Held) (i : Nat) : Option (Pointer × Int) :=
  held.desc.liveArgs[i]?.map fun a ↦
    (coreArgument (held.node = held.desc.homenode) i a, a.slot (held.node = held.desc.homenode))

/-- The routine fills a descriptor as `torc_task` does, does not read an empty argument, and lets
the body find the same of it wherever the task is executed. -/
structure FillsAsTask (r : Routine) (who : Creator) (taskId work : Nat) (h : ByteHeap)
    (cs : List CArg) : Prop where
  fill : (r.fill h cs).Agrees (Routine.task.fill h cs)
  created : (r.create who taskId work h cs).map (fun c ↦ c.desc.args) =
    (torcTask who taskId work h cs).map fun c ↦ c.desc.args
  unread : ∀ (i : Nat) (c : CArg) (x : Filled), cs[i]? = some c → c.quantity = 0 →
    (r.fill h cs).filled[i]? = some x → x.reads = []
  seen : ∀ c, r.create who taskId work h cs = some c →
    ∀ (i : Nat) (x : CArg), cs[i]? = some x →
    x.quantity = 0 → ∀ hops hops',
      (travel ⟨who.me, c.desc⟩ hops).seen i = (travel ⟨who.me, c.desc⟩ hops').seen i

/-- The argument at which `torc_task` stops with an `Error`. -/
def CArg.Rejected (c : CArg) : Prop :=
  c.quantity = 1 ∧ c.callway = .cop ∧ ¬(mpiTypeSize c.dtype = 4 ∨ mpiTypeSize c.dtype = 8)

/-- The bytes of a private copy. -/
def CArg.copied (c : CArg) : Nat :=
  if (declareArgument c).callway = .cop2 then byteCount c.quantity (mpiTypeSize c.dtype) else 0

/-- Empty arguments are passed by null pointers, none of them by `CALL_BY_COP`, and one by
`CALL_BY_COP2` only where `malloc`, which returns the break, returns a null pointer.  What follows a
rejected argument does not matter. -/
def NullWhereEmpty (brk : Nat) : List CArg → Prop
  | [] => True
  | c :: cs =>
      (c.quantity = 0 → c.callway ≠ .cop ∧ (if c.callway = .cop2 then brk else c.ptr) = 0) ∧
        (¬c.Rejected → NullWhereEmpty (brk + c.copied) cs)

/-! ## One argument -/

variable {r : Routine} {h h' : ByteHeap} {c : CArg} {cs : List CArg} {a a' : Arg} {ptr i : Nat}

theorem Routine.dereferenced_eq (r : Routine) (hq : 0 < a.quantity) :
    r.dereferenced ptr a = Torc.dereferenced ptr a := by
  have hc : dereferencedC ptr a = Torc.dereferenced ptr a := if_neg (by omega)
  cases r with
  | createf => rfl
  | taskf type => rfl
  | _ => exact hc

theorem storeArgument_eq_none_iff (hq : 0 < c.quantity) :
    storeArgument h c.ptr (declareArgument c) = none ↔ c.Rejected := by
  by_cases hcop : (declareArgument c).callway = .cop
  · have hone : c.quantity = 1 := Nat.le_antisymm (declareArgument_scalar c hcop) hq
    have hcallway := declareArgument_callway_of_le hone.le
    rw [storeArgument_cop hcop, CArg.Rejected, hone, ← hcallway, hcop]
    simp only [ite_eq_right_iff, reduceCtorEq, imp_false, true_and]
    rfl
  · have hnot : ¬c.Rejected := by
      intro hrej
      exact hcop ((declareArgument_callway_of_le hrej.1.le).trans hrej.2.1)
    refine iff_of_false (fun hnone ↦ ?_) hnot
    by_cases hcop2 : (declareArgument c).callway = .cop2
    · rw [storeArgument_cop2 hcop2] at hnone
      cases hnone
    · rw [storeArgument_address hcop hcop2] at hnone
      cases hnone

theorem storeArgument_brk {x : Arg}
    (hs : storeArgument h c.ptr (declareArgument c) = some (x, h')) :
    h'.brk = h.brk + c.copied := by
  rw [CArg.copied]
  by_cases hcop : (declareArgument c).callway = .cop
  · rw [storeArgument_cop hcop] at hs
    obtain ⟨-, heq⟩ := Option.ite_none_right_eq_some.mp hs
    cases heq
    rw [hcop, if_neg (by decide), Nat.add_zero]
  · by_cases hcop2 : (declareArgument c).callway = .cop2
    · rw [storeArgument_cop2 hcop2] at hs
      cases hs
      rw [if_pos hcop2]
      rfl
    · rw [storeArgument_address hcop hcop2] at hs
      cases hs
      rw [if_neg hcop2, Nat.add_zero]

/-! ## Both passes -/

theorem Routine.fill_of_some (hs : r.store h c.ptr (declareArgument c) = some (a, h')) :
    r.fill h (c :: cs) = { r.fill h' cs with
      filled := ⟨a, r.dereferenced c.ptr (declareArgument c)⟩ :: (r.fill h' cs).filled } := by
  simp only [Routine.fill, hs]

theorem Routine.fill_of_none (hs : r.store h c.ptr (declareArgument c) = none) :
    r.fill h (c :: cs) = { error := true } := by
  simp only [Routine.fill, hs]

theorem Fill.agrees_cons {x y : Filled} {f g : Fill} :
    Fill.Agrees { f with filled := x :: f.filled } { g with filled := y :: g.filled } ↔
      x.Agrees y ∧ f.Agrees g := by
  simp only [Fill.Agrees, List.forall₂_cons]
  tauto

/-- `torc_task` leaves an empty argument as the first pass declared it. -/
theorem task_fill_empty (hq : c.quantity = 0) :
    Routine.task.fill h (c :: cs) = { Routine.task.fill h cs with
      filled := ⟨declareArgument c, []⟩ :: (Routine.task.fill h cs).filled } := by
  have hs : Routine.task.store h c.ptr (declareArgument c) = some (declareArgument c, h) :=
    if_pos hq
  have hreads : Routine.task.dereferenced c.ptr (declareArgument c) = [] := if_pos hq
  rw [Routine.fill_of_some hs, hreads]

theorem Routine.fortran_store (hr : ¬r.OfC) : r.store = storeArgument := by
  cases r with
  | createf => rfl
  | taskf type => rfl
  | _ => exact absurd trivial hr

theorem Routine.fortran_dereferenced (hr : ¬r.OfC) : r.dereferenced = Torc.dereferenced := by
  cases r with
  | createf => rfl
  | taskf type => rfl
  | _ => exact absurd trivial hr

/-- An empty argument of a Fortran routine, unless it is passed by `CALL_BY_COP`. -/
theorem fortran_empty (hr : ¬r.OfC) (hq : c.quantity = 0)
    (hcop : (declareArgument c).callway ≠ .cop) :
    r.store h c.ptr (declareArgument c) = some ({ declareArgument c with
      localarg := (if (declareArgument c).callway = .cop2 then h.brk else c.ptr : Nat) }, h) ∧
    r.dereferenced c.ptr (declareArgument c) = [] := by
  rw [Routine.fortran_store hr, Routine.fortran_dereferenced hr, dereferenced]
  by_cases hcop2 : (declareArgument c).callway = .cop2
  · have hbytes :
        byteCount (declareArgument c).quantity (mpiTypeSize (declareArgument c).dtype) = 0 := by
      have hzero : (declareArgument c).quantity = 0 := hq
      rw [hzero, byteCount_zero]
    rw [storeArgument_cop2 hcop2, hbytes, ByteHeap.extend_store_zero, if_pos hcop2]
    simp only [hcop2, List.range'_zero, and_self]
  · rw [storeArgument_address hcop hcop2, if_neg hcop2]
    split
    · exact absurd ‹_› hcop
    · exact absurd ‹_› hcop2
    · exact ⟨rfl, rfl⟩

/-- The first pass leaves a slot at 0. -/
theorem filled_agrees_declared {x : Nat} :
    Filled.Agrees ⟨{ declareArgument c with localarg := x }, []⟩ ⟨declareArgument c, []⟩ ↔
      x = 0 := by
  constructor
  · intro h
    have hslot : (x : Int) = 0 := congrArg Arg.localarg h.1
    exact Int.natCast_eq_zero.mp hslot
  · intro h
    rw [h]
    exact ⟨rfl, List.nil_subset _⟩

theorem fill_empty_agrees_iff (hr : ¬r.OfC) (hq : c.quantity = 0) :
    (r.fill h (c :: cs)).Agrees (Routine.task.fill h (c :: cs)) ↔
      (c.callway ≠ .cop ∧ (if c.callway = .cop2 then h.brk else c.ptr) = 0) ∧
        (r.fill h cs).Agrees (Routine.task.fill h cs) := by
  rw [task_fill_empty hq, ← declareArgument_callway_of_le (by omega)]
  by_cases hcop : (declareArgument c).callway = .cop
  · -- it is read, or its type is rejected
    refine iff_of_false (fun hagree ↦ ?_) fun h ↦ h.1.1 hcop
    have hs := congrFun (congrFun (congrFun (Routine.fortran_store hr) h) c.ptr) (declareArgument c)
    rw [storeArgument_cop hcop] at hs
    by_cases hsize : mpiTypeSize (declareArgument c).dtype = 4 ∨
        mpiTypeSize (declareArgument c).dtype = 8
    · rw [if_pos hsize] at hs
      rw [Routine.fill_of_some hs, Fill.agrees_cons] at hagree
      have hread : c.ptr ∈ r.dereferenced c.ptr (declareArgument c) := by
        simp only [Routine.fortran_dereferenced hr, dereferenced, hcop, if_pos hsize,
          List.mem_range'_1]
        omega
      exact absurd (hagree.1.2 hread) List.not_mem_nil
    · rw [if_neg hsize] at hs
      rw [Routine.fill_of_none hs] at hagree
      cases hagree.2
  · obtain ⟨hs, hread⟩ := fortran_empty hr (h := h) hq hcop
    rw [Routine.fill_of_some hs, Fill.agrees_cons, hread, filled_agrees_declared]
    exact and_congr_left fun _ ↦ (and_iff_right hcop).symm

/-- All routines fill the other arguments in the same way. -/
theorem fill_nonempty_agrees_iff (hq : 0 < c.quantity) :
    (r.fill h (c :: cs)).Agrees (Routine.task.fill h (c :: cs)) ↔
      ∀ a h', storeArgument h c.ptr (declareArgument c) = some (a, h') →
        (r.fill h' cs).Agrees (Routine.task.fill h' cs) := by
  have hdeclared : 0 < (declareArgument c).quantity := hq
  cases hs : storeArgument h c.ptr (declareArgument c) with
  | none =>
      rw [Routine.fill_of_none ((r.store_eq hdeclared h c.ptr).trans hs),
        Routine.fill_of_none ((Routine.task.store_eq hdeclared h c.ptr).trans hs)]
      exact iff_of_true ⟨rfl, .nil⟩ fun _ _ h ↦ (nomatch h)
  | some b =>
      rw [Routine.fill_of_some ((r.store_eq hdeclared h c.ptr).trans hs),
        Routine.fill_of_some ((Routine.task.store_eq hdeclared h c.ptr).trans hs),
        Fill.agrees_cons, r.dereferenced_eq hdeclared, Routine.task.dereferenced_eq hdeclared]
      constructor
      · intro h a h' heq
        cases heq
        exact h.2
      · intro h
        exact ⟨⟨rfl, List.Subset.refl _⟩, h _ _ rfl⟩

theorem fill_agrees_iff (hr : ¬r.OfC) (h : ByteHeap) (cs : List CArg) :
    (r.fill h cs).Agrees (Routine.task.fill h cs) ↔ NullWhereEmpty h.brk cs := by
  induction cs generalizing h with
  | nil => exact iff_of_true ⟨rfl, .nil⟩ trivial
  | cons c cs ih =>
      by_cases hq : c.quantity = 0
      · -- it is not rejected, and the rest finds the same memory
        have hrejected : ¬c.Rejected := fun hrej ↦ by
          have hone := hrej.1
          omega
        have hcopied : c.copied = 0 := by
          rw [CArg.copied, hq, byteCount_zero, ite_self]
        rw [fill_empty_agrees_iff hr hq, ih, NullWhereEmpty, hcopied, Nat.add_zero]
        simp only [hq, hrejected, not_false_eq_true, forall_const]
      · have hpos : 0 < c.quantity := Nat.pos_of_ne_zero hq
        rw [fill_nonempty_agrees_iff hpos, NullWhereEmpty]
        constructor
        · intro hagree
          refine ⟨fun hzero ↦ absurd hzero hq, fun hrej ↦ ?_⟩
          have hsome : storeArgument h c.ptr (declareArgument c) ≠ none :=
            fun hnone ↦ hrej ((storeArgument_eq_none_iff hpos).mp hnone)
          obtain ⟨b, hb⟩ := Option.ne_none_iff_exists'.mp hsome
          -- the rest is filled behind the private copy
          rw [← storeArgument_brk hb, ← ih]
          exact hagree _ _ hb
        · intro hnull a h' hs
          have hrej : ¬c.Rejected := fun hrej ↦ by
            rw [(storeArgument_eq_none_iff hpos).mpr hrej] at hs
            cases hs
          rw [ih, storeArgument_brk hs]
          exact hnull.2 hrej

theorem decodeArguments_eq_fill (r : Routine) (h : ByteHeap) (cs : List CArg) :
    (decodeArguments r.store h cs).map Prod.fst =
      if (r.fill h cs).error then none else some ((r.fill h cs).filled.map Filled.arg) := by
  induction cs generalizing h with
  | nil => rfl
  | cons c cs ih =>
      rw [decodeArguments]
      cases hs : r.store h c.ptr (declareArgument c) with
      | none =>
          rw [Routine.fill_of_none hs]
          rfl
      | some b =>
          rw [Routine.fill_of_some hs]
          have hrest := ih b.2
          cases herr : (r.fill b.2 cs).error with
          | true =>
              rw [herr, if_pos rfl, Option.map_eq_none_iff] at hrest
              simp only [hrest, Option.bind_eq_bind, Option.bind_some, Option.bind_none,
                Option.map_none, if_true]
          | false =>
              rw [herr, if_neg Bool.false_ne_true, Option.map_eq_some_iff] at hrest
              obtain ⟨d, hd, hargs⟩ := hrest
              simp only [hd, hargs, Option.bind_eq_bind, Option.bind_some, Option.map_some,
                Bool.false_eq_true, if_false, List.map_cons]

theorem Routine.create_args_eq (r : Routine) (who : Creator) (taskId work : Nat) (h : ByteHeap)
    (cs : List CArg) :
    (r.create who taskId work h cs).map (fun c ↦ c.desc.args) =
      if maxTorcArgs < cs.length then none
      else (decodeArguments r.store h cs).map Prod.fst := by
  have hwith : ∀ store parent level rteType counted,
      (createWith store who parent level rteType counted taskId work h cs).map
          (fun c ↦ c.desc.args) =
        if maxTorcArgs < cs.length then none
        else (decodeArguments store h cs).map Prod.fst := by
    intro store parent level rteType counted
    unfold createWith
    split
    · rfl
    · cases decodeArguments store h cs <;> rfl
  cases r <;> exact hwith _ _ _ _ _

theorem Fill.Agrees.args {f g : Fill} (h : f.Agrees g) :
    f.filled.map Filled.arg = g.filled.map Filled.arg := by
  rw [← List.forall₂_eq_eq_eq, List.forall₂_map_left_iff, List.forall₂_map_right_iff]
  exact h.2.imp fun _ _ hxy ↦ hxy.1

theorem Fill.Agrees.created {who : Creator} {taskId work : Nat}
    (hagree : (r.fill h cs).Agrees (Routine.task.fill h cs)) :
    (r.create who taskId work h cs).map (fun c ↦ c.desc.args) =
      (torcTask who taskId work h cs).map fun c ↦ c.desc.args := by
  have htask := Routine.create_args_eq .task who taskId work h cs
  rw [decodeArguments_eq_fill, ← hagree.1, ← hagree.args] at htask
  rw [Routine.create_args_eq, decodeArguments_eq_fill]
  exact htask.symm

theorem task_fill_getElem? {y : Filled} (hy : (Routine.task.fill h cs).filled[i]? = some y)
    (hc : cs[i]? = some c) (hq : c.quantity = 0) : y = ⟨declareArgument c, []⟩ := by
  induction cs generalizing h i with
  | nil => cases hc
  | cons d cs ih =>
      cases hs : Routine.task.store h d.ptr (declareArgument d) with
      | none =>
          rw [Routine.fill_of_none hs] at hy
          cases hy
      | some b =>
          cases i with
          | zero =>
              cases hc
              rw [task_fill_empty hq] at hy
              cases hy
              rfl
          | succ i =>
              rw [Routine.fill_of_some hs] at hy
              exact ih hy hc

theorem Fill.Agrees.unread {x : Filled} (hagree : (r.fill h cs).Agrees (Routine.task.fill h cs))
    (hc : cs[i]? = some c) (hq : c.quantity = 0) (hx : (r.fill h cs).filled[i]? = some x) :
    x.reads = [] := by
  obtain ⟨hi, heq⟩ := List.getElem?_eq_some_iff.mp hx
  have hi' : i < (Routine.task.fill h cs).filled.length := by
    rw [← hagree.2.length_eq]
    exact hi
  have hpair := hagree.2.get hi hi'
  have hempty := task_fill_getElem? (List.getElem?_eq_getElem hi') hc hq
  simp only [List.get_eq_getElem, heq, hempty] at hpair
  exact List.subset_nil.mp hpair.2

/-! ## Every route -/

/-- The routines that move a descriptor skip an empty argument or set its `temparg`. -/
theorem Hop.land_empty {held : Held} (hop : Hop) (ha : held.desc.liveArgs[i]? = some a)
    (hq : a.quantity = 0) (htemp : a.temparg = a.localarg) :
    (hop.land held).desc.liveArgs[i]? = some a := by
  have hreceive : ∀ (me tag : Nat) (mem : Nat → Int) (desc : TorcT),
      desc.liveArgs[i]? = some a →
        (receiveArguments me tag mem desc).1.liveArgs[i]? = some a := by
    intro me tag mem desc hdesc
    rw [receiveArguments_getElem?, hdesc, Option.map_some, receiveArgument, if_pos hq]
  have hplace : ∀ roundRobin targetQueue,
      (place roundRobin targetQueue held.desc).liveArgs[i]? = some a := by
    intro roundRobin targetQueue
    rw [place_liveArgs]
    exact ha
  cases hop with
  | insert roundRobin targetQueue =>
      show (readArguments (place roundRobin targetQueue held.desc)).liveArgs[i]? = _
      have hsame : ({ a with temparg := a.localarg } : Arg) = a := by
        cases a
        cases htemp
        rfl
      rw [readArguments_getElem?, hplace, Option.map_some, hsame]
  | enqueue roundRobin targetQueue tag dst mem =>
      show (receiveEnqueued dst mem _).1.liveArgs[i]? = _
      unfold receiveEnqueued
      split
      · exact hplace roundRobin targetQueue
      · exact hreceive dst _ mem _ (hplace roundRobin targetQueue)
  | steal thief vpid mem =>
      show (receiveStolen thief vpid mem _).1.liveArgs[i]? = _
      unfold receiveStolen
      split
      · exact ha
      · split
        · exact hreceive thief _ mem _ ha
        · exact ha

theorem travel_empty {held : Held} (hops : List Hop) (ha : held.desc.liveArgs[i]? = some a)
    (hq : a.quantity = 0) (htemp : a.temparg = a.localarg) :
    (travel held hops).desc.liveArgs[i]? = some a := by
  induction hops generalizing held with
  | nil => exact ha
  | cons hop hops ih => exact ih (hop.land_empty ha hq htemp)

/-- Where both slots hold the same, the node does not matter. -/
theorem Held.seen_eq {held : Held} (ha : held.desc.liveArgs[i]? = some a)
    (htemp : a.temparg = a.localarg) :
    held.seen i =
      some (if a.callway = .cop then .slot i else .addr a.localarg, a.localarg) := by
  have hslot : ∀ home, a.slot home = a.localarg := by
    intro home
    cases home with
    | true => rfl
    | false => exact htemp
  rw [Held.seen, ha, Option.map_some, coreArgument, hslot]

theorem Fill.Agrees.seen {who : Creator} {taskId work : Nat} {d : Creation}
    (hagree : (r.fill h cs).Agrees (Routine.task.fill h cs))
    (hd : r.create who taskId work h cs = some d) (hc : cs[i]? = some c) (hq : c.quantity = 0)
    (hops hops' : List Hop) :
    (travel ⟨who.me, d.desc⟩ hops).seen i = (travel ⟨who.me, d.desc⟩ hops').seen i := by
  have hcreated : (r.create who taskId work h cs).map (fun c ↦ c.desc.args) =
      (torcTask who taskId work h cs).map fun c ↦ c.desc.args := hagree.created
  rw [hd, Option.map_some] at hcreated
  obtain ⟨t, ht, hargs⟩ := Option.map_eq_some_iff.mp hcreated.symm
  -- `torc_task` has declared the argument and left it alone
  obtain ⟨a, h₁, h₂, ha, hs⟩ :=
    decodeArguments_getElem? (Routine.create_args (r := .task) ht).1 hc
  have hskip : Routine.task.store h₁ c.ptr (declareArgument c) = some (declareArgument c, h₁) :=
    if_pos hq
  cases hskip.symm.trans hs
  have hlive : d.desc.liveArgs[i]? = some (declareArgument c) := by
    rw [(Routine.create_args hd).2.2, ← hargs]
    exact ha
  rw [Held.seen_eq (travel_empty hops hlive hq rfl) rfl,
    Held.seen_eq (travel_empty hops' hlive hq rfl) rfl]

theorem fillsAsTask_iff (hr : ¬r.OfC) (who : Creator) (taskId work : Nat) (h : ByteHeap)
    (cs : List CArg) : FillsAsTask r who taskId work h cs ↔ NullWhereEmpty h.brk cs := by
  rw [← fill_agrees_iff hr]
  exact ⟨FillsAsTask.fill, fun hagree ↦ ⟨hagree, hagree.created,
    fun i c x hc hq hx ↦ hagree.unread hc hq hx,
    fun d hd i c hc hq hops hops' ↦ hagree.seen hd hc hq hops hops'⟩⟩

/-- Fortran and C creation agree for the argument lists whose empty arguments are null pointers. -/
theorem fortran_fills_as_task (who : Creator) (taskId work : Nat) (h : ByteHeap)
    (cs : List CArg) :
    (FillsAsTask .createf who taskId work h cs ↔ NullWhereEmpty h.brk cs) ∧
      ∀ type, FillsAsTask (.taskf type) who taskId work h cs ↔ NullWhereEmpty h.brk cs :=
  ⟨fillsAsTask_iff (r := .createf) (fun h ↦ h) who taskId work h cs,
    fun type ↦ fillsAsTask_iff (r := .taskf type) (fun h ↦ h) who taskId work h cs⟩

/-- A result without elements at address 500: the body finds this address on the home node and a
null pointer elsewhere.  Where the call way is `CALL_BY_COP`, the pointer is dereferenced, here a
null pointer. -/
theorem not_fortran_fills_as_task :
    (¬FillsAsTask .createf { me := 0, table := [] } 1 0 ⟨fun _ ↦ 0, 1000⟩
        [⟨0, ⟨0, .double⟩, .res, 500⟩]) ∧
      (∃ c, torcCreatef { me := 0, table := [] } 1 0 ⟨fun _ ↦ 0, 1000⟩
          [⟨0, ⟨0, .double⟩, .res, 500⟩] = some c ∧
        (travel ⟨0, c.desc⟩ [.insert true 0]).seen 0 = some (.addr 500, 500) ∧
        (travel ⟨0, c.desc⟩ [.enqueue true 0 0 1 fun _ ↦ 2000]).seen 0 =
          some (.addr 0, 0)) ∧
      (Routine.createf.fill ⟨fun _ ↦ 0, 1000⟩ [⟨0, ⟨0, .double⟩, .cop, 0⟩]).filled.map
        Filled.reads = [List.range' 0 8] := by
  refine ⟨fun h ↦ ?_, ⟨_, rfl, by decide, by decide⟩, by decide⟩
  have hslot : (Routine.createf.create { me := 0, table := [] } 1 0 ⟨fun _ ↦ 0, 1000⟩
      [⟨0, ⟨0, .double⟩, .res, 500⟩]).map (fun c ↦ c.desc.args) ≠
      (torcTask { me := 0, table := [] } 1 0 ⟨fun _ ↦ 0, 1000⟩
        [⟨0, ⟨0, .double⟩, .res, 500⟩]).map fun c ↦ c.desc.args := by
    decide
  exact hslot h.created

end Torc
