import Torc.Execute
import Torc.Create

/-!
# What the body is called with

`_torc_core_execution` against `torc_getarg_addr`: the one goes over all arguments and passes them
on through the macros, the other looks at one argument of the running task.
-/

namespace Torc

def torcGetargAddr (me : Nat) (self : TorcT) (arg : Nat) : Option Buffer :=
  self.args[arg]?.map fun a ↦
    if me = self.homenode then
      if a.callway = .cop then .localSlot arg else .addr a.localarg
    else
      if a.callway = .cop then .tempSlot arg else .addr a.temparg

/-- A slot of the descriptor is one of `localarg` on the home node. -/
def Pointer.buffer (home : Bool) : Pointer → Buffer
  | .slot i => if home then .localSlot i else .tempSlot i
  | .addr a => .addr a

/-- A descriptor with all its arguments, as many as a creation routine lets through. -/
structure Accepted (desc : TorcT) : Prop where
  narg : desc.narg ≤ maxTorcArgs
  filled : desc.narg ≤ desc.args.length

/-- The body gets `narg` arguments, and each is what `torc_getarg_addr` says. -/
def ArgumentsDelivered (me : Nat) (desc : TorcT) : Prop :=
  ∃ passed, callArguments me desc = some passed ∧ passed.length = desc.narg ∧
    ∀ i < desc.narg, ∃ p, passed[i]? = some (some p) ∧
      torcGetargAddr me desc i = some (p.buffer (me = desc.homenode))

theorem Routine.create_accepted {r : Routine} {who : Creator} {taskId work : Nat} {h : ByteHeap}
    {cs : List CArg} {c : Creation} (hc : r.create who taskId work h cs = some c) :
    Accepted c.desc := by
  cases r <;>
    (obtain ⟨as, h', hd, hlen, rfl⟩ := createWith_some hc
     exact ⟨hlen, Nat.le_of_eq (decodeArguments_length hd).symm⟩)

variable {me i : Nat} {desc : TorcT}

theorem coreArguments_length (h : desc.narg ≤ desc.args.length) :
    (coreArguments me desc).length = desc.narg := by
  simp [coreArguments, TorcT.liveArgs, h]

/-- The loops and `torc_getarg_addr` agree on each argument. -/
theorem coreArguments_getarg (me : Nat) (hi : i < desc.narg) (h : desc.narg ≤ desc.args.length) :
    ∃ p, (coreArguments me desc)[i]? = some p ∧
      torcGetargAddr me desc i = some (p.buffer (me = desc.homenode)) := by
  have hlen : i < desc.args.length := by omega
  have ha : desc.liveArgs[i]? = some desc.args[i] := by
    rw [TorcT.liveArgs, List.getElem?_take_of_lt hi, List.getElem?_eq_getElem hlen]
  refine ⟨coreArgument (me = desc.homenode) i desc.args[i], ?_, ?_⟩
  · simp [coreArguments, List.getElem?_zipIdx, ha]
  · rw [torcGetargAddr, List.getElem?_eq_getElem hlen, Option.map_some]
    unfold coreArgument Pointer.buffer Arg.slot
    by_cases hhome : me = desc.homenode <;> by_cases hcop : desc.args[i].callway = .cop <;>
      simp [hhome, hcop]

/-- From 18 arguments on the macros pass on too few of them, or one that was not filled. -/
theorem macroArguments_wrong (hlo : 17 < i) (hhi : i ≤ maxTorcArgs) {is : List Nat}
    (his : macroArguments i = some is) : is.length ≠ i ∨ is[17]? = some i := by
  unfold maxTorcArgs at hhi
  unfold macroArguments at his
  rw [if_neg (by omega)] at his
  split at his
  · cases his
    right
    rfl
  all_goals first
    | cases his; left; decide
    | cases his

/-- The arguments are delivered exactly when there are at most 17. -/
theorem argumentsDelivered_iff (me : Nat) (desc : TorcT) (h : Accepted desc) :
    ArgumentsDelivered me desc ↔ desc.narg ≤ 17 := by
  constructor
  · rintro ⟨passed, hcall, hlen, hall⟩
    by_contra hnarg
    obtain ⟨is, his, rfl⟩ := Option.map_eq_some_iff.mp hcall
    rw [List.length_map] at hlen
    rcases macroArguments_wrong (by omega) h.narg his with hwrong | hlast
    · exact hwrong hlen
    · -- `args[18]` has no value when there are 18 arguments
      obtain ⟨p, hp, -⟩ := hall 17 (by omega)
      rw [List.getElem?_map, hlast, Option.map_some, Option.some.injEq,
        List.getElem?_eq_none (Nat.le_of_eq (coreArguments_length h.filled))] at hp
      cases hp
  · intro hnarg
    refine ⟨_, callArguments_eq hnarg h.filled me, ?_, fun i hi ↦ ?_⟩
    · rw [List.length_map, coreArguments_length h.filled]
    · obtain ⟨p, hp, haddr⟩ := coreArguments_getarg me hi h.filled
      exact ⟨p, by rw [List.getElem?_map, hp, Option.map_some], haddr⟩

/-- `n` pointers. -/
def pointerArgs (n : Nat) : List CArg :=
  List.replicate n ⟨1, ⟨0, .char⟩, .ptr, 100⟩

/-- What `torc_task` on node 0 makes of them. -/
def pointerTask (n : Nat) : Option Creation :=
  torcTask { me := 0, table := [] } 0 8 { mem := fun _ ↦ 0, brk := 200 } (pointerArgs n)

theorem argumentsDelivered_iff_sample :
    ∃ c c', pointerTask 17 = some c ∧ pointerTask 20 = some c' ∧
      (Accepted c.desc ∧ ArgumentsDelivered 1 c.desc) ∧
      Accepted c'.desc ∧ ¬ ArgumentsDelivered 1 c'.desc := by
  obtain ⟨c, hc⟩ := Option.isSome_iff_exists.mp (show (pointerTask 17).isSome by decide)
  obtain ⟨c', hc'⟩ := Option.isSome_iff_exists.mp (show (pointerTask 20).isSome by decide)
  have hnarg : c.desc.narg = 17 ∧ c'.desc.narg = 20 := by
    have h17 : (pointerTask 17).map (fun c ↦ c.desc.narg) = some 17 := by decide
    have h20 : (pointerTask 20).map (fun c ↦ c.desc.narg) = some 20 := by decide
    rw [hc] at h17
    rw [hc'] at h20
    exact ⟨Option.some.inj h17, Option.some.inj h20⟩
  have hacc : Accepted c.desc := Routine.create_accepted (r := .task) hc
  have hacc' : Accepted c'.desc := Routine.create_accepted (r := .task) hc'
  refine ⟨c, c', hc, hc',
    ⟨hacc, (argumentsDelivered_iff 1 c.desc hacc).mpr (by omega)⟩, hacc',
    fun h ↦ ?_⟩
  have hle := (argumentsDelivered_iff 1 c'.desc hacc').mp h
  omega

/-- The last of 18 arguments does not arrive. -/
theorem not_argumentsDelivered :
    ∃ c, pointerTask 18 = some c ∧ torcGetargAddr 0 c.desc 17 = some (.addr 100) ∧
      ¬ ArgumentsDelivered 0 c.desc := by
  obtain ⟨c, hc⟩ := Option.isSome_iff_exists.mp (show (pointerTask 18).isSome by decide)
  have hend : (pointerTask 18).map (fun c ↦ (c.desc.narg, torcGetargAddr 0 c.desc 17,
      (callArguments 0 c.desc).bind fun passed ↦ passed[17]?)) =
      some (18, some (.addr 100), some none) := by decide
  rw [hc, Option.map_some] at hend
  simp only [Option.some.injEq, Prod.mk.injEq] at hend
  obtain ⟨hnarg, haddr, hlast⟩ := hend
  refine ⟨c, hc, haddr, ?_⟩
  rintro ⟨passed, hcall, -, hall⟩
  obtain ⟨p, hp, -⟩ := hall 17 (by omega)
  rw [hcall, Option.bind_some, hp] at hlast
  cases hlast

end Torc
