import Torc.FunctionTable
import Mathlib.Data.List.Infix

/-!
# Histories of registrations

`internode_function_table` as an array with its counter, through the registrations of a program,
that of `torc_init` and those of the tasks that execute `torc_register_task_internal`.
-/

namespace Torc.RegistrationHistory

/-- The memory from the start of the array on, and the indices that have been written. -/
structure State where
  internodeFunctionTable : Nat → Nat := fun _ ↦ 0
  numberOfFunctions : Nat := 0
  written : List Nat := []

/-- `internode_function_table[number_of_functions] = f; number_of_functions++`. -/
def State.store (s : State) (f : Nat) : State where
  internodeFunctionTable := Function.update s.internodeFunctionTable s.numberOfFunctions f
  numberOfFunctions := s.numberOfFunctions + 1
  written := s.written ++ [s.numberOfFunctions]

/-- Before `torc_init`. -/
def torcRegisterTask (s : State) (f : Nat) : State :=
  s.store f

/-- `F` is the address of a function as a `long long`. -/
def torcRegisterTaskInternal (s : State) (F : Int) : State :=
  s.store F.toNat

def getfuncnum (s : State) (f : Nat) : Int :=
  match (List.range s.numberOfFunctions).find? fun i ↦ f = s.internodeFunctionTable i with
  | some i => i
  | none => -1

def getfuncptr (s : State) (pos : Int) : Nat :=
  -- the bound is that of the array, not the number of functions
  if pos < maxTorcTasks then s.internodeFunctionTable pos.toNat else 0

/-- `torc_init` registers `torc_register_task_internal`, which is at address `internal`. -/
def torcInit (internal : Nat) (s : State) : State :=
  torcRegisterTask s internal

/-- `before` are registered by the program, `behind` by tasks. -/
def history (before : List Nat) (internal : Nat) (behind : List Nat) : State :=
  (behind.map Int.ofNat).foldl torcRegisterTaskInternal
    (torcInit internal (before.foldl torcRegisterTask {}))

/-- The table after these registrations, of whatever kind. -/
def after (fs : List Nat) : State :=
  fs.foldl State.store {}

theorem history_eq (before : List Nat) (internal : Nat) (behind : List Nat) :
    history before internal behind = after (before ++ internal :: behind) := by
  rw [after, List.foldl_append, List.foldl_cons, history, List.foldl_map]
  rfl

/-- What lookups rely on.  `registered` are the functions of the history in their order. -/
structure Sound (registered : List Nat) (s : State) : Prop where
  written : ∀ i ∈ s.written, i < maxTorcTasks
  found : ∀ f ∈ registered, ∃ k : Nat, getfuncnum s f = k ∧ k < s.numberOfFunctions ∧
    getfuncptr s k = f
  unknown : ∀ f ∉ registered, getfuncnum s f = -1
  stable : ∀ earlier, earlier <+: registered → ∀ f ∈ earlier,
    getfuncnum s f = getfuncnum (after earlier) f

/-! ## The array as a list -/

theorem State.store_entry (s : State) (f i : Nat) :
    (s.store f).internodeFunctionTable i =
      if i = s.numberOfFunctions then f else s.internodeFunctionTable i :=
  Function.update_apply ..

theorem after_append (fs : List Nat) (f : Nat) : after (fs ++ [f]) = (after fs).store f := by
  rw [after, List.foldl_append]
  rfl

theorem after_numberOfFunctions (fs : List Nat) : (after fs).numberOfFunctions = fs.length := by
  induction fs using List.reverseRecOn with
  | nil => rfl
  | append_singleton fs f ih =>
      rw [after_append, List.length_append, List.length_singleton, ← ih]
      rfl

theorem after_written (fs : List Nat) : (after fs).written = List.range fs.length := by
  induction fs using List.reverseRecOn with
  | nil => rfl
  | append_singleton fs f ih =>
      rw [after_append, List.length_append, List.length_singleton, List.range_succ, ← ih,
        ← after_numberOfFunctions]
      rfl

theorem after_entry {fs : List Nat} {i f : Nat} (hi : fs[i]? = some f) :
    (after fs).internodeFunctionTable i = f := by
  induction fs using List.reverseRecOn with
  | nil => cases hi
  | append_singleton fs g ih =>
      rw [after_append, State.store_entry, after_numberOfFunctions]
      by_cases hlast : i = fs.length
      · subst hlast
        rw [List.getElem?_concat_length, Option.some.injEq] at hi
        rw [if_pos rfl, hi]
      · have hlt : i < (fs ++ [g]).length := (List.getElem?_eq_some_iff.mp hi).1
        rw [List.length_append, List.length_singleton] at hlt
        rw [List.getElem?_append_left (by omega)] at hi
        rw [if_neg hlast, ih hi]

/-- The loop of `getfuncnum` finds the first registration. -/
theorem getfuncnum_after (fs : List Nat) (f : Nat) :
    getfuncnum (after fs) f = Torc.getfuncnum fs f := by
  have hentry : ∀ i (hi : i < fs.length), (after fs).internodeFunctionTable i = fs[i] :=
    fun i hi ↦ after_entry (List.getElem?_eq_getElem hi)
  have hfind : ((List.range (after fs).numberOfFunctions).find? fun i ↦
      f = (after fs).internodeFunctionTable i) = fs.idxOf? f := by
    rw [after_numberOfFunctions]
    cases hidx : fs.idxOf? f with
    | none =>
        rw [List.find?_range_eq_none]
        intro i hi
        have hne : f ≠ fs[i] := fun heq ↦
          List.idxOf?_eq_none_iff.mp hidx (heq ▸ List.getElem_mem hi)
        rw [hentry i hi, decide_eq_false hne, Bool.not_false]
    | some k =>
        obtain ⟨hk, heq, hfirst⟩ := List.idxOf?_eq_some_iff.mp hidx
        rw [List.find?_range_eq_some]
        refine ⟨decide_eq_true ?_, List.mem_range.mpr hk, fun j hj ↦ ?_⟩
        · rw [hentry k hk, heq]
        · have hne : f ≠ fs[j] := fun h ↦ hfirst j hj h.symm
          rw [hentry j (by omega), decide_eq_false hne, Bool.not_false]
  rw [getfuncnum, hfind]
  rfl

/-! ## Every history -/

/-- The first registration of a function stays the first one. -/
theorem getfuncnum_of_earlier {earlier fs : List Nat} (hearlier : earlier <+: fs) {f : Nat}
    (hf : f ∈ earlier) : Torc.getfuncnum fs f = Torc.getfuncnum earlier f := by
  obtain ⟨later, rfl⟩ := hearlier
  obtain ⟨k, hk⟩ := Option.isSome_iff_exists.mp
    (List.isSome_idxOf?.mpr hf)
  obtain ⟨hlt, heq, hfirst⟩ := List.idxOf?_eq_some_iff.mp hk
  have hsame : (earlier ++ later).idxOf? f = some k := by
    rw [List.idxOf?_eq_some_iff]
    refine ⟨by rw [List.length_append]; omega, ?_, fun j hj ↦ ?_⟩
    · rw [List.getElem_append_left hlt, heq]
    · rw [List.getElem_append_left (by omega)]
      exact hfirst j hj
  simp only [Torc.getfuncnum, hk, hsame]

/-- The table is sound after a history exactly when all its registrations, with that of
`torc_init`, fit into the array. -/
theorem sound_iff (before : List Nat) (internal : Nat) (behind : List Nat) :
    Sound (before ++ internal :: behind) (history before internal behind) ↔
      before.length + 1 + behind.length ≤ maxTorcTasks := by
  rw [history_eq]
  have hlen : (before ++ internal :: behind).length = before.length + 1 + behind.length := by
    rw [List.length_append, List.length_cons]
    omega
  rw [← hlen]
  generalize before ++ internal :: behind = fs
  constructor
  · intro hsound
    by_contra hmany
    have hlast : maxTorcTasks ∈ (after fs).written := by
      rw [after_written, List.mem_range]
      omega
    exact Nat.lt_irrefl _ (hsound.written _ hlast)
  · intro hfits
    refine ⟨fun i hi ↦ ?_, fun f hf ↦ ?_, fun f hf ↦ ?_, fun earlier hearlier f hf ↦ ?_⟩
    · rw [after_written, List.mem_range] at hi
      omega
    · obtain ⟨k, hnum, hk⟩ := getfuncnum_of_mem hf
      have hlt : k < fs.length := (List.getElem?_eq_some_iff.mp hk).1
      refine ⟨k, (getfuncnum_after fs f).trans hnum,
        by rw [after_numberOfFunctions]; exact hlt, ?_⟩
      rw [getfuncptr, if_pos (by omega), Int.toNat_natCast, after_entry hk]
    · rw [getfuncnum_after, Torc.getfuncnum, List.idxOf?_eq_none_iff.mpr hf]
    · rw [getfuncnum_after, getfuncnum_after, getfuncnum_of_earlier hearlier hf]

/-- With 64 registrations of the program that of `torc_init` is stored behind the array. -/
theorem not_sound :
    maxTorcTasks ∈ (history (List.replicate 64 1000) 2000 []).written ∧
      ¬ Sound (List.replicate 64 1000 ++ [2000])
        (history (List.replicate 64 1000) 2000 []) := by
  have hwritten : maxTorcTasks ∈ (history (List.replicate 64 1000) 2000 []).written := by
    rw [history_eq, after_written, List.mem_range, List.length_append, List.length_replicate]
    decide
  exact ⟨hwritten, fun hsound ↦ Nat.lt_irrefl _ (hsound.written _ hwritten)⟩

end Torc.RegistrationHistory
