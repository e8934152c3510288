import Torc.Create
import Torc.Route

/-!
# Task identity across nodes

Every node registers the same functions in the same order, each node at its own addresses.  The
creation routines look the index of a function up and then overwrite it, so that a descriptor
carries the creator's address only and every node calls that address.
-/

namespace Torc

/-- The table of a node that loads function `f` at `addr f`, after it registered `fs` in this
order. -/
def registeredTable {Fn : Type} (addr : Fn → Nat) (fs : List Fn) : List Nat :=
  fs.foldl (fun table f ↦ torcRegisterTask table (addr f)) []

theorem registeredTable_eq_map {Fn : Type} (addr : Fn → Nat) (fs : List Fn) :
    registeredTable addr fs = fs.map addr := by
  have hfold : ∀ table, fs.foldl (fun table f ↦ torcRegisterTask table (addr f)) table =
      table ++ fs.map addr := by
    induction fs with
    | nil => simp
    | cons f fs ih =>
        intro table
        rw [List.foldl_cons, ih, torcRegisterTask, List.append_assoc]
        rfl
  exact hfold []

/-- The index of a function on one node is that of the same function on every node. -/
theorem registeredTable_index {Fn : Type} {addr : Fn → Nat} (hinj : Function.Injective addr)
    (addr' : Fn → Nat) {fs : List Fn} {f : Fn} (hf : f ∈ fs) :
    ∃ k : Nat, getfuncnum (registeredTable addr fs) (addr f) = k ∧
      (registeredTable addr' fs)[k]? = some (addr' f) := by
  have hmem : addr f ∈ registeredTable addr fs := by
    rw [registeredTable_eq_map]
    exact List.mem_map_of_mem hf
  obtain ⟨k, hnum, hk⟩ := getfuncnum_of_mem hmem
  refine ⟨k, hnum, ?_⟩
  rw [registeredTable_eq_map, List.getElem?_map, Option.map_eq_some_iff] at hk
  obtain ⟨g, hg, haddr⟩ := hk
  rw [registeredTable_eq_map, List.getElem?_map, hg, hinj haddr]
  rfl

/-- Whatever routine created a task and whatever route it took, the function called is at the
address the creator passed. -/
theorem calledFunction_travel {r : Routine} {who : Creator} {taskId work : Nat} {h : ByteHeap}
    {cs : List CArg} {c : Creation} (hc : r.create who taskId work h cs = some c)
    (hops : List Hop) (table : List Nat) :
    calledFunction table (travel ⟨who.me, c.desc⟩ hops).desc = work := by
  obtain ⟨hwork, hid, _⟩ := Routine.create_work hc
  have hsame := travel_same ⟨who.me, c.desc⟩ hops
  unfold calledFunction
  rw [hsame.workId, hsame.work, hid, hwork]
  exact if_neg (by decide)

/-- On a node with this table the descriptor calls the entry at the index that `f` has in the
creator's table. -/
def CallsOwnEntry (creatorTable : List Nat) (f : Nat) (table : List Nat) (desc : TorcT) : Prop :=
  0 ≤ getfuncnum creatorTable f ∧
    table[(getfuncnum creatorTable f).toNat]? = some (calledFunction table desc)

instance (creatorTable : List Nat) (f : Nat) (table : List Nat) (desc : TorcT) :
    Decidable (CallsOwnEntry creatorTable f table desc) :=
  inferInstanceAs (Decidable (_ ∧ _))

/-- The executing node calls its own table entry for the creator's index of `f` exactly when `f` is
at the same address on both nodes. -/
theorem calls_own_entry_iff {Fn : Type} (addr : Nat → Fn → Nat)
    (hinj : ∀ node, Function.Injective (addr node)) (fs : List Fn) (f : Fn) (hf : f ∈ fs)
    (r : Routine) (who : Creator) (htable : who.table = registeredTable (addr who.me) fs)
    (taskId : Nat) (h : ByteHeap) (cs : List CArg) (c : Creation)
    (hc : r.create who taskId (addr who.me f) h cs = some c) (hops : List Hop) :
    CallsOwnEntry who.table (addr who.me f)
        (registeredTable (addr (travel ⟨who.me, c.desc⟩ hops).node) fs)
        (travel ⟨who.me, c.desc⟩ hops).desc ↔
      addr (travel ⟨who.me, c.desc⟩ hops).node f = addr who.me f := by
  obtain ⟨k, hnum, hk⟩ :=
    registeredTable_index (hinj who.me) (addr (travel ⟨who.me, c.desc⟩ hops).node) hf
  unfold CallsOwnEntry
  rw [htable, hnum, Int.toNat_natCast, hk, calledFunction_travel hc, Option.some.injEq]
  exact and_iff_right (Int.natCast_nonneg k)

/-! Two nodes that load their functions 4096 bytes apart, and a task of node 0 sent to node 1. -/

def shiftedAddr (node f : Nat) : Nat :=
  4096 * (node + 1) + f

def sampleCreator : Creator :=
  { me := 0, table := registeredTable (shiftedAddr 0) [0, 1] }

def sampleCreation : Creation :=
  ⟨fillHeader sampleCreator (some 0) 1 1 0 4096 0, ⟨fun _ ↦ 0, 1⟩, true⟩

def sampleHops : List Hop :=
  [.enqueue false 0 0 1 fun _ ↦ 0]

theorem calls_own_entry_iff_sample :
    CallsOwnEntry sampleCreator.table (shiftedAddr 0 0)
        (registeredTable (shiftedAddr (travel ⟨0, sampleCreation.desc⟩ sampleHops).node) [0, 1])
        (travel ⟨0, sampleCreation.desc⟩ sampleHops).desc ↔
      shiftedAddr (travel ⟨0, sampleCreation.desc⟩ sampleHops).node 0 = shiftedAddr 0 0 :=
  calls_own_entry_iff shiftedAddr (fun node _ _ h ↦ by unfold shiftedAddr at h; omega) [0, 1] 0
    (by decide) .task sampleCreator rfl 0 ⟨fun _ ↦ 0, 1⟩ [] sampleCreation rfl sampleHops

/-- Node 1 calls address 4096, where node 0 has the function, and not its own entry 8192. -/
theorem calls_other_address :
    Routine.task.create sampleCreator 0 (shiftedAddr 0 0) ⟨fun _ ↦ 0, 1⟩ [] =
        some sampleCreation ∧
      ¬ CallsOwnEntry sampleCreator.table (shiftedAddr 0 0)
        (registeredTable (shiftedAddr (travel ⟨0, sampleCreation.desc⟩ sampleHops).node) [0, 1])
        (travel ⟨0, sampleCreation.desc⟩ sampleHops).desc :=
  ⟨rfl, by decide⟩

end Torc
