import Torc.Parallel.Results
import Mathlib.Data.Set.Function

/-!
# The tree of calls

The children of a task are those of its serial run, in the same order, so that the tasks of every
run form the tree of calls of the serial one, and every body begins at a time of its own.
-/

namespace Torc.Parallel.Tasks

open Transition

variable {β : Type} {root : Body β} {s s' : Tasks β} {k : Nat}

def bodies (s : Tasks β) (l : List Nat) : List (Body β) :=
  l.map fun k ↦ (s.desc k).body

/-- The children of the serial run are those that a task has and those that the rest of its body
creates. -/
structure Serial (s : Tasks β) : Prop where
  children : ∀ k < s.issued, s.bodies (s.frame k).children ++
    (s.frame k).code.children (s.values (s.frame k).children) = (s.desc k).body.children []
  returned : ∀ k, (s.status k).HasReturned → ∃ result, (s.frame k).code = .ret result
  begun : Set.BijOn s.begun {k | (s.status k).HasBegun} {t | t < s.clock}

theorem Serial.start (root : Body β) : (Tasks.start root).Serial where
  children _ _ := rfl
  returned k hk := by
    by_cases hzero : k = 0
    · subst hzero
      exact hk.elim
    · simp only [Tasks.start, if_neg hzero] at hk
      exact hk.elim
  begun := by
    have hset : {k | ((Tasks.start root).status k).HasBegun} = {0} := by
      ext k
      by_cases hzero : k = 0
      · simp [Tasks.start, hzero, Status.HasBegun]
      · simp [Tasks.start, hzero, Status.HasBegun]
    have htime : {t | t < (Tasks.start root).clock} = {0} := by
      ext t
      exact Nat.lt_one_iff
    rw [hset, htime]
    exact Set.bijOn_singleton.mpr rfl

/-! ## Steps of a body -/

/-- The body goes on to a place with the same children to be created. -/
theorem Serial.goOn (h : s.Serial) (hk : s.status k = .running) {f : Frame β} (n : Int)
    (hchildren : f.children = (s.frame k).children)
    (hcode : f.code.children (s.values f.children) =
      (s.frame k).code.children (s.values (s.frame k).children)) : (s.goOn k f n).Serial where
  children j hj := by
    have hold := h.children j hj
    by_cases hjk : j = k
    · subst hjk
      have hframe : (s.goOn j f n).frame j = f := Function.update_self ..
      rw [← hcode, ← hchildren] at hold
      rw [hframe]
      exact hold
    · have hframe : (s.goOn k f n).frame j = s.frame j := Function.update_of_ne hjk ..
      rw [hframe]
      exact hold
  returned j hj := by
    have hjk : j ≠ k := by
      rintro rfl
      have hrunning : (s.goOn j f n).status j = .running := hk
      rw [hrunning] at hj
      exact hj
    have hframe : (s.goOn k f n).frame j = s.frame j := Function.update_of_ne hjk ..
    rw [hframe]
    exact h.returned j hj
  begun := h.begun

/-- A body that has begun goes on to another status. -/
theorem Serial.setStatus (h : s.Serial) (hk : (s.status k).HasBegun) {st : Status β}
    (hst : st.HasBegun) (hcode : ∃ result, (s.frame k).code = .ret result) :
    (s.setStatus k st).Serial where
  children := h.children
  returned j hj := by
    by_cases hjk : j = k
    · subst hjk
      exact hcode
    · apply h.returned
      simpa [Tasks.setStatus, Function.update_of_ne hjk] using hj
  begun := by
    have hset : {j | ((s.setStatus k st).status j).HasBegun} = {j | (s.status j).HasBegun} := by
      ext j
      by_cases hjk : j = k
      · subst hjk
        simp [Tasks.setStatus, hk, hst]
      · simp [Tasks.setStatus, Function.update_of_ne hjk]
    rw [hset]
    exact h.begun

theorem Serial.complete (h : s.Serial) (hk : (s.status k).HasBegun)
    (hcode : ∃ result, (s.frame k).code = .ret result) (result : β) :
    (s.complete k result).Serial := by
  have hset : (s.setStatus k .done).Serial := h.setStatus hk trivial hcode
  exact ⟨hset.children, hset.returned, hset.begun⟩

theorem Serial.createChild (h : s.Serial) (hinv : s.Inv root) (hk : s.status k = .running)
    (me : Nat) {queue : Option Nat} {child rest : Body β}
    (hcode : (s.frame k).code = .spawn queue child rest) :
    (s.createChild k me child rest).Serial where
  children j hj := by
    have hold : ∀ i ∈ (s.frame j).children, i < s.issued :=
      fun i hi ↦ ((hinv.child j i).mp hi).1
    have hbodies : ∀ l : List Nat, (∀ i ∈ l, i < s.issued) →
        (s.createChild k me child rest).bodies l = s.bodies l := by
      intro l hl
      apply List.map_congr_left
      intro i hi
      rw [createChild_desc_of_lt (hl i hi)]
    by_cases hnew : j = s.issued
    · subst hnew
      rw [createChild_frame_new, createChild_desc_new]
      rfl
    · have hlt : j < s.issued := Nat.lt_of_le_of_ne (Nat.lt_succ_iff.mp hj) hnew
      rw [createChild_desc_of_lt hlt, ← h.children j hlt]
      by_cases hjk : j = k
      · subst hjk
        have hlast : (s.createChild j me child rest).bodies [s.issued] = [child] := by
          simp only [bodies, List.map_singleton, createChild_desc_new]
        have happend : (s.createChild j me child rest).bodies
            ((s.frame j).children ++ [s.issued]) = s.bodies (s.frame j).children ++ [child] := by
          rw [← hbodies _ hold, ← hlast]
          exact List.map_append ..
        rw [createChild_frame_self hlt, hcode]
        show (s.createChild j me child rest).bodies ((s.frame j).children ++ [s.issued]) ++
          rest.children ((s.createChild j me child rest).values _) = _
        rw [hinv.values_createChild, happend, List.append_assoc]
        rfl
      · rw [createChild_frame_of_ne hnew hjk, hbodies _ hold, createChild_values hold]
  returned j hj := by
    have hnew : j ≠ s.issued := by
      rintro rfl
      have hready : (s.createChild k me child rest).status s.issued = .ready :=
        Function.update_self ..
      rw [hready] at hj
      exact hj
    have hstatus : (s.createChild k me child rest).status j = s.status j :=
      Function.update_of_ne hnew ..
    rw [hstatus] at hj
    have hjk : j ≠ k := by
      rintro rfl
      rw [hk] at hj
      exact hj
    rw [createChild_frame_of_ne hnew hjk]
    exact h.returned j hj
  begun := by
    have hset : {j | ((s.createChild k me child rest).status j).HasBegun} =
        {j | (s.status j).HasBegun} := by
      ext j
      by_cases hnew : j = s.issued
      · subst hnew
        simp [Tasks.createChild, hinv.unborn, Status.HasBegun]
      · simp [Tasks.createChild, Function.update_of_ne hnew]
    rw [hset]
    exact h.begun

/-! ## Execution -/

theorem Serial.execute (h : s.Serial) (hk : s.status k = .ready) : (s.execute k).Serial where
  children := h.children
  returned j hj := by
    have hjk : j ≠ k := by
      rintro rfl
      have hrunning : (s.execute j).status j = .running := Function.update_self ..
      rw [hrunning] at hj
      exact hj
    apply h.returned
    simpa [Tasks.execute, Tasks.setStatus, Function.update_of_ne hjk] using hj
  begun := by
    have hnew : k ∉ {j | (s.status j).HasBegun} := by
      intro hbegun
      have hready : (s.status k).HasBegun := hbegun
      rw [hk] at hready
      exact hready
    have hset : {j | ((s.execute k).status j).HasBegun} =
        insert k {j | (s.status j).HasBegun} := by
      ext j
      by_cases hjk : j = k
      · subst hjk
        simp [Tasks.execute, Tasks.setStatus, Status.HasBegun]
      · simp [Tasks.execute, Tasks.setStatus, hjk]
    have htime : {t | t < (s.execute k).clock} = insert s.clock {t | t < s.clock} := by
      ext t
      show t < s.clock + 1 ↔ t = s.clock ∨ t < s.clock
      omega
    have hself : (s.execute k).begun k = s.clock := Function.update_self ..
    have hold : Set.BijOn (s.execute k).begun {j | (s.status j).HasBegun} {t | t < s.clock} := by
      apply h.begun.congr
      intro j hj
      have hjk : j ≠ k := fun heq ↦ hnew (heq ▸ hj)
      exact (Function.update_of_ne hjk ..).symm
    have hlast : (s.execute k).begun k ∉ {t | t < s.clock} := by
      rw [hself]
      exact lt_irrefl s.clock
    have hinsert := hold.insert hlast
    rwa [hself, ← hset, ← htime] at hinsert

theorem Serial.step (h : s.Serial) (hinv : s.Inv root) (hstep : Step s s') : s'.Serial := by
  cases hstep with
  | @body k me s' hk hbody =>
      have hbegun : (s.status k).HasBegun := by
        rw [hk]
        trivial
      cases hbody with
      | startSpawn hctl hcode =>
          rw [startSpawn_eq]
          exact h.goOn hk _ rfl rfl
      | countChild hctl => exact h.goOn (f := { s.frame k with ctl := .counted }) hk _ rfl rfl
      | beginWait hctl hcode =>
          exact h.goOn (f := { s.frame k with pending := false, ctl := .blocked }) hk _ rfl rfl
      | endWait hctl hcode hndep =>
          rw [endWait_eq, hinv.map_cell_of_ndep hk hctl hndep]
          apply h.goOn hk
          · rfl
          · rw [hcode]
            rfl
      | createChild hctl hcode => exact h.createChild hinv hk me hcode
      | complete hctl hcode => exact h.complete hbegun ⟨_, hcode⟩ _
      | answer hctl hcode => exact h.setStatus hbegun trivial ⟨_, hcode⟩
  | execute hk => exact h.execute hk
  | @complete k result hk =>
      have hbegun : (s.status k).HasBegun ∧ (s.status k).HasReturned := by
        rw [hk]
        exact ⟨trivial, trivial⟩
      exact h.complete hbegun.1 (h.returned k hbegun.2) _

/-! ## The places of the tasks -/

theorem Inv.taskAt_lt (h : s.Inv root) {path : List Nat} (hpath : s.taskAt path = some k) :
    k < s.issued := by
  cases path with
  | nil =>
      cases hpath
      exact h.pos
  | cons i path =>
      simp only [taskAt, Option.bind_eq_some_iff] at hpath
      obtain ⟨p, -, hchild⟩ := hpath
      exact ((h.child p k).mp (List.mem_of_getElem? hchild)).1

/-- The task below `p` in the tree is a child of `p`. -/
theorem Inv.parent_of_taskAt (h : s.Inv root) {i : Nat} {path : List Nat}
    (hpath : s.taskAt (i :: path) = some k) :
    ∃ p, s.taskAt path = some p ∧ (s.frame p).children[i]? = some k ∧
      (s.desc k).parent = some p := by
  simp only [taskAt, Option.bind_eq_some_iff] at hpath
  obtain ⟨p, hp, hchild⟩ := hpath
  exact ⟨p, hp, hchild, ((h.child p k).mp (List.mem_of_getElem? hchild)).2⟩

theorem Inv.exists_taskAt (h : s.Inv root) (hk : k < s.issued) :
    ∃ path, s.taskAt path = some k := by
  -- the parent has a smaller number
  induction k using Nat.strong_induction_on with
  | _ k ih =>
      by_cases hzero : k = 0
      · subst hzero
        exact ⟨[], rfl⟩
      · obtain ⟨p, hp⟩ :=
          Option.ne_none_iff_exists'.mp (h.parent_ne k hk (Nat.pos_of_ne_zero hzero))
        have hlt := h.parent_lt k hk p hp
        obtain ⟨path, hpath⟩ := ih p hlt (Nat.lt_trans hlt hk)
        obtain ⟨i, hi⟩ := List.mem_iff_getElem?.mp ((h.child p k).mpr ⟨hk, hp⟩)
        refine ⟨i :: path, ?_⟩
        simp only [taskAt, hpath, Option.bind_some]
        exact hi

theorem Inv.taskAt_inj (h : s.Inv root) {path path' : List Nat} (hpath : s.taskAt path = some k)
    (hpath' : s.taskAt path' = some k) : path = path' := by
  have hroot : ∀ {i l}, s.taskAt (i :: l) ≠ some 0 := by
    intro i l hl
    obtain ⟨p, -, -, hp⟩ := h.parent_of_taskAt hl
    rw [h.root_parent] at hp
    cases hp
  induction path generalizing k path' with
  | nil =>
      cases hpath
      cases path' with
      | nil => rfl
      | cons i' path' => exact absurd hpath' hroot
  | cons i path ih =>
      cases path' with
      | nil =>
          cases hpath'
          exact absurd hpath hroot
      | cons i' path' =>
          obtain ⟨p, hp, hchild, hparent⟩ := h.parent_of_taskAt hpath
          obtain ⟨p', hp', hchild', hparent'⟩ := h.parent_of_taskAt hpath'
          rw [hparent] at hparent'
          cases hparent'
          obtain ⟨hi, -⟩ := List.getElem?_eq_some_iff.mp hchild
          have hsame : i = i' :=
            (List.getElem?_inj hi (h.nodup p)).mp (hchild.trans hchild'.symm)
          rw [hsame, ih hp hp']

/-- Every task is at one place of the tree. -/
theorem Inv.existsUnique_taskAt (h : s.Inv root) (k : Nat) :
    k < s.issued ↔ ∃! path, s.taskAt path = some k := by
  constructor
  · intro hk
    obtain ⟨path, hpath⟩ := h.exists_taskAt hk
    exact ⟨path, hpath, fun path' hpath' ↦ h.taskAt_inj hpath' hpath⟩
  · rintro ⟨path, hpath, -⟩
    exact h.taskAt_lt hpath

/-- When every body has returned, the tree of the tasks is that of the serial run. -/
theorem Serial.body_taskAt (h : s.Serial) (hinv : s.Inv root)
    (hdone : ∀ k < s.issued, (s.status k).HasReturned) (path : List Nat) :
    (s.taskAt path).map (fun k ↦ (s.desc k).body) = root.taskAt path := by
  induction path with
  | nil => exact congrArg some hinv.root_body
  | cons i path ih =>
      cases hpath : s.taskAt path with
      | none =>
          rw [hpath, Option.map_none] at ih
          simp only [taskAt, Body.taskAt, hpath, ← ih, Option.bind_none, Option.map_none]
      | some k =>
          rw [hpath, Option.map_some] at ih
          have hk := hinv.taskAt_lt hpath
          have hchildren := h.children k hk
          obtain ⟨result, hcode⟩ := h.returned k (hdone k hk)
          rw [hcode, Body.children, List.append_nil, bodies] at hchildren
          simp only [taskAt, Body.taskAt, hpath, ← ih, Option.bind_some, ← hchildren,
            List.getElem?_map]

end Torc.Parallel.Tasks
