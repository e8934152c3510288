import Torc.Parallel.Tasks

/-!
# The results of tasks

Whatever the order in which tasks are executed, a body that reads the variables of its children
behind a wait finds the results of their serial runs there, so that it returns its own.
-/

namespace Torc.Parallel

open Transition

variable {β : Type}

/-- What the counter holds beyond the open children. -/
def Frame.owed (f : Frame β) : Int :=
  match f.ctl with
  | .running => if f.pending then 1 else 0
  | .started => 1
  | .counted => 2
  | .blocked => 0

/-- The statement that `f` is inside of. -/
def Frame.Fits (f : Frame β) : Prop :=
  match f.ctl, f.code with
  | .running, _ => True
  | .started, .spawn _ _ _ => f.pending = true
  | .counted, .spawn _ _ _ => f.pending = true
  | .blocked, .waitall _ => f.pending = false
  | _, _ => False

namespace Tasks

/-- The result of the serial run of task `k`. -/
def value (s : Tasks β) (k : Nat) : β :=
  (s.desc k).body.eval []

def values (s : Tasks β) (l : List Nat) : List (Option β) :=
  l.map fun k ↦ some (s.value k)

def isOpen (s : Tasks β) (k : Nat) : Bool :=
  !(s.status k).isDone

def countOpen (s : Tasks β) (l : List Nat) : Nat :=
  l.countP s.isOpen

/-- A body that has begun and not returned, with this frame and counter. -/
structure Active (s : Tasks β) (k : Nat) (f : Frame β) (n : Int) : Prop where
  value : f.code.eval (s.values f.children) = s.value k
  joins : f.code.Joins f.pending
  ndep : n = s.countOpen f.children + f.owed
  idle : f.ctl = .running → f.pending = false → s.countOpen f.children = 0
  fits : f.Fits

def TaskInv (s : Tasks β) (k : Nat) : Prop :=
  match s.status k with
  | .unborn => True
  | .ready => s.frame k = { code := (s.desc k).body } ∧ s.ndep k = 0 ∧
      (s.desc k).body.Joins false
  | .running => s.Active k (s.frame k) (s.ndep k)
  | .answering result => result = s.value k ∧ s.countOpen (s.frame k).children = 0
  | .done => s.cell k = some (s.value k) ∧ s.countOpen (s.frame k).children = 0

structure Inv (root : Body β) (s : Tasks β) : Prop where
  pos : 0 < s.issued
  root_body : (s.desc 0).body = root
  root_parent : (s.desc 0).parent = none
  unborn : ∀ k, s.issued ≤ k → s.status k = .unborn
  born : ∀ k < s.issued, s.status k ≠ .unborn
  child : ∀ p k, k ∈ (s.frame p).children ↔ k < s.issued ∧ (s.desc k).parent = some p
  nodup : ∀ p, (s.frame p).children.Nodup
  parent_lt : ∀ k < s.issued, ∀ p ∈ (s.desc k).parent, p < k
  parent_ne : ∀ k < s.issued, 0 < k → (s.desc k).parent ≠ none
  task : ∀ k < s.issued, s.TaskInv k

variable {root : Body β} {s : Tasks β} {k : Nat}

/-! ## Facts of one state -/

theorem TaskInv.active (h : s.TaskInv k) (hk : s.status k = .running) :
    s.Active k (s.frame k) (s.ndep k) := by
  unfold TaskInv at h
  rwa [hk] at h

theorem TaskInv.done (h : s.TaskInv k) (hk : (s.status k).isDone = true) :
    s.cell k = some (s.value k) := by
  unfold TaskInv at h
  cases hst : s.status k <;> simp only [hst] at h hk
  case done => exact h.1
  all_goals cases hk

/-- A task with an open child is inside its body. -/
theorem TaskInv.running_of_open (h : s.TaskInv k) {c : Nat} (hc : c ∈ (s.frame k).children)
    (hopen : s.isOpen c = true) (hborn : s.status k ≠ .unborn) : s.status k = .running := by
  have hpos : 0 < s.countOpen (s.frame k).children := List.countP_pos_iff.mpr ⟨c, hc, hopen⟩
  unfold TaskInv at h
  cases hst : s.status k <;> simp only [hst] at h
  case unborn => exact absurd hst hborn
  case running => rfl
  case ready =>
    rw [h.1] at hc
    cases hc
  all_goals omega

theorem countOpen_eq_zero {l : List Nat} (h : s.countOpen l = 0) {k : Nat} (hk : k ∈ l) :
    (s.status k).isDone = true := by
  have hno := List.countP_eq_zero.mp h k hk
  simpa [isOpen] using hno

/-- The variables of children that are all done. -/
theorem Inv.map_cell (h : s.Inv root) {l : List Nat} (hl : ∀ k ∈ l, k < s.issued)
    (hopen : s.countOpen l = 0) : l.map s.cell = s.values l := by
  apply List.map_congr_left
  intro k hk
  exact (h.task k (hl k hk)).done (countOpen_eq_zero hopen hk)

theorem Inv.start (hjoins : root.Joins false) : (start root).Inv root where
  pos := Nat.one_pos
  root_body := rfl
  root_parent := rfl
  unborn k hk := if_neg (Nat.one_le_iff_ne_zero.mp hk)
  born k hk := by
    have hzero : k = 0 := Nat.lt_one_iff.mp hk
    subst hzero
    exact nofun
  child p k := by
    constructor
    · intro h
      cases h
    · intro h
      cases h.2
  nodup _ := List.nodup_nil
  parent_lt _ _ _ hp := by cases hp
  parent_ne k hk hpos := absurd hpos (Nat.lt_one_iff.mp hk).not_gt
  task k hk := by
    have hzero : k = 0 := Nat.lt_one_iff.mp hk
    subst hzero
    exact ⟨rfl, hjoins, rfl, fun _ _ ↦ rfl, trivial⟩

/-! ## A step inside a body -/

/-- The body of task `k` goes on, with the children it had. -/
def goOn (s : Tasks β) (k : Nat) (f : Frame β) (n : Int) : Tasks β :=
  { s with frame := Function.update s.frame k f, ndep := Function.update s.ndep k n }

theorem startSpawn_eq (s : Tasks β) (k : Nat) :
    s.startSpawn k = s.goOn k { s.frame k with pending := true, ctl := .started }
      (if s.ndep k = 0 then 1 else s.ndep k) := by
  unfold startSpawn goOn setFrame Waiting.startSpawn
  by_cases hn : s.ndep k = 0
  · rw [if_pos hn, if_pos hn]
  · rw [if_neg hn, if_neg hn, Function.update_eq_self]

theorem endWait_eq (s : Tasks β) (k : Nat) (rest : List (Option β) → Body β) :
    s.endWait k rest = s.goOn k
      { s.frame k with code := rest ((s.frame k).children.map s.cell), ctl := .running }
      (s.ndep k) := by
  unfold endWait goOn setFrame
  rw [Function.update_eq_self]

/-- Another task is as it was when its own data and the ends of its children are. -/
theorem TaskInv.congr {s' : Tasks β} (h : s.TaskInv k) (hframe : s'.frame k = s.frame k)
    (hndep : s'.ndep k = s.ndep k) (hstatus : s'.status k = s.status k)
    (hcell : s'.cell k = s.cell k) (hbody : (s'.desc k).body = (s.desc k).body)
    (hvalues : s'.values (s.frame k).children = s.values (s.frame k).children)
    (hopen : s'.countOpen (s.frame k).children = s.countOpen (s.frame k).children) :
    s'.TaskInv k := by
  have hvalue : s'.value k = s.value k := congrArg (fun b ↦ Body.eval b []) hbody
  unfold TaskInv at h ⊢
  rw [hstatus, hframe, hndep, hcell, hbody, hvalue, hopen]
  cases hst : s.status k <;> simp only [hst] at h ⊢
  case running =>
    exact ⟨by rw [hvalues, hvalue, h.value], h.joins, by rw [hopen, h.ndep],
      fun hctl hp ↦ by rw [hopen, h.idle hctl hp], h.fits⟩
  all_goals exact h

theorem Inv.goOn (h : s.Inv root) (hk : s.status k = .running) {f : Frame β} {n : Int}
    (hchildren : f.children = (s.frame k).children) (hactive : s.Active k f n) :
    (s.goOn k f n).Inv root where
  pos := h.pos
  root_body := h.root_body
  root_parent := h.root_parent
  unborn := h.unborn
  born := h.born
  child p j := by
    have hold := h.child p j
    by_cases hp : p = k
    · subst hp
      simpa [Tasks.goOn, hchildren] using hold
    · simpa [Tasks.goOn, Function.update_of_ne hp] using hold
  nodup p := by
    have hold := h.nodup p
    by_cases hp : p = k
    · subst hp
      simpa [Tasks.goOn, hchildren] using hold
    · simpa [Tasks.goOn, Function.update_of_ne hp] using hold
  parent_lt := h.parent_lt
  parent_ne := h.parent_ne
  -- the task itself by `hactive`, any other one by congruence
  task j hj := by
    by_cases hjk : j = k
    · subst hjk
      unfold TaskInv
      simp only [Tasks.goOn, hk, Function.update_self]
      exact ⟨hactive.value, hactive.joins, hactive.ndep, hactive.idle, hactive.fits⟩
    · apply (h.task j hj).congr
      case hframe => exact Function.update_of_ne hjk ..
      case hndep => exact Function.update_of_ne hjk ..
      all_goals rfl

theorem Inv.active (h : s.Inv root) (hk : s.status k = .running) :
    s.Active k (s.frame k) (s.ndep k) := by
  apply TaskInv.active (h.task k ?_) hk
  by_contra hge
  rw [h.unborn k (Nat.le_of_not_lt hge)] at hk
  cases hk

theorem Inv.startSpawn (h : s.Inv root) (hk : s.status k = .running) {queue : Option Nat}
    {child rest : Body β} (hctl : (s.frame k).ctl = .running)
    (hcode : (s.frame k).code = .spawn queue child rest) : (s.startSpawn k).Inv root := by
  have ha := h.active hk
  rw [startSpawn_eq]
  apply h.goOn hk
  · rfl
  refine ⟨ha.value, ?_, ?_, nofun, ?_⟩
  · have hjoins := ha.joins
    rw [hcode] at hjoins ⊢
    exact hjoins
  · -- a counter that is 0 has no open child, and any other is that of a body with pending children
    have hndep := ha.ndep
    have hidle := ha.idle hctl
    simp only [Frame.owed, hctl] at hndep ⊢
    cases hp : (s.frame k).pending
    · rw [hp] at hndep
      have hopen := hidle hp
      rw [if_neg Bool.false_ne_true] at hndep
      rw [if_pos (by omega)]
      omega
    · rw [hp, if_pos rfl] at hndep
      rw [if_neg (by omega)]
      exact hndep
  · show Frame.Fits _
    simp only [Frame.Fits, hcode]

theorem Inv.countChild (h : s.Inv root) (hk : s.status k = .running)
    (hctl : (s.frame k).ctl = .started) : (s.countChild k).Inv root := by
  have ha := h.active hk
  have heq : s.countChild k = s.goOn k { s.frame k with ctl := .counted } (s.ndep k + 1) := rfl
  rw [heq]
  apply h.goOn hk
  · rfl
  refine ⟨ha.value, ha.joins, ?_, nofun, ?_⟩
  · have hndep := ha.ndep
    simp only [Frame.owed, hctl] at hndep ⊢
    omega
  · have hfits := ha.fits
    simp only [Frame.Fits, hctl] at hfits ⊢
    split at hfits <;> simp_all

theorem Inv.beginWait (h : s.Inv root) (hk : s.status k = .running)
    {rest : List (Option β) → Body β} (hctl : (s.frame k).ctl = .running)
    (hcode : (s.frame k).code = .waitall rest) : (s.beginWait k).Inv root := by
  have ha := h.active hk
  have heq : s.beginWait k = s.goOn k { s.frame k with pending := false, ctl := .blocked }
      (if s.ndep k - 1 < 0 then 0 else s.ndep k - 1) := rfl
  rw [heq]
  apply h.goOn hk
  · rfl
  refine ⟨ha.value, ?_, ?_, nofun, ?_⟩
  · have hjoins := ha.joins
    rw [hcode] at hjoins ⊢
    exact hjoins
  · have hndep := ha.ndep
    have hidle := ha.idle hctl
    simp only [Frame.owed, hctl] at hndep ⊢
    cases hp : (s.frame k).pending
    · -- nothing is open, and the counter stays at 0
      rw [hp, if_neg Bool.false_ne_true] at hndep
      have hopen := hidle hp
      rw [if_pos (by omega)]
      omega
    · rw [hp, if_pos rfl] at hndep
      rw [if_neg (by omega)]
      omega
  · show Frame.Fits _
    simp only [Frame.Fits, hcode]

/-- A wait ends when all children are done. -/
theorem Inv.countOpen_of_ndep (h : s.Inv root) (hk : s.status k = .running)
    (hctl : (s.frame k).ctl = .blocked) (hndep : s.ndep k ≤ 0) :
    s.countOpen (s.frame k).children = 0 := by
  have hn := (h.active hk).ndep
  simp only [Frame.owed, hctl] at hn
  omega

theorem Inv.map_cell_of_ndep (h : s.Inv root) (hk : s.status k = .running)
    (hctl : (s.frame k).ctl = .blocked) (hndep : s.ndep k ≤ 0) :
    (s.frame k).children.map s.cell = s.values (s.frame k).children :=
  h.map_cell (fun j hj ↦ ((h.child k j).mp hj).1) (h.countOpen_of_ndep hk hctl hndep)

theorem Inv.endWait (h : s.Inv root) (hk : s.status k = .running)
    {rest : List (Option β) → Body β} (hctl : (s.frame k).ctl = .blocked)
    (hcode : (s.frame k).code = .waitall rest) (hndep : s.ndep k ≤ 0) :
    (s.endWait k rest).Inv root := by
  have ha := h.active hk
  have hn := ha.ndep
  have hfits := ha.fits
  have hjoins := ha.joins
  have hvalue := ha.value
  simp only [Frame.owed, hctl] at hn
  simp only [Frame.Fits, hctl, hcode] at hfits
  rw [hcode] at hjoins hvalue
  have hopen := h.countOpen_of_ndep hk hctl hndep
  rw [endWait_eq]
  apply h.goOn hk
  · rfl
  refine ⟨?_, ?_, ?_, fun _ _ ↦ hopen, trivial⟩
  · rw [← hvalue, h.map_cell_of_ndep hk hctl hndep]
    rfl
  · show ((rest _).Joins (s.frame k).pending)
    rw [hfits]
    exact hjoins _
  · simp only [Frame.owed, hfits, Bool.false_eq_true, if_false]
    omega

/-! ## Execution and completion -/

theorem Inv.lt_issued (h : s.Inv root) (hk : s.status k ≠ .unborn) : k < s.issued := by
  by_contra hge
  exact hk (h.unborn k (Nat.le_of_not_lt hge))

theorem isOpen_setStatus {st : Status β} (hk : (s.status k).isDone = false)
    (hst : st.isDone = false) : (s.setStatus k st).isOpen = s.isOpen := by
  funext j
  by_cases hj : j = k
  · subst hj
    simp [isOpen, setStatus, hk, hst]
  · simp [isOpen, setStatus, Function.update_of_ne hj]

/-- Task `k` goes on to another status before it is done. -/
theorem Inv.setStatus (h : s.Inv root) (hborn : s.status k ≠ .unborn)
    (hk : (s.status k).isDone = false) (st : Status β) (hst : st.isDone = false)
    (hnew : st ≠ .unborn) (htask : (s.setStatus k st).TaskInv k) :
    (s.setStatus k st).Inv root where
  pos := h.pos
  root_body := h.root_body
  root_parent := h.root_parent
  unborn j hj := by
    have hne : j ≠ k := by
      rintro rfl
      exact hborn (h.unborn j hj)
    exact (Function.update_of_ne hne ..).trans (h.unborn j hj)
  born j hj := by
    by_cases hjk : j = k
    · subst hjk
      simpa [Tasks.setStatus] using hnew
    · simpa [Tasks.setStatus, Function.update_of_ne hjk] using h.born j hj
  child := h.child
  nodup := h.nodup
  parent_lt := h.parent_lt
  parent_ne := h.parent_ne
  task j hj := by
    by_cases hjk : j = k
    · subst hjk
      exact htask
    · apply (h.task j hj).congr
      case hstatus => exact Function.update_of_ne hjk ..
      case hopen =>
        show List.countP _ _ = List.countP _ _
        rw [isOpen_setStatus hk hst]
      all_goals rfl

/-- The invariant does not read the clock. -/
theorem Inv.tick (h : s.Inv root) (clock : Nat) (begun : Nat → Nat) :
    { s with clock := clock, begun := begun }.Inv root := by
  refine { h with task := ?task }
  intro k hk
  apply (h.task k hk).congr <;> rfl

theorem Inv.execute (h : s.Inv root) (hk : s.status k = .ready) : (s.execute k).Inv root := by
  have hborn : s.status k ≠ .unborn := by
    rw [hk]
    exact nofun
  have hready := h.task k (h.lt_issued hborn)
  unfold TaskInv at hready
  simp only [hk] at hready
  obtain ⟨hframe, hndep, hjoins⟩ := hready
  apply Inv.tick
  apply h.setStatus hborn (by rw [hk]; rfl) .running rfl nofun
  unfold TaskInv
  have hstatus : (s.setStatus k .running).status k = .running := Function.update_self ..
  simp only [hstatus]
  show Active _ k (s.frame k) (s.ndep k)
  rw [hframe, hndep]
  exact ⟨rfl, hjoins, rfl, fun _ _ ↦ rfl, trivial⟩

/-- A body that returns has no open child, and its result is that of the serial run. -/
theorem Inv.returns (h : s.Inv root) (hk : s.status k = .running) {result : β}
    (hctl : (s.frame k).ctl = .running) (hcode : (s.frame k).code = .ret result) :
    result = s.value k ∧ s.countOpen (s.frame k).children = 0 := by
  have ha := h.active hk
  have hvalue := ha.value
  have hjoins := ha.joins
  rw [hcode] at hvalue hjoins
  exact ⟨hvalue, ha.idle hctl hjoins⟩

theorem Inv.answer (h : s.Inv root) (hk : s.status k = .running) {result : β}
    (hctl : (s.frame k).ctl = .running) (hcode : (s.frame k).code = .ret result) :
    (s.answer k result).Inv root := by
  have hret := h.returns hk hctl hcode
  apply h.setStatus (by rw [hk]; exact nofun) (by rw [hk]; rfl) (.answering result) rfl nofun
  unfold TaskInv
  have hstatus : (s.setStatus k (.answering result)).status k = .answering result :=
    Function.update_self ..
  simp only [hstatus]
  refine ⟨hret.1, ?_⟩
  show List.countP _ _ = 0
  rw [isOpen_setStatus (by rw [hk]; rfl) rfl]
  exact hret.2

/-- Completing a task closes it in the lists that it is in. -/
theorem countOpen_done {l : List Nat} (hl : l.Nodup) (hk : (s.status k).isDone = false) :
    s.countOpen l = (s.setStatus k .done).countOpen l + if k ∈ l then 1 else 0 := by
  have hother :
      ∀ l' : List Nat, k ∉ l' → (s.setStatus k .done).countOpen l' = s.countOpen l' := by
    intro l' hmem
    apply List.countP_congr
    intro j hj
    have hne : j ≠ k := fun heq ↦ hmem (heq ▸ hj)
    simp [isOpen, Tasks.setStatus, Function.update_of_ne hne]
  by_cases hmem : k ∈ l
  · have hperm := List.perm_cons_erase hmem
    have herase : k ∉ l.erase k := hl.not_mem_erase
    unfold countOpen at hother ⊢
    rw [hperm.countP_eq, hperm.countP_eq, List.countP_cons, List.countP_cons, hother _ herase]
    have hdone : (s.setStatus k .done).isOpen k = false := by
      simp [isOpen, Tasks.setStatus, Status.isDone]
    have hopen : s.isOpen k = true := by
      simp [isOpen, hk]
    simp [hdone, hopen, hmem]
  · rw [hother l hmem, if_neg hmem, Nat.add_zero]

theorem Inv.complete (h : s.Inv root) (hborn : s.status k ≠ .unborn)
    (hk : (s.status k).isDone = false) (hopen : s.countOpen (s.frame k).children = 0) :
    (s.complete k (s.value k)).Inv root := by
  have hlt := h.lt_issued hborn
  have hcount := fun p ↦ countOpen_done (h.nodup p) hk
  refine { h with
    unborn := ?unborn
    born := ?born
    task := ?task }
  case unborn =>
    intro j hj
    have hne : j ≠ k := (Nat.lt_of_lt_of_le hlt hj).ne'
    exact (Function.update_of_ne hne ..).trans (h.unborn j hj)
  case born =>
    intro j hj
    by_cases hjk : j = k
    · subst hjk
      simp [Tasks.complete, Tasks.setStatus]
    · simpa [Tasks.complete, Tasks.setStatus, Function.update_of_ne hjk] using h.born j hj
  case task =>
    intro j hj
    -- the task itself, its parent, any other task
    by_cases hjk : j = k
    · subst hjk
      unfold TaskInv
      have hstatus : (s.complete j (s.value j)).status j = .done := Function.update_self ..
      simp only [hstatus]
      refine ⟨Function.update_self .., ?_⟩
      have hle := hcount j
      rw [hopen] at hle
      exact (Nat.add_eq_zero_iff.mp hle.symm).1
    by_cases hparent : (s.desc k).parent = some j
    · -- the parent has one open child less and a counter that is smaller by one
      have hmem : k ∈ (s.frame j).children := (h.child j k).mpr ⟨hlt, hparent⟩
      have hrunning : s.status j = .running :=
        (h.task j hj).running_of_open hmem (by simp [isOpen, hk]) (h.born j hj)
      have ha := h.active hrunning
      have hless := hcount j
      rw [if_pos hmem] at hless
      unfold TaskInv
      have hstatus : (s.complete k (s.value k)).status j = .running :=
        (Function.update_of_ne hjk ..).trans hrunning
      have hndep : (s.complete k (s.value k)).ndep j = s.ndep j - 1 := by
        simp [Tasks.complete, ForkJoin.depsatisfy, hparent]
      simp only [hstatus, hndep]
      refine ⟨ha.value, ha.joins, ?_, fun hctl hp ↦ ?_, ha.fits⟩
      · have hn := ha.ndep
        show s.ndep j - 1 = ((s.setStatus k .done).countOpen (s.frame j).children : Int) +
          (s.frame j).owed
        omega
      · have hidle := ha.idle hctl hp
        omega
    -- no other task has it among its children
    · have hmem : k ∉ (s.frame j).children := fun hmem ↦ hparent ((h.child j k).mp hmem).2
      apply (h.task j hj).congr
      case hstatus => exact Function.update_of_ne hjk ..
      case hcell => exact Function.update_of_ne hjk ..
      case hndep =>
        show ForkJoin.depsatisfy s.ndep (s.desc k).parent j = s.ndep j
        cases hp : (s.desc k).parent with
        | none => rfl
        | some p =>
            rw [hp] at hparent
            exact Function.update_of_ne (fun heq ↦ hparent (congrArg some heq.symm)) ..
      case hopen =>
        have hsame := hcount j
        rw [if_neg hmem] at hsame
        exact hsame.symm
      all_goals rfl

/-! ## A new task -/

section CreateChild

variable {me : Nat} {child rest : Body β}

theorem createChild_frame_of_ne {j : Nat} (hj : j ≠ s.issued) (hjk : j ≠ k) :
    (s.createChild k me child rest).frame j = s.frame j := by
  show Function.update (Function.update s.frame k _) s.issued _ j = s.frame j
  rw [Function.update_of_ne hj, Function.update_of_ne hjk]

theorem createChild_frame_self (hk : k < s.issued) :
    (s.createChild k me child rest).frame k =
      { s.frame k with code := rest, children := (s.frame k).children ++ [s.issued],
                       ctl := .running } := by
  show Function.update (Function.update s.frame k _) s.issued _ k = _
  rw [Function.update_of_ne hk.ne, Function.update_self]

@[simp] theorem createChild_frame_new :
    (s.createChild k me child rest).frame s.issued = { code := child } :=
  Function.update_self ..

theorem createChild_desc_of_lt {j : Nat} (hj : j < s.issued) :
    (s.createChild k me child rest).desc j = s.desc j :=
  Function.update_of_ne hj.ne ..

@[simp] theorem createChild_desc_new :
    (s.createChild k me child rest).desc s.issued =
      { parent := some k, homenode := me, level := (s.desc k).level + 1, body := child } :=
  Function.update_self ..

theorem createChild_values {l : List Nat} (hl : ∀ j ∈ l, j < s.issued) :
    (s.createChild k me child rest).values l = s.values l := by
  apply List.map_congr_left
  intro j hj
  unfold value
  rw [createChild_desc_of_lt (hl j hj)]

theorem createChild_countOpen {l : List Nat} (hl : ∀ j ∈ l, j < s.issued) :
    (s.createChild k me child rest).countOpen l = s.countOpen l := by
  apply List.countP_congr
  intro j hj
  have hne : j ≠ s.issued := (hl j hj).ne
  simp [isOpen, createChild, Function.update_of_ne hne]

theorem Inv.values_createChild (h : s.Inv root) :
    (s.createChild k me child rest).values ((s.frame k).children ++ [s.issued]) =
      s.values (s.frame k).children ++ [some (child.eval [])] := by
  have hnew : (s.createChild k me child rest).value s.issued = child.eval [] := by
    unfold Tasks.value
    rw [createChild_desc_new]
  unfold values
  rw [List.map_append, List.map_singleton, hnew]
  exact congrArg (· ++ _) (createChild_values fun j hj ↦ ((h.child k j).mp hj).1)

theorem Inv.active_createChild (h : s.Inv root) (hk : s.status k = .running) (me : Nat)
    {queue : Option Nat} (hctl : (s.frame k).ctl = .counted)
    (hcode : (s.frame k).code = .spawn queue child rest) :
    (s.createChild k me child rest).Active k
      { s.frame k with code := rest, children := (s.frame k).children ++ [s.issued],
                       ctl := .running } (s.ndep k) := by
  have hlt : k < s.issued := h.lt_issued (by rw [hk]; exact nofun)
  have hold : ∀ j ∈ (s.frame k).children, j < s.issued := fun j hj ↦ ((h.child k j).mp hj).1
  have ha := h.active hk
  have hvalue := ha.value
  have hjoins := ha.joins
  have hndep := ha.ndep
  have hfits := ha.fits
  simp only [Frame.Fits, hctl, hcode] at hfits
  simp only [Frame.owed, hctl] at hndep
  rw [hcode] at hvalue hjoins
  have hopen : (s.createChild k me child rest).countOpen ((s.frame k).children ++ [s.issued]) =
      s.countOpen (s.frame k).children + 1 := by
    have hnew : (s.createChild k me child rest).isOpen s.issued = true := by
      simp [isOpen, Tasks.createChild, Status.isDone]
    unfold countOpen
    rw [List.countP_append, List.countP_singleton, if_pos hnew]
    exact congrArg (· + 1) (createChild_countOpen hold)
  refine ⟨?_, ?_, ?_, fun _ hp ↦ ?_, trivial⟩
  -- the new child is the latest, as in the serial execution
  · have hown : (s.createChild k me child rest).value k = s.value k := by
      unfold Tasks.value
      rw [createChild_desc_of_lt hlt]
    rw [h.values_createChild, hown, ← hvalue]
    rfl
  · rw [hfits]
    exact hjoins.2
  -- it is counted in `ndep` and among the open children at once
  · rw [hopen]
    simp only [Frame.owed, hfits, if_true]
    omega
  · rw [hfits] at hp
    cases hp

theorem Inv.mem_children_createChild (h : s.Inv root) (hlt : k < s.issued) {p j : Nat} :
    j ∈ ((s.createChild k me child rest).frame p).children ↔
      j < (s.createChild k me child rest).issued ∧
        ((s.createChild k me child rest).desc j).parent = some p := by
  by_cases hp : p = s.issued
  · -- nobody is a child of the new task
    subst hp
    rw [createChild_frame_new]
    constructor
    · intro hj
      cases hj
    · rintro ⟨hj, hparent⟩
      by_cases hnew : j = s.issued
      · subst hnew
        rw [createChild_desc_new] at hparent
        cases hparent
        exact absurd hlt (Nat.lt_irrefl _)
      · have hold : j < s.issued := Nat.lt_of_le_of_ne (Nat.lt_succ_iff.mp hj) hnew
        rw [createChild_desc_of_lt hold] at hparent
        exact absurd (h.parent_lt j hold s.issued hparent) (by omega)
  -- the new task is a child of `k` only
  · by_cases hnew : j = s.issued
    · subst hnew
      rw [createChild_desc_new]
      by_cases hpk : p = k
      · subst hpk
        rw [createChild_frame_self hlt]
        exact ⟨fun _ ↦ ⟨Nat.lt_succ_self _, rfl⟩, fun _ ↦ by simp⟩
      · rw [createChild_frame_of_ne hp hpk]
        constructor
        · intro hj
          exact absurd ((h.child p s.issued).mp hj).1 (Nat.lt_irrefl _)
        · intro hj
          exact absurd (Option.some.inj hj.2).symm hpk
    -- an old task is a child of whom it was before
    · have hmem : j ∈ ((s.createChild k me child rest).frame p).children ↔
          j ∈ (s.frame p).children := by
        by_cases hpk : p = k
        · subst hpk
          simp [createChild_frame_self hlt, hnew]
        · rw [createChild_frame_of_ne hp hpk]
      have hissued : j < (s.createChild k me child rest).issued ↔ j < s.issued := by
        show j < s.issued + 1 ↔ j < s.issued
        omega
      have hdesc : (s.createChild k me child rest).desc j = s.desc j :=
        Function.update_of_ne hnew ..
      rw [hmem, h.child, hissued, hdesc]

theorem Inv.createChild (h : s.Inv root) (hk : s.status k = .running) (me : Nat)
    {queue : Option Nat} (hctl : (s.frame k).ctl = .counted)
    (hcode : (s.frame k).code = .spawn queue child rest) :
    (s.createChild k me child rest).Inv root := by
  have hlt : k < s.issued := h.lt_issued (by rw [hk]; exact nofun)
  have hbelow : ∀ p, ∀ j ∈ (s.frame p).children, j < s.issued :=
    fun p j hj ↦ ((h.child p j).mp hj).1
  have ha := h.active hk
  have hjoins := ha.joins
  rw [hcode] at hjoins
  refine { h with
    pos := Nat.succ_pos _
    root_body := ?root_body
    root_parent := ?root_parent
    unborn := ?unborn
    born := ?born
    child := ?child
    nodup := ?nodup
    parent_lt := ?parent_lt
    parent_ne := ?parent_ne
    task := ?task }
  case root_body =>
    rw [createChild_desc_of_lt h.pos, h.root_body]
  case root_parent =>
    rw [createChild_desc_of_lt h.pos, h.root_parent]
  case unborn =>
    intro j hj
    have hj' : s.issued < j := hj
    exact (Function.update_of_ne hj'.ne' ..).trans (h.unborn j hj'.le)
  case born =>
    intro j hj
    by_cases hnew : j = s.issued
    · subst hnew
      simp [Tasks.createChild]
    · have hold : j < s.issued := Nat.lt_of_le_of_ne (Nat.lt_succ_iff.mp hj) hnew
      simpa [Tasks.createChild, Function.update_of_ne hnew] using h.born j hold
  case child =>
    exact fun p j ↦ h.mem_children_createChild hlt
  case nodup =>
    intro p
    by_cases hp : p = s.issued
    · subst hp
      rw [createChild_frame_new]
      exact List.nodup_nil
    · by_cases hpk : p = k
      · subst hpk
        rw [createChild_frame_self hlt]
        apply (h.nodup p).append (List.nodup_singleton _)
        intro j hj hnew
        obtain rfl := List.mem_singleton.mp hnew
        exact absurd (hbelow p _ hj) (Nat.lt_irrefl _)
      · rw [createChild_frame_of_ne hp hpk]
        exact h.nodup p
  case parent_lt =>
    intro j hj p hp
    by_cases hnew : j = s.issued
    · subst hnew
      rw [createChild_desc_new] at hp
      obtain rfl := Option.mem_some.mp hp
      exact hlt
    · have hold : j < s.issued := Nat.lt_of_le_of_ne (Nat.lt_succ_iff.mp hj) hnew
      rw [createChild_desc_of_lt hold] at hp
      exact h.parent_lt j hold p hp
  case parent_ne =>
    intro j hj hpos
    by_cases hnew : j = s.issued
    · subst hnew
      rw [createChild_desc_new]
      exact Option.some_ne_none k
    · have hold : j < s.issued := Nat.lt_of_le_of_ne (Nat.lt_succ_iff.mp hj) hnew
      rw [createChild_desc_of_lt hold]
      exact h.parent_ne j hold hpos
  case task =>
    intro j hj
    by_cases hnew : j = s.issued
    · subst hnew
      unfold TaskInv
      have hstatus : (s.createChild k me child rest).status s.issued = .ready :=
        Function.update_self ..
      simp only [hstatus, createChild_frame_new, createChild_desc_new]
      exact ⟨trivial, Function.update_self .., hjoins.1⟩
    · have hold : j < s.issued := Nat.lt_of_le_of_ne (Nat.lt_succ_iff.mp hj) hnew
      -- the spawning task
      by_cases hjk : j = k
      · subst hjk
        unfold TaskInv
        have hstatus : (s.createChild j me child rest).status j = .running :=
          (Function.update_of_ne hnew ..).trans hk
        have hndep : (s.createChild j me child rest).ndep j = s.ndep j :=
          Function.update_of_ne hnew ..
        simp only [hstatus, hndep, createChild_frame_self hlt]
        exact h.active_createChild hk me hctl hcode
      -- a task that does not spawn
      · apply (h.task j hold).congr
        case hframe => exact createChild_frame_of_ne hnew hjk
        case hndep => exact Function.update_of_ne hnew ..
        case hstatus => exact Function.update_of_ne hnew ..
        case hcell => rfl
        case hbody => rw [createChild_desc_of_lt hold]
        case hvalues => exact createChild_values (hbelow j)
        case hopen => exact createChild_countOpen (hbelow j)

end CreateChild

/-! ## Every run -/

theorem Inv.bodyStep (h : s.Inv root) (hk : s.status k = .running) {me : Nat} {s' : Tasks β}
    (hstep : BodyStep s k me s') : s'.Inv root := by
  cases hstep with
  | startSpawn hctl hcode => exact h.startSpawn hk hctl hcode
  | countChild hctl => exact h.countChild hk hctl
  | createChild hctl hcode => exact h.createChild hk me hctl hcode
  | beginWait hctl hcode => exact h.beginWait hk hctl hcode
  | endWait hctl hcode hndep => exact h.endWait hk hctl hcode hndep
  | complete hctl hcode =>
      obtain ⟨rfl, hopen⟩ := h.returns hk hctl hcode
      exact h.complete (by rw [hk]; exact nofun) (by rw [hk]; rfl) hopen
  | answer hctl hcode => exact h.answer hk hctl hcode

theorem Inv.step (h : s.Inv root) {s' : Tasks β} (hstep : Step s s') : s'.Inv root := by
  cases hstep with
  | body hk hbody => exact h.bodyStep hk hbody
  | execute hk => exact h.execute hk
  | @complete k result hk =>
      have hborn : s.status k ≠ .unborn := by
        rw [hk]
        exact nofun
      have hanswer := h.task k (h.lt_issued hborn)
      unfold TaskInv at hanswer
      simp only [hk] at hanswer
      obtain ⟨rfl, hopen⟩ := hanswer
      exact h.complete hborn (by rw [hk]; rfl) hopen

theorem inv_of_reachable (hjoins : root.Joins false) (h : (system root).Reachable s) :
    s.Inv root := by
  apply h.invariant (Inv root)
  · rintro s rfl
    exact Inv.start hjoins
  · intro s s' a hinv _ hstep
    exact hinv.step (step_cases hstep)

end Tasks

end Torc.Parallel
