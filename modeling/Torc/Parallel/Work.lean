import Torc.Parallel.Results
import Mathlib.Algebra.BigOperators.Group.Finset.Basic
import Mathlib.Algebra.Order.Ring.Nat

/-!
# The work that is left

Whatever is counted along the serial run is left in equal parts to the tasks of every other run:
the number of tasks comes out the same, and no order of execution takes more steps.
-/

namespace Torc.Parallel.Tasks

open Transition

variable {β : Type} {root : Body β} {s s' : Tasks β} {k : Nat}

/-- What is counted: over the rest of a body, for a task that waits for execution besides its body,
for one whose answer is on its way, and what of a statement has been done at a place inside it. -/
structure Rates (β : Type) where
  body : Body β → List (Option β) → Nat
  ready : Nat
  answering : Nat
  spent : Ctl → Nat

def left (r : Rates β) (s : Tasks β) (k : Nat) : Nat :=
  match s.status k with
  | .ready => r.ready + r.body (s.desc k).body []
  | .running =>
      r.body (s.frame k).code (s.values (s.frame k).children) - r.spent (s.frame k).ctl
  | .answering _ => r.answering
  | .unborn | .done => 0

def total (r : Rates β) (s : Tasks β) : Nat :=
  ∑ k ∈ Finset.range s.issued, s.left r k

/-! ## Sums in which one task changes -/

theorem left_congr (r : Rates β) (hdesc : (s'.desc k).body = (s.desc k).body)
    (hframe : s'.frame k = s.frame k) (hstatus : s'.status k = s.status k)
    (hvalues : s'.values (s.frame k).children = s.values (s.frame k).children) :
    s'.left r k = s.left r k := by
  unfold left
  rw [hstatus, hdesc, hframe, hvalues]

theorem sum_change {n : Nat} {f g : Nat → Nat} (hk : k < n)
    (h : ∀ j < n, j ≠ k → g j = f j) :
    ∑ j ∈ Finset.range n, g j + f k = ∑ j ∈ Finset.range n, f j + g k := by
  have hmem : k ∈ Finset.range n := Finset.mem_range.mpr hk
  have hrest :
      ∑ j ∈ (Finset.range n).erase k, g j = ∑ j ∈ (Finset.range n).erase k, f j := by
    apply Finset.sum_congr rfl
    intro j hj
    rw [Finset.mem_erase, Finset.mem_range] at hj
    exact h j hj.2 hj.1
  rw [← Finset.add_sum_erase _ _ hmem, ← Finset.add_sum_erase _ f hmem, hrest]
  omega

theorem total_goOn (r : Rates β) (hk : k < s.issued) (f : Frame β) (n : Int) :
    (s.goOn k f n).total r + s.left r k = s.total r + (s.goOn k f n).left r k := by
  apply sum_change hk
  intro j _ hj
  apply left_congr
  case hframe => exact Function.update_of_ne hj ..
  all_goals rfl

theorem left_running (r : Rates β) (hk : s.status k = .running) :
    s.left r k =
      r.body (s.frame k).code (s.values (s.frame k).children) - r.spent (s.frame k).ctl := by
  unfold left
  rw [hk]

theorem left_goOn (r : Rates β) (hk : s.status k = .running) (f : Frame β) (n : Int) :
    (s.goOn k f n).left r k = r.body f.code (s.values f.children) - r.spent f.ctl := by
  have hstatus : (s.goOn k f n).status k = .running := hk
  have hframe : (s.goOn k f n).frame k = f := Function.update_self ..
  unfold left
  rw [hstatus, hframe]
  rfl

theorem total_setStatus (r : Rates β) (hk : k < s.issued) (st : Status β) :
    (s.setStatus k st).total r + s.left r k = s.total r + (s.setStatus k st).left r k := by
  apply sum_change hk
  intro j _ hj
  apply left_congr
  case hstatus => exact Function.update_of_ne hj ..
  all_goals rfl

theorem left_answering (r : Rates β) (result : β) :
    (s.setStatus k (.answering result)).left r k = r.answering := by
  have hstatus : (s.setStatus k (.answering result)).status k = .answering result :=
    Function.update_self ..
  unfold left
  rw [hstatus]

theorem left_setStatus (r : Rates β) (st : Status β) (h : st.isDone = true) :
    (s.setStatus k st).left r k = 0 := by
  have hstatus : (s.setStatus k st).status k = st := Function.update_self ..
  unfold left
  rw [hstatus]
  cases st <;> first | rfl | cases h

theorem Inv.left_createChild (h : s.Inv root) (hk : s.status k = .running) (r : Rates β)
    (me : Nat) (child rest : Body β) :
    (s.createChild k me child rest).left r k =
      r.body rest (s.values (s.frame k).children ++ [some (child.eval [])]) - r.spent .running := by
  have hlt : k < s.issued := h.lt_issued (by rw [hk]; exact nofun)
  have hstatus : (s.createChild k me child rest).status k = .running :=
    (Function.update_of_ne hlt.ne ..).trans hk
  rw [left_running r hstatus, createChild_frame_self hlt, h.values_createChild]

theorem Inv.total_createChild (h : s.Inv root) (hk : k < s.issued) (r : Rates β) (me : Nat)
    (child rest : Body β) :
    (s.createChild k me child rest).total r + s.left r k =
      s.total r + (s.createChild k me child rest).left r k + (r.ready + r.body child []) := by
  have hnew : (s.createChild k me child rest).left r s.issued = r.ready + r.body child [] := by
    have hstatus : (s.createChild k me child rest).status s.issued = .ready :=
      Function.update_self ..
    unfold left
    rw [hstatus, createChild_desc_new]
  have hold : ∀ j < s.issued, j ≠ k →
      (s.createChild k me child rest).left r j = s.left r j := by
    intro j hj hjk
    apply left_congr
    case hdesc => rw [createChild_desc_of_lt hj]
    case hframe => exact createChild_frame_of_ne hj.ne hjk
    case hstatus => exact Function.update_of_ne hj.ne ..
    case hvalues => exact createChild_values fun i hi ↦ ((h.child j i).mp hi).1
  have hsum := sum_change hk hold
  have hsucc : (s.createChild k me child rest).total r =
      ∑ j ∈ Finset.range s.issued, (s.createChild k me child rest).left r j +
        (s.createChild k me child rest).left r s.issued := Finset.sum_range_succ ..
  rw [hsucc, hnew]
  unfold total
  omega

/-! ## What each step counts -/

section Steps

variable (r : Rates β) {code : Body β} {rest : List (Option β) → Body β} {result : β}

theorem Inv.total_startSpawn (h : s.Inv root) (hk : s.status k = .running)
    (hctl : (s.frame k).ctl = .running) (hcode : (s.frame k).code = code) :
    (s.startSpawn k).total r + (r.body code (s.values (s.frame k).children) - r.spent .running) =
      s.total r + (r.body code (s.values (s.frame k).children) - r.spent .started) := by
  have htotal := total_goOn r (h.lt_issued (by rw [hk]; exact nofun))
    { s.frame k with pending := true, ctl := .started } (if s.ndep k = 0 then 1 else s.ndep k)
  rw [left_goOn r hk, left_running r hk, hcode, hctl] at htotal
  rw [startSpawn_eq]
  exact htotal

theorem Inv.total_countChild (h : s.Inv root) (hk : s.status k = .running)
    (hctl : (s.frame k).ctl = .started) (hcode : (s.frame k).code = code) :
    (s.countChild k).total r + (r.body code (s.values (s.frame k).children) - r.spent .started) =
      s.total r + (r.body code (s.values (s.frame k).children) - r.spent .counted) := by
  have htotal := total_goOn r (h.lt_issued (by rw [hk]; exact nofun))
    { s.frame k with ctl := .counted } (s.ndep k + 1)
  rw [left_goOn r hk, left_running r hk, hcode, hctl] at htotal
  exact htotal

theorem Inv.total_beginWait (h : s.Inv root) (hk : s.status k = .running)
    (hctl : (s.frame k).ctl = .running) (hcode : (s.frame k).code = code) :
    (s.beginWait k).total r + (r.body code (s.values (s.frame k).children) - r.spent .running) =
      s.total r + (r.body code (s.values (s.frame k).children) - r.spent .blocked) := by
  have htotal := total_goOn r (h.lt_issued (by rw [hk]; exact nofun))
    { s.frame k with pending := false, ctl := .blocked }
    (if s.ndep k - 1 < 0 then 0 else s.ndep k - 1)
  rw [left_goOn r hk, left_running r hk, hcode, hctl] at htotal
  exact htotal

theorem Inv.total_endWait (h : s.Inv root) (hk : s.status k = .running)
    (hctl : (s.frame k).ctl = .blocked) (hcode : (s.frame k).code = .waitall rest)
    (hndep : s.ndep k ≤ 0) :
    (s.endWait k rest).total r +
        (r.body (.waitall rest) (s.values (s.frame k).children) - r.spent .blocked) =
      s.total r + (r.body (rest (s.values (s.frame k).children))
        (s.values (s.frame k).children) - r.spent .running) := by
  have htotal := total_goOn r (h.lt_issued (by rw [hk]; exact nofun))
    { s.frame k with code := rest ((s.frame k).children.map s.cell), ctl := .running }
    (s.ndep k)
  rw [left_goOn r hk, left_running r hk, hcode, hctl] at htotal
  rw [endWait_eq, ← h.map_cell_of_ndep hk hctl hndep]
  rw [← h.map_cell_of_ndep hk hctl hndep] at htotal
  exact htotal

theorem Inv.total_answer (h : s.Inv root) (hk : s.status k = .running)
    (hctl : (s.frame k).ctl = .running) (hcode : (s.frame k).code = .ret result) :
    (s.answer k result).total r +
        (r.body (.ret result) (s.values (s.frame k).children) - r.spent .running) =
      s.total r + r.answering := by
  have htotal := total_setStatus r (h.lt_issued (by rw [hk]; exact nofun)) (.answering result)
  rw [left_answering, left_running r hk, hcode, hctl] at htotal
  exact htotal

theorem Inv.total_complete (h : s.Inv root) (hk : s.status k ≠ .unborn) (result : β) :
    (s.complete k result).total r + s.left r k = s.total r := by
  have htotal := total_setStatus r (h.lt_issued hk) .done
  rw [left_setStatus r _ rfl] at htotal
  exact htotal

theorem Inv.total_execute (h : s.Inv root) (hk : s.status k = .ready) :
    (s.execute k).total r + (r.ready + r.body (s.desc k).body []) =
      s.total r + (r.body (s.desc k).body [] - r.spent .running) := by
  have hlt : k < s.issued := h.lt_issued (by rw [hk]; exact nofun)
  have htotal := total_setStatus r hlt .running
  have hready := h.task k hlt
  unfold TaskInv at hready
  simp only [hk] at hready
  have hbefore : s.left r k = r.ready + r.body (s.desc k).body [] := by
    unfold left
    rw [hk]
  have hafter : (s.setStatus k .running).left r k =
      r.body (s.desc k).body [] - r.spent .running := by
    rw [left_running r (Function.update_self ..)]
    show r.body (s.frame k).code (s.values (s.frame k).children) - r.spent (s.frame k).ctl = _
    rw [hready.1]
    rfl
  rw [hbefore, hafter] at htotal
  exact htotal

end Steps

/-! ## Work and tasks -/

def workRates : Rates β where
  body := Body.work
  ready := 1
  answering := 1
  spent
    | .running => 0
    | .started => 1
    | .counted => 2
    | .blocked => 1

theorem Inv.work_bodyStep (h : s.Inv root) (hk : s.status k = .running) {me : Nat}
    (hstep : BodyStep s k me s') : s'.total workRates < s.total workRates := by
  have hlt : k < s.issued := h.lt_issued (by rw [hk]; exact nofun)
  have hfits := (h.active hk).fits
  cases hstep with
  | startSpawn hctl hcode =>
      have htotal := h.total_startSpawn workRates hk hctl hcode
      simp only [workRates, Body.work] at htotal ⊢
      omega
  | countChild hctl =>
      -- the statement is a call of `torc_task`
      cases hcode : (s.frame k).code with
      | spawn =>
          have htotal := h.total_countChild workRates hk hctl hcode
          simp only [workRates, Body.work] at htotal ⊢
          omega
      | _ => simp [Frame.Fits, hctl, hcode] at hfits
  | @createChild queue child rest hctl hcode =>
      have htotal := h.total_createChild hlt workRates me child rest
      rw [h.left_createChild hk, left_running workRates hk, hcode, hctl] at htotal
      simp only [workRates, Body.work] at htotal ⊢
      omega
  | beginWait hctl hcode =>
      have htotal := h.total_beginWait workRates hk hctl hcode
      simp only [workRates, Body.work] at htotal ⊢
      omega
  | endWait hctl hcode hndep =>
      have htotal := h.total_endWait workRates hk hctl hcode hndep
      simp only [workRates, Body.work] at htotal ⊢
      omega
  | @complete result hctl hcode =>
      have htotal := h.total_complete workRates (by rw [hk]; exact nofun) result
      rw [left_running workRates hk, hcode, hctl] at htotal
      simp only [workRates, Body.work] at htotal ⊢
      omega
  | answer hctl hcode =>
      have htotal := h.total_answer workRates hk hctl hcode
      simp only [workRates, Body.work] at htotal ⊢
      omega

/-- Every step is one of those that the serial run takes. -/
theorem Inv.work_step (h : s.Inv root) (hstep : Step s s') :
    s'.total workRates < s.total workRates := by
  cases hstep with
  | body hk hbody => exact h.work_bodyStep hk hbody
  | execute hk =>
      have htotal := h.total_execute workRates hk
      simp only [workRates] at htotal ⊢
      omega
  | @complete k result hk =>
      have htotal := h.total_complete workRates (by rw [hk]; exact nofun) result
      have hleft : s.left workRates k = 1 := by
        unfold left
        rw [hk]
        rfl
      omega

def spawnRates : Rates β where
  body := Body.spawned
  ready := 0
  answering := 0
  spent _ := 0

/-- The tasks created and those to be created come to the same number after every step. -/
theorem Inv.spawned_step (h : s.Inv root) (hstep : Step s s') :
    s'.issued + s'.total spawnRates = s.issued + s.total spawnRates := by
  cases hstep with
  | @body k me s' hk hbody =>
      have hlt : k < s.issued := h.lt_issued (by rw [hk]; exact nofun)
      cases hbody with
      | startSpawn hctl hcode =>
          exact congrArg (s.issued + ·)
            (Nat.add_right_cancel (h.total_startSpawn spawnRates hk hctl hcode))
      | countChild hctl =>
          exact congrArg (s.issued + ·)
            (Nat.add_right_cancel (h.total_countChild spawnRates hk hctl rfl))
      | @createChild queue child rest hctl hcode =>
          have htotal := h.total_createChild hlt spawnRates me child rest
          rw [h.left_createChild hk, left_running spawnRates hk, hcode, hctl] at htotal
          have hissued : (s.createChild k me child rest).issued = s.issued + 1 := rfl
          simp only [spawnRates, Body.spawned] at htotal ⊢
          omega
      | beginWait hctl hcode =>
          exact congrArg (s.issued + ·)
            (Nat.add_right_cancel (h.total_beginWait spawnRates hk hctl hcode))
      | endWait hctl hcode hndep =>
          exact congrArg (s.issued + ·)
            (Nat.add_right_cancel (h.total_endWait spawnRates hk hctl hcode hndep))
      | @complete result hctl hcode =>
          have htotal := h.total_complete spawnRates (by rw [hk]; exact nofun) result
          rw [left_running spawnRates hk, hcode, hctl] at htotal
          exact congrArg (s.issued + ·) htotal
      | answer hctl hcode =>
          exact congrArg (s.issued + ·) (h.total_answer spawnRates hk hctl hcode)
  | @execute k hk =>
      have htotal := h.total_execute spawnRates hk
      have hissued : (s.execute k).issued = s.issued := rfl
      simp only [spawnRates] at htotal ⊢
      omega
  | @complete k result hk =>
      have htotal := h.total_complete spawnRates (by rw [hk]; exact nofun) result
      have hleft : s.left spawnRates k = 0 := by
        unfold left
        rw [hk]
        rfl
      rw [hleft] at htotal
      exact congrArg (s.issued + ·) htotal

def readyRates : Rates β where
  body _ _ := 0
  ready := 1
  answering := 0
  spent _ := 0

/-- Every start of a body takes one of the ready tasks. -/
theorem Inv.ready_step (h : s.Inv root) (hstep : Step s s') :
    s'.clock + s'.total readyRates + s.issued = s.clock + s.total readyRates + s'.issued := by
  cases hstep with
  | @body k me s' hk hbody =>
      have hlt : k < s.issued := h.lt_issued (by rw [hk]; exact nofun)
      cases hbody with
      | startSpawn hctl hcode =>
          exact congrArg (s.clock + · + s.issued) (h.total_startSpawn readyRates hk hctl hcode)
      | countChild hctl =>
          exact congrArg (s.clock + · + s.issued) (h.total_countChild readyRates hk hctl rfl)
      | @createChild queue child rest hctl hcode =>
          have htotal := h.total_createChild hlt readyRates me child rest
          rw [h.left_createChild hk, left_running readyRates hk] at htotal
          have hissued : (s.createChild k me child rest).issued = s.issued + 1 := rfl
          have hclock : (s.createChild k me child rest).clock = s.clock := rfl
          simp only [readyRates] at htotal ⊢
          omega
      | beginWait hctl hcode =>
          exact congrArg (s.clock + · + s.issued) (h.total_beginWait readyRates hk hctl hcode)
      | endWait hctl hcode hndep =>
          exact congrArg (s.clock + · + s.issued) (h.total_endWait readyRates hk hctl hcode hndep)
      | @complete result hctl hcode =>
          have htotal := h.total_complete readyRates (by rw [hk]; exact nofun) result
          rw [left_running readyRates hk] at htotal
          exact congrArg (s.clock + · + s.issued) htotal
      | answer hctl hcode =>
          exact congrArg (s.clock + · + s.issued) (h.total_answer readyRates hk hctl hcode)
  | @execute k hk =>
      have htotal := h.total_execute readyRates hk
      have hissued : (s.execute k).issued = s.issued := rfl
      have hclock : (s.execute k).clock = s.clock + 1 := rfl
      simp only [readyRates] at htotal ⊢
      omega
  | @complete k result hk =>
      have htotal := h.total_complete readyRates (by rw [hk]; exact nofun) result
      have hleft : s.left readyRates k = 0 := by
        unfold left
        rw [hk]
        rfl
      rw [hleft] at htotal
      exact congrArg (s.clock + · + s.issued) htotal

/-! ## Every run -/

/-- The tasks of the serial run are those created and to be created, and the bodies begun are those
of the tasks created and not ready. -/
structure Counted (root : Body β) (s : Tasks β) : Prop where
  spawned : s.issued + s.total spawnRates = 1 + root.spawned []
  begun : s.clock + s.total readyRates = s.issued

theorem Counted.start : Counted root (start root) where
  spawned := by
    have hone : (Tasks.start root).total spawnRates = (Tasks.start root).left spawnRates 0 :=
      Finset.sum_range_one _
    rw [hone, left_running spawnRates rfl]
    rfl
  begun := by
    have hone : (Tasks.start root).total readyRates = (Tasks.start root).left readyRates 0 :=
      Finset.sum_range_one _
    rw [hone, left_running readyRates rfl]
    rfl

theorem Counted.step (h : Counted root s) (hinv : s.Inv root) (hstep : Step s s') :
    Counted root s' where
  spawned := (hinv.spawned_step hstep).trans h.spawned
  begun := by
    have hready := hinv.ready_step hstep
    have hbegun := h.begun
    omega

/-- When the program is done, all its tasks are. -/
theorem Inv.all_done (h : s.Inv root) (hroot : (s.status 0).isDone = true) (hk : k < s.issued) :
    (s.status k).isDone = true := by
  -- the parent has a smaller number and no open child
  induction k using Nat.strong_induction_on with
  | _ k ih =>
      by_cases hzero : k = 0
      · subst hzero
        exact hroot
      · obtain ⟨p, hp⟩ :=
          Option.ne_none_iff_exists'.mp (h.parent_ne k hk (Nat.pos_of_ne_zero hzero))
        have hlt := h.parent_lt k hk p hp
        have hdone := ih p hlt (Nat.lt_trans hlt hk)
        have htask := h.task p (Nat.lt_trans hlt hk)
        unfold TaskInv at htask
        cases hst : s.status p <;> simp only [hst] at htask hdone
        case done => exact countOpen_eq_zero htask.2 ((h.child p k).mpr ⟨hk, hp⟩)
        all_goals cases hdone

theorem Inv.total_eq_zero (h : s.Inv root) (hroot : (s.status 0).isDone = true) (r : Rates β) :
    s.total r = 0 := by
  apply Finset.sum_eq_zero
  intro k hk
  have hdone := h.all_done hroot (Finset.mem_range.mp hk)
  unfold left
  cases hst : s.status k <;> simp only [hst] at hdone ⊢
  all_goals cases hdone

end Torc.Parallel.Tasks
