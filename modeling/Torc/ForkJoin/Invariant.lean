import Torc.ForkJoin.Machine
import Mathlib.Data.List.Count

/-!
# The invariant of fork-join execution

A bag of queued tasks stands for the queues: nothing here depends on the order in which they are
taken.  Parents lie below their children on the stack, so that the outstanding children of the top
task are all in the bag.
-/

namespace Torc.ForkJoin

structure Config where
  stack : List Frame
  queued : List Task
  reuseQ : List Nat
  fresh : Nat
  ndep : Nat → Int

def State.config (s : State) : Config :=
  ⟨s.stack, s.queues.tasks, s.reuseQ, s.fresh, s.ndep⟩

def stackAddrs (stack : List Frame) : List Nat :=
  stack.map fun f ↦ f.task.addr

/-- The addresses of all descriptors: running, queued or waiting for reuse. -/
def Config.addrs (c : Config) : List Nat :=
  stackAddrs c.stack ++ (c.queued.map Task.addr ++ c.reuseQ)

def Config.parents (c : Config) : List (Option Nat) :=
  c.stack.map (fun f ↦ f.task.parent) ++ c.queued.map Task.parent

/-- The number of tasks, running or queued, whose parent is `a`. -/
def Config.children (c : Config) (a : Nat) : Nat :=
  c.parents.count (some a)

def Nested : List Frame → Prop
  | [] => True
  | f :: rest => (∀ a, f.task.parent = some a → a ∈ stackAddrs rest) ∧ Nested rest

/-- The counter `n` of a task with `k` outstanding children: one more than `k` from its first spawn
to its next wait. -/
def FrameOk (f : Frame) (n : Int) (k : Nat) : Prop :=
  match f.ctl with
  | .running => ∃ pending : Bool, f.task.body.Joins pending ∧
      n = k + (if pending then 1 else 0) ∧ (pending = false → k = 0)
  | .blocked => f.task.body.Joins false ∧ n = k

structure Inv (c : Config) : Prop where
  notEmpty : c.stack ≠ []
  nodup : c.addrs.Nodup
  below : ∀ a ∈ c.addrs, a < c.fresh
  nested : Nested c.stack
  queuedParent : ∀ t ∈ c.queued, ∃ a ∈ stackAddrs c.stack, t.parent = some a
  queuedIdle : ∀ t ∈ c.queued, t.body.Joins false ∧ c.ndep t.addr = 0
  frames : ∀ f ∈ c.stack, FrameOk f (c.ndep f.task.addr) (c.children f.task.addr)
  waiting : ∀ f ∈ c.stack.tail, f.ctl = .blocked

theorem Nested.parent_mem {stack : List Frame} (h : Nested stack) {f : Frame} (hf : f ∈ stack)
    {a : Nat} (ha : f.task.parent = some a) : a ∈ stackAddrs stack.tail := by
  induction stack with
  | nil => cases hf
  | cons g rest ih =>
      rcases List.mem_cons.mp hf with rfl | hf'
      · exact h.1 a ha
      · have hmem := ih h.2 hf'
        unfold stackAddrs at hmem ⊢
        rw [List.map_tail] at hmem
        exact List.mem_of_mem_tail hmem

theorem Inv.queuedParent_mem {c : Config} (h : Inv c) {t : Task} (ht : t ∈ c.queued) {a : Nat}
    (ha : t.parent = some a) : a ∈ stackAddrs c.stack := by
  obtain ⟨b, hb, hpar⟩ := h.queuedParent t ht
  rw [ha] at hpar
  cases hpar
  exact hb

/-- A descriptor that is not running has no children. -/
theorem Inv.children_eq_zero {c : Config} (h : Inv c) {a : Nat} (ha : a ∉ stackAddrs c.stack) :
    c.children a = 0 := by
  apply List.count_eq_zero.mpr
  intro hmem
  rcases List.mem_append.mp hmem with hs | hq
  · obtain ⟨f, hf, hpar⟩ := List.mem_map.mp hs
    apply ha
    have hm := h.nested.parent_mem hf hpar
    unfold stackAddrs at hm ⊢
    rw [List.map_tail] at hm
    exact List.mem_of_mem_tail hm
  · obtain ⟨t, ht, hpar⟩ := List.mem_map.mp hq
    exact ha (h.queuedParent_mem ht hpar)

theorem Inv.top_notMem {c : Config} (h : Inv c) {f : Frame} {rest : List Frame}
    (hs : c.stack = f :: rest) :
    f.task.addr ∉ stackAddrs rest ∧ f.task.addr ∉ c.queued.map Task.addr ∧
      f.task.addr ∉ c.reuseQ := by
  have hn : (f.task.addr ::
      (stackAddrs rest ++ (c.queued.map Task.addr ++ c.reuseQ))).Nodup := by
    have hnodup := h.nodup
    rw [Config.addrs, hs] at hnodup
    exact hnodup
  have hnot := (List.nodup_cons.mp hn).1
  simp only [List.mem_append, not_or] at hnot
  exact hnot

/-- The outstanding children of the top task are queued, not buried in the stack. -/
theorem Inv.children_top {c : Config} (h : Inv c) {f : Frame} {rest : List Frame}
    (hs : c.stack = f :: rest) :
    c.children f.task.addr = (c.queued.map Task.parent).count (some f.task.addr) := by
  unfold Config.children Config.parents
  rw [List.count_append]
  -- a child in the stack has its parent below it, and the top is not below anything
  have hzero : (c.stack.map fun g ↦ g.task.parent).count (some f.task.addr) = 0 := by
    apply List.count_eq_zero.mpr
    intro hmem
    obtain ⟨g, hg, hpar⟩ := List.mem_map.mp hmem
    have hbelow := h.nested.parent_mem hg hpar
    rw [hs] at hbelow
    exact (h.top_notMem hs).1 hbelow
  rw [hzero, Nat.zero_add]

theorem Inv.perm {c : Config} (h : Inv c) {queued : List Task} (hp : c.queued.Perm queued) :
    Inv { c with queued := queued } := by
  have haddrs : c.addrs.Perm (Config.addrs { c with queued := queued }) :=
    ((hp.map Task.addr).append_right _).append_left _
  have hchildren : ∀ a, Config.children { c with queued := queued } a = c.children a :=
    fun a ↦ (((hp.map Task.parent).append_left _).count_eq (some a)).symm
  refine { h with
    nodup := haddrs.nodup_iff.mp h.nodup
    below := fun a ha ↦ h.below a (haddrs.mem_iff.mpr ha)
    queuedParent := fun t ht ↦ h.queuedParent t (hp.mem_iff.mpr ht)
    queuedIdle := fun t ht ↦ h.queuedIdle t (hp.mem_iff.mpr ht)
    frames := fun f hf ↦ ?frames }
  rw [hchildren]
  exact h.frames f hf

/-! ## The steps of the worker -/

/-- The address of a new descriptor is not that of any descriptor in use. -/
theorem Inv.newAddr {c : Config} (h : Inv c) {addr fresh : Nat} {reuseQ : List Nat}
    (hnew : torcGetReusedDesc c.reuseQ c.fresh = (addr, reuseQ, fresh)) :
    (stackAddrs c.stack ++ (addr :: (c.queued.map Task.addr ++ reuseQ))).Nodup ∧
      ∀ a ∈ stackAddrs c.stack ++ (addr :: (c.queued.map Task.addr ++ reuseQ)), a < fresh := by
  unfold torcGetReusedDesc at hnew
  split at hnew
  · rename_i hreuse
    cases hnew
    -- `reuse_q` is empty, the address was never handed out
    have hold : c.addrs = stackAddrs c.stack ++ (c.queued.map Task.addr ++ []) := by
      rw [Config.addrs, hreuse]
    constructor
    · apply List.perm_middle.nodup_iff.mpr
      rw [← hold, List.nodup_cons]
      exact ⟨fun hmem ↦ absurd (h.below _ hmem) (Nat.lt_irrefl _), h.nodup⟩
    · intro a ha
      rcases List.mem_cons.mp (List.perm_middle.mem_iff.mp ha) with rfl | hmem
      · exact Nat.lt_succ_self _
      · rw [← hold] at hmem
        exact Nat.lt_succ_of_lt (h.below a hmem)
  · rename_i hreuse
    cases hnew
    -- the head of `reuse_q` moves to the new task
    have hold : c.addrs.Perm
        (stackAddrs c.stack ++ (addr :: (c.queued.map Task.addr ++ reuseQ))) := by
      rw [Config.addrs, hreuse]
      exact List.perm_middle.append_left _
    exact ⟨hold.nodup_iff.mp h.nodup, fun a ha ↦ h.below a (hold.mem_iff.mpr ha)⟩

theorem countChild_other (ndep : Nat → Int) {self a : Nat} (ha : a ≠ self) :
    countChild ndep self a = ndep a := by
  unfold countChild
  rw [Function.update_of_ne ha]
  split
  · exact Function.update_of_ne ha _ _
  · rfl

theorem countChild_self (ndep : Nat → Int) (self : Nat) :
    countChild ndep self self = if ndep self = 0 then 2 else ndep self + 1 := by
  unfold countChild
  rw [Function.update_self]
  split
  · rw [Function.update_self]
    rfl
  · rfl

theorem Inv.spawn {c : Config} (h : Inv c) {f : Frame} {rest : List Frame} {child body : Body}
    (hs : c.stack = f :: rest) (hctl : f.ctl = .running) (hbody : f.task.body = .spawn child body)
    {addr fresh : Nat} {reuseQ : List Nat}
    (hnew : torcGetReusedDesc c.reuseQ c.fresh = (addr, reuseQ, fresh)) :
    Inv
      { stack := { f with task := { f.task with body := body }, next := f.next + 1 } :: rest
        queued := childTask f addr child :: c.queued
        reuseQ := reuseQ
        fresh := fresh
        ndep := Function.update (countChild c.ndep f.task.addr) addr 0 } := by
  obtain ⟨hnodup, hbelow⟩ := h.newAddr hnew
  have hjoin := h.frames f (by rw [hs]; exact List.mem_cons_self)
  unfold FrameOk at hjoin
  rw [hctl] at hjoin
  obtain ⟨pending, hj, hn, hk⟩ := hjoin
  rw [hbody] at hj
  have haddr : addr ∉ stackAddrs c.stack := by
    intro hmem
    exact (List.nodup_append.mp hnodup).2.2 addr hmem addr List.mem_cons_self rfl
  -- the new task is a child of the top frame and of nobody else
  have hchildren : ∀ a, (List.map (fun g : Frame ↦ g.task.parent) (f :: rest) ++
      (some f.task.addr :: c.queued.map Task.parent)).count (some a) =
      c.children a + if a = f.task.addr then 1 else 0 := by
    intro a
    rw [List.perm_middle.count_eq, List.count_cons, Config.children, Config.parents, hs]
    congr 1
    simp only [beq_iff_eq, Option.some.injEq, @eq_comm _ f.task.addr]
  refine
    { notEmpty := List.cons_ne_nil _ _
      nodup := ?nodup
      below := ?below
      nested := ?nested
      queuedParent := ?queuedParent
      queuedIdle := ?queuedIdle
      frames := ?frames
      waiting := ?waiting }
  case nodup =>
    rw [hs] at hnodup
    exact hnodup
  case below =>
    rw [hs] at hbelow
    exact hbelow
  case nested =>
    have hnested := h.nested
    rw [hs] at hnested
    exact hnested
  case queuedParent =>
    intro t ht
    have hold : stackAddrs c.stack = f.task.addr :: stackAddrs rest := by
      rw [hs]
      rfl
    show ∃ a ∈ f.task.addr :: stackAddrs rest, t.parent = some a
    rcases List.mem_cons.mp ht with rfl | ht'
    · exact ⟨f.task.addr, List.mem_cons_self, rfl⟩
    · rw [← hold]
      exact h.queuedParent t ht'
  case queuedIdle =>
    intro t ht
    -- the new task has no children and its counter is cleared
    rcases List.mem_cons.mp ht with rfl | ht'
    · exact ⟨hj.1, Function.update_self addr 0 _⟩
    -- it is at another address than the tasks in the queue
    · have hne : t.addr ≠ addr := by
        rintro rfl
        have hcons := (List.nodup_append.mp hnodup).2.1
        exact (List.nodup_cons.mp hcons).1
          (List.mem_append_left _ (List.mem_map_of_mem ht'))
      have hself : t.addr ≠ f.task.addr := fun heq ↦
        (h.top_notMem hs).2.1 (heq ▸ List.mem_map_of_mem ht')
      refine ⟨(h.queuedIdle t ht').1, ?_⟩
      show Function.update (countChild c.ndep f.task.addr) addr 0 t.addr = 0
      rw [Function.update_of_ne hne, countChild_other _ hself]
      exact (h.queuedIdle t ht').2
  case frames =>
    intro g hg
    have hmem : g.task.addr ∈ stackAddrs c.stack := by
      rw [hs]
      rcases List.mem_cons.mp hg with rfl | hg'
      · exact List.mem_cons_self
      · exact List.mem_cons_of_mem _ (List.mem_map_of_mem hg')
    have hne : g.task.addr ≠ addr := fun heq ↦ haddr (heq ▸ hmem)
    show FrameOk g (Function.update (countChild c.ndep f.task.addr) addr 0 g.task.addr)
      ((List.map (fun g : Frame ↦ g.task.parent) (f :: rest) ++
        (some f.task.addr :: c.queued.map Task.parent)).count (some g.task.addr))
    rw [Function.update_of_ne hne, hchildren]
    rcases List.mem_cons.mp hg with rfl | hg'
    · -- the caller now has spawned since its last wait
      unfold FrameOk
      show match f.ctl with
        | .running => _
        | .blocked => _
      rw [hctl]
      refine ⟨true, hj.2, ?_, fun hf ↦ absurd hf (by decide)⟩
      show countChild c.ndep f.task.addr f.task.addr = _
      rw [countChild_self]
      -- before the first spawn the counter is 0, afterwards it is one more than the children
      cases pending with
      | false =>
          rw [hk rfl] at hn ⊢
          rw [if_pos (by simpa using hn)]
          simp
      | true =>
          rw [if_neg (by simp only [if_true] at hn; omega), hn]
          simp
    · have hself : g.task.addr ≠ f.task.addr := fun heq ↦
        (h.top_notMem hs).1 (heq ▸ List.mem_map_of_mem hg')
      rw [countChild_other _ hself, if_neg hself, Nat.add_zero]
      exact h.frames g (by rw [hs]; exact List.mem_cons_of_mem _ hg')
  case waiting =>
    have hw := h.waiting
    rw [hs] at hw
    exact hw

/-- Only the top frame and its own counter change. -/
theorem Inv.setTop {c : Config} (h : Inv c) {f : Frame} {rest : List Frame}
    (hs : c.stack = f :: rest) (f' : Frame) (haddr : f'.task.addr = f.task.addr)
    (hpar : f'.task.parent = f.task.parent) (ndep : Nat → Int)
    (hother : ∀ a, a ≠ f.task.addr → ndep a = c.ndep a)
    (hok : FrameOk f' (ndep f.task.addr) (c.children f.task.addr)) :
    Inv { c with stack := f' :: rest, ndep := ndep } := by
  have haddrs : stackAddrs (f' :: rest) = stackAddrs c.stack := by
    rw [hs, stackAddrs, List.map_cons, haddr]
    rfl
  have hparents : (f' :: rest).map (fun g ↦ g.task.parent) =
      c.stack.map fun g ↦ g.task.parent := by
    rw [hs, List.map_cons, hpar]
    rfl
  -- no parent changes
  have hchildren : ∀ a, Config.children { c with stack := f' :: rest, ndep := ndep } a =
      c.children a := by
    intro a
    unfold Config.children Config.parents
    rw [hparents]
  have htop := h.top_notMem hs
  refine
    { notEmpty := List.cons_ne_nil _ _
      nodup := ?nodup
      below := ?below
      nested := ?nested
      queuedParent := ?queuedParent
      queuedIdle := ?queuedIdle
      frames := ?frames
      waiting := ?waiting }
  case nodup =>
    rw [Config.addrs, haddrs]
    exact h.nodup
  case below =>
    rw [Config.addrs, haddrs]
    exact h.below
  case nested =>
    have hnested := h.nested
    rw [hs] at hnested
    exact ⟨fun a ha ↦ hnested.1 a (hpar ▸ ha), hnested.2⟩
  case queuedParent =>
    rw [haddrs]
    exact h.queuedParent
  case queuedIdle =>
    -- the queued tasks are not the top task
    intro t ht
    have hne : t.addr ≠ f.task.addr := fun heq ↦ htop.2.1 (heq ▸ List.mem_map_of_mem ht)
    refine ⟨(h.queuedIdle t ht).1, ?_⟩
    show ndep t.addr = 0
    rw [hother _ hne]
    exact (h.queuedIdle t ht).2
  case frames =>
    intro g hg
    rw [hchildren]
    rcases List.mem_cons.mp hg with rfl | hg'
    · rw [haddr]
      exact hok
    · have hne : g.task.addr ≠ f.task.addr := fun heq ↦
        htop.1 (heq ▸ List.mem_map_of_mem hg')
      show FrameOk g (ndep g.task.addr) _
      rw [hother _ hne]
      exact h.frames g (by rw [hs]; exact List.mem_cons_of_mem _ hg')
  case waiting =>
    have hw := h.waiting
    rw [hs] at hw
    exact hw

theorem Inv.block {c : Config} (h : Inv c) {f : Frame} {rest : List Frame} {body : Body}
    (hs : c.stack = f :: rest) (hctl : f.ctl = .running) (hbody : f.task.body = .wait body) :
    Inv { c with
      stack := { f with task := { f.task with body := body }, ctl := .blocked } :: rest
      ndep := beginWait c.ndep f.task.addr } := by
  have hok := h.frames f (by rw [hs]; exact List.mem_cons_self)
  unfold FrameOk at hok
  rw [hctl] at hok
  obtain ⟨pending, hj, hn, hk⟩ := hok
  rw [hbody] at hj
  refine h.setTop hs { f with task := { f.task with body := body }, ctl := .blocked } rfl rfl
    (beginWait c.ndep f.task.addr) (fun a ha ↦ Function.update_of_ne ha _ _) ⟨hj, ?_⟩
  unfold beginWait
  rw [Function.update_self]
  cases pending with
  | false =>
      -- no spawn since the last wait: the counter is 0 and clamped there
      rw [hk rfl] at hn ⊢
      simp only [hn]
      decide
  | true =>
      rw [if_pos rfl] at hn
      rw [if_neg (by omega)]
      omega

theorem Inv.wake {c : Config} (h : Inv c) {f : Frame} {rest : List Frame}
    (hs : c.stack = f :: rest) (hctl : f.ctl = .blocked) (hn : c.ndep f.task.addr ≤ 0) :
    Inv { c with stack := { f with ctl := .running } :: rest } := by
  have hok := h.frames f (by rw [hs]; exact List.mem_cons_self)
  unfold FrameOk at hok
  rw [hctl] at hok
  obtain ⟨hj, hk⟩ := hok
  -- the counter is that of the children while the task waits
  have hzero : c.children f.task.addr = 0 := by omega
  refine h.setTop hs { f with ctl := .running } rfl rfl c.ndep (fun _ _ ↦ rfl)
    ⟨false, hj, ?_, fun _ ↦ hzero⟩
  rw [hk]
  simp

theorem Inv.pick {c : Config} (h : Inv c) {f : Frame} {rest : List Frame}
    (hs : c.stack = f :: rest) (hctl : f.ctl = .blocked) {t : Task} {queued : List Task}
    (hq : c.queued.Perm (t :: queued)) :
    Inv { c with stack := ⟨t, 0, .running⟩ :: f :: rest, queued := queued } := by
  have h' := h.perm hq
  have ht : t ∈ c.queued := hq.mem_iff.mpr List.mem_cons_self
  have hidle := h.queuedIdle t ht
  have hstack : stackAddrs c.stack = stackAddrs (f :: rest) := by rw [hs]
  have hnodup : (stackAddrs (f :: rest) ++
      (t.addr :: (queued.map Task.addr ++ c.reuseQ))).Nodup := by
    rw [← hstack]
    exact h'.nodup
  have hchildren : ∀ a, Config.children
      { c with stack := ⟨t, 0, .running⟩ :: f :: rest, queued := queued } a = c.children a := by
    intro a
    have hold : c.children a = (c.stack.map (fun g ↦ g.task.parent) ++
        (t :: queued).map Task.parent).count (some a) :=
      ((hq.map Task.parent).append_left _).count_eq (some a)
    rw [hold, hs]
    exact (List.perm_middle.count_eq (some a)).symm
  -- the task is executed on top of the waiting one
  have htaddr : t.addr ∉ stackAddrs c.stack := by
    rw [hstack]
    intro hmem
    exact (List.nodup_append.mp hnodup).2.2 t.addr hmem t.addr List.mem_cons_self rfl
  have hperm : (stackAddrs (f :: rest) ++ (t.addr :: (queued.map Task.addr ++ c.reuseQ))).Perm
      (t.addr :: (stackAddrs (f :: rest) ++ (queued.map Task.addr ++ c.reuseQ))) :=
    List.perm_middle
  refine
    { notEmpty := List.cons_ne_nil _ _
      nodup := hperm.nodup_iff.mp hnodup
      below := fun a ha ↦ ?below
      nested := ⟨fun a ha ↦ ?nested1, ?nested2⟩
      queuedParent := fun u hu ↦ ?queuedParent
      queuedIdle := fun u hu ↦ ?queuedIdle
      frames := fun g hg ↦ ?frames
      waiting := fun g hg ↦ ?waiting }
  case below =>
    apply h'.below a
    show a ∈ stackAddrs c.stack ++ (t.addr :: (queued.map Task.addr ++ c.reuseQ))
    rw [hstack]
    exact hperm.mem_iff.mpr ha
  case nested1 =>
    rw [← hstack]
    exact h.queuedParent_mem ht ha
  case nested2 =>
    rw [← hs]
    exact h.nested
  case queuedParent =>
    obtain ⟨a, ha, hpar⟩ := h'.queuedParent u (List.mem_cons_of_mem t hu)
    refine ⟨a, List.mem_cons_of_mem _ ?_, hpar⟩
    show a ∈ stackAddrs (f :: rest)
    rw [← hstack]
    exact ha
  case queuedIdle =>
    exact h'.queuedIdle u (List.mem_cons_of_mem t hu)
  case frames =>
    rw [hchildren]
    rcases List.mem_cons.mp hg with rfl | hg'
    -- a task that begins has no children
    · have hzero := h.children_eq_zero htaddr
      refine ⟨false, hidle.1, ?_, fun _ ↦ hzero⟩
      show c.ndep t.addr = _
      rw [hidle.2, hzero]
      rfl
    · exact h.frames g (by rw [hs]; exact hg')
  case waiting =>
    have hw := h.waiting
    rw [hs] at hw
    rcases List.mem_cons.mp hg with rfl | hg'
    · exact hctl
    · exact hw g hg'

theorem depsatisfy_other (ndep : Nat → Int) (parent : Option Nat) {a : Nat}
    (ha : parent ≠ some a) : depsatisfy ndep parent a = ndep a := by
  cases parent with
  | none => rfl
  | some p => exact Function.update_of_ne (fun h ↦ ha (congrArg some h.symm)) _ _

theorem Inv.finish {c : Config} (h : Inv c) {f : Frame} {rest : List Frame}
    (hs : c.stack = f :: rest) (hctl : f.ctl = .running) (hbody : f.task.body = .done)
    (hrest : rest ≠ []) :
    Inv { c with
      stack := rest
      reuseQ := c.reuseQ ++ [f.task.addr]
      ndep := depsatisfy c.ndep f.task.parent } := by
  have hok := h.frames f (by rw [hs]; exact List.mem_cons_self)
  unfold FrameOk at hok
  rw [hctl] at hok
  obtain ⟨pending, hj, _, hk⟩ := hok
  rw [hbody] at hj
  -- the body has waited since its last spawn, so that nothing refers to its descriptor
  have hnone : c.children f.task.addr = 0 := hk hj
  have hnested := h.nested
  rw [hs] at hnested
  have htop := h.top_notMem hs
  have hchildren : ∀ a, c.children a =
      (rest.map (fun g ↦ g.task.parent) ++ c.queued.map Task.parent).count (some a) +
        if f.task.parent = some a then 1 else 0 := by
    intro a
    unfold Config.children Config.parents
    rw [hs, List.map_cons, List.cons_append, List.count_cons]
    simp only [beq_iff_eq]
  have hperm : c.addrs.Perm
      (stackAddrs rest ++ (c.queued.map Task.addr ++ (c.reuseQ ++ [f.task.addr]))) := by
    have hold : c.addrs =
        f.task.addr :: (stackAddrs rest ++ (c.queued.map Task.addr ++ c.reuseQ)) := by
      rw [Config.addrs, hs]
      rfl
    have hlast := (List.perm_append_singleton f.task.addr
      (stackAddrs rest ++ (c.queued.map Task.addr ++ c.reuseQ))).symm
    rw [hold]
    simpa only [List.append_assoc] using hlast
  refine
    { notEmpty := hrest
      nodup := hperm.nodup_iff.mp h.nodup
      below := fun a ha ↦ h.below a (hperm.mem_iff.mpr ha)
      nested := hnested.2
      queuedParent := fun t ht ↦ ?queuedParent
      queuedIdle := fun t ht ↦ ?queuedIdle
      frames := fun g hg ↦ ?frames
      waiting := fun g hg ↦ ?waiting }
  case queuedParent =>
    obtain ⟨a, hmem, ha⟩ := h.queuedParent t ht
    -- a queued child of the finished task would be counted
    rw [hs] at hmem
    rcases List.mem_cons.mp hmem with rfl | hr
    · have hpos : 0 < c.children f.task.addr := by
        apply List.count_pos_iff.mpr
        apply List.mem_append_right
        rw [← ha]
        exact List.mem_map_of_mem ht
      omega
    · exact ⟨a, hr, ha⟩
  case queuedIdle =>
    refine ⟨(h.queuedIdle t ht).1, ?_⟩
    show depsatisfy c.ndep f.task.parent t.addr = 0
    rw [depsatisfy_other]
    · exact (h.queuedIdle t ht).2
    · intro heq
      have hmem := hnested.1 t.addr heq
      have hstack : t.addr ∈ stackAddrs c.stack := by
        rw [hs]
        exact List.mem_cons_of_mem _ hmem
      have hapart := (List.nodup_append.mp h.nodup).2.2
      exact hapart t.addr hstack t.addr
        (List.mem_append_left _ (List.mem_map_of_mem ht)) rfl
  case frames =>
    have hg' : g ∈ c.stack := by
      rw [hs]
      exact List.mem_cons_of_mem _ hg
    have hgok := h.frames g hg'
    have hgctl : g.ctl = .blocked := h.waiting g (by rw [hs]; exact hg)
    unfold FrameOk at hgok ⊢
    rw [hgctl] at hgok ⊢
    refine ⟨hgok.1, ?_⟩
    -- the counter of the parent goes down with its children
    show depsatisfy c.ndep f.task.parent g.task.addr =
      ((rest.map (fun g ↦ g.task.parent) ++ c.queued.map Task.parent).count
        (some g.task.addr) : Nat)
    have hk' := hgok.2
    rw [hchildren g.task.addr] at hk'
    by_cases hp : f.task.parent = some g.task.addr
    · rw [if_pos hp] at hk'
      rw [hp]
      show Function.update c.ndep g.task.addr _ g.task.addr = _
      rw [Function.update_self]
      omega
    · rw [if_neg hp] at hk'
      rw [depsatisfy_other _ _ hp]
      omega
  case waiting =>
    have hw := h.waiting
    rw [hs] at hw
    exact hw g (List.mem_of_mem_tail hg)

end Torc.ForkJoin
