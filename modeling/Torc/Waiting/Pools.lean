import Torc.Waiting.Counting

/-!
# Descriptors without a task

The reuse queues and the descriptors that a server or a stealing worker holds keep the invariant of
`Torc.Waiting.Counting`: an address taken out of them has no task.
-/

namespace Torc.Waiting

variable {t : Tasks} {i a : Nat}

/-- An address that no pool has and no task. -/
structure Loose (t : Tasks) (i a : Nat) : Prop where
  notMem : a ∉ t.reuseQ i ++ t.held i
  owner : t.owner i a = none
  lt : a < t.fresh i

/-- Only the pools change. -/
theorem Inv.of_pool (h : Inv t) {reuseQ held : Nat → List Nat} {fresh : Nat → Nat}
    (hpool : ∀ i, (reuseQ i ++ held i).Nodup)
    (hfree : ∀ i, ∀ a ∈ reuseQ i ++ held i, a < fresh i ∧ t.owner i a = none)
    (howned : ∀ i a k, t.owner i a = some k → a < fresh i) :
    Inv { t with reuseQ := reuseQ, held := held, fresh := fresh } :=
  { h with
    pool := hpool
    free := hfree
    owned := howned
    frame := fun i v f hf ↦ (h.frame i v f hf).congr rfl rfl rfl rfl rfl }

/-- The pools of one node change. -/
theorem Inv.of_pool_at (h : Inv t) {reuseQ held : List Nat} {fresh : Nat}
    (hpool : (reuseQ ++ held).Nodup)
    (hfree : ∀ a ∈ reuseQ ++ held, a < fresh ∧ t.owner i a = none)
    (hle : t.fresh i ≤ fresh) :
    Inv { t with
      reuseQ := Function.update t.reuseQ i reuseQ
      held := Function.update t.held i held
      fresh := Function.update t.fresh i fresh } := by
  refine h.of_pool (fun j ↦ ?_) (fun j ↦ ?_) fun j b q hown ↦ ?_
  · by_cases hj : j = i
    · subst hj
      rw [Function.update_self, Function.update_self]
      exact hpool
    · rw [Function.update_of_ne hj, Function.update_of_ne hj]
      exact h.pool j
  · by_cases hj : j = i
    · subst hj
      rw [Function.update_self, Function.update_self, Function.update_self]
      exact hfree
    · rw [Function.update_of_ne hj, Function.update_of_ne hj, Function.update_of_ne hj]
      exact h.free j
  · by_cases hj : j = i
    · subst hj
      rw [Function.update_self]
      exact Nat.lt_of_lt_of_le (h.owned j b q hown) hle
    · rw [Function.update_of_ne hj]
      exact h.owned j b q hown

theorem Inv.get (h : Inv t) (i : Nat) :
    Inv (t.torcGetReusedDesc i) ∧ Loose (t.torcGetReusedDesc i) i (t.newAddr i) := by
  have hget : t.torcGetReusedDesc i = { t with
      reuseQ := Function.update t.reuseQ i
        (ForkJoin.torcGetReusedDesc (t.reuseQ i) (t.fresh i)).2.1
      held := Function.update t.held i (t.held i)
      fresh := Function.update t.fresh i
        (ForkJoin.torcGetReusedDesc (t.reuseQ i) (t.fresh i)).2.2 } := by
    rw [Function.update_eq_self]
    rfl
  have hpool := h.pool i
  have hfree := h.free i
  have hloose : ∀ {reuseQ : List Nat} {fresh addr : Nat},
      ForkJoin.torcGetReusedDesc (t.reuseQ i) (t.fresh i) = (addr, reuseQ, fresh) →
      addr ∉ reuseQ ++ t.held i → t.owner i addr = none → addr < fresh →
      Loose (t.torcGetReusedDesc i) i (t.newAddr i) := by
    intro reuseQ fresh addr heq hnot hown hlt
    simp only [Tasks.newAddr, Tasks.torcGetReusedDesc, heq]
    refine ⟨?_, hown, ?_⟩
    · show addr ∉ Function.update t.reuseQ i reuseQ i ++ t.held i
      rw [Function.update_self]
      exact hnot
    · show addr < Function.update t.fresh i fresh i
      rw [Function.update_self]
      exact hlt
  cases hq : t.reuseQ i with
  | nil =>
      have heq : ForkJoin.torcGetReusedDesc (t.reuseQ i) (t.fresh i) =
          (t.fresh i, [], t.fresh i + 1) := by rw [hq]; rfl
      rw [hq] at hpool hfree
      -- `calloc` gives an address that nothing has had
      refine ⟨?_, hloose heq (fun hmem ↦ ?_) ?_ (Nat.lt_succ_self _)⟩
      · rw [hget, heq]
        exact h.of_pool_at hpool
          (fun b hb ↦ ⟨Nat.lt_succ_of_lt (hfree b hb).1, (hfree b hb).2⟩)
          (Nat.le_succ _)
      · exact Nat.lt_irrefl _ (hfree _ hmem).1
      · cases hown : t.owner i (t.fresh i) with
        | none => rfl
        | some q => exact absurd (h.owned i _ q hown) (Nat.lt_irrefl _)
  | cons addr rest =>
      have heq : ForkJoin.torcGetReusedDesc (t.reuseQ i) (t.fresh i) =
          (addr, rest, t.fresh i) := by rw [hq]; rfl
      rw [hq] at hpool hfree
      have hcons := List.nodup_cons.mp (show (addr :: (rest ++ t.held i)).Nodup from hpool)
      have haddr := hfree addr List.mem_cons_self
      -- the head of the reuse queue is in no other pool
      refine ⟨?_, hloose heq hcons.1 haddr.2 haddr.1⟩
      rw [hget, heq]
      exact h.of_pool_at hcons.2 (fun b hb ↦ hfree b (List.mem_cons_of_mem _ hb)) (Nat.le_refl _)

theorem Inv.put (h : Inv t) (hl : Loose t i a) : Inv (t.torcPutReusedDesc i a) := by
  have hput : t.torcPutReusedDesc i a = { t with
      reuseQ := Function.update t.reuseQ i (t.reuseQ i ++ [a])
      held := Function.update t.held i (t.held i)
      fresh := Function.update t.fresh i (t.fresh i) } := by
    rw [Function.update_eq_self, Function.update_eq_self]
    rfl
  have hperm : (t.reuseQ i ++ [a] ++ t.held i).Perm (a :: (t.reuseQ i ++ t.held i)) := by
    rw [List.append_assoc]
    exact List.perm_middle
  rw [hput]
  refine h.of_pool_at (hperm.nodup_iff.mpr (List.nodup_cons.mpr ⟨hl.notMem, h.pool i⟩))
    (fun b hb ↦ ?_) (Nat.le_refl _)
  rcases List.mem_cons.mp (hperm.mem_iff.mp hb) with rfl | hb
  · exact ⟨hl.lt, hl.owner⟩
  · exact h.free i b hb

theorem Inv.hold (h : Inv t) (i : Nat) : Inv (t.hold i) := by
  obtain ⟨hinv, hl⟩ := h.get i
  have hhold : t.hold i = { t.torcGetReusedDesc i with
      reuseQ := Function.update (t.torcGetReusedDesc i).reuseQ i
        ((t.torcGetReusedDesc i).reuseQ i)
      held := Function.update (t.torcGetReusedDesc i).held i
        (t.newAddr i :: (t.torcGetReusedDesc i).held i)
      fresh := Function.update (t.torcGetReusedDesc i).fresh i
        ((t.torcGetReusedDesc i).fresh i) } := by
    rw [Function.update_eq_self, Function.update_eq_self]
    rfl
  have hperm : ((t.torcGetReusedDesc i).reuseQ i ++
      t.newAddr i :: (t.torcGetReusedDesc i).held i).Perm
      (t.newAddr i :: ((t.torcGetReusedDesc i).reuseQ i ++ (t.torcGetReusedDesc i).held i)) :=
    List.perm_middle
  rw [hhold]
  refine hinv.of_pool_at (hperm.nodup_iff.mpr (List.nodup_cons.mpr ⟨hl.notMem, hinv.pool i⟩))
    (fun b hb ↦ ?_) (Nat.le_refl _)
  rcases List.mem_cons.mp (hperm.mem_iff.mp hb) with rfl | hb
  · exact ⟨hl.lt, hl.owner⟩
  · exact hinv.free i b hb

theorem Inv.unhold (h : Inv t) (ha : a ∈ t.held i) :
    Inv (t.unhold i a) ∧ Loose (t.unhold i a) i a := by
  have hunhold : t.unhold i a = { t with
      reuseQ := Function.update t.reuseQ i (t.reuseQ i)
      held := Function.update t.held i ((t.held i).erase a)
      fresh := Function.update t.fresh i (t.fresh i) } := by
    rw [Function.update_eq_self, Function.update_eq_self]
    rfl
  have hperm : (t.reuseQ i ++ t.held i).Perm (a :: (t.reuseQ i ++ (t.held i).erase a)) :=
    ((List.perm_cons_erase ha).append_left _).trans List.perm_middle
  have hcons := List.nodup_cons.mp (hperm.nodup_iff.mp (h.pool i))
  have hfree := h.free i
  refine ⟨?_, ?_, ?_, ?_⟩
  · rw [hunhold]
    exact h.of_pool_at hcons.2
      (fun b hb ↦ hfree b (hperm.mem_iff.mpr (List.mem_cons_of_mem _ hb))) (Nat.le_refl _)
  · show a ∉ t.reuseQ i ++ Function.update t.held i ((t.held i).erase a) i
    rw [Function.update_self]
    exact hcons.1
  · exact (hfree a (hperm.mem_iff.mpr List.mem_cons_self)).2
  · exact (hfree a (hperm.mem_iff.mpr List.mem_cons_self)).1

theorem Inv.drop (h : Inv t) {t' : Tasks} (hs : t.drop i a = some t') : Inv t' := by
  unfold Tasks.drop at hs
  split at hs
  · rename_i ha
    cases hs
    obtain ⟨hinv, hl⟩ := h.unhold ha
    exact hinv.put hl
  · cases hs

end Torc.Waiting
