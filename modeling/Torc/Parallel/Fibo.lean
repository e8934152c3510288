import Torc.Parallel.Progress
import Mathlib.Data.Nat.Fib.Basic

/-!
# Fibonacci numbers

The demo `fibo.c`, whose upper levels spawn one of the two calls and make the other one themselves.
-/

namespace Torc.Parallel.Fibo

open Transition

def fibNum : Nat := 50
def levels : Nat := 5

/-- A call of `slave` in a task that has spawned `c` children so far; `k` is what follows the call,
with the number of children then and the result.  The variable `res1` is 0 until it is written. -/
def slave : Nat → Nat → (Nat → UInt64 → Body UInt64) → Body UInt64
  | 0, c, k => k c 0
  | 1, c, k => k c 1
  | n + 2, c, k =>
      if n + 2 < fibNum - levels then
        slave (n + 1) c fun c res1 ↦ slave n c fun c res2 ↦ k c (res1 + res2)
      else
        .spawn none (slave (n + 1) 0 fun _ res ↦ .ret res)
          (slave n (c + 1) fun c' res2 ↦
            .waitall fun vars ↦ k c' ((vars.getD c none).getD 0 + res2))

/-- The call of `main`. -/
def main (n : Nat) : Body UInt64 :=
  slave n 0 fun _ res ↦ .ret res

/-! ## The program -/

/-- What follows the call joins the children that are pending before it or none. -/
theorem slave_joins (n c : Nat) {k : Nat → UInt64 → Body UInt64} {pending : Bool}
    (hk : ∀ q, (q = true → pending = true) → ∀ c res, (k c res).Joins q) :
    (slave n c k).Joins pending := by
  induction n using Nat.twoStepInduction generalizing c k pending with
  | zero => exact hk pending id c 0
  | one => exact hk pending id c 1
  | more n ih ih₁ =>
      rw [slave]
      split
      · apply ih₁
        intro q hq c res1
        apply ih
        intro q' hq' c res2
        exact hk q' (fun h ↦ hq (hq' h)) c _
      · constructor
        · apply ih₁
          intro q hq c res
          exact Bool.eq_false_iff.mpr fun h ↦ Bool.false_ne_true (hq h)
        · apply ih
          intro q hq c' res2 vars
          exact hk false nofun c' _

theorem slave_aims (n c total : Nat) {k : Nat → UInt64 → Body UInt64}
    (hk : ∀ c res, (k c res).Aims total) : (slave n c k).Aims total := by
  induction n using Nat.twoStepInduction generalizing c k with
  | zero => exact hk c 0
  | one => exact hk c 1
  | more n ih ih₁ =>
      rw [slave]
      split
      · apply ih₁
        intro c res1
        apply ih
        exact fun c res2 ↦ hk c _
      · refine ⟨nofun, ih₁ 0 fun _ _ ↦ trivial, ?_⟩
        apply ih
        exact fun c' res2 vars ↦ hk c' _

def program (workers : List Nat) (n : Nat) : Program UInt64 workers where
  body := main n
  joins := by
    apply slave_joins
    intro q hq c res
    exact Bool.eq_false_iff.mpr fun h ↦ Bool.false_ne_true (hq h)
  aims := slave_aims n 0 _ fun _ _ ↦ trivial

/-! ## Its serial run -/

def fib (n : Nat) : UInt64 :=
  UInt64.ofNat (Nat.fib n)

theorem fib_add_two (n : Nat) : fib (n + 1) + fib n = fib (n + 2) := by
  rw [fib, fib, fib, Nat.fib_add_two, Nat.add_comm (Nat.fib n), UInt64.ofNat_add]

/-- The tasks that a call creates: none below level 45. -/
def created (n : Nat) : Nat :=
  Nat.fib (n - (fibNum - levels - 3)) - 1

theorem created_of_lt {n : Nat} (h : n < fibNum - levels) : created n = 0 := by
  have hle : n - (fibNum - levels - 3) ≤ 2 := by omega
  have hfib := Nat.fib_mono hle
  rw [Nat.fib_two] at hfib
  unfold created
  omega

theorem created_add_two {n : Nat} (h : fibNum - levels ≤ n + 2) :
    created (n + 2) = 1 + created (n + 1) + created n := by
  obtain ⟨m, rfl⟩ : ∃ m, n = m + 43 := by
    unfold fibNum levels at h
    exact ⟨n - 43, by omega⟩
  have hthree : ∀ j, created (m + 42 + j) = Nat.fib (m + j) - 1 := by
    intro j
    have hsub : m + 42 + j - (fibNum - levels - 3) = m + j := by
      unfold fibNum levels
      omega
    rw [created, hsub]
  have hsum : Nat.fib (m + 3) = Nat.fib (m + 1) + Nat.fib (m + 2) := Nat.fib_add_two
  have hone : 0 < Nat.fib (m + 1) := Nat.fib_pos.mpr (Nat.succ_pos m)
  have htwo : 0 < Nat.fib (m + 2) := Nat.fib_pos.mpr (Nat.succ_pos (m + 1))
  have h₁ := hthree 1
  have h₂ := hthree 2
  have h₃ := hthree 3
  show created (m + 42 + 3) = 1 + created (m + 42 + 2) + created (m + 42 + 1)
  omega

/-- A call returns its number, behind the children that it and the calls inside it have spawned. -/
theorem slave_run (n : Nat) (vars : List (Option UInt64)) {c : Nat}
    {k : Nat → UInt64 → Body UInt64} (hlen : vars.length = c) :
    ∃ l, (slave n c k).eval vars = (k (c + l.length) (fib n)).eval (vars ++ l) ∧
      (slave n c k).spawned vars = created n + (k (c + l.length) (fib n)).spawned (vars ++ l) := by
  induction n using Nat.twoStepInduction generalizing c k vars with
  | zero =>
      refine ⟨[], ?_, ?_⟩
      · rw [List.append_nil]
        rfl
      · rw [List.append_nil, created_of_lt (by decide), Nat.zero_add]
        rfl
  | one =>
      refine ⟨[], ?_, ?_⟩
      · rw [List.append_nil]
        rfl
      · rw [List.append_nil, created_of_lt (by decide), Nat.zero_add]
        rfl
  | more n ih ih₁ =>
      rw [slave]
      split
      case isTrue hlow =>
        obtain ⟨l₁, heval₁, hspawned₁⟩ :=
          ih₁ vars (k := fun c res1 ↦ slave n c fun c res2 ↦
          k c (res1 + res2)) hlen
        obtain ⟨l, heval, hspawned⟩ :=
          ih (vars ++ l₁) (c := c + l₁.length) (k := fun c res2 ↦
          k c (fib (n + 1) + res2)) (by rw [List.length_append, hlen])
        refine ⟨l₁ ++ l, ?_, ?_⟩
        · rw [heval₁, heval, fib_add_two, List.length_append, List.append_assoc, Nat.add_assoc]
        · rw [hspawned₁, hspawned, fib_add_two, List.length_append, List.append_assoc,
            Nat.add_assoc c, created_of_lt hlow, created_of_lt (n := n + 1) (by omega),
            created_of_lt (n := n) (by omega), Nat.zero_add, Nat.zero_add]
      case isFalse hhigh =>
        obtain ⟨l₁, heval₁, hspawned₁⟩ :=
          ih₁ [] (c := 0) (k := fun _ res ↦ .ret res) rfl
        have hchild : (slave (n + 1) 0 fun _ res ↦ Body.ret res).eval [] = fib (n + 1) := heval₁
        have hcreated : (slave (n + 1) 0 fun _ res ↦ Body.ret res).spawned [] = created (n + 1) :=
          hspawned₁
        obtain ⟨l, heval, hspawned⟩ := ih (vars ++ [some (fib (n + 1))]) (c := c + 1)
          (k := fun c' res2 ↦ .waitall fun vars ↦ k c' ((vars.getD c none).getD 0 + res2))
          (by rw [List.length_append, hlen]; rfl)
        -- the variable of the child that this call has spawned
        have hvar : ((vars ++ [some (fib (n + 1))] ++ l).getD c none).getD 0 = fib (n + 1) := by
          subst hlen
          simp
        have hlist : vars ++ [some (fib (n + 1))] ++ l = vars ++ some (fib (n + 1)) :: l :=
          List.append_assoc ..
        have hnum : c + 1 + l.length = c + (some (fib (n + 1)) :: l).length := by
          rw [List.length_cons]
          omega
        refine ⟨some (fib (n + 1)) :: l, ?_, ?_⟩
        · rw [Body.eval, hchild, heval, Body.eval, hvar, fib_add_two, hlist, hnum]
        · rw [Body.spawned, hchild, hcreated, hspawned, Body.spawned, hvar,
            fib_add_two, hlist, hnum,
            created_add_two (Nat.le_of_not_lt hhigh)]
          omega

theorem main_eval (n : Nat) : (main n).eval [] = fib n := by
  obtain ⟨l, heval, -⟩ := slave_run n [] (c := 0) (k := fun _ res ↦ .ret res) rfl
  exact heval

theorem main_spawned (n : Nat) : (main n).spawned [] = created n := by
  obtain ⟨l, -, hspawned⟩ := slave_run n [] (c := 0) (k := fun _ res ↦ .ret res) rfl
  exact hspawned

/-! ## Its runs on a cluster -/

/-- Nothing but the number decides on the result and the number of tasks, all executed. -/
structure Calculated (n : Nat) (s : State UInt64) : Prop where
  result : s.tasks.cell 0 = some (fib n)
  created : s.tasks.issued = 1 + created n
  executed : s.tasks.Executed

theorem calculated_of_finished {n : Nat} {s : State UInt64} (h : Finished (main n) s) :
    Calculated n s where
  result := by
    rw [h.result, main_eval]
  created := by
    rw [h.created, main_spawned]
  executed := h.executed

/-- On every cluster the demo prints a Fibonacci number modulo 2^64 when it ends, and can always get
to its end. -/
theorem fibo_calculates (L : Layout) (n : Nat) {s : State UInt64}
    (h : (system L.workers (main n)).Reachable s) :
    (s.returned = true → Calculated n s) ∧
      ∃ s', (system L.workers (main n)).LeadsTo (Follows L.workers) s s' ∧
      s'.returned = true ∧
        Calculated n s' := by
  have hs : Consistent L.workers (main n) s := consistent_of_reachable L (program L.workers n) h
  obtain ⟨s', hlead, hreturned, hfinished⟩ := hs.leadsTo_returned L.counts
  exact ⟨fun hs' ↦ calculated_of_finished (hs.toCoherent.finished hs'), s', hlead, hreturned,
    calculated_of_finished hfinished⟩

/-- The call for 50, which the demo makes without an argument, has twenty tasks created.  The first
of them is on its way to the other node. -/
theorem fibo_calculates_fifty : created fibNum = 20 ∧
    ∃ s, (system twoNodes.workers (main fibNum)).Reachable s ∧ s.net.length = 1 ∧
      ∃ s', (system twoNodes.workers (main fibNum)).LeadsTo (Follows twoNodes.workers) s s' ∧
        s'.returned = true ∧ Calculated fibNum s' := by
  refine ⟨by decide, ?_⟩
  have hend : ((system twoNodes.workers (main fibNum)).run (.start (main fibNum))
      (List.replicate 3 (.work 0 0 1))).map (fun s ↦ s.net.length) = some 1 := by decide
  obtain ⟨s, hreach, hnet⟩ := System.Reachable.eval (.init rfl) hend
  exact ⟨s, hreach, hnet, (fibo_calculates twoNodes fibNum hreach).2⟩

end Torc.Parallel.Fibo
