import Torc.Comm
import Torc.Lib.Transition

/-!
# Resetting statistics

`torc_reset_statistics` loops over the nodes: it sends `RESET_STATISTICS` to every other node and
clears the counters of its own.  The server that receives the message calls the same routine.  The
message carries no payload, so that a message in flight is its destination.
-/

namespace Torc

open Transition

theorem reset_message_has_no_payload (me tag node : Nat) :
    sendDescriptor me tag node {} .resetStatistics = [] := by
  change (if 0 = node then [] else []) = []
  exact ite_self []

/-- `caller` and `server m` hold the index that a running loop of `torc_reset_statistics` has
reached; `created` and `executed` are indexed by node and worker. -/
structure ResetState where
  caller : Option Nat
  server : Nat → Option Nat := fun _ ↦ none
  inFlight : List Nat := []
  sent : Nat := 0
  created : Nat → Nat → Nat
  executed : Nat → Nat → Nat

/-- `_torc_reset_statistics` on node `me`. -/
def clearStatistics (me : Nat) (s : ResetState) : ResetState :=
  let clear := fun (count : Nat → Nat → Nat) m v ↦
    if m = me ∧ v < maxNvps then 0 else count m v
  { s with created := clear s.created, executed := clear s.executed }

/-- One iteration of the loop of `torc_reset_statistics` on node `me`. -/
def torcResetStatistics (n me node : Nat) (s : ResetState) : ResetState :=
  if node < n then
    if node ≠ me then { s with inFlight := s.inFlight ++ [node], sent := s.sent + 1 }
    else clearStatistics me s
  else s

def nextNode (n node : Nat) : Option Nat :=
  if node < n then some (node + 1) else none

/-- `deliver i` lets the server of its destination, waiting in `server_loop`, receive the `i`-th
message in flight. -/
inductive ResetAct
  | caller
  | server (me : Nat)
  | deliver (i : Nat)

def resetStep (n c : Nat) : ResetAct → ResetState → Option ResetState
  | .caller, s => s.caller.map fun node ↦
      { torcResetStatistics n c node s with caller := nextNode n node }
  | .server me, s => (s.server me).map fun node ↦
      { torcResetStatistics n me node s with
        server := Function.update s.server me (nextNode n node) }
  | .deliver i, s => s.inFlight[i]?.bind fun me ↦
      if s.server me = none then
        some { s with
          inFlight := s.inFlight.eraseIdx i
          server := Function.update s.server me (some 0) }
      else none

def resetStart (created executed : Nat → Nat → Nat) : ResetState :=
  { caller := some 0, created := created, executed := executed }

/-- One call of `torc_reset_statistics` on node `c` of `n`. -/
def resetSystem (n c : Nat) (created executed : Nat → Nat → Nat) :
    System ResetState ResetAct where
  init s := s = resetStart created executed
  step := resetStep n c

/-- What a reset should do: stop after `n - 1` messages with all counters cleared, the handlers
sending none of them. -/
structure ResetTerminates (n c : Nat) (created executed : Nat → Nat → Nat) : Prop where
  bounded : ∃ N, ∀ as s,
    (resetSystem n c created executed).run (resetStart created executed) as = some s →
      as.length ≤ N
  silent : ∀ me s s', (resetSystem n c created executed).Reachable s →
    resetStep n c (.server me) s = some s' → s'.sent = s.sent
  final : ∀ s, (resetSystem n c created executed).Reachable s →
    (∀ a, resetStep n c a s = none) →
      s.sent = n - 1 ∧ s.inFlight = [] ∧
        ∀ m < n, ∀ v < maxNvps, s.created m v = 0 ∧ s.executed m v = 0

/-! ## Two nodes or more -/

/-- The loop of node `me` at index `node` still has a message to send. -/
def OwesMessage (n me node : Nat) : Prop :=
  ∃ k, node ≤ k ∧ k < n ∧ k ≠ me

/-- A message is in flight or some loop still has one to send. -/
def Alive (n c : Nat) (s : ResetState) : Prop :=
  s.inFlight ≠ [] ∨ (∃ node, s.caller = some node ∧ OwesMessage n c node) ∨
    ∃ me node, s.server me = some node ∧ OwesMessage n me node

theorem owesMessage_zero {n : Nat} (hn : 2 ≤ n) (me : Nat) : OwesMessage n me 0 := by
  by_cases h : me = 0
  · exact ⟨1, by omega, by omega, by omega⟩
  · exact ⟨0, by omega, by omega, fun h0 ↦ h h0.symm⟩

/-- A loop iteration sends a message or still owes all it owed. -/
theorem OwesMessage.iterate {n me node : Nat} (h : OwesMessage n me node) (s : ResetState) :
    (torcResetStatistics n me node s).inFlight ≠ [] ∨
      (nextNode n node = some (node + 1) ∧ OwesMessage n me (node + 1)) := by
  obtain ⟨k, hle, hlt, hne⟩ := h
  have hnode : node < n := by omega
  by_cases hme : node = me
  · refine .inr ⟨if_pos hnode, k, ?_, hlt, hne⟩
    omega
  · refine .inl ?_
    unfold torcResetStatistics
    rw [if_pos hnode, if_pos hme]
    simp

theorem torcResetStatistics_inFlight (n me node : Nat) (s : ResetState) (h : s.inFlight ≠ []) :
    (torcResetStatistics n me node s).inFlight ≠ [] := by
  unfold torcResetStatistics clearStatistics
  split
  · split <;> simp [h]
  · exact h

@[simp] theorem torcResetStatistics_caller (n me node : Nat) (s : ResetState) :
    (torcResetStatistics n me node s).caller = s.caller := by
  unfold torcResetStatistics clearStatistics
  split
  · split <;> rfl
  · rfl

@[simp] theorem torcResetStatistics_server (n me node : Nat) (s : ResetState) :
    (torcResetStatistics n me node s).server = s.server := by
  unfold torcResetStatistics clearStatistics
  split
  · split <;> rfl
  · rfl

/-- With two nodes the cascade never dies out. -/
theorem Alive.step {n c : Nat} (hn : 2 ≤ n) {s s' : ResetState} {a : ResetAct}
    (h : Alive n c s) (hs : resetStep n c a s = some s') : Alive n c s' := by
  cases a with
  | caller =>
      simp only [resetStep, Option.map_eq_some_iff] at hs
      obtain ⟨node, hcaller, rfl⟩ := hs
      rcases h with hfly | ⟨node', hc', howes⟩ | ⟨me, node', hserver, howes⟩
      · exact .inl (torcResetStatistics_inFlight n c node s hfly)
      · rw [hcaller] at hc'
        cases hc'
        rcases howes.iterate s with hfly | ⟨hnext, howes'⟩
        · exact .inl hfly
        · exact .inr (.inl ⟨node + 1, hnext, howes'⟩)
      · exact .inr (.inr ⟨me, node', by simpa using hserver, howes⟩)
  | server me =>
      simp only [resetStep, Option.map_eq_some_iff] at hs
      obtain ⟨node, hme, rfl⟩ := hs
      rcases h with hfly | ⟨node', hc', howes⟩ | ⟨me', node', hserver, howes⟩
      · exact .inl (torcResetStatistics_inFlight n me node s hfly)
      · exact .inr (.inl ⟨node', by simpa using hc', howes⟩)
      · by_cases hmm : me' = me
        · subst hmm
          rw [hme] at hserver
          cases hserver
          rcases howes.iterate s with hfly | ⟨hnext, howes'⟩
          · exact .inl hfly
          · exact .inr (.inr ⟨me', node + 1, by simpa using hnext, howes'⟩)
        · exact .inr
            (.inr ⟨me', node', by simpa [Function.update_of_ne hmm] using hserver, howes⟩)
  | deliver i =>
      simp only [resetStep, Option.bind_eq_some_iff] at hs
      obtain ⟨me, _, hs⟩ := hs
      split at hs
      · cases hs
        -- the receiving server has all its messages still to send
        exact .inr (.inr ⟨me, 0, by simp, owesMessage_zero hn me⟩)
      · cases hs

theorem Alive.can_step {n c : Nat} {s : ResetState} (h : Alive n c s) :
    ∃ a s', resetStep n c a s = some s' := by
  rcases h with hfly | ⟨node, hc, _⟩ | ⟨me, node, hserver, _⟩
  · obtain ⟨me, rest, hfly'⟩ := List.exists_cons_of_ne_nil hfly
    cases hserver : s.server me with
    | none =>
        refine ⟨.deliver 0,
          { s with inFlight := rest, server := Function.update s.server me (some 0) }, ?_⟩
        simp [resetStep, hfly', hserver]
    | some node =>
        exact ⟨.server me, Option.isSome_iff_exists.mp (by simp [resetStep, hserver])⟩
  · exact ⟨.caller, Option.isSome_iff_exists.mp (by simp [resetStep, hc])⟩
  · exact ⟨.server me, Option.isSome_iff_exists.mp (by simp [resetStep, hserver])⟩

theorem not_bounded {n c : Nat} (hn : 2 ≤ n) (created executed : Nat → Nat → Nat) (N : Nat) :
    ∃ as s, as.length = N ∧
      (resetSystem n c created executed).run (resetStart created executed) as = some s := by
  refine System.exists_run_of_progress (Alive n c) (fun s hs ↦ ?_) ?_ N
  · obtain ⟨a, s', hstep⟩ := hs.can_step
    exact ⟨a, s', hstep, hs.step hn hstep⟩
  · exact .inr (.inl ⟨0, rfl, owesMessage_zero hn c⟩)

/-! ## One node -/

/-- The states of the only run on one node. -/
structure SingleNode (s : ResetState) : Prop where
  server : ∀ me, s.server me = none
  inFlight : s.inFlight = []
  sent : s.sent = 0
  caller : s.caller = some 0 ∨ ((s.caller = some 1 ∨ s.caller = none) ∧
    ∀ v < maxNvps, s.created 0 v = 0 ∧ s.executed 0 v = 0)

def remainingIterations (s : ResetState) : Nat :=
  match s.caller with
  | some node => 2 - node
  | none => 0

theorem SingleNode.step {s s' : ResetState} {a : ResetAct} (h : SingleNode s)
    (hs : resetStep 1 0 a s = some s') :
    SingleNode s' ∧ remainingIterations s' < remainingIterations s := by
  obtain ⟨hserver, hfly, hsent, hcaller⟩ := h
  cases a with
  | caller =>
      simp only [resetStep, Option.map_eq_some_iff] at hs
      obtain ⟨node, hnode, rfl⟩ := hs
      rcases hcaller with h0 | ⟨h1 | h1, hclear⟩
      · obtain rfl : 0 = node := by simpa [h0] using hnode
        refine ⟨⟨hserver, hfly, hsent, .inr ⟨.inl rfl, fun v hv ↦ ?_⟩⟩, ?_⟩
        · simp [torcResetStatistics, clearStatistics, hv]
        · simp [remainingIterations, hnode, nextNode]
      · obtain rfl : 1 = node := by simpa [h1] using hnode
        refine ⟨⟨hserver, hfly, hsent, .inr ⟨.inr rfl, hclear⟩⟩, ?_⟩
        simp [remainingIterations, hnode, nextNode]
      · simp [h1] at hnode
  | server me => simp [resetStep, hserver me] at hs
  | deliver i => simp [resetStep, hfly] at hs

theorem resetTerminates_one (created executed : Nat → Nat → Nat) :
    ResetTerminates 1 0 created executed := by
  have hstart : SingleNode (resetStart created executed) :=
    ⟨fun _ ↦ rfl, rfl, rfl, .inl rfl⟩
  have hreach : ∀ s, (resetSystem 1 0 created executed).Reachable s → SingleNode s := by
    intro s hs
    refine hs.invariant SingleNode (fun s hinit ↦ ?_) fun s s' a h _ hstep ↦ ?_
    · obtain rfl : s = resetStart created executed := hinit
      exact hstart
    · exact (SingleNode.step h hstep).1
  refine ⟨⟨2, fun as s hrun ↦ ?_⟩, fun me s s' hs hstep ↦ ?_, fun s hs hstuck ↦ ?_⟩
  · have hle := System.length_run_le SingleNode remainingIterations
      (fun s s' a h hstep ↦ SingleNode.step h hstep) hstart hrun
    have htwo : remainingIterations (resetStart created executed) = 2 := rfl
    omega
  · simp [resetStep, (hreach s hs).server me] at hstep
  · obtain ⟨_, hfly, hsent, hcaller⟩ := hreach s hs
    have hnone : s.caller = none := by simpa [resetStep] using hstuck .caller
    refine ⟨hsent, hfly, fun m hm ↦ ?_⟩
    obtain rfl : m = 0 := by omega
    rcases hcaller with h0 | ⟨_, hclear⟩
    · simp [hnone] at h0
    · exact hclear

/-- A reset terminates as it should exactly on a single node. -/
theorem resetTerminates_iff (n c : Nat) (hc : c < n) (created executed : Nat → Nat → Nat) :
    ResetTerminates n c created executed ↔ n = 1 := by
  constructor
  · intro h
    by_contra hne
    obtain ⟨N, hN⟩ := h.bounded
    obtain ⟨as, s, hlen, hrun⟩ :=
      not_bounded (c := c) (n := n) (by omega) created executed (N + 1)
    have hle := hN as s hrun
    omega
  · rintro rfl
    obtain rfl : c = 0 := by omega
    exact resetTerminates_one created executed

theorem resetTerminates_iff_sample :
    (0 < 1 ∧ ResetTerminates 1 0 (fun _ _ ↦ 5) fun _ _ ↦ 3) ∧
      1 < 3 ∧ ¬ ResetTerminates 3 1 (fun _ _ ↦ 5) fun _ _ ↦ 3 := by
  have hthree := resetTerminates_iff 3 1 (by decide) (fun _ _ ↦ 5) fun _ _ ↦ 3
  exact ⟨⟨by decide, (resetTerminates_iff 1 0 (by decide) _ _).mpr rfl⟩, by decide,
    fun h ↦ absurd (hthree.mp h) (by decide)⟩

/-- On two nodes the server of node 1, handling the message from node 0, sends it one back. -/
theorem not_resetTerminates_two : ¬ ResetTerminates 2 0 (fun _ _ ↦ 0) fun _ _ ↦ 0 := by
  intro h
  obtain ⟨s, hs⟩ : ∃ s, (resetSystem 2 0 (fun _ _ ↦ 0) fun _ _ ↦ 0).run
      (resetStart (fun _ _ ↦ 0) fun _ _ ↦ 0) [.caller, .caller, .deliver 0] = some s :=
    ⟨_, rfl⟩
  have hreach : (resetSystem 2 0 (fun _ _ ↦ 0) fun _ _ ↦ 0).Reachable s :=
    System.Reachable.run (.init rfl) hs
  cases hs
  exact absurd (h.silent 1 _ _ hreach rfl) (by decide)

end Torc
