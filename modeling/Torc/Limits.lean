import Torc.Comm
import Torc.CurrentTask

/-!
# Worker and node counts

The worker count that each node takes from its environment, the threads that it starts and the
entries of the tables of fixed length that they use.
-/

namespace Torc

open CurrentTask (Thread)

def torcDefCpus : Nat := 1

/-- The two variables of the environment of a node that set its worker count. -/
structure Env where
  ompNumThreads : Option (List Char) := none
  torcWorkers : Option (List Char) := none

def isSpace (c : Char) : Bool :=
  c = ' ' ∨ 9 ≤ c.toNat ∧ c.toNat ≤ 13

def digitsValue (digits : List Char) : Nat :=
  digits.foldl (fun n c ↦ 10 * n + (c.toNat - '0'.toNat)) 0

/-- `sscanf(s, "%d", &val)`; the digits are read as a `long` and the result stored as an `int`. -/
def scanInt (s : List Char) : Option Int :=
  let s := s.dropWhile isSpace
  let negative := s.head? = some '-'
  let s := if negative ∨ s.head? = some '+' then s.tail else s
  let digits := s.takeWhile Char.isDigit
  if digits = [] then none
  else if negative then some (cInt (max (-digitsValue digits) (-2 ^ 63)))
  else some (cInt (min (digitsValue digits) (2 ^ 63 - 1)))

/-- The value of a variable that is set to a positive number. -/
def positiveSetting (s : Option (List Char)) : Option Nat :=
  match s.bind scanInt with
  | some val => if 0 < val then some val.toNat else none
  | none => none

/-- `kthreads` after `__torc_opt`. -/
def torcOpt (env : Env) : Nat :=
  let kthreads := torcDefCpus
  let kthreads := (positiveSetting env.ompNumThreads).getD kthreads
  (positiveSetting env.torcWorkers).getD kthreads

/-- The calls of `_torc_worker`: the main thread is worker 0 and `_torc_md_init` starts the
others. -/
def workerIds (kthreads : Nat) : List Nat :=
  0 :: List.range' 1 (kthreads - 1)

/-- The threads of a node; a node alone has no server. -/
def threadsOf (nodes kthreads : Nat) : List Thread :=
  (workerIds kthreads).map .worker ++ if 1 < nodes then [.server] else []

def torcThreadId : Thread → Nat
  | .worker v => v
  | .server => maxNvps

inductive Table
  | workerThread
  | created
  | executed
  | workers
  | nodeInfo
  deriving DecidableEq

def Table.length : Table → Nat
  | .workerThread | .created | .executed => maxNvps
  | .workers | .nodeInfo => maxNodes

/-- The entries that worker `v` uses: its `vp_id` is the index. -/
def workerEntries (v : Nat) : List (Table × Nat) :=
  [(.workerThread, v), (.created, v), (.executed, v)]

/-- The entries that `_torc_comm_init` uses. -/
def commInitEntries (nodes : Nat) : List (Table × Nat) :=
  (List.range nodes).flatMap fun i ↦ [(.workers, i), (.nodeInfo, i)]

/-- The test at the start of `process_a_received_descriptor`. -/
def validTag (desc : TorcT) : Bool :=
  let tag : Int := desc.sourcevpid
  ¬ (tag < 0 ∨ tag > maxNvps)

/-- A cluster with one node for each of the environments. -/
structure CountsFit (envs : List Env) : Prop where
  worker : ∀ env ∈ envs, ∀ v ∈ workerIds (torcOpt env),
    ∀ e ∈ workerEntries v, e.2 < e.1.length
  node : ∀ e ∈ commInitEntries envs.length, e.2 < e.1.length
  tags : ∀ env ∈ envs, ((threadsOf envs.length (torcOpt env)).map torcThreadId).Nodup
  accepted : ∀ env ∈ envs, ∀ v ∈ workerIds (torcOpt env), ∀ me desc type,
    validTag (stampSource me (torcThreadId (.worker v)) desc type)

/-- `TORC_WORKERS`, or else `OMP_NUM_THREADS`, is at most `MAX_NVPS` where it is a positive
number. -/
def Env.WithinLimit (env : Env) : Prop :=
  ∀ k ∈ (positiveSetting env.torcWorkers).or (positiveSetting env.ompNumThreads), k ≤ maxNvps

/-! ## The bounds -/

theorem mem_workerIds {kthreads v : Nat} (hpos : 0 < kthreads) :
    v ∈ workerIds kthreads ↔ v < kthreads := by
  rw [workerIds, List.mem_cons, List.mem_range'_1]
  omega

theorem positiveSetting_pos {s : Option (List Char)} {k : Nat} (h : positiveSetting s = some k) :
    0 < k := by
  unfold positiveSetting at h
  split at h
  · split at h
    · cases h
      omega
    · cases h
  · cases h

theorem torcOpt_pos (env : Env) : 0 < torcOpt env := by
  unfold torcOpt
  cases hworkers : positiveSetting env.torcWorkers with
  | some k => exact positiveSetting_pos hworkers
  | none =>
      cases homp : positiveSetting env.ompNumThreads with
      | some k => exact positiveSetting_pos homp
      | none => decide

/-- The default is within the limit, so only the two variables can exceed it. -/
theorem torcOpt_le_iff (env : Env) : torcOpt env ≤ maxNvps ↔ env.WithinLimit := by
  unfold torcOpt Env.WithinLimit
  cases hworkers : positiveSetting env.torcWorkers with
  | some k => simp
  | none =>
      cases homp : positiveSetting env.ompNumThreads with
      | some k => simp
      | none => simp [torcDefCpus, maxNvps]

theorem mem_commInitEntries {nodes : Nat} {e : Table × Nat} :
    e ∈ commInitEntries nodes ↔ ∃ i < nodes, e = (.workers, i) ∨ e = (.nodeInfo, i) := by
  simp [commInitEntries]

theorem nodup_workerIds (kthreads : Nat) : (workerIds kthreads).Nodup := by
  rw [workerIds, List.nodup_cons]
  refine ⟨fun h ↦ ?_, List.nodup_range'⟩
  have := (List.mem_range'_1.mp h).1
  omega

/-- Workers have ids below `MAX_NVPS`, which is the id of the server. -/
theorem nodup_tags {nodes kthreads : Nat} (hpos : 0 < kthreads) (hle : kthreads ≤ maxNvps) :
    ((threadsOf nodes kthreads).map torcThreadId).Nodup := by
  have hworkers : ((workerIds kthreads).map Thread.worker).map torcThreadId =
      workerIds kthreads := by
    rw [List.map_map]
    exact List.map_id _
  rw [threadsOf, List.map_append, hworkers]
  split
  · refine List.nodup_append.mpr
      ⟨nodup_workerIds kthreads, List.nodup_cons.mpr ⟨List.not_mem_nil, .nil⟩, ?_⟩
    intro v hv w hw
    have hlt := (mem_workerIds hpos).mp hv
    obtain rfl : w = maxNvps := List.mem_singleton.mp hw
    omega
  · rw [List.map_nil, List.append_nil]
    exact nodup_workerIds kthreads

theorem countsFit_of_le {envs : List Env} (hnodes : envs.length ≤ maxNodes)
    (hworkers : ∀ env ∈ envs, torcOpt env ≤ maxNvps) : CountsFit envs where
  worker env henv v hv e he := by
    have hlt : v < torcOpt env := (mem_workerIds (torcOpt_pos env)).mp hv
    have hle := hworkers env henv
    simp only [workerEntries, List.mem_cons, List.not_mem_nil, or_false] at he
    rcases he with rfl | rfl | rfl <;> exact Nat.lt_of_lt_of_le hlt hle
  node e he := by
    obtain ⟨i, hi, rfl | rfl⟩ := mem_commInitEntries.mp he <;>
      exact Nat.lt_of_lt_of_le hi hnodes
  tags env henv := nodup_tags (torcOpt_pos env) (hworkers env henv)
  accepted env henv v hv me desc type := by
    have hlt : v < torcOpt env := (mem_workerIds (torcOpt_pos env)).mp hv
    have hle := hworkers env henv
    show decide (¬ ((v : Int) < 0 ∨ (v : Int) > maxNvps)) = true
    exact decide_eq_true (by omega)

theorem CountsFit.le {envs : List Env} (h : CountsFit envs) :
    envs.length ≤ maxNodes ∧ ∀ env ∈ envs, torcOpt env ≤ maxNvps := by
  constructor
  · by_contra hlt
    have hmem : (Table.workers, envs.length - 1) ∈ commInitEntries envs.length :=
      mem_commInitEntries.mpr ⟨envs.length - 1, by omega, .inl rfl⟩
    have hbound : envs.length - 1 < maxNodes := h.node _ hmem
    omega
  · intro env henv
    -- the last worker uses the entry before the count
    have hpos := torcOpt_pos env
    have hmem : torcOpt env - 1 ∈ workerIds (torcOpt env) := (mem_workerIds hpos).mpr (by omega)
    have hbound : torcOpt env - 1 < maxNvps :=
      h.worker env henv _ hmem (.workerThread, torcOpt env - 1) List.mem_cons_self
    omega

/-- Nothing bounds the counts that the tables and the tags are made for. -/
theorem countsFit_iff (envs : List Env) :
    CountsFit envs ↔ envs.length ≤ maxNodes ∧ ∀ env ∈ envs, env.WithinLimit := by
  constructor
  · intro h
    obtain ⟨hnodes, hworkers⟩ := h.le
    exact ⟨hnodes, fun env henv ↦ (torcOpt_le_iff env).mp (hworkers env henv)⟩
  · rintro ⟨hnodes, hlimit⟩
    exact countsFit_of_le hnodes fun env henv ↦ (torcOpt_le_iff env).mpr (hlimit env henv)

/-- `TORC_WORKERS=66` on the first of two nodes: worker 64 has the tag of the server and no entry in
the tables, and the descriptors of worker 65 are rejected. -/
theorem not_countsFit :
    let env : Env := { torcWorkers := some ['6', '6'] }
    torcOpt env = 66 ∧ torcThreadId (.worker 64) = torcThreadId .server ∧
      validTag (stampSource 0 (torcThreadId (.worker 65)) {} .torcNormalEnqueue) = false ∧
      ¬ CountsFit [env, {}] := by
  refine ⟨by decide, rfl, by decide, fun h ↦ ?_⟩
  have hbound : (64 : Nat) < maxNvps :=
    h.worker _ List.mem_cons_self 64 (by decide) (.workerThread, 64) List.mem_cons_self
  exact absurd hbound (by decide)

end Torc
