import Torc.Waiting.Machine
import Torc.Waiting.NewTasks
import Torc.Waiting.Completion
import Torc.Messages.Delivery
import Torc.Lib.Ledger

/-!
# Answers

The answer of a task is in one place from its cleanup to the end of the handler on the home node,
and by then all its results have been received.
-/

namespace Torc.Waiting

open Messages Ledger

/-! ## Steps of the tasks -/

/-- What the steps of the tasks leave to the messages; a task is completed without one only on its
home node. -/
structure Keeps (t t' : Tasks) : Prop where
  issued : t.issued ≤ t'.issued
  desc : ∀ k, k < t.issued → t'.desc k = t.desc k
  answering : ∀ k, (∃ r, t'.status k = .answering r) ↔ ∃ r, t.status k = .answering r
  served : ∀ k i a, t.status k = .served i a → t'.status k = .served i a
  done : ∀ k r, t'.status k = .done r → t.status k = .done r ∨
    k < t.issued ∧ r = (t.desc k).homenode

section

variable {t t' : Tasks} {k : Nat}

theorem Keeps.of_eq (hissued : t'.issued = t.issued) (hdesc : t'.desc = t.desc)
    (hstatus : t'.status = t.status) : Keeps t t' :=
  ⟨Nat.le_of_eq hissued.symm, fun _ _ ↦ by rw [hdesc], fun _ ↦ by rw [hstatus],
    fun _ _ _ h ↦ by rw [hstatus]; exact h, fun _ _ h ↦ by rw [← hstatus]; exact .inl h⟩

/-- A status on the way to execution. -/
def Status.isPending : Status → Bool
  | .unborn | .counted | .ready _ _ | .transit => true
  | _ => false

/-- The status of one task changes, which was still to be executed. -/
theorem Keeps.of_status (hissued : t.issued ≤ t'.issued)
    (hdesc : ∀ k, k < t.issued → t'.desc k = t.desc k) {st : Status}
    (hold : (t.status k).isPending = true) (hstatus : t'.status = Function.update t.status k st)
    (hst : st.isOver = false) : Keeps t t' := by
  have hself : t'.status k = st := by rw [hstatus, Function.update_self]
  have hother : ∀ j, j ≠ k → t'.status j = t.status j := by
    intro j hj
    rw [hstatus, Function.update_of_ne hj]
  refine ⟨hissued, hdesc, fun j ↦ ?_, fun j i a hj ↦ ?_, fun j r hj ↦ ?_⟩
  · by_cases hjk : j = k
    · subst hjk
      rw [hself]
      constructor <;> rintro ⟨r, hr⟩
      · rw [hr] at hst
        cases hst
      · rw [hr] at hold
        cases hold
    · rw [hother j hjk]
  · have hjk : j ≠ k := by
      rintro rfl
      rw [hj] at hold
      cases hold
    rw [hother j hjk]
    exact hj
  · have hjk : j ≠ k := by
      rintro rfl
      rw [← hself, hj] at hst
      cases hst
    rw [← hother j hjk]
    exact .inl hj

theorem Inv.unborn (h : Inv t) : (t.status t.issued).isPending = true := by
  cases hst : t.status t.issued with
  | unborn => rfl
  | _ => exact absurd ((h.born t.issued).mp (by rw [hst]; nofun)) (Nat.lt_irrefl _)

theorem issue_desc (t : Tasks) (d : TorcT) (k : Nat) (hk : k < t.issued) :
    Function.update t.desc t.issued d k = t.desc k :=
  Function.update_of_ne (Nat.ne_of_lt hk) ..

theorem Keeps.createDetached (h : Inv t) {i work : Nat} {heap : ByteHeap} {cs : List CArg}
    (hs : t.createDetached i work heap cs = some t') : Keeps t t' := by
  obtain ⟨c, -, heq⟩ := Option.map_eq_some_iff.mp hs
  cases heq
  exact .of_status (Nat.le_succ _) (issue_desc t _) h.unborn (Function.update_idem ..) rfl

theorem Keeps.bodyStep (h : Inv t) {i v : Nat} {a : BodyAct}
    (hs : bodyStep t i v a = some t') : Keeps t t' := by
  cases a with
  | startSpawn =>
      simp only [Waiting.bodyStep, Tasks.startSpawn] at hs
      split at hs
      · cases hs
        exact .of_eq rfl rfl rfl
      · cases hs
  | countChild r work heap cs =>
      simp only [Waiting.bodyStep, Tasks.countChild] at hs
      split at hs
      · split at hs
        · obtain ⟨c, -, heq⟩ := Option.map_eq_some_iff.mp hs
          cases heq
          -- the new task is of no status before
          exact .of_status (Nat.le_succ _) (issue_desc t _) h.unborn rfl rfl
        · cases hs
      · cases hs
  | createChild =>
      simp only [Waiting.bodyStep, Tasks.createChild] at hs
      split at hs
      · rename_i k a p child rest hstack
        cases hs
        have hcounted := ((h.frame i v _ (Inv.top_mem hstack)).counted child rfl).1
        exact .of_status (Nat.le_refl _) (fun _ _ ↦ rfl) (by rw [hcounted]; rfl) rfl rfl
      · cases hs
  | createDetached work heap cs =>
      simp only [Waiting.bodyStep] at hs
      split at hs
      · exact Keeps.createDetached h hs
      · cases hs
  | startWait w =>
      simp only [Waiting.bodyStep, Tasks.startWait] at hs
      split at hs
      · cases hs
        exact .of_eq rfl rfl rfl
      · cases hs
  | poll =>
      simp only [Waiting.bodyStep, Tasks.poll] at hs
      split at hs
      · obtain ⟨n, -, heq⟩ := Option.map_eq_some_iff.mp hs
        cases heq
        exact .of_eq rfl rfl rfl
      · cases hs
  | idle =>
      simp only [Waiting.bodyStep, Tasks.idle] at hs
      split at hs
      · cases hs
        exact .of_eq rfl rfl rfl
      · cases hs
        exact .of_eq rfl rfl rfl
      · cases hs
  | execute k =>
      simp only [Waiting.bodyStep, Tasks.execute] at hs
      split at hs
      · rename_i j a hk
        split at hs
        · obtain ⟨l, -, heq⟩ := Option.map_eq_some_iff.mp hs
          cases heq
          exact .of_status (Nat.le_refl _) (fun _ _ ↦ rfl) (by rw [hk]; rfl) rfl rfl
        · cases hs
      · cases hs
  | release =>
      simp only [Waiting.bodyStep, Tasks.release] at hs
      split at hs
      · cases hs
        exact .of_eq rfl rfl rfl
      · cases hs

theorem Keeps.arrive {i a : Nat} {st : Status} (hst : st.isOver = false)
    (hs : t.arrive i a k st = some t') : Keeps t t' := by
  unfold Tasks.arrive at hs
  split at hs
  · rename_i hguard
    cases hs
    exact .of_status (Nat.le_refl _) (fun _ _ ↦ rfl) (by rw [hguard.2]; rfl) rfl hst
  · cases hs

theorem Keeps.moveStep {a : MoveAct} (hs : moveStep t a = some t') : Keeps t t' := by
  cases a with
  | depart k back =>
      simp only [Waiting.moveStep, Tasks.depart] at hs
      split at hs
      · rename_i i a hk
        cases hs
        -- the descriptor may be put back or not
        cases back <;>
          exact .of_status (Nat.le_refl _) (fun _ _ ↦ rfl) (by rw [hk]; rfl) rfl rfl
      · cases hs
  | hold i =>
      cases hs
      exact .of_eq rfl rfl rfl
  | drop i a =>
      simp only [Waiting.moveStep, Tasks.drop] at hs
      split at hs
      · cases hs
        exact .of_eq rfl rfl rfl
      · cases hs
  | arrive k i a => exact Keeps.arrive rfl hs

theorem Inv.bodyStep (h : Inv t) {i v : Nat} {a : BodyAct} (hs : bodyStep t i v a = some t') :
    Inv t' := by
  cases a with
  | startSpawn => exact h.startSpawn hs
  | countChild r work heap cs => exact h.countChild hs
  | createChild => exact h.createChild hs
  | createDetached work heap cs =>
      simp only [Waiting.bodyStep] at hs
      split at hs
      · exact h.createDetached hs
      · cases hs
  | startWait w => exact h.startWait hs
  | poll => exact h.poll hs
  | idle => exact h.idling hs
  | execute k => exact h.execute hs
  | release => exact h.release hs

theorem Inv.moveStep (h : Inv t) {a : MoveAct} (hs : moveStep t a = some t') : Inv t' := by
  cases a with
  | depart k back => exact h.depart hs
  | hold i =>
      cases hs
      exact h.hold i
  | drop i a => exact h.drop hs
  | arrive k i a => exact h.arrive (.inl rfl) hs

end

/-! ## Where the answers are -/

/-- The task whose answer a message is. -/
def answerOf : Packet → Option Nat
  | .desc _ d => if d.type = .torcAnswer then some d.taskId else none
  | .payload _ _ _ => none

def sentAnswer : Op → Option Nat
  | .send _ tag p => if tag = maxNvps then answerOf p else none
  | _ => none

def bodyOf : Op → Option TorcT
  | .body d => some d
  | _ => none

inductive Place
  | calls (i v : Nat)
  | flight (c : Chan)
  | server (i : Nat)
  deriving DecidableEq

def contents (s : State) : Place → List Nat
  | .calls i v => (s.msgs.ops i v).filterMap sentAnswer
  | .flight c => if c.tag = maxNvps then (s.msgs.net c).filterMap answerOf else []
  | .server i => (s.handling i).toList.map TorcT.taskId

/-- The result messages of a task. -/
def results (d : TorcT) : List (Nat × Nat) :=
  d.liveArgs.zipIdx.flatMap fun (a, i) ↦ resultMessages i a

/-- What a descriptor that a server gets can be: an answer is that of a task to its home node, and a
task is not for direct execution. -/
structure DescFine (t : Tasks) (src dst : Nat) (d : TorcT) : Prop where
  answer : d.type = .torcAnswer → d.taskId < t.issued ∧ dst = (t.desc d.taskId).homenode ∧
    ∃ v ≤ maxNvps, d = stampSource src v (t.desc d.taskId) .torcAnswer
  enqueue : d.type = .torcNormalEnqueue → d.rteType ≠ rteDirect

structure Good (s : State) : Prop where
  tasks : Inv s.tasks
  answers : Located (fun k ↦ ∃ r, s.tasks.status k = .answering r) (contents s)
  call : ∀ i v dst uid d, .send dst maxNvps (.desc uid d) ∈ s.msgs.ops i v →
    DescFine s.tasks i dst d
  flight : ∀ src dst uid d, .desc uid d ∈ s.msgs.net ⟨src, dst, maxNvps⟩ →
    DescFine s.tasks src dst d
  server : ∀ i d, s.handling i = some d →
    d.type = .torcAnswer ∧ DescFine s.tasks d.sourcenode i d
  body : ∀ i, (s.msgs.ops i maxNvps).filterMap bodyOf = [] ∨
    ∃ k a, (s.msgs.ops i maxNvps).filterMap bodyOf = [s.tasks.desc k] ∧
      s.tasks.status k = .served i a
  receiving : ∀ i d, s.handling i = some d →
    ∀ m ∈ results d, (d.taskId, m.1) ∈ s.written ∨
    ∃ src tag uid, .recv src tag uid m.1 m.2 ∈ s.msgs.ops i maxNvps
  arrived : ∀ k r, s.tasks.status k = .done r → r ≠ (s.tasks.desc k).homenode →
    ∀ m ∈ results (s.tasks.desc k), (k, m.1) ∈ s.written

variable {workers : List Nat} {descSize : Nat} {s s' : State}

/-- The descriptor that a server handles is the answer of a task of its node that has run. -/
theorem Good.handled (h : Good s) {i : Nat} {d : TorcT} (hd : s.handling i = some d) :
    d.taskId < s.tasks.issued ∧ (∃ r, s.tasks.status d.taskId = .answering r) ∧
      i = (s.tasks.desc d.taskId).homenode ∧ d.parent = (s.tasks.desc d.taskId).parent ∧
      results d = results (s.tasks.desc d.taskId) := by
  obtain ⟨htype, hfine⟩ := h.server i d hd
  obtain ⟨hlt, hhome, v, -, hstamp⟩ := hfine.answer htype
  have hparent : d.parent = (s.tasks.desc d.taskId).parent := by
    conv_lhs => rw [hstamp]
    rfl
  have hresults : results d = results (s.tasks.desc d.taskId) := by
    conv_lhs => rw [hstamp]
    rfl
  refine ⟨hlt, h.answers.issued_of_mem (p := .server i) ?_, hhome, hparent, hresults⟩
  simp only [contents, hd]
  exact .head _

theorem DescFine.keeps {t t' : Tasks} {src dst : Nat} {d : TorcT} (h : DescFine t src dst d)
    (hk : Keeps t t') : DescFine t' src dst d := by
  refine ⟨fun htype ↦ ?_, h.enqueue⟩
  obtain ⟨hlt, hdst, hv⟩ := h.answer htype
  rw [hk.desc d.taskId hlt]
  exact ⟨Nat.lt_of_lt_of_le hlt hk.issued, hdst, hv⟩

/-- A step of the tasks. -/
theorem Good.keeps (h : Good s) {t : Tasks} (hinv : Inv t) (hk : Keeps s.tasks t) :
    Good { s with tasks := t } := by
  have hcontents : contents { s with tasks := t } = contents s := by
    funext r
    cases r <;> rfl
  refine
    { tasks := hinv
      answers := ?answers
      call := fun i v dst uid d hd ↦ (h.call i v dst uid d hd).keeps hk
      flight := fun src dst uid d hd ↦ (h.flight src dst uid d hd).keeps hk
      server := fun i d hd ↦ ?hserver
      body := fun i ↦ ?body
      receiving := h.receiving
      arrived := fun k r hdone hr ↦ ?arrived }
  case answers =>
    rw [hcontents]
    refine ⟨fun k hans ↦ h.answers.at_one k ((hk.answering k).mp hans),
      fun k hans ↦ h.answers.fresh k fun hc ↦ hans ((hk.answering k).mpr hc)⟩
  case hserver =>
    obtain ⟨htype, hfine⟩ := h.server i d hd
    exact ⟨htype, hfine.keeps hk⟩
  case body =>
    rcases h.body i with hnone | ⟨k, a, hbody, hserved⟩
    · exact .inl hnone
    · have hlt : k < s.tasks.issued := (h.tasks.born k).mp (by rw [hserved]; nofun)
      exact .inr ⟨k, a, by rw [hbody, hk.desc k hlt], hk.served k i a hserved⟩
  case arrived =>
    have hr' : r ≠ (t.desc k).homenode := hr
    show ∀ m ∈ results (t.desc k), _
    -- a task that a step of the tasks completes has run on its home node
    rcases hk.done k r hdone with hold | ⟨hlt, hhome⟩
    · have hlt : k < s.tasks.issued := (h.tasks.born k).mp (by rw [hold]; nofun)
      rw [hk.desc k hlt] at hr' ⊢
      exact h.arrived k r hold hr'
    · rw [hk.desc k hlt] at hr'
      exact absurd hhome hr'

/-! ## Messages that are no answers -/

/-- A step of the messages in which no answer and no body has a part. -/
structure Quiet (m m' : Messages.State) : Prop where
  calls : ∀ i v, (m'.ops i v).filterMap sentAnswer = (m.ops i v).filterMap sentAnswer
  net : ∀ src dst, (m'.net ⟨src, dst, maxNvps⟩).filterMap answerOf =
    (m.net ⟨src, dst, maxNvps⟩).filterMap answerOf
  flight : ∀ src dst, ∀ p ∈ m'.net ⟨src, dst, maxNvps⟩,
    p ∈ m.net ⟨src, dst, maxNvps⟩
  body : ∀ i, (m'.ops i maxNvps).filterMap bodyOf = (m.ops i maxNvps).filterMap bodyOf
  send : ∀ i v dst uid d, .send dst maxNvps (.desc uid d) ∈ m'.ops i v →
    .send dst maxNvps (.desc uid d) ∈ m.ops i v ∨
      d.type ≠ .torcAnswer ∧ (d.type = .torcNormalEnqueue → d.rteType ≠ rteDirect)

theorem Good.quiet (h : Good s) {m : Messages.State} (hq : Quiet s.msgs m)
    {written : List (Nat × Nat)} (hsub : ∀ x ∈ s.written, x ∈ written)
    (hrecv : ∀ i d, s.handling i = some d → ∀ src tag uid arg count,
      .recv src tag uid arg count ∈ s.msgs.ops i maxNvps →
        (d.taskId, arg) ∈ written ∨ .recv src tag uid arg count ∈ m.ops i maxNvps) :
    Good { s with msgs := m, written := written } := by
  have hcontents : contents { s with msgs := m, written := written } = contents s := by
    funext r
    cases r with
    | calls i v => exact hq.calls i v
    | flight c =>
        obtain ⟨src, dst, tag⟩ := c
        simp only [contents]
        by_cases htag : tag = maxNvps
        · subst htag
          rw [hq.net]
        · rw [if_neg htag, if_neg htag]
    | server i => rfl
  refine
    { tasks := h.tasks
      answers := by rw [hcontents]; exact h.answers
      call := fun i v dst uid d hd ↦ ?call
      flight := fun src dst uid d hd ↦ ?hflight
      server := h.server
      body := fun i ↦ ?body
      receiving := fun i d hd x hx ↦ ?receiving
      arrived := fun k r hdone hr x hx ↦ hsub _ (h.arrived k r hdone hr x hx) }
  case call =>
    rcases hq.send i v dst uid d hd with hold | ⟨htype, henq⟩
    · exact h.call i v dst uid d hold
    · exact ⟨fun hc ↦ absurd hc htype, henq⟩
  case hflight =>
    exact h.flight src dst uid d (hq.flight src dst _ hd)
  case body =>
    show (m.ops i maxNvps).filterMap bodyOf = [] ∨ _
    rw [show ({ s with msgs := m, written := written } : State).msgs.ops i maxNvps =
      m.ops i maxNvps from rfl, hq.body i]
    exact h.body i
  case receiving =>
    rcases h.receiving i d hd x hx with hw | ⟨src, tag, uid, hop⟩
    · exact .inl (hsub _ hw)
    · rcases hrecv i d hd src tag uid x.1 x.2 hop with hw | hop
      · exact .inl hw
      · exact .inr ⟨src, tag, uid, hop⟩

/-- A call that no answer and no task for direct execution is in. -/
structure Noise (op : Op) : Prop where
  answer : sentAnswer op = none
  body : bodyOf op = none
  send : ∀ dst uid d, op = .send dst maxNvps (.desc uid d) →
    d.type ≠ .torcAnswer ∧ (d.type = .torcNormalEnqueue → d.rteType ≠ rteDirect)

section

variable {m : Messages.State} {i v : Nat} {l rest : List Op}

theorem filterMap_noise {α : Type} {f : Op → Option α} (h : ∀ op ∈ l, f op = none) :
    (l ++ rest).filterMap f = rest.filterMap f := by
  rw [List.filterMap_append, List.filterMap_eq_nil_iff.mpr h, List.nil_append]

/-- A thread has noise before it, in place of its next call or besides it. -/
theorem Quiet.setOps (hl : ∀ op ∈ l, Noise op)
    (hrest : m.ops i v = rest ∨ ∃ op, m.ops i v = op :: rest ∧ sentAnswer op = none ∧
      bodyOf op = none) : Quiet m (m.setOps i v (l ++ rest)) := by
  have hsame : ∀ {α : Type} (f : Op → Option α), (∀ op, Noise op → f op = none) →
      (∀ op, sentAnswer op = none → bodyOf op = none → f op = none) →
      (l ++ rest).filterMap f = (m.ops i v).filterMap f := by
    intro α f hnoise hhead
    rw [filterMap_noise fun op hop ↦ hnoise op (hl op hop)]
    rcases hrest with heq | ⟨op, heq, hans, hbody⟩
    · rw [heq]
    · rw [heq, List.filterMap_cons, hhead op hans hbody]
  refine ⟨fun i' v' ↦ ?_, fun _ _ ↦ rfl, fun _ _ _ hp ↦ hp, fun i' ↦ ?_,
    fun i' v' dst uid d hd ↦ ?_⟩
  · exact setOps_measure (fun l ↦ l.filterMap sentAnswer)
      (hsame sentAnswer (fun op h ↦ h.answer) fun op h _ ↦ h) i' v'
  · exact setOps_measure (fun l ↦ l.filterMap bodyOf)
      (hsame bodyOf (fun op h ↦ h.body) fun op _ h ↦ h) i' maxNvps
  · by_cases hthread : i' = i ∧ v' = v
    · obtain ⟨rfl, rfl⟩ := hthread
      rw [setOps_self] at hd
      rcases List.mem_append.mp hd with hd | hd
      · exact .inr ((hl _ hd).send dst uid d rfl)
      · rcases hrest with heq | ⟨op, heq, -⟩
        · exact .inl (by rw [heq]; exact hd)
        · exact .inl (by rw [heq]; exact List.mem_cons_of_mem _ hd)
    · rw [setOps_other m _ hthread] at hd
      exact .inl hd

/-- Receives that a thread has before it stay there, but for the one that it makes. -/
theorem recv_mem_setOps {src tag uid arg count i' v' : Nat}
    (hrest : m.ops i v = rest ∨ ∃ op, m.ops i v = op :: rest)
    (hop : .recv src tag uid arg count ∈ m.ops i' v') :
    .recv src tag uid arg count ∈ (m.setOps i v (l ++ rest)).ops i' v' ∨
      (i' = i ∧ v' = v) ∧ ∃ rest', m.ops i v = .recv src tag uid arg count :: rest' := by
  by_cases hthread : i' = i ∧ v' = v
  · obtain ⟨rfl, rfl⟩ := hthread
    rw [setOps_self]
    rcases hrest with heq | ⟨op, heq⟩
    · rw [heq] at hop
      exact .inl (List.mem_append_right _ hop)
    · rw [heq] at hop
      rcases List.mem_cons.mp hop with rfl | hop
      · exact .inr ⟨⟨rfl, rfl⟩, rest, heq⟩
      · exact .inl (List.mem_append_right _ hop)
  · rw [setOps_other m _ hthread]
    exact .inl hop

theorem Quiet.refl (m : Messages.State) : Quiet m m :=
  ⟨fun _ _ ↦ rfl, fun _ _ ↦ rfl, fun _ _ _ hp ↦ hp, fun _ ↦ rfl,
    fun _ _ _ _ _ hd ↦ .inl hd⟩

theorem Quiet.of_eq {m' m'' : Messages.State} (h : Quiet m m') (hops : m''.ops = m'.ops)
    (hnet : m''.net = m'.net) : Quiet m m'' := by
  refine ⟨fun i v ↦ ?_, fun src dst ↦ ?_, fun src dst ↦ ?_, fun i ↦ ?_, fun i v ↦ ?_⟩
  · rw [hops]
    exact h.calls i v
  · rw [hnet]
    exact h.net src dst
  · rw [hnet]
    exact h.flight src dst
  · rw [hops]
    exact h.body i
  · rw [hops]
    exact h.send i v

end

/-! ## The routines -/

theorem noise_payload (dst tag uid arg count : Nat) :
    Noise (.send dst tag (.payload uid arg count)) := by
  refine ⟨?_, rfl, fun _ _ _ h ↦ nomatch (Op.send.inj h).2.2⟩
  show (if tag = maxNvps then none else none) = none
  exact ite_self _

theorem noise_payloadSends {uid : Nat} {calls : List Effect} :
    ∀ op ∈ payloadSends uid calls, Noise op := by
  intro op hop
  obtain ⟨d, t, p, -, rfl⟩ := mem_payloadSends hop
  exact noise_payload ..

theorem noise_payloadRecvs {uid : Nat} {calls : List Effect} :
    ∀ op ∈ payloadRecvs uid calls, Noise op := by
  intro op hop
  obtain ⟨s, t, p, -, rfl⟩ := mem_payloadRecvs hop
  exact ⟨rfl, rfl, fun _ _ _ h ↦ Op.noConfusion h⟩

theorem noise_desc {dst tag uid : Nat} {d : TorcT} (htype : d.type ≠ .torcAnswer)
    (henq : d.type = .torcNormalEnqueue → d.rteType ≠ rteDirect) :
    Noise (.send dst tag (.desc uid d)) := by
  refine ⟨?_, rfl, fun dst' uid' d' h ↦ ?_⟩
  · show (if tag = maxNvps then (if d.type = .torcAnswer then some d.taskId else none) else none) =
      none
    rw [if_neg htype, ite_self]
  · cases h
    exact ⟨htype, henq⟩

theorem noise_sendDescriptorOps {i v uid node : Nat} {desc : TorcT} {type : MsgType}
    (htype : type ≠ .torcAnswer)
    (henq : ¬ (type = .torcNormalEnqueue ∧ desc.rteType = rteDirect)) :
    ∀ op ∈ sendDescriptorOps i v uid node desc type, Noise op := by
  intro op hop
  rcases List.mem_cons.mp hop with rfl | hop
  · exact noise_desc htype fun hc hd ↦ henq ⟨hc, hd⟩
  · exact noise_payloadSends op hop

theorem noise_torcBroadcastOps {i v uid node count : Nat} {buffer btype : Int} :
    ∀ op ∈ torcBroadcastOps i v uid node buffer count btype, Noise op := by
  intro op hop
  rcases List.mem_append.mp hop with hop | hop
  · refine noise_sendDescriptorOps (fun hc ↦ ?_) (fun hc ↦ ?_) op hop
    · cases hc
    · cases hc.1
  · rw [List.mem_singleton.mp hop]
    exact noise_payload ..

theorem noise_stealingRequestOps {i v uid node : Nat} :
    ∀ op ∈ stealingRequestOps i v uid node, Noise op := by
  intro op hop
  rcases List.mem_append.mp hop with hop | hop
  · refine noise_sendDescriptorOps (fun hc ↦ ?_) (fun hc ↦ ?_) op hop
    · cases hc
    · cases hc.1
  · rw [List.mem_singleton.mp hop]
    exact ⟨rfl, rfl, fun _ _ _ h ↦ Op.noConfusion h⟩

theorem noise_directSendDescriptorOps {i uid : Nat} {request desc : TorcT} :
    ∀ op ∈ directSendDescriptorOps i uid request desc, Noise op := by
  intro op hop
  rcases List.mem_cons.mp hop with rfl | hop
  · refine ⟨?_, rfl, fun _ _ _ h ↦ absurd (Op.send.inj h).2.1 (replyTag_ne _)⟩
    rw [sentAnswer, if_neg (replyTag_ne _)]
  · exact noise_payloadSends op hop

/-! ## One message -/

theorem threadStep_of_step {m m' : Messages.State} {a : Messages.Act}
    (hs : (Messages.system workers).step a m = some m') :
    Messages.threadStep workers m a = some m' := by
  simp only [Messages.system] at hs
  split at hs
  · cases hs
  · exact hs

/-- A thread enters a routine that makes noise. -/
theorem Good.enter (h : Good s) {m : Messages.State} {i v : Nat} {l rest : List Op}
    (hl : ∀ op ∈ l, Noise op)
    (hrest : s.msgs.ops i v = rest ∨ ∃ r, s.msgs.ops i v = .serve r :: rest)
    (hm : m = s.msgs.enter i v l rest) : Good { s with msgs := m } := by
  subst hm
  have hq : Quiet s.msgs (s.msgs.enter i v l rest) := by
    refine (Quiet.setOps hl ?_).of_eq rfl rfl
    rcases hrest with heq | ⟨r, heq⟩
    · exact .inl heq
    · exact .inr ⟨_, heq, rfl, rfl⟩
  refine h.quiet hq (fun _ hx ↦ hx) fun i' d _ src tag uid arg count hop ↦ .inr ?_
  have hkeep : .recv src tag uid arg count ∈ (s.msgs.setOps i v (l ++ rest)).ops i' maxNvps ∨
      (i' = i ∧ maxNvps = v) ∧
      ∃ rest', s.msgs.ops i v = .recv src tag uid arg count :: rest' := by
    refine recv_mem_setOps ?_ hop
    rcases hrest with heq | ⟨r, heq⟩
    · exact .inl heq
    · exact .inr ⟨_, heq⟩
  -- a routine is entered with nothing or a body before it, never with a receive
  rcases hkeep with hkeep | ⟨⟨rfl, rfl⟩, rest', hrecv⟩
  · exact hkeep
  · rcases hrest with heq | ⟨r, heq⟩
    · -- the calls before it are still there
      show _ ∈ (s.msgs.setOps i' maxNvps (l ++ rest)).ops i' maxNvps
      rw [setOps_self, ← heq]
      exact List.mem_append_right _ hop
    · rw [heq] at hrecv
      cases (List.cons.inj hrecv).1

/-- A message goes into the net. -/
theorem Good.sent (h : Good s) {i v dst tag : Nat} {p : Packet} {rest : List Op}
    (hops : s.msgs.ops i v = .send dst tag p :: rest) :
    Good { s with msgs := s.msgs.sent i v dst tag p rest } := by
  have hcalls : ∀ {α : Type} (f : Op → Option α), f (.send dst tag p) = none → ∀ i' v',
      ((s.msgs.sent i v dst tag p rest).ops i' v').filterMap f =
        (s.msgs.ops i' v').filterMap f :=
    fun f hf i' v' ↦ sent_ops_measure hops (fun l ↦ l.filterMap f) (by
      show (_ :: rest).filterMap f = _
      rw [List.filterMap_cons, hf]) i' v'
  have hsub : ∀ i' v', ∀ op ∈
      (s.msgs.sent i v dst tag p rest).ops i' v', op ∈ s.msgs.ops i' v' := by
    intro i' v' op hop
    by_cases hthread : i' = i ∧ v' = v
    · obtain ⟨rfl, rfl⟩ := hthread
      rw [sent_ops_self] at hop
      rw [hops]
      exact List.mem_cons_of_mem _ hop
    · rwa [sent_ops_other hthread] at hop
  have hnet : ∀ c, c ≠ ⟨i, dst, tag⟩ →
      (s.msgs.sent i v dst tag p rest).net c = s.msgs.net c :=
    fun c hc ↦ setNet_other _ _ hc
  refine
    { tasks := h.tasks
      answers := ?answers
      call := fun i' v' dst' uid d hd ↦ h.call i' v' dst' uid d (hsub i' v' _ hd)
      flight := fun src dst' uid d hd ↦ ?hflight
      server := h.server
      body := fun i' ↦ ?body
      receiving := fun i' d hd x hx ↦ ?receiving
      arrived := h.arrived }
  case answers =>
    -- an answer goes from the calls of the thread into its channel, anything else is in neither
    cases hans : sentAnswer (.send dst tag p) with
    | none =>
        refine h.answers.stays fun x r ↦ ?_
        congr 1
        cases r with
        | calls i' v' => exact hcalls sentAnswer hans i' v'
        | flight c =>
            by_cases hc : c = ⟨i, dst, tag⟩
            · subst hc
              simp only [contents]
              by_cases htag : tag = maxNvps
              · rw [if_pos htag, if_pos htag, sent_net_self, List.filterMap_append]
                rw [sentAnswer, if_pos htag] at hans
                rw [List.filterMap_cons, hans, List.filterMap_nil, List.append_nil]
              · rw [if_neg htag, if_neg htag]
            · simp only [contents, hnet c hc]
        | server i' => rfl
    | some k =>
        -- only messages on the tag of the servers are answers
        have htag : tag = maxNvps := by
          by_contra hne
          rw [sentAnswer, if_neg hne] at hans
          cases hans
        have hp : answerOf p = some k := by
          rw [sentAnswer, if_pos htag] at hans
          exact hans
        have hmoves : Moves (contents s)
            (contents { s with msgs := s.msgs.sent i v dst tag p rest }) k (.calls i v)
            (.flight ⟨i, dst, tag⟩) := by
          refine Moves.of_perm ?_ ?_ nofun fun r hcall hflight ↦ ?_
          · simp only [contents]
            rw [hops, sent_ops_self, List.filterMap_cons, hans]
          · simp only [contents]
            rw [if_pos htag, if_pos htag, sent_net_self, List.filterMap_append,
              List.filterMap_cons, hp]
            exact List.perm_append_singleton k _
          · cases r with
            | calls i' v' =>
                simp only [contents]
                rw [sent_ops_other]
                rintro ⟨rfl, rfl⟩
                exact hcall rfl
            | flight c =>
                simp only [contents, hnet c fun hc ↦ hflight (congrArg Place.flight hc)]
            | server i' => rfl
        exact h.answers.moves hmoves
  case hflight =>
    by_cases hc : (⟨src, dst', maxNvps⟩ : Chan) = ⟨i, dst, tag⟩
    · -- what is in flight now was a call before
      obtain ⟨rfl, rfl, rfl⟩ := Chan.mk.inj hc
      have hd' : .desc uid d ∈ s.msgs.net ⟨src, dst', maxNvps⟩ ++ [p] := by
        rw [← sent_net_self (s := s.msgs)]
        exact hd
      rcases List.mem_append.mp hd' with hd' | hd'
      · exact h.flight src dst' uid d hd'
      · obtain rfl := List.mem_singleton.mp hd'
        exact h.call src v dst' uid d (by rw [hops]; exact List.mem_cons_self)
    · have hd' :
          .desc uid d ∈ (s.msgs.sent i v dst tag p rest).net ⟨src, dst', maxNvps⟩ := hd
      rw [hnet _ hc] at hd'
      exact h.flight src dst' uid d hd'
  case body =>
    show ((s.msgs.sent i v dst tag p rest).ops i' maxNvps).filterMap bodyOf = [] ∨ _
    rw [show ({ s with msgs := s.msgs.sent i v dst tag p rest } : State).msgs.ops =
      (s.msgs.sent i v dst tag p rest).ops from rfl, hcalls bodyOf rfl i' maxNvps]
    exact h.body i'
  case receiving =>
    refine (h.receiving i' d hd x hx).imp id fun ⟨src, t, uid, hop⟩ ↦ ⟨src, t, uid, ?_⟩
    by_cases hthread : i' = i ∧ maxNvps = v
    · obtain ⟨rfl, rfl⟩ := hthread
      rw [hops] at hop
      show _ ∈ (s.msgs.sent i' maxNvps dst tag p rest).ops i' maxNvps
      rw [sent_ops_self]
      exact (List.mem_cons.mp hop).resolve_left Op.noConfusion
    · show _ ∈ (s.msgs.sent i v dst tag p rest).ops i' maxNvps
      rw [sent_ops_other hthread]
      exact hop

theorem noise_nil : ∀ op ∈ ([] : List Op), Noise op :=
  fun _ hop ↦ absurd hop List.not_mem_nil

/-- A thread receives a payload, or a descriptor on a tag that is not that of the servers. -/
theorem Quiet.took {m : Messages.State} {i v src tag : Nat} {op : Op} {p : Packet}
    {l : List Packet} {new rest : List Op} (hnet : m.net ⟨src, i, tag⟩ = p :: l)
    (hops : m.ops i v = op :: rest) (hans : sentAnswer op = none) (hbody : bodyOf op = none)
    (hnew : ∀ op ∈ new, Noise op) (hp : answerOf p = none ∨ tag ≠ maxNvps) :
    Quiet m (m.took i v src tag l (new ++ rest)) := by
  have hq : Quiet m (m.setOps i v (new ++ rest)) :=
    Quiet.setOps hnew (.inr ⟨op, hops, hans, hbody⟩)
  have hself : (m.took i v src tag l (new ++ rest)).net ⟨src, i, tag⟩ = l := setNet_self _ _ _
  refine ⟨hq.calls, fun a b ↦ ?_, fun a b q hmem ↦ ?_, hq.body, hq.send⟩
  -- a payload, or a message on a tag that servers do not listen to, is no answer
  · by_cases hc : a = src ∧ b = i ∧ maxNvps = tag
    · obtain ⟨rfl, rfl, rfl⟩ := hc
      have hnone : answerOf p = none := hp.resolve_right fun hne ↦ hne rfl
      rw [hself, hnet, List.filterMap_cons, hnone]
    · rw [took_net_other hc]
  · by_cases hc : a = src ∧ b = i ∧ maxNvps = tag
    · obtain ⟨rfl, rfl, rfl⟩ := hc
      rw [hself] at hmem
      rw [hnet]
      exact List.mem_cons_of_mem _ hmem
    · rwa [took_net_other hc] at hmem

/-- The program ends in no defined state. -/
theorem Good.breaks (h : Good s) : Good { s with msgs := { s.msgs with broken := true } } :=
  h.quiet (m := { s.msgs with broken := true }) ((Quiet.refl s.msgs).of_eq rfl rfl)
    (fun _ hx ↦ hx) fun _ _ _ _ _ _ _ _ hop ↦ .inr hop

theorem Good.advance_other (h : Good s) {i v : Nat} {mem : Nat → Int} {m : Messages.State}
    (hmatch : Expects s i v)
    (hs : (Messages.system workers).step (.advance i v mem) s.msgs = some m)
    (hnot : ∀ src tag uid arg count rest d, s.msgs.ops i v =
      .recv src tag uid arg count :: rest →
      s.handling i = some d → v ≠ maxNvps) : Good { s with msgs := m } := by
  have hstep := threadStep_of_step hs
  simp only [Messages.threadStep] at hstep
  split at hstep
  · unfold Messages.advance at hstep
    split at hstep
    · rename_i dst tag p rest hops
      cases hstep
      exact h.sent hops
    · rename_i src tag uid arg count rest hops
      split at hstep
      · cases hstep
      · rename_i p l hnet
        -- the model assumes that a payload gets the receive it is for
        have hp := hmatch src tag uid arg count rest p l hops hnet
        rw [if_pos hp] at hstep
        cases hstep
        refine h.quiet (Quiet.took hnet hops rfl rfl noise_nil (.inl (by rw [hp]; rfl)))
          (fun _ hx ↦ hx) fun i' d hd src' tag' uid' arg' count' hop ↦ .inr ?_
        rcases recv_mem_setOps (l := []) (.inr ⟨_, hops⟩) hop with hkeep |
          ⟨⟨rfl, rfl⟩, -⟩
        · exact hkeep
        -- the server would have an answer in its hands
        · exact absurd rfl (hnot _ _ _ _ _ _ d hops hd)
    · rename_i src rest hops
      split at hstep
      · cases hstep
      · rename_i uid d l hnet
        cases hstep
        -- a steal reply has a tag above that of the servers
        refine h.quiet (Quiet.took hnet hops rfl rfl noise_payloadRecvs
          (.inr (Nat.ne_of_gt (waitTag_gt v)))) (fun _ hx ↦ hx)
          fun i' d' _ src' tag' uid' arg' count' hop ↦ .inr ?_
        rcases recv_mem_setOps (.inr ⟨_, hops⟩) hop with hkeep | ⟨-, rest', hrecv⟩
        · exact hkeep
        · rw [hops] at hrecv
          cases (List.cons.inj hrecv).1
      · cases hstep
        exact h.breaks
    · cases hstep
  · cases hstep

/-- A result of the answer that the server processes arrives and is written. -/
theorem Good.advance (h : Good s) {i v : Nat} {mem : Nat → Int} (hmatch : Expects s i v)
    (hs : advance workers descSize s i v mem = some s') : Good s' := by
  unfold Waiting.advance at hs
  split at hs
  · rename_i src tag uid arg count rest d hops hd
    split at hs
    · rename_i hv
      subst hv
      split at hs
      · cases hs
      · rename_i p l hnet
        have hp := hmatch src tag uid arg count rest p l hops hnet
        dsimp only at hs
        rw [if_pos hp] at hs
        cases hs
        refine h.quiet (Quiet.took hnet hops rfl rfl noise_nil (.inl (by rw [hp]; rfl)))
          (fun _ hx ↦ List.mem_append_left _ hx)
          fun i' d' hd' src' tag' uid' arg' count' hop ↦ ?_
        rcases recv_mem_setOps (l := []) (.inr ⟨_, hops⟩) hop with hkeep |
          ⟨⟨rfl, -⟩, rest', hrecv⟩
        · exact .inr hkeep
        · -- the receive that is gone has written its result
          rw [hops] at hrecv
          cases (List.cons.inj hrecv).1
          rw [hd] at hd'
          cases hd'
          exact .inl (List.mem_append_right _ List.mem_cons_self)
    · rename_i hv
      obtain ⟨m, hm, rfl⟩ := Option.map_eq_some_iff.mp hs
      exact h.advance_other hmatch hm fun _ _ _ _ _ _ _ _ _ ↦ hv
  · rename_i hother
    obtain ⟨m, hm, rfl⟩ := Option.map_eq_some_iff.mp hs
    refine h.advance_other hmatch hm fun src tag uid arg count rest d hops hd ↦ ?_
    exact absurd hd (hother src tag uid arg count rest d hops)

end Torc.Waiting
