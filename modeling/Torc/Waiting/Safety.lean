import Torc.Waiting.Answers

/-!
# Waits and descriptors are safe

The steps that the tasks and the messages take together, and from them what holds in every run.
-/

namespace Torc.Waiting

open Transition Messages Ledger

variable {workers : List Nat} {descSize : Nat} {s s' : State}

/-! ## Servers receive -/

theorem noise_processOps {n i uid uid' : Nat} {mem : Nat → Int} {d : TorcT}
    (henq : d.type = .torcNormalEnqueue → d.rteType ≠ rteDirect) :
    ∀ op ∈ processOps n i uid uid' mem d, Noise op := by
  intro op hop
  rcases mem_processOps hop with ⟨⟨arg, count, rfl⟩, -⟩ | ⟨rfl, -⟩ |
    ⟨-, htype, hdirect⟩ | ⟨node, rfl⟩
  · exact ⟨rfl, rfl, fun _ _ _ h ↦ Op.noConfusion h⟩
  · exact ⟨rfl, rfl, fun _ _ _ h ↦ Op.noConfusion h⟩
  · exact absurd hdirect (henq htype)
  · exact noise_desc MsgType.noConfusion MsgType.noConfusion

/-- The server has all results of an answer to receive. -/
theorem recv_mem_processOps {n i uid uid' : Nat} {mem : Nat → Int} {d : TorcT}
    (htype : d.type = .torcAnswer) {x : Nat × Nat} (hx : x ∈ results d) :
    ∃ src tag, .recv src tag uid x.1 x.2 ∈ processOps n i uid uid' mem d := by
  rw [results, ← postedReceives_receiveResults i d.sourcevpid] at hx
  obtain ⟨p, hp, rfl⟩ := List.mem_map.mp hx
  obtain ⟨c, hc, hcp⟩ := List.mem_filterMap.mp hp
  cases c with
  | irecv src tag q =>
      cases hcp
      refine ⟨src, tag, ?_⟩
      rw [processOps, htype]
      exact List.mem_filterMap.mpr ⟨_, hc, rfl⟩
  | _ => cases hcp

/-- An answer goes from its channel to the server, any other descriptor is in neither. -/
theorem Good.received_answers (h : Good s) {i src uid : Nat} {d : TorcT} {l : List Packet}
    {m : Messages.State} {handling : Nat → Option TorcT}
    (hnet : s.msgs.net ⟨src, i, maxNvps⟩ = .desc uid d :: l)
    (hl : m.net ⟨src, i, maxNvps⟩ = l)
    (hchan : ∀ c, c ≠ ⟨src, i, maxNvps⟩ → m.net c = s.msgs.net c)
    (hcalls : ∀ i v, (m.ops i v).filterMap sentAnswer = (s.msgs.ops i v).filterMap sentAnswer)
    (hnone : s.handling i = none) (hother : ∀ j, j ≠ i → handling j = s.handling j)
    (hself : d.type = .torcAnswer ∧ handling i = some d ∨
      d.type ≠ .torcAnswer ∧ handling i = none) :
    Located (fun k ↦ ∃ r, s.tasks.status k = .answering r)
      (contents { s with msgs := m, handling := handling }) := by
  rcases hself with ⟨htype, hhandling⟩ | ⟨htype, hhandling⟩
  · have hans : answerOf (.desc uid d) = some d.taskId := if_pos htype
    have hmoves : Moves (contents s) (contents { s with msgs := m, handling := handling })
        d.taskId (.flight ⟨src, i, maxNvps⟩) (.server i) := by
      refine Moves.of_perm ?_ ?_ nofun fun r hflight hserver ↦ ?_
      · simp only [contents]
        rw [if_pos trivial, if_pos trivial, hnet, hl, List.filterMap_cons, hans]
      · simp only [contents]
        rw [hhandling, hnone]
        exact List.Perm.refl _
      · cases r with
        | calls i' v' => exact hcalls i' v'
        | flight c =>
            simp only [contents, hchan c fun hc ↦ hflight (congrArg Place.flight hc)]
        | server j =>
            simp only [contents, hother j fun hc ↦ hserver (congrArg Place.server hc)]
    exact h.answers.moves hmoves
  · have hans : answerOf (.desc uid d) = none := if_neg htype
    refine h.answers.stays fun x r ↦ congrArg (List.count x) ?_
    cases r with
    | calls i' v' => exact hcalls i' v'
    | flight c =>
        by_cases hc : c = ⟨src, i, maxNvps⟩
        · subst hc
          simp only [contents]
          rw [if_pos trivial, if_pos trivial, hnet, hl, List.filterMap_cons, hans]
        · simp only [contents, hchan c hc]
    | server j =>
        simp only [contents]
        by_cases hj : j = i
        · subst hj
          rw [hhandling, hnone]
        · rw [hother j hj]

/-- The server of node `i` has received a descriptor. -/
theorem Good.received (h : Good s) {i src uid : Nat} {d : TorcT} {l : List Packet} {new : List Op}
    {m : Messages.State} {handling : Nat → Option TorcT}
    (hops : s.msgs.ops i maxNvps = []) (hnet : s.msgs.net ⟨src, i, maxNvps⟩ = .desc uid d :: l)
    (hmops : m.ops = (s.msgs.setOps i maxNvps new).ops)
    (hmnet : m.net = Function.update s.msgs.net ⟨src, i, maxNvps⟩ l)
    (hnew : ∀ op ∈ new, Noise op) (hnone : s.handling i = none)
    (hother : ∀ j, j ≠ i → handling j = s.handling j)
    (hself : d.type = .torcAnswer ∧ handling i = some d ∧ (∀ x ∈ results d, ∃ src tag,
      .recv src tag uid x.1 x.2 ∈ new) ∨ d.type ≠ .torcAnswer ∧ handling i = none) :
    Good { s with msgs := m, handling := handling } := by
  have hfine : DescFine s.tasks src i d :=
    h.flight src i uid d (by rw [hnet]; exact List.mem_cons_self)
  have hquiet : Quiet s.msgs (s.msgs.setOps i maxNvps new) := by
    rw [← List.append_nil new]
    exact Quiet.setOps hnew (.inl hops)
  have hcalls : ∀ i' v', (m.ops i' v').filterMap sentAnswer =
      (s.msgs.ops i' v').filterMap sentAnswer := by
    rw [hmops]
    exact hquiet.calls
  have hchan : ∀ c, c ≠ ⟨src, i, maxNvps⟩ → m.net c = s.msgs.net c := by
    intro c hc
    rw [hmnet, Function.update_of_ne hc]
  have hl : m.net ⟨src, i, maxNvps⟩ = l := by rw [hmnet, Function.update_self]
  refine
    { tasks := h.tasks
      answers := ?answers
      call := fun i' v' dst uid' d' hd' ↦ ?call
      flight := fun a b uid' d' hd' ↦ ?hflight
      server := fun j d' hd' ↦ ?hserver
      body := fun j ↦ ?body
      receiving := fun j d' hd' x hx ↦ ?receiving
      arrived := h.arrived }
  case answers =>
    exact h.received_answers hnet hl hchan hcalls hnone hother
      (hself.imp_left fun ha ↦ ⟨ha.1, ha.2.1⟩)
  case call =>
    have hd : .send dst maxNvps (.desc uid' d') ∈ m.ops i' v' := hd'
    rw [hmops] at hd
    -- other calls of the server send no answer
    rcases hquiet.send i' v' dst uid' d' hd with hold | ⟨htype, henq⟩
    · exact h.call i' v' dst uid' d' hold
    · exact ⟨fun hc ↦ absurd hc htype, henq⟩
  case hflight =>
    have hd : .desc uid' d' ∈ m.net ⟨a, b, maxNvps⟩ := hd'
    by_cases hc : (⟨a, b, maxNvps⟩ : Chan) = ⟨src, i, maxNvps⟩
    -- what is left of the channel, or another channel
    · obtain ⟨rfl, rfl, -⟩ := Chan.mk.inj hc
      rw [hl] at hd
      exact h.flight a b uid' d' (by rw [hnet]; exact List.mem_cons_of_mem _ hd)
    · rw [hchan _ hc] at hd
      exact h.flight a b uid' d' hd
  case hserver =>
    by_cases hj : j = i
    · subst hj
      rcases hself with ⟨htype, hhandling, -⟩ | ⟨-, hhandling⟩
      · rw [show handling j = some d' from hd'] at hhandling
        cases hhandling
        -- the stamp of the answer names the node that sent it
        obtain ⟨-, -, v, -, hstamp⟩ := hfine.answer htype
        have hsource : d.sourcenode = src := by rw [hstamp]; rfl
        rw [hsource]
        exact ⟨htype, hfine⟩
      · rw [show handling j = some d' from hd'] at hhandling
        cases hhandling
    · exact h.server j d' ((hother j hj).symm.trans hd')
  case body =>
    -- no call that the server enters is a body
    have hbody : (m.ops j maxNvps).filterMap bodyOf = (s.msgs.ops j maxNvps).filterMap bodyOf := by
      rw [hmops]
      exact hquiet.body j
    rw [show ({ s with msgs := m, handling := handling } : State).msgs.ops j maxNvps =
      m.ops j maxNvps from rfl, hbody]
    exact h.body j
  case receiving =>
    -- the results of an answer are still to be received
    by_cases hj : j = i
    · subst hj
      rcases hself with ⟨-, hhandling, hresults⟩ | ⟨-, hhandling⟩
      · rw [show handling j = some d' from hd'] at hhandling
        cases hhandling
        obtain ⟨src', tag, hop⟩ := hresults x hx
        refine .inr ⟨src', tag, uid, ?_⟩
        show _ ∈ m.ops j maxNvps
        rw [hmops, setOps_self]
        exact hop
      · rw [show handling j = some d' from hd'] at hhandling
        cases hhandling
    · rcases h.receiving j d' ((hother j hj).symm.trans hd') x hx with hw |
        ⟨src', tag, uid', hop⟩
      · exact .inl hw
      -- the calls of other servers are as before
      · refine .inr ⟨src', tag, uid', ?_⟩
        show _ ∈ m.ops j maxNvps
        rw [hmops, setOps_other s.msgs new fun hc ↦ hj hc.1]
        exact hop

theorem Good.receive (h : Good s) {i src : Nat} {mem : Nat → Int}
    (hs : receive workers s i src mem = some s') : Good s' := by
  unfold Waiting.receive at hs
  split at hs
  · rename_i hnone
    obtain ⟨m, hm, heq⟩ := Option.map_eq_some_iff.mp hs
    have hstep := threadStep_of_step hm
    simp only [Messages.threadStep] at hstep
    split at hstep
    · unfold Messages.receive at hstep
      split at hstep
      · rename_i uid d l hops hnet
        have hfine := h.flight src i uid d (by rw [hnet]; exact List.mem_cons_self)
        rw [hnet] at heq
        dsimp only at heq
        split at hstep
        · rename_i htag
          cases hstep
          split at heq
          · rename_i htype
            -- the tag of an answer is the id of a thread
            obtain ⟨-, -, v, hv, hstamp⟩ := hfine.answer htype
            have hvpid : d.sourcevpid = v := by rw [hstamp]; rfl
            omega
          · cases heq
            exact h.breaks
        · cases hstep
          have hnew : ∀ op ∈ processOps workers.length i uid s.msgs.uid mem d ++ [],
              Noise op := by
            rw [List.append_nil]
            exact noise_processOps hfine.enqueue
          split at heq
          -- the server has an answer in its hands now
          · rename_i htype
            cases heq
            refine h.received hops hnet rfl rfl hnew hnone
              (fun j hj ↦ Function.update_of_ne hj ..)
              (.inl ⟨htype, Function.update_self .., fun x hx ↦ ?_⟩)
            rw [List.append_nil]
            exact recv_mem_processOps htype hx
          · rename_i htype
            cases heq
            exact h.received hops hnet rfl rfl hnew hnone (fun _ _ ↦ rfl)
              (.inr ⟨htype, hnone⟩)
      · rename_i uid arg count l hops hnet
        cases hstep
        rw [hnet] at heq
        cases heq
        exact h.breaks
      · cases hstep
    · cases hstep
  · cases hs

theorem Good.netStep (h : Good s) {a : Messages.Act} (hok : Matched (.net a) s)
    (hs : netStep workers descSize s a = some s') : Good s' := by
  cases a with
  | send i v node desc type =>
      simp only [Waiting.netStep] at hs
      split at hs
      · rename_i htype
        obtain ⟨m, hm, rfl⟩ := Option.map_eq_some_iff.mp hs
        have hstep := threadStep_of_step hm
        -- what is sent here is neither an answer nor a task for direct execution
        simp only [Messages.threadStep] at hstep
        split at hstep
        · exact h.enter (noise_sendDescriptorOps htype.1 htype.2) (.inl rfl)
            (Option.some.inj hstep).symm
        · cases hstep
      · cases hs
  | broadcast i v node buffer count btype =>
      obtain ⟨m, hm, rfl⟩ := Option.map_eq_some_iff.mp hs
      have hstep := threadStep_of_step hm
      simp only [Messages.threadStep] at hstep
      split at hstep
      · exact h.enter noise_torcBroadcastOps (.inl rfl)
          (Option.some.inj hstep).symm
      · cases hstep
  | request i v node =>
      obtain ⟨m, hm, rfl⟩ := Option.map_eq_some_iff.mp hs
      have hstep := threadStep_of_step hm
      simp only [Messages.threadStep] at hstep
      split at hstep
      · exact h.enter noise_stealingRequestOps (.inl rfl)
          (Option.some.inj hstep).symm
      · cases hstep
  | reply i work =>
      obtain ⟨m, hm, rfl⟩ := Option.map_eq_some_iff.mp hs
      have hstep := threadStep_of_step hm
      simp only [Messages.threadStep] at hstep
      split at hstep
      · unfold Messages.reply at hstep
        split at hstep
        · rename_i request rest hops
          split at hstep
          · exact h.enter noise_directSendDescriptorOps
              (.inr ⟨request, hops⟩) (Option.some.inj hstep).symm
          · cases hstep
        · cases hstep
      · cases hstep
  | advance i v mem => exact h.advance hok hs
  | receive i src mem => exact h.receive hs
  | finish i => cases hs

/-! ## Answers are sent -/

theorem DescFine.congr {t t' : Tasks} {src dst : Nat} {d : TorcT} (h : DescFine t src dst d)
    (hissued : t'.issued = t.issued) (hdesc : t'.desc = t.desc) : DescFine t' src dst d := by
  refine ⟨fun htype ↦ ?_, h.enqueue⟩
  rw [hissued, hdesc]
  exact h.answer htype

/-- The answer of task `k` is the only one among the calls that send it. -/
theorem sentAnswer_sendDescriptorOps (i v uid node : Nat) (d : TorcT) (rest : List Op) :
    (sendDescriptorOps i v uid node d .torcAnswer ++ rest).filterMap sentAnswer =
      d.taskId :: rest.filterMap sentAnswer := by
  have hhead : sentAnswer (.send node maxNvps (.desc uid (stampSource i v d .torcAnswer))) =
      some d.taskId := rfl
  rw [sendDescriptorOps, List.cons_append, List.filterMap_cons, hhead]
  exact congrArg (d.taskId :: ·)
    (filterMap_noise fun op hop ↦ (noise_payloadSends op hop).answer)

theorem bodyOf_sendDescriptorOps (i v uid node : Nat) (d : TorcT) (type : MsgType)
    (rest : List Op) :
    (sendDescriptorOps i v uid node d type ++ rest).filterMap bodyOf = rest.filterMap bodyOf := by
  refine filterMap_noise fun op hop ↦ ?_
  rcases List.mem_cons.mp hop with rfl | hop
  · rfl
  · exact (noise_payloadSends op hop).body

/-- A thread sends the answer of task `k`, which it has executed. -/
theorem Good.answer (h : Good s) {i v k uid : Nat} {rest : List Op} {t : Tasks}
    {m : Messages.State} (hinv : Inv t) (hv : v ≤ maxNvps) (hdesc : t.desc = s.tasks.desc)
    (hissued : t.issued = s.tasks.issued)
    (hstatus : t.status = Function.update s.tasks.status k (.answering i))
    (hk : s.tasks.status k ≠ .unborn) (hnot : ∀ r, s.tasks.status k ≠ .answering r)
    (hold : s.msgs.ops i v = rest ∨ ∃ d, s.msgs.ops i v = .body d :: rest)
    (hmops : m.ops = (s.msgs.setOps i v (sendDescriptorOps i v uid
      (s.tasks.desc k).homenode (s.tasks.desc k) .torcAnswer ++ rest)).ops)
    (hmnet : m.net = s.msgs.net)
    (hbody : ∀ j, (m.ops j maxNvps).filterMap bodyOf = [] ∨
      ∃ k a, (m.ops j maxNvps).filterMap bodyOf = [t.desc k] ∧ t.status k = .served j a) :
    Good { s with tasks := t, msgs := m } := by
  have hlt : k < s.tasks.issued := (h.tasks.born k).mp hk
  have hid : (s.tasks.desc k).taskId = k := h.tasks.taskId k hlt
  have hself : t.status k = .answering i := by rw [hstatus, Function.update_self]
  have hother : ∀ j, j ≠ k → t.status j = s.tasks.status j := by
    intro j hj
    rw [hstatus, Function.update_of_ne hj]
  have holdAnswers : (s.msgs.ops i v).filterMap sentAnswer = rest.filterMap sentAnswer := by
    rcases hold with heq | ⟨d, heq⟩ <;> rw [heq]
    rfl
  have hmem : ∀ {op : Op}, op ∈ rest → op ∈ s.msgs.ops i v := by
    intro op hop
    rcases hold with heq | ⟨d, heq⟩ <;> rw [heq]
    · exact hop
    · exact List.mem_cons_of_mem _ hop
  refine
    { tasks := hinv
      answers := ?answers
      call := fun i' v' dst uid' d hd ↦ ?call
      flight := fun a b uid' d hd ↦ ?hflight
      server := fun j d hd ↦ ⟨(h.server j d hd).1, (h.server j d hd).2.congr hissued hdesc⟩
      body := hbody
      receiving := fun j d hd x hx ↦ ?receiving
      arrived := fun j r hdone hr ↦ ?arrived }
  case answers =>
    -- the answer is new, and in the calls of the thread
    -- the calls of the thread get it, no other place changes
    have hissues : Issues (contents s) (contents { s with tasks := t, msgs := m }) k
        (.calls i v) := by
      refine Issues.of_perm ?_ fun r hr ↦ ?_
      · simp only [contents]
        rw [hmops, setOps_self, sentAnswer_sendDescriptorOps, hid, holdAnswers]
      · cases r with
        | calls i' v' =>
            simp only [contents]
            rw [hmops, setOps_other]
            rintro ⟨rfl, rfl⟩
            exact hr rfl
        | flight c => simp only [contents, hmnet]
        | server j => rfl
    have hnew : ¬ ∃ r, s.tasks.status k = .answering r := not_exists.mpr hnot
    refine h.answers.issues hissues hnew fun x ↦ ?_
    by_cases hx : x = k
    · subst hx
      exact ⟨fun _ ↦ .inr rfl, fun _ ↦ ⟨i, hself⟩⟩
    · show (∃ r, t.status x = .answering r) ↔ _
      rw [hother x hx]
      exact ⟨.inl, fun hc ↦ hc.resolve_right hx⟩
  case call =>
    have hd' : .send dst maxNvps (.desc uid' d) ∈ m.ops i' v' := hd
    rw [hmops] at hd'
    by_cases hthread : i' = i ∧ v' = v
    · obtain ⟨rfl, rfl⟩ := hthread
      rw [setOps_self] at hd'
      rcases List.mem_append.mp hd' with hd' | hd'
      · rcases List.mem_cons.mp hd' with heq | hd'
        · -- the descriptor of the task itself, stamped with the sender
          cases heq
          refine ⟨fun _ ↦ ?_, fun hc ↦ MsgType.noConfusion hc⟩
          show (s.tasks.desc k).taskId < t.issued ∧ _
          rw [hissued, hdesc]
          show (s.tasks.desc k).taskId < s.tasks.issued ∧
            (s.tasks.desc k).homenode = (s.tasks.desc (s.tasks.desc k).taskId).homenode ∧
            ∃ v ≤ maxNvps, stampSource i' v' (s.tasks.desc k) .torcAnswer =
              stampSource i' v (s.tasks.desc (s.tasks.desc k).taskId) .torcAnswer
          rw [hid]
          exact ⟨hlt, rfl, v', hv, rfl⟩
        · obtain ⟨_, _, _, -, heq⟩ := mem_payloadSends hd'
          cases (Op.send.inj heq).2.2
      · exact (h.call i' v' dst uid' d (hmem hd')).congr hissued hdesc
    · rw [setOps_other _ _ hthread] at hd'
      exact (h.call i' v' dst uid' d hd').congr hissued hdesc
  case hflight =>
    -- nothing has been sent yet
    have hd' : .desc uid' d ∈ m.net ⟨a, b, maxNvps⟩ := hd
    rw [hmnet] at hd'
    exact (h.flight a b uid' d hd').congr hissued hdesc
  case receiving =>
    rcases h.receiving j d hd x hx with hw | ⟨src, tag, uid', hop⟩
    · exact .inl hw
    · refine .inr ⟨src, tag, uid', ?_⟩
      show _ ∈ m.ops j maxNvps
      rw [hmops]
      by_cases hthread : j = i ∧ maxNvps = v
      -- the thread leaves the body, not a receive
      · obtain ⟨rfl, rfl⟩ := hthread
        rw [setOps_self]
        apply List.mem_append_right
        rcases hold with heq | ⟨d', heq⟩ <;> rw [heq] at hop
        · exact hop
        · exact (List.mem_cons.mp hop).resolve_left Op.noConfusion
      · rw [setOps_other _ _ hthread]
        exact hop
  case arrived =>
    have hdone' : t.status j = .done r := hdone
    have hj : j ≠ k := by
      rintro rfl
      rw [hself] at hdone'
      cases hdone'
    rw [hother j hj] at hdone'
    show ∀ x ∈ results (t.desc j), _
    rw [hdesc]
    refine h.arrived j r hdone' ?_
    rw [← hdesc]
    exact hr

/-! ## Completion -/

/-- What `_torc_cleanup` leaves of the tasks. -/
theorem cleanup_cases {i v : Nat} {t : Tasks} (ht : s.tasks.cleanup i v = some t) :
    ∃ k a p rest, s.tasks.stack i v = ⟨k, a, p, .running⟩ :: rest ∧
    t.desc = s.tasks.desc ∧
      t.issued = s.tasks.issued ∧ t.status = Function.update s.tasks.status k
        (if (s.tasks.desc k).homenode ≠ i then .answering i else .done i) := by
  unfold Tasks.cleanup at ht
  split at ht
  · rename_i k a p rest hstack
    refine ⟨k, a, p, rest, hstack, ?_⟩
    split at ht
    · cases ht
    · dsimp only at ht
      split at ht
      · rename_i hhome
        cases ht
        exact ⟨rfl, rfl, by rw [if_pos hhome]; rfl⟩
      · rename_i hhome
        cases ht
        exact ⟨rfl, rfl, by rw [if_neg hhome]; rfl⟩
  · cases ht

theorem Keeps.cleanup {t t' : Tasks} {k i v : Nat} (hrun : t.status k = .running i v)
    (hlt : k < t.issued) (hhome : (t.desc k).homenode = i) (hissued : t'.issued = t.issued)
    (hdesc : t'.desc = t.desc) (hstatus : t'.status = Function.update t.status k (.done i)) :
    Keeps t t' := by
  have hself : t'.status k = .done i := by rw [hstatus, Function.update_self]
  have hother : ∀ j, j ≠ k → t'.status j = t.status j := by
    intro j hj
    rw [hstatus, Function.update_of_ne hj]
  refine ⟨Nat.le_of_eq hissued.symm,
    fun _ _ ↦ by rw [hdesc], fun j ↦ ?_, fun j i' a hj ↦ ?_,
    fun j r hj ↦ ?_⟩
  · by_cases hjk : j = k
    · subst hjk
      rw [hself, hrun]
      constructor <;> rintro ⟨r, hr⟩ <;> cases hr
    · rw [hother j hjk]
  · have hjk : j ≠ k := by
      rintro rfl
      rw [hrun] at hj
      cases hj
    rw [hother j hjk]
    exact hj
  · by_cases hjk : j = k
    · subst hjk
      rw [hself] at hj
      cases hj
      exact .inr ⟨hlt, hhome.symm⟩
    · rw [hother j hjk] at hj
      exact .inl hj

theorem Good.cleanup (h : Good s) {i v : Nat} (hfree : Free workers s i v)
    (hwaited : ∀ f ∈ (s.tasks.stack i v).head?, f.pending = false)
    (hs : cleanup s i v = some s') : Good s' := by
  obtain ⟨hthread, hv, hops⟩ := hfree
  unfold Waiting.cleanup at hs
  split at hs
  · rename_i f l hstack
    obtain ⟨t, ht, heq⟩ := Option.map_eq_some_iff.mp hs
    obtain ⟨k, a, p, rest, hstack', hdesc, hissued, hstatus⟩ := cleanup_cases ht
    have hinv : Inv t := h.tasks.cleanup ht hwaited
    have hrun : s.tasks.status k = .running i v :=
      (h.tasks.frame i v _ (Inv.top_mem hstack')).status.resolve_right fun hc ↦
        Ctl.noConfusion hc.1
    have hlt : k < s.tasks.issued := (h.tasks.born k).mp (by rw [hrun]; nofun)
    rw [hstack] at hstack'
    cases hstack'
    dsimp only at heq
    -- away from home an answer is sent, at home the task is done
    split at heq
    · rename_i hhome
      cases heq
      rw [if_pos hhome] at hstatus
      have hle : v ≤ maxNvps := hthread.2.elim (fun hlt ↦ Nat.le_of_lt hlt.2) Nat.le_of_eq
      refine h.answer hinv hle hdesc hissued hstatus (by rw [hrun]; nofun)
        (fun r ↦ by rw [hrun]; nofun) (.inl hops) rfl rfl fun j ↦ ?_
      have hj : (s.msgs.enter i v (sendDescriptorOps i v s.msgs.uid (s.tasks.desc k).homenode
          (s.tasks.desc k) .torcAnswer) []).ops j maxNvps = s.msgs.ops j maxNvps :=
        setOps_other s.msgs _ fun hc ↦ hv hc.2.symm
      rw [hj, hdesc]
      refine (h.body j).imp id fun ⟨k', a', hbody, hserved⟩ ↦ ⟨k', a', hbody, ?_⟩
      -- task `k` is on the stack of a worker
      have hk' : k' ≠ k := by
        rintro rfl
        rw [hrun] at hserved
        cases hserved
      rw [hstatus, Function.update_of_ne hk']
      exact hserved
    · rename_i hhome
      cases heq
      rw [if_neg hhome] at hstatus
      exact h.keeps hinv (Keeps.cleanup hrun hlt (not_not.mp hhome) hissued hdesc hstatus)
  · cases hs

/-- The server of node `i` has task `k` to execute. -/
theorem Good.serve (h : Good s) {k i a : Nat} (hs : serve s k i a = some s') : Good s' := by
  unfold Waiting.serve at hs
  split at hs
  · rename_i hguard
    obtain ⟨hops, hnone, -⟩ := hguard
    obtain ⟨t, ht, rfl⟩ := Option.map_eq_some_iff.mp hs
    have hk : Keeps s.tasks t := Keeps.arrive rfl ht
    have hold : Good { s with tasks := t } := h.keeps (h.tasks.arrive (.inr rfl) ht) hk
    have hserved : t.status k = .served i a ∧ t.desc = s.tasks.desc := by
      unfold Tasks.arrive at ht
      split at ht
      · cases ht
        exact ⟨Function.update_self .., rfl⟩
      · cases ht
    have hother :
        ∀ j, j ≠ i → ∀ v, (s.msgs.setOps i maxNvps [.body (s.tasks.desc k)]).ops j v =
        s.msgs.ops j v := fun j hj v ↦ setOps_other s.msgs _ fun hc ↦ hj hc.1
    have hcalls : ∀ j v, ((s.msgs.setOps i maxNvps [.body (s.tasks.desc k)]).ops j v).filterMap
        sentAnswer = (s.msgs.ops j v).filterMap sentAnswer :=
      setOps_measure (fun l ↦ l.filterMap sentAnswer) (by rw [hops]; rfl)
    refine { hold with
      answers := ?answers
      call := fun j v dst uid d hd ↦ ?call
      body := fun j ↦ ?body
      receiving := fun j d hd x hx ↦ ?receiving }
    case answers =>
      -- a body is no answer
      refine hold.answers.stays fun x r ↦ congrArg (List.count x) ?_
      cases r with
      | calls j v => exact hcalls j v
      | flight c => rfl
      | server j => rfl
    case call =>
      by_cases hthread : j = i ∧ v = maxNvps
      · obtain ⟨rfl, rfl⟩ := hthread
        have hd' : .send dst maxNvps (.desc uid d) ∈
            (s.msgs.setOps j maxNvps [.body (s.tasks.desc k)]).ops j maxNvps := hd
        rw [setOps_self] at hd'
        exact Op.noConfusion (List.mem_singleton.mp hd')
      · have hd' : .send dst maxNvps (.desc uid d) ∈
            (s.msgs.setOps i maxNvps [.body (s.tasks.desc k)]).ops j v := hd
        rw [setOps_other _ _ hthread] at hd'
        exact hold.call j v dst uid d hd'
    case body =>
      by_cases hj : j = i
      · subst hj
        refine .inr ⟨k, a, ?_, hserved.1⟩
        show ((s.msgs.setOps j maxNvps [.body (s.tasks.desc k)]).ops j maxNvps).filterMap bodyOf =
          [t.desc k]
        rw [setOps_self, hserved.2]
        rfl
      · show ((s.msgs.setOps i maxNvps [.body (s.tasks.desc k)]).ops j maxNvps).filterMap bodyOf =
          [] ∨ _
        rw [show ({ s with tasks := t, msgs := s.msgs.setOps i maxNvps [.body (s.tasks.desc k)] } :
          State).msgs.ops j maxNvps = s.msgs.ops j maxNvps from hother j hj maxNvps]
        exact hold.body j
    case receiving =>
      -- the server that begins the body has no answer in its hands
      have hj : j ≠ i := by
        rintro rfl
        rw [show s.handling j = some d from hd] at hnone
        cases hnone
      refine (hold.receiving j d hd x hx).imp id fun ⟨src, tag, uid, hop⟩ ↦
        ⟨src, tag, uid, ?_⟩
      show _ ∈ (s.msgs.setOps i maxNvps [.body (s.tasks.desc k)]).ops j maxNvps
      rw [hother j hj maxNvps]
      exact hop
  · cases hs

/-- The server of node `i` has executed a body and sends the answer. -/
theorem Good.finish (h : Good s) {i : Nat}
    (hs : finish s i = some s') : Good s' := by
  unfold Waiting.finish at hs
  split at hs
  · rename_i d rest hops
    obtain ⟨m, hm, rfl⟩ := Option.map_eq_some_iff.mp hs
    have hbodies : (s.msgs.ops i maxNvps).filterMap bodyOf = d :: rest.filterMap bodyOf := by
      rw [hops]
      rfl
    -- the body that the server is in is that of a task it serves
    rcases h.body i with hnone | ⟨k, a, hbody, hserved⟩
    · rw [hbodies] at hnone
      cases hnone
    · rw [hbodies] at hbody
      obtain ⟨rfl, hrest⟩ := List.cons.inj hbody
      have hlt : k < s.tasks.issued := (h.tasks.born k).mp (by rw [hserved]; nofun)
      simp only [Messages.finish, hops, Option.some.injEq] at hm
      subst hm
      rw [h.tasks.taskId k hlt]
      refine h.answer (h.tasks.served_answering hserved i) (Nat.le_refl _) rfl rfl rfl
        (by rw [hserved]; nofun) (fun r ↦ by rw [hserved]; nofun) (.inr ⟨_, hops⟩) rfl rfl
        fun j ↦ ?_
      by_cases hj : j = i
      · subst hj
        left
        show ((s.msgs.setOps j maxNvps (sendDescriptorOps j maxNvps s.msgs.uid
          (s.tasks.desc k).homenode (s.tasks.desc k) .torcAnswer ++ rest)).ops j
          maxNvps).filterMap bodyOf = []
        rw [setOps_self, bodyOf_sendDescriptorOps, hrest]
      · have hsame : (s.msgs.enter i maxNvps (sendDescriptorOps i maxNvps s.msgs.uid
            (s.tasks.desc k).homenode (s.tasks.desc k) .torcAnswer) rest).ops j maxNvps =
            s.msgs.ops j maxNvps := setOps_other s.msgs _ fun hc ↦ hj hc.1
        rw [hsame]
        refine (h.body j).imp id fun ⟨k', a', hbody', hserved'⟩ ↦ ⟨k', a', hbody', ?_⟩
        -- no other server serves it
        have hk' : k' ≠ k := by
          rintro rfl
          rw [hserved] at hserved'
          cases hserved'
          exact hj rfl
        rw [setStatus_other _ _ hk']
        exact hserved'
  · cases hs

/-- The answer of task `k` has been processed, and its parent is satisfied. -/
theorem Good.satisfy (h : Good s) {i : Nat} (hs : satisfy s i = some s') : Good s' := by
  unfold Waiting.satisfy at hs
  split at hs
  · rename_i d hd
    split at hs
    · rename_i hops
      cases hs
      obtain ⟨hlt, ⟨r, hk⟩, hhome, hparent, hresults⟩ := h.handled hd
      have hinv := h.tasks.answered hk d.sourcenode
      rw [← hhome, ← hparent] at hinv
      have hself : (s.tasks.complete i d.taskId d.parent d.sourcenode).status d.taskId =
          .done d.sourcenode := setStatus_self _ _ _
      have hother : ∀ x, x ≠ d.taskId →
          (s.tasks.complete i d.taskId d.parent d.sourcenode).status x = s.tasks.status x :=
        fun x hx ↦ setStatus_other _ _ hx
      have hhandling : ∀ j d', Function.update s.handling i none j = some d' →
          j ≠ i ∧ s.handling j = some d' := by
        intro j d' hd'
        by_cases hj : j = i
        · subst hj
          rw [Function.update_self] at hd'
          cases hd'
        · rw [Function.update_of_ne hj] at hd'
          exact ⟨hj, hd'⟩
      refine
        { tasks := hinv
          answers := ?answers
          call := fun j w dst uid d' hd' ↦ (h.call j w dst uid d' hd').congr rfl rfl
          flight := fun a b uid d' hd' ↦ (h.flight a b uid d' hd').congr rfl rfl
          server := fun j d' hd' ↦ ?hserver
          body := fun j ↦ ?body
          receiving := fun j d' hd' ↦ h.receiving j d' (hhandling j d' hd').2
          arrived := fun x r' hdone hr ↦ ?arrived }
      case answers =>
        -- the handler gives the answer up
        have htakes : Takes (contents s) (contents { s with
            tasks := s.tasks.complete i d.taskId d.parent d.sourcenode
            handling := Function.update s.handling i none }) d.taskId (.server i) := by
          refine Takes.of_perm ?_ fun r' hr' ↦ ?_
          · simp only [contents]
            rw [hd, Function.update_self]
            exact List.Perm.refl _
          · cases r' with
            | calls j w => rfl
            | flight c => rfl
            | server j =>
                simp only [contents]
                rw [Function.update_of_ne fun hj ↦ hr' (congrArg Place.server hj)]
        refine h.answers.retires htakes fun x ↦ ?_
        show (∃ r, (s.tasks.complete i d.taskId d.parent d.sourcenode).status x =
          .answering r) ↔ _
        by_cases hx : x = d.taskId
        · rw [hx, hself]
          constructor
          · rintro ⟨_, hc⟩
            cases hc
          · intro hc
            exact absurd rfl hc.2
        · rw [hother x hx]
          exact ⟨fun hc ↦ ⟨hc, hx⟩, fun hc ↦ hc.1⟩
      case hserver =>
        obtain ⟨-, hd''⟩ := hhandling j d' hd'
        exact ⟨(h.server j d' hd'').1, (h.server j d' hd'').2.congr rfl rfl⟩
      case body =>
        -- a task whose answer was processed is served nowhere
        rcases h.body j with hnone | ⟨x, a, hbody, hserved⟩
        · exact .inl hnone
        · have hx : x ≠ d.taskId := by
            rintro rfl
            rw [hk] at hserved
            cases hserved
          exact .inr ⟨x, a, hbody, (hother x hx).trans hserved⟩
      case arrived =>
        have hdone' : (s.tasks.complete i d.taskId d.parent d.sourcenode).status x = .done r' :=
          hdone
        show ∀ m ∈ results (s.tasks.desc x), _
        by_cases hx : x = d.taskId
        · -- all its receives have been made
          intro m hm
          rw [hx, ← hresults] at hm
          rcases h.receiving i d hd m hm with hwritten | ⟨_, _, _, hop⟩
          · rw [hx]
            exact hwritten
          · rw [hops] at hop
            exact absurd hop List.not_mem_nil
        · rw [hother x hx] at hdone'
          exact h.arrived x r' hdone' hr
    · cases hs
  · cases hs

/-! ## Every step -/

theorem Good.step (h : Good s) {a : Act} (hwaits : Waits a s) (hmatched : Matched a s)
    (hs : (system workers descSize).step a s = some s') : Good s' := by
  simp only [system] at hs
  split at hs
  · cases hs
  · cases a with
    | body i v a =>
        simp only [threadStep] at hs
        split at hs
        · obtain ⟨t, ht, rfl⟩ := Option.map_eq_some_iff.mp hs
          exact h.keeps (h.tasks.bodyStep ht) (Keeps.bodyStep h.tasks ht)
        · cases hs
    | move a =>
        obtain ⟨t, ht, rfl⟩ := Option.map_eq_some_iff.mp hs
        exact h.keeps (h.tasks.moveStep ht) (Keeps.moveStep ht)
    | cleanup i v =>
        simp only [threadStep] at hs
        split at hs
        · rename_i hfree
          exact h.cleanup hfree hwaits hs
        · cases hs
    | serve k i addr =>
        simp only [threadStep] at hs
        split at hs
        · exact h.serve hs
        · cases hs
    | detach i work heap cs =>
        simp only [threadStep] at hs
        split at hs
        · obtain ⟨t, ht, rfl⟩ := Option.map_eq_some_iff.mp hs
          exact h.keeps (h.tasks.createDetached ht) (Keeps.createDetached h.tasks ht)
        · cases hs
    | finish i =>
        simp only [threadStep] at hs
        split at hs
        · exact h.finish hs
        · cases hs
    | satisfy i => exact h.satisfy hs
    | net a => exact h.netStep hmatched hs

end Torc.Waiting
