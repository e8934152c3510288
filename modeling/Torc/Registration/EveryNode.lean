import Torc.Registration.Tokens

/-!
# Every node registers

In a permitted run a call of `torc_register_task` returns when every node has executed its task, and
then each table has one entry of the call, at the index that was free on all nodes.
-/

namespace Torc.Registration

open Transition

variable {workers : List Nat} {internal : Nat → Nat} {s s' : State} {c : Call} {L : Nat}

theorem begin_inv {node f : Nat} (h : Inv workers internal s)
    (hok : Permitted workers internal (.begin node f) s) (hs : begin workers s node f = some s') :
    Inv workers internal s' := by
  obtain ⟨hcalls, hreach, hall⟩ := hok
  unfold begin at hs
  split at hs
  · rename_i hnode
    obtain rfl := (Option.some.inj hs).symm
    have hissued : ∀ id, id < s.issued → id < s.issued + 1 := fun id ↦ Nat.lt_succ_of_lt
    refine ⟨fun i hi e he id hid ↦ hissued id (h.known i hi e he id hid),
      fun id hid ↦ hissued id (h.past id hid), h.done, .inr ?_⟩
    rcases h.phase with ⟨L, hidle⟩ | ⟨c, L, hprog⟩
    · have hnew : ∀ i < workers.length, ∀ e ∈ s.table i, e.call ≠ some s.issued :=
        fun i hi e he hcall ↦ Nat.lt_irrefl _ (h.known i hi e he _ hcall)
      refine ⟨⟨s.issued, node, f, 0, 0⟩, L, ?_⟩
      refine
        { calls := by rw [hidle.calls]
          fresh := fun hmem ↦ Nat.lt_irrefl _ (h.past _ hmem)
          id_lt := Nat.lt_succ_self _
          next_le := Nat.zero_le _
          reaches := hreach
          address := fun i hi ↦ (hall i hi).1
          room := ?room
          task := ?task
          answer := ?answer
          ndep := ?ndep
          token := fun i hi ↦ ?token
          table := fun i hi ↦ ?table }
      case room =>
        rw [← hidle.length node hnode]
        exact (hall node hnode).2
      case task =>
        intro t ht id hid
        rw [hidle.task t ht] at hid
        cases hid
      case answer =>
        intro id hid
        rw [hidle.answers] at hid
        cases hid
      case ndep =>
        change 0 = pending s.tasks + s.answers.length
        rw [pending_eq_zero hidle.task, hidle.answers]
        rfl
      case token =>
        change tokens s.tasks i + entries (s.table i) s.issued = _
        rw [tokens_eq_zero hidle.task, entries_eq_zero (hnew i hi), if_neg (Nat.not_lt_zero i)]
      case table =>
        exact ⟨s.table i, [], (List.append_nil _).symm, hidle.length i hi, hnew i hi, by simp⟩
    · rw [hprog.calls] at hcalls
      cases hcalls
  · cases hs

/-- The call that a step looks up is the one in progress. -/
theorem InProgress.find (h : InProgress workers internal s c L) {id : Nat} {c' : Call}
    (hf : (s.calls.find? fun c ↦ c.id = id) = some c') : c' = c ∧ id = c.id := by
  have hmem := List.mem_of_find?_eq_some hf
  have hid := List.find?_some hf
  rw [h.calls, List.mem_singleton] at hmem
  subst hmem
  exact ⟨rfl, (of_decide_eq_true hid).symm⟩

theorem InProgress.updateCall (h : InProgress workers internal s c L) (g : Call → Call) :
    (s.updateCall c.id g).calls = [g c] := by
  simp only [State.updateCall, h.calls, List.map_cons, List.map_nil, if_pos]

/-- Without a call there is nothing to look up. -/
theorem Idle.find {n : Nat} (h : Idle n s L) (id : Nat) :
    (s.calls.find? fun c ↦ c.id = id) = none := by
  rw [h.calls]
  rfl

theorem spawn_inv {id : Nat} (h : Inv workers internal s)
    (hs : spawn workers internal s id = some s') : Inv workers internal s' := by
  unfold spawn at hs
  rcases h.phase with ⟨L, hidle⟩ | ⟨c, L, hprog⟩
  · rw [hidle.find] at hs
    cases hs
  · split at hs
    · cases hs
    · rename_i c' hfind
      obtain ⟨rfl, rfl⟩ := hprog.find hfind
      split at hs
      · rename_i hlt
        -- the next id belongs to the next node
        rw [hprog.reaches c'.next hlt] at hs
        obtain rfl := (Option.some.inj hs).symm
        refine ⟨h.known, h.past, h.done,
          .inr ⟨{ c' with next := c'.next + 1, ndep := c'.ndep + 1 }, L, ?_⟩⟩
        refine
          { calls := hprog.updateCall _
            fresh := hprog.fresh
            id_lt := hprog.id_lt
            next_le := hlt
            reaches := hprog.reaches
            address := hprog.address
            room := hprog.room
            task := ?task
            answer := hprog.answer
            ndep := ?ndep
            token := fun i hi ↦ ?token
            table := hprog.table }
        case task =>
          intro t ht id hid
          rcases List.mem_cons.mp ht with rfl | ht
          · cases hid
            exact ⟨rfl, hlt, rfl, rfl⟩
          · exact hprog.task t ht id hid
        case ndep =>
          change c'.ndep + 1 = pending (_ :: s.tasks) + s.answers.length
          simp only [pending_cons, Option.isSome_some, ↓reduceIte, hprog.ndep]
          omega
        case token =>
          change tokens (_ :: s.tasks) i + entries (s.table i) c'.id =
            if i < c'.next + 1 then 1 else 0
          have htok := hprog.token i hi
          rw [tokens_cons]
          by_cases hic : c'.next = i
          · rw [if_neg (by omega)] at htok
            rw [if_pos ⟨rfl, hic⟩, if_pos (by omega)]
            omega
          · rw [if_neg fun hc ↦ hic hc.2, Nat.add_zero, htok]
            by_cases hlt' : i < c'.next
            · rw [if_pos hlt', if_pos (by omega)]
            · rw [if_neg hlt', if_neg (by omega)]
      · cases hs

theorem other_inv {node : Nat} {desc : TorcT} (h : Inv workers internal s) :
    Inv workers internal { s with tasks := ⟨node, .sent, none, desc⟩ :: s.tasks } := by
  refine ⟨h.known, h.past, h.done, ?_⟩
  rcases h.phase with ⟨L, hidle⟩ | ⟨c, L, hprog⟩
  · refine .inl ⟨L, hidle.calls, fun t ht ↦ ?_, hidle.answers, hidle.length⟩
    rcases List.mem_cons.mp ht with rfl | ht
    · rfl
    · exact hidle.task t ht
  · refine .inr ⟨c, L, { hprog with task := ?_, ndep := ?_, token := ?_ }⟩
    · intro t ht id hid
      rcases List.mem_cons.mp ht with rfl | ht
      · cases hid
      · exact hprog.task t ht id hid
    · rw [pending_cons]
      exact hprog.ndep
    · intro i hi
      rw [tokens_cons]
      exact hprog.token i hi

/-- A task that keeps its node, or is no registration, changes its stage. -/
theorem move_inv {k : Nat} {stage stage' : Stage} {node : Nat → Nat}
    (h : Inv workers internal s)
    (hkeep : ∀ t, s.tasks[k]? = some t → t.call.isSome → node t.node = t.node)
    (hs : move s k stage stage' node = some s') : Inv workers internal s' := by
  unfold move at hs
  split at hs
  · cases hs
  · rename_i t hk
    split at hs
    · obtain rfl := (Option.some.inj hs).symm
      refine ⟨h.known, h.past, h.done, ?_⟩
      have hmem : t ∈ s.tasks := List.mem_of_getElem? hk
      have hsub : ∀ t' ∈ s.tasks.eraseIdx k, t' ∈ s.tasks :=
        fun _ ↦ List.mem_of_mem_eraseIdx
      rcases h.phase with ⟨L, hidle⟩ | ⟨c, L, hprog⟩
      · refine .inl ⟨L, hidle.calls, fun t' ht' ↦ ?_, hidle.answers, hidle.length⟩
        rcases List.mem_cons.mp ht' with rfl | ht'
        · exact hidle.task t hmem
        · exact hidle.task t' (hsub t' ht')
      · refine .inr ⟨c, L, { hprog with task := ?_, ndep := ?_, token := ?_ }⟩
        · intro t' ht' id hid
          rcases List.mem_cons.mp ht' with rfl | ht'
          · have hsome : t.call.isSome := by
              rw [show t.call = some id from hid]
              rfl
            obtain ⟨hcall, hnode, hdesc⟩ := hprog.task t hmem id hid
            exact ⟨hcall, by rw [hkeep t hk hsome]; exact hnode, hdesc⟩
          · exact hprog.task t' (hsub t' ht') id hid
        · change c.ndep = pending (_ :: s.tasks.eraseIdx k) + s.answers.length
          rw [pending_cons, ← pending_eraseIdx hk]
          exact hprog.ndep
        · intro i hi
          change tokens (_ :: s.tasks.eraseIdx k) i + _ = _
          have hsame : (if t.call.isSome ∧ node t.node = i then 1 else 0) =
              if t.call.isSome ∧ t.node = i then 1 else 0 := by
            by_cases hsome : t.call.isSome
            · rw [hkeep t hk hsome]
            · rw [if_neg fun hc ↦ hsome hc.1, if_neg fun hc ↦ hsome hc.1]
          rw [tokens_cons, hsame, ← tokens_eraseIdx hk]
          exact hprog.token i hi
    · cases hs

/-- A registration that executes where it was sent appends its entry. -/
theorem InProgress.runBody (h : InProgress workers internal s c L) {t : Task} (ht : t ∈ s.tasks)
    {id : Nat} (hid : t.call = some id) :
    ∃ e : Entry, e.call = some c.id ∧
      runBody internal (s.table t.node) t = some (s.table t.node ++ [e]) := by
  obtain ⟨rfl, hnode, hwork, hworkId⟩ := h.task t ht id hid
  have hpos : 0 < tokens s.tasks t.node := by
    rw [tokens, List.countP_pos_iff]
    exact ⟨t, ht, by rw [hid]; simp⟩
  -- the token is the task itself, so the table has no entry of the call yet
  have hroom : (s.table t.node).length < maxTorcTasks := by
    obtain ⟨old, new, heq, hold, hother, hmine⟩ := h.table t.node hnode
    have htok := h.token t.node hnode
    rw [heq, entries_append hother hmine] at htok
    rw [heq, List.length_append, hold]
    have hroom := h.room
    split at htok <;> omega
  refine ⟨⟨((t.desc.args.map Arg.localarg).headD 0).toNat, some c.id⟩, rfl, ?_⟩
  have hcalled : calledFunction ((s.table t.node).map Entry.f) t.desc = internal t.node := by
    rw [calledFunction, hworkId, if_neg (by decide), hwork, h.address t.node hnode]
  unfold Torc.Registration.runBody
  rw [hid]
  simp only [hcalled, if_pos]
  exact if_pos hroom

/-- After task `k` was executed its token is an entry of the table. -/
theorem InProgress.execute (h : InProgress workers internal s c L) {k : Nat} {t : Task}
    (hk : s.tasks[k]? = some t) {id : Nat} (hid : t.call = some id) {e : Entry}
    (he : e.call = some c.id) {d : Nat}
    (htable : s'.table = Function.update s.table t.node (s.table t.node ++ [e]))
    (htasks : s'.tasks = s.tasks.eraseIdx k) (hcalls : s'.calls = [{ c with ndep := d }])
    (hissued : s'.issued = s.issued) (hreturned : s'.returned = s.returned)
    (hanswers : ∀ id ∈ s'.answers, id = c.id)
    (hndep : d = pending (s.tasks.eraseIdx k) + s'.answers.length) :
    InProgress workers internal s' { c with ndep := d } L := by
  have hsub : ∀ t' ∈ s.tasks.eraseIdx k, t' ∈ s.tasks := fun _ ↦ List.mem_of_mem_eraseIdx
  refine
    { calls := hcalls
      fresh := by rw [hreturned]; exact h.fresh
      id_lt := by rw [hissued]; exact h.id_lt
      next_le := h.next_le
      reaches := h.reaches
      address := h.address
      room := h.room
      task := ?task
      answer := hanswers
      ndep := by rw [htasks]; exact hndep
      token := fun i hi ↦ ?token
      table := fun i hi ↦ ?table }
  case task =>
    intro t' ht'
    rw [htasks] at ht'
    exact h.task t' (hsub t' ht')
  case token =>
    have htok := h.token i hi
    have hsome : t.call.isSome := by
      rw [hid]
      rfl
    rw [tokens_eraseIdx hk] at htok
    rw [htasks, htable]
    by_cases hit : t.node = i
    · -- the token of the node goes from the task to the table
      subst hit
      rw [if_pos ⟨hsome, rfl⟩] at htok
      have hentries : entries (s.table t.node ++ [e]) c.id = entries (s.table t.node) c.id + 1 := by
        rw [entries, List.countP_append, List.countP_singleton, he, beq_self_eq_true, if_pos rfl]
        rfl
      rw [Function.update_self]
      change _ + entries (s.table t.node ++ [e]) c.id = if t.node < c.next then 1 else 0
      rw [hentries]
      omega
    · rw [if_neg fun hc ↦ hit hc.2] at htok
      rw [Function.update_of_ne (Ne.symm hit)]
      exact htok
  case table =>
    obtain ⟨old, new, heq, hold, hother, hmine⟩ := h.table i hi
    rw [htable]
    by_cases hit : t.node = i
    · subst hit
      refine ⟨old, new ++ [e], ?_, hold, hother, fun e' he' ↦ ?_⟩
      · rw [Function.update_self, heq, List.append_assoc]
      · rcases List.mem_append.mp he' with he' | he'
        · exact hmine e' he'
        · rw [List.mem_singleton.mp he', he]
    · exact ⟨old, new, by rw [Function.update_of_ne (Ne.symm hit), heq], hold, hother, hmine⟩

theorem finish_other {k : Nat} {t : Task} (h : Inv workers internal s)
    (hk : s.tasks[k]? = some t) (hcall : t.call = none) :
    Inv workers internal { s with tasks := s.tasks.eraseIdx k } := by
  have hsub : ∀ t' ∈ s.tasks.eraseIdx k, t' ∈ s.tasks := fun _ ↦ List.mem_of_mem_eraseIdx
  refine ⟨h.known, h.past, h.done, ?_⟩
  rcases h.phase with ⟨L, hidle⟩ | ⟨c, L, hprog⟩
  · exact .inl ⟨L, hidle.calls, fun t' ht' ↦ hidle.task t' (hsub t' ht'), hidle.answers,
      hidle.length⟩
  · refine .inr ⟨c, L, { hprog with task := ?_, ndep := ?_, token := ?_ }⟩
    · exact fun t' ht' ↦ hprog.task t' (hsub t' ht')
    · have hpend := pending_eraseIdx hk
      rw [hcall] at hpend
      change c.ndep = pending (s.tasks.eraseIdx k) + s.answers.length
      rw [hprog.ndep, hpend]
      rfl
    · intro i hi
      have htok := tokens_eraseIdx hk i
      rw [hcall, if_neg fun hc ↦ Bool.false_ne_true hc.1, Nat.add_zero] at htok
      change tokens (s.tasks.eraseIdx k) i + _ = _
      rw [← hprog.token i hi, htok]

theorem finish_registration {k : Nat} {t : Task} {id : Nat} (h : Inv workers internal s)
    (hprog : InProgress workers internal s c L) (hk : s.tasks[k]? = some t)
    (hid : t.call = some id) {e : Entry} (he : e.call = some c.id) :
    Inv workers internal (cleanup
      { s with table := Function.update s.table t.node (s.table t.node ++ [e]),
               tasks := s.tasks.eraseIdx k } t) := by
  have hmem : t ∈ s.tasks := List.mem_of_getElem? hk
  obtain ⟨rfl, -⟩ := hprog.task t hmem id hid
  have hpend := pending_eraseIdx hk
  have hndep := hprog.ndep
  rw [hid, Option.isSome_some, if_pos rfl] at hpend
  let s₁ : State :=
    { s with table := Function.update s.table t.node (s.table t.node ++ [e]),
             tasks := s.tasks.eraseIdx k }
  have hknown : ∀ i < workers.length, ∀ e' ∈ s₁.table i, ∀ id', e'.call = some id' →
      id' < s.issued := by
    intro i hi e' he' id' hid'
    by_cases hit : i = t.node
    · subst hit
      simp only [s₁, Function.update_self] at he'
      rcases List.mem_append.mp he' with he' | he'
      · exact h.known _ hi e' he' id' hid'
      · rw [List.mem_singleton.mp he', he] at hid'
        cases hid'
        exact hprog.id_lt
    · simp only [s₁, Function.update_of_ne hit] at he'
      exact h.known i hi e' he' id' hid'
  have hdone : ∀ id' ∈ s.returned, Registered workers.length s₁ id' := by
    intro id' hid'
    apply (h.done id' hid').append
    intro i _
    by_cases hit : i = t.node
    · subst hit
      refine ⟨[e], Function.update_self .., fun e' he' hcall ↦ ?_⟩
      rw [List.mem_singleton.mp he', he] at hcall
      exact hprog.fresh (Option.some.inj hcall ▸ hid')
    · exact ⟨[], by simp only [s₁, Function.update_of_ne hit, List.append_nil], by simp⟩
  unfold cleanup
  rw [hid]
  dsimp only
  split
  · -- on the home node the parent is satisfied at once, elsewhere an answer is sent
    refine ⟨hknown, h.past, hdone, .inr ⟨{ c with ndep := c.ndep - 1 }, L, ?_⟩⟩
    refine hprog.execute hk hid he rfl rfl ?_ rfl rfl hprog.answer ?_
    · simp only [State.completed, State.updateCall, hprog.calls, List.map_cons, List.map_nil,
        if_pos]
    · change c.ndep - 1 = pending (s.tasks.eraseIdx k) + s.answers.length
      omega
  · refine ⟨hknown, h.past, hdone, .inr ⟨{ c with ndep := c.ndep }, L, ?_⟩⟩
    refine hprog.execute hk hid he rfl rfl hprog.calls rfl rfl ?_ ?_
    · intro id' hid'
      rcases List.mem_cons.mp hid' with rfl | hid'
      · rfl
      · exact hprog.answer id' hid'
    · change c.ndep = pending (s.tasks.eraseIdx k) + (s.answers.length + 1)
      omega

theorem finish_inv {k : Nat} (h : Inv workers internal s) (hs : finish internal s k = some s') :
    Inv workers internal s' := by
  unfold finish at hs
  split at hs
  · cases hs
  · rename_i t hk
    split at hs
    · have hmem : t ∈ s.tasks := List.mem_of_getElem? hk
      cases hcall : t.call with
      | none =>
          have hbody : runBody internal (s.table t.node) t = some (s.table t.node) := by
            rw [runBody, hcall]
          rw [hbody] at hs
          obtain rfl := (Option.some.inj hs).symm
          simp only [cleanup, hcall, Function.update_eq_self]
          exact finish_other h hk hcall
      | some id =>
          rcases h.phase with ⟨L, hidle⟩ | ⟨c, L, hprog⟩
          · rw [hidle.task t hmem] at hcall
            cases hcall
          · obtain ⟨e, he, hbody⟩ := hprog.runBody hmem hcall
            rw [hbody] at hs
            obtain rfl := (Option.some.inj hs).symm
            exact finish_registration h hprog hk hcall he
    · cases hs

theorem answered_inv {k id : Nat} (h : Inv workers internal s) (hk : s.answers[k]? = some id) :
    Inv workers internal ({ s with answers := s.answers.eraseIdx k }.completed id) := by
  have hmem : id ∈ s.answers := List.mem_of_getElem? hk
  refine ⟨h.known, h.past, h.done, ?_⟩
  rcases h.phase with ⟨L, hidle⟩ | ⟨c, L, hprog⟩
  · rw [hidle.answers] at hmem
    cases hmem
  · obtain rfl := hprog.answer id hmem
    have hlen : s.answers.length = (s.answers.eraseIdx k).length + 1 :=
      (perm_eraseIdx hk).length_eq
    have hndep := hprog.ndep
    refine .inr ⟨{ c with ndep := c.ndep - 1 }, L, { hprog with
      calls := hprog.updateCall fun c ↦ { c with ndep := c.ndep - 1 }
      answer := fun id hid ↦ hprog.answer id (List.mem_of_mem_eraseIdx hid)
      ndep := ?_ }⟩
    change c.ndep - 1 = pending s.tasks + (s.answers.eraseIdx k).length
    omega

/-- The wait returns when no token is left outside the tables. -/
theorem wait_inv {id : Nat} (h : Inv workers internal s) (hs : wait workers s id = some s') :
    Inv workers internal s' := by
  unfold wait at hs
  rcases h.phase with ⟨L, hidle⟩ | ⟨c, L, hprog⟩
  · rw [hidle.find] at hs
    cases hs
  · split at hs
    · cases hs
    · rename_i c' hfind
      obtain ⟨rfl, rfl⟩ := hprog.find hfind
      split at hs
      · rename_i hend
        obtain rfl := (Option.some.inj hs).symm
        have hndep := hprog.ndep
        have hpend : pending s.tasks = 0 := by omega
        have hans : s.answers = [] := List.eq_nil_of_length_eq_zero (by omega)
        have hnone : ∀ t ∈ s.tasks, t.call = none := by
          intro t ht
          have hnot := List.countP_eq_zero.mp hpend t ht
          exact Option.not_isSome_iff_eq_none.mp hnot
        -- every node was given a token, and all of them are entries now
        have htable :
            ∀ i < workers.length, ∃ old e, s.table i = old ++ [e] ∧ old.length = L ∧
            (∀ e ∈ old, e.call ≠ some c'.id) ∧ e.call = some c'.id := by
          intro i hi
          obtain ⟨old, new, heq, hold, hother, hmine⟩ := hprog.table i hi
          have htok := hprog.token i hi
          rw [tokens_eq_zero hnone, heq, entries_append hother hmine, if_pos (by omega),
            Nat.zero_add] at htok
          obtain ⟨e, rfl⟩ := List.length_eq_one_iff.mp htok
          exact ⟨old, e, heq, hold, hother, hmine e List.mem_cons_self⟩
        refine ⟨h.known, ?_, ?_, .inl ⟨L + 1, ?_, hnone, hans, ?_⟩⟩
        · intro id hid
          rcases List.mem_append.mp hid with hid | hid
          · exact h.past id hid
          · rw [List.mem_singleton.mp hid]
            exact hprog.id_lt
        · intro id hid
          rcases List.mem_append.mp hid with hid | hid
          · exact h.done id hid
          · rw [List.mem_singleton.mp hid]
            refine ⟨L, fun i hi m ↦ ?_⟩
            obtain ⟨old, e, heq, hold, hother, hmine⟩ := htable i hi
            change (∃ e, (s.table i)[m]? = some e ∧ _) ↔ _
            rw [heq]
            constructor
            · rintro ⟨e', he', hcall⟩
              rcases Nat.lt_or_ge m old.length with hm | hm
              · rw [List.getElem?_append_left hm] at he'
                exact absurd hcall (hother e' (List.mem_of_getElem? he'))
              · have hlt := (List.getElem?_eq_some_iff.mp he').1
                rw [List.length_append, List.length_singleton] at hlt
                omega
            · rintro rfl
              refine ⟨e, ?_, hmine⟩
              rw [← hold, List.getElem?_append_right (le_refl _), Nat.sub_self]
              rfl
        · simp only [hprog.calls, List.filter_cons, List.filter_nil, ne_eq, not_true_eq_false,
            decide_false, Bool.false_eq_true, ↓reduceIte]
        · intro i hi
          obtain ⟨old, e, heq, hold, -⟩ := htable i hi
          change (s.table i).length = L + 1
          rw [heq, List.length_append, hold]
          rfl
      · cases hs

theorem step_inv {a : Act} (h : Inv workers internal s) (hok : Permitted workers internal a s)
    (hs : (system workers internal).step a s = some s') : Inv workers internal s' := by
  simp only [system] at hs
  split at hs
  · cases hs
  · cases a with
    | begin node f => exact begin_inv h hok hs
    | spawn id => exact spawn_inv h hs
    | other node desc =>
        obtain rfl := (Option.some.inj hs).symm
        exact other_inv h
    | arrive k => exact move_inv h (fun _ _ _ ↦ rfl) hs
    | take k => exact move_inv h (fun _ _ _ ↦ rfl) hs
    | steal k thief =>
        have hmove : move s k .queued .sent (fun _ ↦ thief) = some s' := hs
        refine move_inv h (fun t hk hsome ↦ ?_) hmove
        rw [hok t hk] at hsome
        cases hsome
    | finish k => exact finish_inv h hs
    | answered k =>
        simp only [threadStep] at hs
        split at hs
        · cases hs
        · rename_i id hk
          obtain rfl := (Option.some.inj hs).symm
          exact answered_inv h hk
    | wait id => exact wait_inv h hs

/-- Equal worker counts are enough for the numbering. -/
theorem reachesEveryNode_uniform {n w node : Nat} (hw : 0 < w) (hnode : node < n) :
    ReachesEveryNode (List.replicate n w) node := by
  intro i hi
  rw [List.length_replicate] at hi
  unfold destination
  rw [List.length_replicate]
  by_cases hn : n = 1
  · rw [if_pos hn]
    congr 1
    omega
  · have hcount : (List.replicate n w).getD node 0 = w := by
      rw [List.getD_eq_getElem?_getD, List.getElem?_replicate_of_lt hnode]
      rfl
    rw [if_neg hn, hcount]
    exact globalThreadIdToNodeId_uniform hw hi

/-! ## Two clusters -/

/-- A whole call of node 0 on nodes with one, three and one workers: the ids 0, 1 and 2 belong to
the nodes 0, 1 and 1. -/
def unevenRun : List Act :=
  [.begin 0 4096, .spawn 0, .spawn 0, .spawn 0,
    .take 2, .finish 0, .arrive 0, .take 0, .finish 0, .arrive 0, .take 0, .finish 0,
    .answered 0, .answered 0, .wait 0]

def unevenEnd : Option State :=
  (system [1, 3, 1] fun _ ↦ 8192).run { table := fun _ ↦ [] } unevenRun

def evenRun : List Act :=
  [.begin 0 4096, .spawn 0, .spawn 0, .take 1, .finish 0, .arrive 0, .take 0, .finish 0,
    .answered 0, .wait 0]

def evenCheck : Act → State → Bool
  | .begin node _, s =>
      s.calls.isEmpty && decide (node < 2 ∧ (s.table 0).length < maxTorcTasks ∧
        (s.table 1).length < maxTorcTasks)
  | .steal _ _, _ => false
  | _, _ => true

theorem evenCheck_permitted (a : Act) (s : State) (h : evenCheck a s = true) :
    Permitted [1, 1] (fun _ ↦ 8192) a s := by
  cases a with
  | begin node f =>
      simp only [evenCheck, Bool.and_eq_true, List.isEmpty_iff, decide_eq_true_eq] at h
      refine ⟨h.1, reachesEveryNode_uniform Nat.one_pos h.2.1, fun i hi ↦ ⟨rfl, ?_⟩⟩
      match i, hi with
      | 0, _ => exact h.2.2.1
      | 1, _ => exact h.2.2.2
  | steal k thief => exact absurd h Bool.false_ne_true
  | _ => trivial

def evenEnd : Option State :=
  (system [1, 1] fun _ ↦ 8192).runIf evenCheck { table := fun _ ↦ [] } evenRun

end Torc.Registration
