import Torc.Messages.Matching
import Torc.Lib.Rings

/-!
# The communication lock

The threads of `Torc.Messages` under an MPI that is not thread-safe: every call is made with
`comm_m` of the node held, and the blocking ones keep it until they complete.  A send completes only
after its receive is posted.
-/

namespace Torc.CommLock

open Transition Messages Rings

/-- The `MPI_Request` of a thread's receive; once it is matched no other message can have it. -/
inductive Request
  | inactive
  | posted
  | matched (src : Nat)
  deriving DecidableEq

/-- `commM i` is the thread of node `i` that is in a blocking call, between `enter_comm_cs` and
`leave_comm_cs`. -/
structure State where
  threads : Messages.State := {}
  commM : Nat → Option Nat := fun _ ↦ none
  request : Nat → Nat → Request := fun _ _ ↦ .inactive

def State.setCommM (s : State) (i : Nat) (holder : Option Nat) : State :=
  { s with commM := Function.update s.commM i holder }

def State.setRequest (s : State) (i v : Nat) (r : Request) : State :=
  { s with request := Function.update s.request i (Function.update (s.request i) v r) }

inductive Act
  | enter (a : Messages.Act)
  | lock (i v : Nat)
  | irecv (i v : Nat)
  | transfer (src dst v : Nat)
  | wait (i : Nat) (mem : Nat → Int)
  | test (i v : Nat) (mem : Nat → Int)

/-- `enter_comm_cs` and the `MPI_Isend`, `MPI_Ssend` or `MPI_Irecv` after it. -/
def lock (s : State) (i v : Nat) : Option State :=
  match s.threads.ops i v with
  | .send _ _ _ :: _ => some (s.setCommM i (some v))
  -- the receive of a payload is posted and waited for with the lock held
  | .recv _ _ _ _ _ :: _ => some ((s.setCommM i (some v)).setRequest i v .posted)
  | _ => none

/-- The receive that `server_loop` or `receive_descriptor` posts before it polls: the lock is free
again when this returns. -/
def irecv (s : State) (i v : Nat) : Option State :=
  match s.threads.ops i v with
  | [] => if v = maxNvps then some (s.setRequest i v .posted) else none
  | .recvReply _ :: _ => some (s.setRequest i v .posted)
  | _ => none

/-- What a thread with these calls before it receives. -/
def receives (v src tag : Nat) : List Op → Bool
  | [] => v = maxNvps ∧ tag = maxNvps
  | .recv src' tag' _ _ _ :: _ => src' = src ∧ tag' = tag
  | .recvReply src' :: _ => src' = src ∧ waitTag v = tag
  | _ => false

/-- Thread `v` of node `i` has posted a receive that a message of node `src` matches. -/
def State.Matches (s : State) (i v src tag : Nat) : Prop :=
  s.request i v = .posted ∧ receives v src tag (s.threads.ops i v)

instance (s : State) (i v src tag : Nat) : Decidable (s.Matches i v src tag) :=
  inferInstanceAs (Decidable (_ ∧ _))

/-- A blocking send of node `src` completes: its message goes to the receive of thread `v`. -/
def transfer (s : State) (src dst v : Nat) : Option State :=
  match s.commM src with
  | none => none
  | some w =>
      match s.threads.ops src w with
      | .send dst' tag _ :: _ =>
          -- `MPI_Wait` of the sender returns and `leave_comm_cs` frees its lock
          if dst' = dst ∧ s.Matches dst v src tag then
            (advance s.threads src w fun _ ↦ 0).map fun t ↦
              ({ s with threads := t }.setCommM src none).setRequest dst v (.matched src)
          else none
      | _ => none

/-- The blocking receive of node `i` completes. -/
def wait (s : State) (i : Nat) (mem : Nat → Int) : Option State :=
  match s.commM i with
  | none => none
  | some v =>
      match s.threads.ops i v, s.request i v with
      | .recv _ _ _ _ _ :: _, .matched _ =>
          (advance s.threads i v mem).map fun t ↦
            ({ s with threads := t }.setCommM i none).setRequest i v .inactive
      | _, _ => none

/-- An `MPI_Test` that finds the message; one that does not changes nothing. -/
def test (workers : List Nat) (s : State) (i v : Nat) (mem : Nat → Int) : Option State :=
  match s.request i v with
  | .matched src =>
      (match s.threads.ops i v with
        | [] => if v = maxNvps then receive workers s.threads i src mem else none
        | .recvReply _ :: _ => advance s.threads i v mem
        | _ => none).map fun t ↦ { s with threads := t }.setRequest i v .inactive
  | _ => none

def lockStep (workers : List Nat) (s : State) : Act → Option State
  | .enter (.advance _ _ _) | .enter (.receive _ _ _) => none
  | .enter a => (Messages.threadStep workers s.threads a).map fun t ↦ { s with threads := t }
  | .lock i v => if IsThread workers i v ∧ s.commM i = none then lock s i v else none
  | .irecv i v =>
      if IsThread workers i v ∧ s.commM i = none ∧ s.request i v = .inactive then irecv s i v
      else none
  | .transfer src dst v => if IsThread workers dst v then transfer s src dst v else none
  | .wait i mem => wait s i mem
  | .test i v mem =>
      if IsThread workers i v ∧ s.commM i = none then test workers s i v mem else none

def system (workers : List Nat) : System State Act where
  init s := s = {}
  step a s := if s.threads.broken then none else lockStep workers s a

/-! ## Waiting for a lock -/

/-- Only the server of node `j` makes the call that matches: it alone receives descriptors and what
threads send with their ids as the tag, and it alone sends with its own id or with a reply tag. -/
def ByServer (j : Nat) : Op → Prop
  | .send dst tag _ => dst = j ∧ (tag ≤ maxNvps ∨ tag = replyTag maxNvps)
  | .recv src tag _ _ _ => src = j ∧ maxNvps ≤ tag
  | _ => False

/-- The matching call has not been made. -/
def Pending (s : State) (i : Nat) : Op → Prop
  | .send dst tag _ => ∀ v, ¬ s.Matches dst v i tag
  | .recv src tag _ _ _ => s.threads.net ⟨src, i, tag⟩ = []
  | _ => False

/-- The next call of thread `v` of node `i` has to wait for the server of node `j`. -/
def Blocks (s : State) (i v j : Nat) : Prop :=
  ∃ op rest, s.threads.ops i v = op :: rest ∧ ByServer j op ∧ Pending s i op

/-- `comm_m` of node `i` is held by a thread that is blocked until the server of node `j` makes the
call that matches. -/
def Awaits (s : State) (i j : Nat) : Prop :=
  ∃ v, s.commM i = some v ∧ Blocks s i v j

/-- The next call of the server of node `j` goes through `comm_m`. -/
def NeedsLock (s : State) (j : Nat) : Prop :=
  match s.threads.ops j maxNvps with
  | .serve _ :: _ | .body _ :: _ => False
  | _ => True

def NoLockRing (s : State) : Prop :=
  RingFree fun i j ↦ Awaits s i j ∧ NeedsLock s j

def LeadsTo (s : State) (j i : Nat) : Prop :=
  Relation.ReflTransGen (Awaits s) j i

/-- `comm_m` of node `k` is held by a thread with a send that the receive of thread `v` of node
`dst` matches. -/
def Sends (s : State) (k dst v : Nat) : Prop :=
  ∃ w tag p rest, s.commM k = some w ∧ s.threads.ops k w = .send dst tag p :: rest ∧
    s.Matches dst v k tag

/-- No thread takes the lock for a call that waits for a server from which the chain of held locks
leads back to it, and where a receive is left to another sender it leads to none of those that go on
waiting. -/
def KeepsClear : Act → State → Prop
  | .lock i v, s => ∀ j, Blocks s i v j → ¬ LeadsTo s j i
  | .transfer src dst v, s => ∀ k, k ≠ src → Sends s k dst v → ¬ LeadsTo s dst k
  | _, _ => True

variable {workers : List Nat} {s s' : State} {t t' : Messages.State} {i j v a b : Nat}

/-! ## What a step does to the calls and messages of the others -/

/-- Only the calls of thread `v` of node `i` change, and only node `i` gets messages. -/
structure Alone (i v : Nat) (t t' : Messages.State) : Prop where
  ops : ∀ a u, ¬ (a = i ∧ u = v) → t'.ops a u = t.ops a u
  net : ∀ c, c.dst ≠ i → t'.net c = [] → t.net c = []

theorem alone_setOps_setNet {c : Chan} {l : List Op} {q : List Packet}
    (h : q = [] → c.dst ≠ i → t.net c = []) : Alone i v t ((t.setOps i v l).setNet c q) where
  ops a u hau := setOps_other t l hau
  net c' hc' hnet := by
    by_cases hc : c' = c
    · subst hc
      rw [setNet_self] at hnet
      exact h hnet hc'
    · rwa [setNet_other _ q hc] at hnet

theorem alone_broken : Alone i v t { t with broken := true } :=
  ⟨fun _ _ _ ↦ rfl, fun _ _ h ↦ h⟩

theorem alone_advance {mem : Nat → Int} (h : advance t i v mem = some t') : Alone i v t t' := by
  unfold Messages.advance at h
  split at h
  · cases h
    refine alone_setOps_setNet fun hq _ ↦ ?_
    exact (List.append_eq_nil_iff.mp hq).1
  · split at h
    · cases h
    · split at h
      · cases h
        exact alone_setOps_setNet fun _ hc ↦ absurd rfl hc
      · cases h
        exact alone_broken
  · split at h
    · cases h
    · cases h
      exact alone_setOps_setNet fun _ hc ↦ absurd rfl hc
    · cases h
      exact alone_broken
  · cases h

theorem alone_receive {src : Nat} {mem : Nat → Int}
    (h : receive workers t i src mem = some t') : Alone i maxNvps t t' := by
  unfold Messages.receive at h
  split at h
  · rename_i uid d l _ _
    split at h
    · cases h
      exact alone_broken
    · cases h
      let calls := processOps workers.length i uid t.uid mem d
      have halone : Alone i maxNvps t
          ((t.setOps i maxNvps (calls ++ [])).setNet ⟨src, i, maxNvps⟩ l) :=
        alone_setOps_setNet fun _ hc ↦ absurd rfl hc
      exact ⟨halone.ops, halone.net⟩
  · cases h
    exact alone_broken
  · cases h

/-- A send leaves every message where it is. -/
theorem net_advance_send {dst tag : Nat} {p : Packet} {rest : List Op} {mem : Nat → Int}
    (hops : t.ops i v = .send dst tag p :: rest) (h : advance t i v mem = some t') {c : Chan}
    (hc : t'.net c = []) : t.net c = [] := by
  simp only [Messages.advance, hops, Option.some.injEq] at h
  subst h
  by_cases hsame : c = ⟨i, dst, tag⟩
  · subst hsame
    rw [setNet_self] at hc
    exact (List.append_eq_nil_iff.mp hc).1
  · rwa [setNet_other _ _ hsame] at hc

/-- A thread that enters a routine is in no call and has posted no receive. -/
def Outside (v : Nat) : List Op → Prop
  | [] => v ≠ maxNvps
  | .serve _ :: _ | .body _ :: _ => True
  | _ => False

theorem outside_of_mayEnter (h : mayEnter workers t i v = true) : Outside v (t.ops i v) := by
  unfold mayEnter at h
  obtain ⟨-, h⟩ := Bool.and_eq_true_iff.mp h
  split at h
  · rename_i hops
    rw [hops]
    exact fun hv ↦ of_decide_eq_true h hv
  · rename_i hops
    rw [hops]
    trivial
  · cases h

/-- A routine is entered by one thread, which is in no call, and makes no call yet. -/
structure Entered (t t' : Messages.State) (i v : Nat) : Prop where
  outside : Outside v (t.ops i v)
  ops : ∀ a u, ¬ (a = i ∧ u = v) → t'.ops a u = t.ops a u
  net : t'.net = t.net

theorem entered_enter {l rest : List Op} (h : Outside v (t.ops i v)) :
    Entered t (t.enter i v l rest) i v :=
  ⟨h, fun _ _ hau ↦ setOps_other t _ hau, rfl⟩

theorem entered_of_threadStep {act : Messages.Act} (hadv : ∀ i v mem, act ≠ .advance i v mem)
    (hrecv : ∀ i src mem, act ≠ .receive i src mem)
    (h : Messages.threadStep workers t act = some t') : ∃ i v, Entered t t' i v := by
  cases act with
  | advance i v mem => exact absurd rfl (hadv i v mem)
  | receive i src mem => exact absurd rfl (hrecv i src mem)
  | send i v node desc type =>
      obtain ⟨⟨hmay, -⟩, heq⟩ := Option.ite_none_right_eq_some.mp h
      cases heq
      exact ⟨i, v, entered_enter (outside_of_mayEnter hmay)⟩
  | broadcast i v node buffer count btype =>
      obtain ⟨⟨hmay, -⟩, heq⟩ := Option.ite_none_right_eq_some.mp h
      cases heq
      exact ⟨i, v, entered_enter (outside_of_mayEnter hmay)⟩
  | request i v node =>
      obtain ⟨⟨hmay, -⟩, heq⟩ := Option.ite_none_right_eq_some.mp h
      cases heq
      exact ⟨i, v, entered_enter (outside_of_mayEnter hmay)⟩
  | reply i work =>
      obtain ⟨-, h⟩ := Option.ite_none_right_eq_some.mp h
      unfold Messages.reply at h
      split at h
      · rename_i request rest hops
        obtain ⟨-, heq⟩ := Option.ite_none_right_eq_some.mp h
        cases heq
        refine ⟨i, maxNvps, entered_enter ?_⟩
        rw [hops]
        trivial
      · cases h
  | finish i =>
      obtain ⟨-, h⟩ := Option.ite_none_right_eq_some.mp h
      unfold Messages.finish at h
      split at h
      · rename_i d rest hops
        cases h
        refine ⟨i, maxNvps, entered_enter ?_⟩
        rw [hops]
        trivial
      · cases h

/-! ## Runs -/

def IsCall : Op → Prop
  | .send _ _ _ | .recv _ _ _ _ _ => True
  | _ => False

/-- The lock is held for a call. -/
structure Inv (s : State) : Prop where
  ringFree : RingFree (Awaits s)
  holder : ∀ i v, s.commM i = some v → ∃ op rest, s.threads.ops i v = op :: rest ∧ IsCall op

theorem not_isCall_of_outside {op : Op} {rest : List Op} (h : Outside v (op :: rest)) :
    ¬ IsCall op := by
  cases op with
  | serve request => exact id
  | body desc => exact id
  | _ => exact absurd h id

theorem not_receives_of_outside {l : List Op} (h : Outside v l) (src tag : Nat) :
    receives v src tag l = false := by
  cases l with
  | nil => exact decide_eq_false fun hc ↦ h hc.1
  | cons op rest =>
      cases op with
      | serve request => rfl
      | body desc => rfl
      | _ => exact absurd h id

theorem Blocks.of {u : Nat} (h : Blocks s' a u b)
    (hops : s'.threads.ops a u = s.threads.ops a u)
    (hnet : ∀ c : Chan, c.dst = a → s'.threads.net c = [] → s.threads.net c = [])
    (hmatch : ∀ j x tag, s.Matches j x a tag → s'.Matches j x a tag) : Blocks s a u b := by
  obtain ⟨op, rest, heq, hserver, hpending⟩ := h
  refine ⟨op, rest, hops ▸ heq, hserver, ?_⟩
  cases op with
  | send dst tag p => exact fun x hx ↦ hpending x (hmatch dst x tag hx)
  | recv src tag uid arg count => exact hnet ⟨src, a, tag⟩ rfl hpending
  | _ => exact hserver

/-- A step after which no more threads hold locks, and those that do wait for the same. -/
theorem Inv.of (h : Inv s)
    (hcomm : ∀ a u, s'.commM a = some u →
      s.commM a = some u ∧ s'.threads.ops a u = s.threads.ops a u)
    (hnet : ∀ c : Chan, (∃ u, s'.commM c.dst = some u) → s'.threads.net c = [] →
      s.threads.net c = [])
    (hmatch : ∀ j x k tag, s.Matches j x k tag → s'.Matches j x k tag) : Inv s' where
  ringFree := by
    refine h.ringFree.mono fun a b hab ↦ ?_
    obtain ⟨u, hu, hblocks⟩ := hab
    obtain ⟨hold, hops⟩ := hcomm a u hu
    refine ⟨u, hold, hblocks.of hops (fun c hc hempty ↦ ?_) fun j x tag ↦ hmatch j x a tag⟩
    subst hc
    exact hnet c ⟨u, hu⟩ hempty
  holder a u hu := by
    obtain ⟨hold, hops⟩ := hcomm a u hu
    rw [hops]
    exact h.holder a u hold

theorem Inv.enter (h : Inv s) (hent : Entered s.threads t i v) :
    Inv { s with threads := t } := by
  have hother : ∀ a u, s.commM a = some u → ¬ (a = i ∧ u = v) := by
    rintro a u hu ⟨rfl, rfl⟩
    obtain ⟨op, rest, hops, hcall⟩ := h.holder a u hu
    have hout := hent.outside
    rw [hops] at hout
    exact not_isCall_of_outside hout hcall
  -- a thread with the lock is in a call, and the one that enters is in none
  refine h.of (fun a u hu ↦ ⟨hu, hent.ops a u (hother a u hu)⟩) (fun c _ hc ↦ ?_) ?_
  · rw [← hent.net]
    exact hc
  · intro j x k tag hmatch
    have hne : ¬ (j = i ∧ x = v) := by
      rintro ⟨rfl, rfl⟩
      exact Bool.false_ne_true ((not_receives_of_outside hent.outside k tag).symm.trans hmatch.2)
    refine ⟨hmatch.1, ?_⟩
    show receives x k tag (t.ops j x) = true
    rw [hent.ops j x hne]
    exact hmatch.2

theorem setRequest_self (s : State) (i v : Nat) (r : Request) :
    (s.setRequest i v r).request i v = r :=
  Update.update_update_self s.request i v r

theorem setRequest_other (s : State) {i v i' v' : Nat} (r : Request) (h : ¬ (i' = i ∧ v' = v)) :
    (s.setRequest i v r).request i' v' = s.request i' v' :=
  Update.update_update_of_ne s.request r h

/-- A receive that is posted matches what it matched before. -/
theorem matches_posted {x k tag : Nat} (h : s.Matches j x k tag) :
    (s.setRequest i v .posted).Matches j x k tag := by
  refine ⟨?_, h.2⟩
  by_cases hsame : j = i ∧ x = v
  · obtain ⟨rfl, rfl⟩ := hsame
    exact setRequest_self ..
  · rw [setRequest_other s _ hsame]
    exact h.1

theorem Inv.irecv (h : Inv s) (hs : irecv s i v = some s') : Inv s' := by
  have hposted : Inv (s.setRequest i v .posted) :=
    h.of (fun _ _ hu ↦ ⟨hu, rfl⟩) (fun _ _ hc ↦ hc) fun _ _ _ _ ↦ matches_posted
  unfold CommLock.irecv at hs
  split at hs
  · obtain ⟨-, heq⟩ := Option.ite_none_right_eq_some.mp hs
    cases heq
    exact hposted
  · cases hs
    exact hposted
  · cases hs

theorem setCommM_some {holder : Option Nat} {u : Nat}
    (h : (s.setCommM i holder).commM a = some u) :
    a = i ∧ holder = some u ∨ a ≠ i ∧ s.commM a = some u := by
  simp only [State.setCommM] at h
  by_cases ha : a = i
  · subst ha
    rw [Function.update_self] at h
    exact .inl ⟨rfl, h⟩
  · rw [Function.update_of_ne ha] at h
    exact .inr ⟨ha, h⟩

theorem Inv.locked (h : Inv s) {op : Op} {rest : List Op} {s₁ : State}
    (hops : s.threads.ops i v = op :: rest) (hcall : IsCall op)
    (hclear : ∀ j, Blocks s i v j → ¬ LeadsTo s j i) (hthreads : s₁.threads = s.threads)
    (hmatch : ∀ j x k tag, s.Matches j x k tag → s₁.Matches j x k tag)
    (hcomm : s₁.commM = (s.setCommM i (some v)).commM) : Inv s₁ where
  ringFree := by
    -- the new edges all start at node `i`
    refine h.ringFree.add i fun a b hab ↦ ?_
    obtain ⟨u, hu, hblocks⟩ := hab
    have hold : Blocks s a u b :=
      hblocks.of (by rw [hthreads]) (fun c _ hc ↦ by rwa [← hthreads]) fun j x tag ↦
        hmatch j x a tag
    rw [hcomm] at hu
    rcases setCommM_some hu with ⟨rfl, hv⟩ | ⟨-, hu⟩
    · cases hv
      exact .inr ⟨rfl, hclear b hold⟩
    · exact .inl ⟨u, hu, hold⟩
  holder a u hu := by
    rw [hthreads]
    rw [hcomm] at hu
    rcases setCommM_some hu with ⟨rfl, hv⟩ | ⟨-, hu⟩
    · cases hv
      exact ⟨op, rest, hops, hcall⟩
    · exact h.holder a u hu

theorem Inv.lock (h : Inv s) (hclear : ∀ j, Blocks s i v j → ¬ LeadsTo s j i)
    (hs : lock s i v = some s') : Inv s' := by
  unfold CommLock.lock at hs
  split at hs
  · rename_i hops
    cases hs
    exact h.locked hops trivial hclear rfl (fun _ _ _ _ hm ↦ hm) rfl
  · rename_i hops
    cases hs
    exact h.locked hops trivial hclear rfl (fun _ _ _ _ ↦ matches_posted) rfl
  · cases hs

/-- The message of a blocked send goes to the receive of thread `v` of node `dst`: only those that
were sending to that receive, too, have to wait again. -/
theorem Inv.transferred (h : Inv s) {src dst w tag : Nat} {p : Packet} {rest : List Op}
    (hops : s.threads.ops src w = .send dst tag p :: rest)
    (hs : advance s.threads src w (fun _ ↦ 0) = some t)
    (hclear : ∀ k, k ≠ src → Sends s k dst v → ¬ LeadsTo s dst k) :
    Inv ((({ s with threads := t } : State).setCommM src none).setRequest dst v
      (.matched src)) := by
  have halone := alone_advance hs
  have hholder : ∀ a u, ((({ s with threads := t } : State).setCommM src none).setRequest dst v
      (.matched src)).commM a = some u →
        a ≠ src ∧ s.commM a = some u ∧ t.ops a u = s.threads.ops a u := by
    intro a u hu
    rcases setCommM_some hu with ⟨-, hnone⟩ | ⟨ha, hu⟩
    · cases hnone
    · exact ⟨ha, hu, halone.ops a u fun hc ↦ ha hc.1⟩
  -- the new edges all end at node `dst`, whose receive is taken
  refine ⟨h.ringFree.addInto dst fun a b hab ↦ ?_, fun a u hu ↦ ?_⟩
  · obtain ⟨u, hu, op, rest', hop, hserver, hpending⟩ := hab
    obtain ⟨ha, hheld, hsame⟩ := hholder a u hu
    replace hop : s.threads.ops a u = op :: rest' := hsame.symm.trans hop
    -- either `a` was sending to that receive, or its call was pending before, too
    by_cases hnew : b = dst ∧ Sends s a dst v
    · exact .inr ⟨hnew.1, hclear a ha hnew.2⟩
    · refine .inl ⟨u, hheld, op, rest', hop, hserver, ?_⟩
      cases op with
      | send dst' tag' q =>
          intro x hx
          by_cases hrecv : dst' = dst ∧ x = v
          · obtain ⟨rfl, rfl⟩ := hrecv
            exact hnew ⟨hserver.1.symm, u, tag', q, rest', hheld, hop, hx⟩
          · have hsender : ¬ (dst' = src ∧ x = w) := by
              rintro ⟨rfl, rfl⟩
              have hreceives := hx.2
              rw [hops] at hreceives
              cases hreceives
            refine hpending x ⟨?_, ?_⟩
            · rw [setRequest_other _ _ hrecv]
              exact hx.1
            · show receives x a tag' (t.ops dst' x) = true
              rw [halone.ops dst' x hsender]
              exact hx.2
      | recv src' tag' uid arg count => exact net_advance_send hops hs hpending
      | _ => exact hserver
  · obtain ⟨-, hu, hsame⟩ := hholder a u hu
    show ∃ op rest, t.ops a u = op :: rest ∧ IsCall op
    rw [hsame]
    exact h.holder a u hu

/-- A thread has received; the lock of its node is free. -/
theorem Inv.received (h : Inv s) {src : Nat} {s₁ : State}
    (halone : Alone i v s.threads s₁.threads)
    (hreq : s.request i v = .matched src)
    (hcomm : ∀ a u, s₁.commM a = some u → a ≠ i ∧ s.commM a = some u)
    (hrequest : s₁.request = (s.setRequest i v .inactive).request) : Inv s₁ := by
  refine h.of (fun a u hu ↦ ?_) (fun c hc hempty ↦ ?_) fun j x k tag hm ↦ ?_
  · obtain ⟨ha, hu⟩ := hcomm a u hu
    exact ⟨hu, halone.ops a u fun hc ↦ ha hc.1⟩
  · obtain ⟨u, hu⟩ := hc
    exact halone.net c (hcomm c.dst u hu).1 hempty
  · have hne : ¬ (j = i ∧ x = v) := by
      rintro ⟨rfl, rfl⟩
      cases hreq.symm.trans hm.1
    refine ⟨?_, ?_⟩
    · rw [hrequest, setRequest_other s _ hne]
      exact hm.1
    · rw [halone.ops j x hne]
      exact hm.2

theorem Inv.transfer (h : Inv s) {src dst : Nat}
    (hclear : ∀ k, k ≠ src → Sends s k dst v → ¬ LeadsTo s dst k)
    (hs : transfer s src dst v = some s') : Inv s' := by
  unfold CommLock.transfer at hs
  split at hs
  · cases hs
  · split at hs
    · rename_i dst' tag p rest hops
      obtain ⟨⟨rfl, -⟩, hs⟩ := Option.ite_none_right_eq_some.mp hs
      obtain ⟨t, hadv, rfl⟩ := Option.map_eq_some_iff.mp hs
      exact h.transferred hops hadv hclear
    · cases hs

theorem Inv.wait (h : Inv s) {mem : Nat → Int} (hs : wait s i mem = some s') : Inv s' := by
  unfold CommLock.wait at hs
  split at hs
  · cases hs
  · split at hs
    · rename_i hreq
      obtain ⟨t, hadv, rfl⟩ := Option.map_eq_some_iff.mp hs
      refine h.received (alone_advance hadv) hreq (fun a u hu ↦ ?_) rfl
      rcases setCommM_some hu with ⟨-, hnone⟩ | hu
      · cases hnone
      · exact hu
    · cases hs

theorem Inv.test (h : Inv s) (hfree : s.commM i = none) {mem : Nat → Int}
    (hs : test workers s i v mem = some s') : Inv s' := by
  have hcomm : ∀ a u, s.commM a = some u → a ≠ i ∧ s.commM a = some u := by
    refine fun a u hu ↦ ⟨?_, hu⟩
    rintro rfl
    cases hfree.symm.trans hu
  unfold CommLock.test at hs
  split at hs
  · rename_i src hreq
    obtain ⟨t, ht, rfl⟩ := Option.map_eq_some_iff.mp hs
    split at ht
    · obtain ⟨rfl, ht⟩ := Option.ite_none_right_eq_some.mp ht
      exact h.received (alone_receive ht) hreq hcomm rfl
    · exact h.received (alone_advance ht) hreq hcomm rfl
    · cases ht
  · cases hs

theorem Inv.step (h : Inv s) {act : Act} (hok : KeepsClear act s)
    (hs : (system workers).step act s = some s') : Inv s' := by
  simp only [system] at hs
  split at hs
  · cases hs
  · cases act with
    | lock i v =>
        obtain ⟨-, hs⟩ := Option.ite_none_right_eq_some.mp hs
        exact h.lock hok hs
    | irecv i v =>
        obtain ⟨-, hs⟩ := Option.ite_none_right_eq_some.mp hs
        exact h.irecv hs
    | transfer src dst v =>
        obtain ⟨-, hs⟩ := Option.ite_none_right_eq_some.mp hs
        exact h.transfer hok hs
    | wait i mem => exact h.wait hs
    | test i v mem =>
        obtain ⟨⟨-, hfree⟩, hs⟩ := Option.ite_none_right_eq_some.mp hs
        exact h.test hfree hs
    | enter act =>
        have hent : ∀ t, (∀ i v mem, act ≠ .advance i v mem) →
            (∀ i src mem, act ≠ .receive i src mem) →
              Messages.threadStep workers s.threads act = some t →
                Inv { s with threads := t } := by
          intro t hadv hrecv ht
          obtain ⟨i, v, hentered⟩ := entered_of_threadStep hadv hrecv ht
          exact h.enter hentered
        cases act with
        | advance i v mem => cases hs
        | receive i src mem => cases hs
        | _ =>
            obtain ⟨t, ht, rfl⟩ := Option.map_eq_some_iff.mp hs
            exact hent t (fun _ _ _ hc ↦ by cases hc) (fun _ _ _ hc ↦ by cases hc) ht

/-- In every run that keeps clear of it, the held locks form no ring. -/
theorem noLockRing_of_keepsClear (workers : List Nat) (s : State)
    (h : (system workers).ReachableIf KeepsClear s) : NoLockRing s := by
  have hinv : Inv s := by
    refine h.invariant Inv (fun s hs ↦ ?_) fun _ _ _ hinv hok hs ↦ hinv.step hok hs
    obtain rfl : s = {} := hs
    refine ⟨ringFree_of_forall fun a b hab ↦ ?_, fun i v hv ↦ by cases hv⟩
    obtain ⟨v, hv, -⟩ := hab
    cases hv
  exact hinv.ringFree.mono fun _ _ hab ↦ hab.1

theorem not_leadsTo_of_free (h : s.commM j = none) (hne : j ≠ i) : ¬ LeadsTo s j i := by
  intro hleads
  rcases Relation.ReflTransGen.cases_head hleads with heq | ⟨k, ⟨v, hv, -⟩, -⟩
  · exact hne heq
  · cases h.symm.trans hv

/-- A call that takes the lock is a send to a node whose lock is free, or the receive of a payload,
and a receive that another sender could match is posted by a node whose lock is free. -/
def keepsClearCheck (act : Act) (s : State) : Bool :=
  match act with
  | .lock i v =>
      match s.threads.ops i v with
      | .send dst _ _ :: _ => dst ≠ i ∧ s.commM dst = none
      | .recv _ tag _ _ _ :: _ => tag < maxNvps
      | _ => false
  | .transfer src dst v =>
      s.commM dst = none || match s.threads.ops dst v with
        | .recv src' _ _ _ _ :: _ => src' = src
        | _ => false
  | _ => true

theorem keepsClear_of_check (act : Act) (s : State) (h : keepsClearCheck act s = true) :
    KeepsClear act s := by
  cases act with
  | lock i v =>
      rintro j ⟨op, rest, hops, hserver, -⟩
      simp only [keepsClearCheck, hops] at h
      cases op with
      | send dst tag p =>
          obtain ⟨hne, hfree⟩ := of_decide_eq_true h
          rw [← hserver.1]
          exact not_leadsTo_of_free hfree hne
      | recv src tag =>
          -- the server does not send with this tag
          have hlt : tag < maxNvps := of_decide_eq_true h
          exact absurd hserver.2 (Nat.not_le.mpr hlt)
      | _ => cases h
  | transfer src dst v =>
      rintro k hk ⟨w, tag, p, rest, hheld, -, hmatches⟩
      rcases Bool.or_eq_true_iff.mp h with hfree | hrecv
      · have hfree := of_decide_eq_true hfree
        apply not_leadsTo_of_free hfree
        rintro rfl
        cases hfree.symm.trans hheld
      · -- the receive of a payload names its sender
        have hreceives := hmatches.2
        split at hrecv
        case h_1 src' _ _ _ _ _ hops =>
          rw [hops] at hreceives
          have hsrc : src' = k := (of_decide_eq_true hreceives).1
          exact absurd (hsrc.symm.trans (of_decide_eq_true hrecv)) hk
        case h_2 => cases hrecv
  | _ => trivial

/-- A task of node `h` with one array argument. -/
def arrayTask (h : Nat) : TorcT :=
  let array : Arg :=
    { quantity := 10, dtype := ⟨h, .double⟩, btype := .double, callway := .ref }
  { homenode := h, narg := 1, args := [array] }

/-- Two workers send a task to the same server, which receives that of node 0 with its array. -/
def twoSenders : List Act :=
  [.irecv 1 maxNvps, .enter (.send 0 0 1 (arrayTask 0) .torcNormalEnqueue),
    .enter (.send 2 0 1 (arrayTask 2) .torcNormalEnqueue), .lock 0 0, .lock 2 0,
    .transfer 0 1 maxNvps, .lock 0 0, .test 1 maxNvps fun _ ↦ 4096, .lock 1 maxNvps,
    .transfer 0 1 maxNvps, .wait 1 fun _ ↦ 4096]

/-- The worker of node 2 still waits for the server, with the lock held. -/
theorem noLockRing_of_keepsClear_sample :
    ∃ s, (system [1, 1, 1]).runIf keepsClearCheck {} twoSenders = some s ∧ s.commM 0 = none ∧
      Awaits s 2 1 ∧ NoLockRing s := by
  let requests (l : List Request) : Nat → Request :=
    l.foldl (fun r x ↦ Function.update r maxNvps x) fun _ ↦ .inactive
  have hend : ((system [1, 1, 1]).runIf keepsClearCheck {} twoSenders).map
      (fun s ↦ (s.commM 0, s.commM 2, s.request 1, (s.threads.ops 2 0).head?)) =
      some (none, some 0, requests [.posted, .matched 0, .inactive, .posted, .matched 0, .inactive],
        some (.send 1 maxNvps (.desc 1 (stampSource 2 0 (arrayTask 2) .torcNormalEnqueue)))) := rfl
  obtain ⟨s, hrun, hs⟩ := Option.map_eq_some_iff.mp hend
  simp only [Prod.mk.injEq] at hs
  obtain ⟨hfree, hheld, hrequest, hhead⟩ := hs
  have hreach : (system [1, 1, 1]).ReachableIf KeepsClear s :=
    System.ReachableIf.runIf keepsClear_of_check (.init rfl) hrun
  refine ⟨s, hrun, hfree, ⟨0, hheld, ?_⟩, noLockRing_of_keepsClear [1, 1, 1] s hreach⟩
  obtain ⟨rest, hops⟩ := List.head?_eq_some_iff.mp hhead
  refine ⟨_, rest, hops, ⟨rfl, .inl (by decide)⟩, fun v hv ↦ ?_⟩
  have hposted := hv.1
  rw [hrequest] at hposted
  simp [requests] at hposted

/-- A server that has received a descriptor has posted no receive, and the other threads of its node
have not either. -/
theorem not_posted_of_matched {r : Nat → Request} {src : Nat}
    (h : r = Function.update (Function.update (fun _ ↦ .inactive) maxNvps .posted) maxNvps
      (.matched src)) (v : Nat) : r v ≠ .posted := by
  subst h
  by_cases hv : v = maxNvps
  · rw [hv, Function.update_self]
    exact Request.noConfusion
  · rw [Function.update_of_ne hv, Function.update_of_ne hv]
    exact Request.noConfusion

/-- The workers of two nodes send a task with an array to each other: each holds the lock of its
node in the send of the array, and the servers need the lock to test for the descriptor. -/
theorem not_noLockRing :
    ∃ s, (system [1, 1]).Reachable s ∧ (s.commM 0 = some 0 ∧ s.commM 1 = some 0) ∧
      (Awaits s 0 1 ∧ NeedsLock s 1) ∧ (Awaits s 1 0 ∧ NeedsLock s 0) ∧
      ¬ NoLockRing s := by
  let acts : List Act :=
    [.irecv 0 maxNvps, .irecv 1 maxNvps,
      .enter (.send 0 0 1 (arrayTask 0) .torcNormalEnqueue),
      .enter (.send 1 0 0 (arrayTask 1) .torcNormalEnqueue),
      .lock 0 0, .transfer 0 1 maxNvps, .lock 1 0, .transfer 1 0 maxNvps, .lock 0 0, .lock 1 0]
  let received (src : Nat) : Nat → Request :=
    Function.update (Function.update (fun _ ↦ .inactive) maxNvps .posted) maxNvps (.matched src)
  have hend : ((system [1, 1]).run {} acts).map
      (fun s ↦ ((s.commM 0, s.commM 1), (s.threads.ops 0 0, s.threads.ops 1 0),
        (s.threads.ops 0 maxNvps, s.threads.ops 1 maxNvps), (s.request 0, s.request 1))) =
      some ((some 0, some 0), ([.send 1 0 (.payload 0 0 10)], [.send 0 0 (.payload 1 0 10)]),
        ([], []), (received 1, received 0)) := rfl
  obtain ⟨s, hreach, hs⟩ := System.Reachable.eval (.init rfl) hend
  simp only [Prod.mk.injEq] at hs
  obtain ⟨hlocks, hops, hservers, hrequests⟩ := hs
  have h01 : Awaits s 0 1 ∧ NeedsLock s 1 := by
    refine ⟨⟨0, hlocks.1, _, [], hops.1, ⟨rfl, .inl (by decide)⟩, fun v hv ↦ ?_⟩, ?_⟩
    · exact not_posted_of_matched hrequests.2 v hv.1
    · unfold NeedsLock
      rw [hservers.2]
      trivial
  have h10 : Awaits s 1 0 ∧ NeedsLock s 0 := by
    refine ⟨⟨0, hlocks.2, _, [], hops.2, ⟨rfl, .inl (by decide)⟩, fun v hv ↦ ?_⟩, ?_⟩
    · exact not_posted_of_matched hrequests.1 v hv.1
    · unfold NeedsLock
      rw [hservers.1]
      trivial
  refine ⟨s, hreach, hlocks, h01, h10, fun hfree ↦ ?_⟩
  refine hfree {0, 1} ⟨⟨0, .inl rfl⟩, ?_⟩
  rintro a (rfl | rfl)
  · exact ⟨1, .inr rfl, h01⟩
  · exact ⟨0, .inl rfl, h10⟩

end Torc.CommLock
