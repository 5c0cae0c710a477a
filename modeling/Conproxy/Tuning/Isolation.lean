import Conproxy.Lib.Noninterference
import Conproxy.Tuning.Selection

/-!
# Agents at one session store

Any number of agents call one `TuneSessionStore` of `tune/session.rs` in any order. A caller may
name its agent, and a session of another agent is then refused. Besides the texts of its errors and
the numbers in the names of new sessions, what an agent gets back does not depend on the others.
-/

namespace Conproxy

open Machine

set_option autoImplicit false

structure TuneSessionSummary where
  sessionId : String
  agentId : String
  contextId : String
  runCount : Nat
  createdAtMs : Nat
deriving DecidableEq

def TuneSession.summary (sess : TuneSession) : TuneSessionSummary :=
  ⟨sess.sessionId, sess.agentId, sess.contextId, sess.runs.length, sess.createdAtMs⟩

/-- `list`. The order is the one of the map. -/
def TuneSessionStore.list (store : TuneSessionStore) (now : Nat) (agentId : String)
    (contextId : Option String) : TuneSessionStore × List TuneSessionSummary :=
  let store := store.evictExpired now
  (store, ((store.sessions.entries.map Sigma.snd).filter fun sess =>
    decide (sess.agentId = agentId) &&
      contextId.all fun context => sess.contextId = context).map TuneSession.summary)

inductive TuneOp where
  | openNew (nanos : Nat) (agentId contextId : String)
  | reopen (sessionId agentId contextId : String)
  | get (sessionId : String) (agentId contextId : Option String)
  | append (sessionId : String) (agentId : Option String) (run : TuneRunRecord)
  | select (sessionId : String) (agentId : Option String) (runId : String)
  | exportSession (sessionId : String) (agentId contextId : Option String)
  | close (sessionId : String) (agentId : Option String)
  | list (agentId : String) (contextId : Option String)

structure TuneCall where
  now : Nat
  op : TuneOp

/-- The agent that a caller names. -/
def TuneOp.agent : TuneOp → Option String
  | .openNew _ agentId _ | .reopen _ agentId _ | .list agentId _ => some agentId
  | .get _ agentId _ | .append _ agentId _ | .select _ agentId _ | .exportSession _ agentId _
  | .close _ agentId => agentId

/-- The call names another agent. -/
def TuneOp.byOther (a : String) (op : TuneOp) : Prop := ∃ b, op.agent = some b ∧ b ≠ a

def TuneOp.opensNew : TuneOp → Bool
  | .openNew .. => true
  | _ => false

/-- What a caller gets back, without the texts of errors. -/
inductive Observed where
  | session (found : Option TuneSession)
  | recorded (ok : Bool)
  | artifact (found : Option SessionExport)
  | closed (live : Bool)
  | summaries (sessions : List TuneSessionSummary)

/-- Lists in another order are the same. -/
inductive Observed.Same : Observed → Observed → Prop
  | refl (o : Observed) : Same o o
  | summaries {l l' : List TuneSessionSummary} (h : l.Perm l') :
    Same (.summaries l) (.summaries l')

namespace TuneSessionStore

/-- The session is there, and it was touched within the time to live. -/
def isLive (store : TuneSessionStore) (now : Nat) (sessionId : String) : Bool :=
  (store.sessions.lookup sessionId).any fun sess => now - sess.lastTouch < store.ttl

/-- A call and what is seen of it. Closing a session that has expired succeeds exactly if no other
operation has come in between, so only the closing of a live one is seen. -/
def call (t : TuneText) (store : TuneSessionStore) (c : TuneCall) : TuneSessionStore × Observed :=
  match c.op with
  | .openNew nanos agentId contextId =>
    let r := store.openSession t c.now nanos agentId contextId none
    (r.1, .session (r.2.toOption))
  | .reopen sessionId agentId contextId =>
    let r := store.openSession t c.now 0 agentId contextId (some sessionId)
    (r.1, .session (r.2.toOption))
  | .get sessionId agentId contextId =>
    let r := store.get c.now sessionId agentId contextId
    (r.1, .session r.2)
  | .append sessionId agentId run =>
    let r := store.appendRun t c.now sessionId agentId run
    (r.1, .recorded r.2.isOk)
  | .select sessionId agentId runId =>
    let r := store.selectRun t c.now sessionId agentId runId
    (r.1, .recorded r.2.isOk)
  | .exportSession sessionId agentId contextId =>
    let r := store.exportSession t c.now sessionId agentId contextId
    (r.1, .artifact (r.2.toOption))
  | .close sessionId agentId =>
    let r := store.closeWithReason t sessionId agentId
    (r.1, .closed (r.2.isOk && store.isLive c.now sessionId))
  | .list agentId contextId =>
    let r := store.list c.now agentId contextId
    (r.1, .summaries r.2)

/-- The live sessions of an agent. -/
def view (store : TuneSessionStore) (a : String) (now : Nat) (id : String) : Option TuneSession :=
  (store.sessions.lookup id).filter fun sess =>
    decide (sess.agentId = a) && decide (now - sess.lastTouch < store.ttl)

theorem view_eq_some_iff {store : TuneSessionStore} {a id : String} {now : Nat}
    {sess : TuneSession} : store.view a now id = some sess ↔
      store.sessions.lookup id = some sess ∧ sess.agentId = a ∧
        now - sess.lastTouch < store.ttl := by
  unfold view
  rw [Option.filter_eq_some_iff, Bool.and_eq_true, decide_eq_true_eq, decide_eq_true_eq]

theorem lookup_evictExpired {store : TuneSessionStore} {now : Nat} {id : String}
    {sess : TuneSession} : (store.evictExpired now).sessions.lookup id = some sess ↔
      store.sessions.lookup id = some sess ∧ now - sess.lastTouch < store.ttl := by
  have hevicted := AList.mem_lookup_iff (a := id) (b := sess)
    (s := (store.evictExpired now).sessions)
  have hkept := AList.mem_lookup_iff (a := id) (b := sess) (s := store.sessions)
  rw [Option.mem_def] at hevicted hkept
  rw [hevicted, hkept]
  unfold evictExpired
  rw [List.mem_filter, decide_eq_true_eq]

variable {t : TuneText} {store : TuneSessionStore} {a : String} {now later : Nat}

theorem view_evictExpired (h : now ≤ later) :
    (store.evictExpired now).view a later = store.view a later := by
  funext id
  refine Option.ext fun sess => ?_
  rw [view_eq_some_iff, view_eq_some_iff, lookup_evictExpired]
  change _ ∧ sess.agentId = a ∧ later - sess.lastTouch < store.ttl ↔ _
  constructor
  · rintro ⟨⟨hl, -⟩, hagent, hlive⟩
    exact ⟨hl, hagent, hlive⟩
  · rintro ⟨hl, hagent, hlive⟩
    exact ⟨⟨hl, by omega⟩, hagent, hlive⟩

theorem view_later (h : now ≤ later) (id : String) :
    store.view a later id =
      (store.view a now id).filter fun sess => later - sess.lastTouch < store.ttl := by
  refine Option.ext fun sess => ?_
  rw [view_eq_some_iff, Option.filter_eq_some_iff, view_eq_some_iff, decide_eq_true_eq]
  constructor
  · rintro ⟨hl, hagent, hlive⟩
    exact ⟨⟨hl, hagent, by omega⟩, hlive⟩
  · rintro ⟨⟨hl, hagent, -⟩, hlive⟩
    exact ⟨hl, hagent, hlive⟩

theorem view_put (id : String) (sess : TuneSession) :
    (store.put id sess).view a later = Function.update (store.view a later) id
      ((some sess).filter fun sess =>
        decide (sess.agentId = a) && decide (later - sess.lastTouch < store.ttl)) := by
  funext other
  unfold view put
  by_cases heq : other = id
  · subst heq
    rw [AList.lookup_insert, Function.update_self]
  · rw [AList.lookup_insert_ne heq, Function.update_of_ne heq]

theorem view_erase (id : String) :
    ({ store with sessions := store.sessions.erase id } : TuneSessionStore).view a later =
      Function.update (store.view a later) id none := by
  funext other
  unfold view
  by_cases heq : other = id
  · subst heq
    rw [AList.lookup_erase, Function.update_self]
    rfl
  · rw [AList.lookup_erase_ne heq, Function.update_of_ne heq]

/-! ## Work on one session -/

/-- What most operations do: expired sessions go, and the one that is named is worked on. -/
def onSession (store : TuneSessionStore) (now : Nat) (id : String)
    (work : TuneSession → Option TuneSession × Observed) (missing : Observed) :
    TuneSessionStore × Observed :=
  let store := store.evictExpired now
  match store.sessions.lookup id with
  | none => (store, missing)
  | some sess =>
    match (work sess).1 with
    | none => (store, (work sess).2)
    | some sess' => (store.put id sess', (work sess).2)

end TuneSessionStore

namespace TuneOp

variable (t : TuneText) (now : Nat)

def target : TuneOp → Option String
  | .openNew .. | .close .. | .list .. => none
  | .reopen id _ _ | .get id _ _ | .append id _ _ | .select id _ _ | .exportSession id _ _ =>
    some id

/-- What is seen if there is no such session. -/
def missing : TuneOp → Observed
  | .append .. | .select .. => .recorded false
  | .exportSession .. => .artifact none
  | _ => .session none

/-- The caller may work on the session. -/
def admits : TuneOp → TuneSession → Bool
  | .reopen _ agentId contextId, sess =>
    decide (sess.agentId = agentId) && decide (sess.contextId = contextId)
  | .get _ agentId contextId, sess | .exportSession _ agentId contextId, sess =>
    (agentId.all fun agent => sess.agentId = agent) &&
      contextId.all fun context => sess.contextId = context
  | .append _ agentId _, sess | .select _ agentId _, sess =>
    agentId.all fun agent => sess.agentId = agent
  | _, _ => false

/-- What the operation makes of a session that it may work on, and what is seen of it. -/
def change : TuneOp → TuneSession → TuneSession × Observed
  | .append _ _ run, sess =>
    let kept := if run.selected then TuneRunRecord.unselectAll sess.runs else sess.runs
    ({ sess with lastTouch := now, runs := kept ++ [run] }, .recorded true)
  | .select _ _ runId, sess =>
    let sess' := { sess with runs := TuneRunRecord.selectOnly runId sess.runs }
    if sess.runs.any fun run => run.runId = runId then
      ({ sess' with lastTouch := now }, .recorded true)
    else (sess', .recorded false)
  | .exportSession .., sess =>
    ({ sess with lastTouch := now },
      .artifact ((TuneRunRecord.toExport sess.runs).map (sess.artifact t)))
  | _, sess => ({ sess with lastTouch := now }, .session (some { sess with lastTouch := now }))

def work (op : TuneOp) (sess : TuneSession) : Option TuneSession × Observed :=
  if op.admits sess then (some (op.change t now sess).1, (op.change t now sess).2)
  else (none, op.missing)

end TuneOp

namespace TuneSessionStore

variable {t : TuneText} {store : TuneSessionStore} {a : String} {now later : Nat}

theorem owned_cases (id : String) (agentId : Option String) (sess : TuneSession) :
    (owned t id agentId sess = .ok () ∧
        (agentId.all fun agent => sess.agentId = agent) = true) ∨
      ∃ e, owned t id agentId sess = .error e ∧
        (agentId.all fun agent => sess.agentId = agent) = false := by
  cases howned : owned t id agentId sess with
  | ok _ => exact .inl ⟨rfl, SessionHistory.owned_eq_ok_iff.mp howned⟩
  | error e =>
    refine .inr ⟨e, rfl, Bool.eq_false_iff.mpr fun hall => ?_⟩
    rw [SessionHistory.owned_eq_ok_iff.mpr hall] at howned
    cases howned

theorem onSession_of_none {id : String} {work : TuneSession → Option TuneSession × Observed}
    {missing : Observed} (hl : (store.evictExpired now).sessions.lookup id = none) :
    store.onSession now id work missing = (store.evictExpired now, missing) := by
  unfold onSession
  dsimp only
  rw [hl]

variable {op : TuneOp} {id : String} {sess : TuneSession}

theorem onSession_of_admitted (hl : (store.evictExpired now).sessions.lookup id = some sess)
    (h : op.admits sess = true) : store.onSession now id (op.work t now) op.missing =
      ((store.evictExpired now).put id (op.change t now sess).1, (op.change t now sess).2) := by
  unfold onSession TuneOp.work
  dsimp only
  rw [hl]
  dsimp only
  rw [if_pos h]

theorem onSession_of_refused (hl : (store.evictExpired now).sessions.lookup id = some sess)
    (h : op.admits sess = false) : store.onSession now id (op.work t now) op.missing =
      (store.evictExpired now, op.missing) := by
  unfold onSession TuneOp.work
  dsimp only
  rw [hl]
  dsimp only
  rw [if_neg (Bool.eq_false_iff.mp h)]

theorem reopen_eq (agentId contextId : String) :
    store.call t ⟨now, .reopen id agentId contextId⟩ =
      store.onSession now id ((TuneOp.reopen id agentId contextId).work t now)
        (TuneOp.reopen id agentId contextId).missing := by
  unfold call openSession
  dsimp only
  cases hl : (store.evictExpired now).sessions.lookup id with
  | none =>
    rw [onSession_of_none hl]
    rfl
  | some sess =>
    dsimp only
    rcases owned_cases (t := t) id (some agentId) sess with ⟨howned, hall⟩ | ⟨e, howned, hall⟩
    · rw [howned]
      dsimp only
      by_cases hcontext : sess.contextId = contextId
      · have hadmits : (TuneOp.reopen id agentId contextId).admits sess = true :=
          Bool.and_eq_true_iff.mpr ⟨hall, decide_eq_true hcontext⟩
        rw [if_neg (not_not.mpr hcontext), onSession_of_admitted hl hadmits]
        rfl
      · have hrefuses : (TuneOp.reopen id agentId contextId).admits sess = false :=
          Bool.and_eq_false_iff.mpr (.inr (decide_eq_false hcontext))
        rw [if_pos hcontext, onSession_of_refused hl hrefuses]
        rfl
    · have hrefuses : (TuneOp.reopen id agentId contextId).admits sess = false :=
        Bool.and_eq_false_iff.mpr (.inl hall)
      rw [howned, onSession_of_refused hl hrefuses]
      rfl

theorem any_ne_eq_not_all (o : Option String) (x : String) :
    (o.any fun y => x ≠ y) = !(o.all fun y => x = y) := by
  cases o with
  | none => rfl
  | some y => exact decide_not

/-- `get` returns what it has touched, under the filters. -/
theorem get_eq (agentId contextId : Option String) :
    store.get now id agentId contextId =
      match (store.evictExpired now).sessions.lookup id with
      | none => (store.evictExpired now, none)
      | some sess =>
        if (TuneOp.get id agentId contextId).admits sess then
          ((store.evictExpired now).put id { sess with lastTouch := now },
            some { sess with lastTouch := now })
        else (store.evictExpired now, none) := by
  unfold get
  dsimp only
  cases (store.evictExpired now).sessions.lookup id with
  | none => rfl
  | some sess =>
    dsimp only
    rw [any_ne_eq_not_all, any_ne_eq_not_all, ← Bool.not_and]
    change (if (!(TuneOp.get id agentId contextId).admits sess) = true then _ else _) = _
    cases (TuneOp.get id agentId contextId).admits sess with
    | true => rfl
    | false => rfl

theorem call_eq_onSession (store : TuneSessionStore) {c : TuneCall} (h : c.op.target = some id) :
    store.call t c = store.onSession c.now id (c.op.work t c.now) c.op.missing := by
  obtain ⟨now, op⟩ := c
  dsimp only at h ⊢
  cases op with
  | openNew | close | list => cases h
  | reopen id' agentId contextId =>
    cases h
    exact reopen_eq agentId contextId
  | get id' agentId contextId =>
    cases h
    unfold call
    dsimp only
    rw [get_eq]
    cases hl : (store.evictExpired now).sessions.lookup id with
    | none =>
      rw [onSession_of_none hl]
      rfl
    | some sess =>
      dsimp only
      cases hadmits : (TuneOp.get id agentId contextId).admits sess with
      | true =>
        rw [onSession_of_admitted hl hadmits]
        rfl
      | false =>
        rw [onSession_of_refused hl hadmits]
        rfl
  | append id' agentId run =>
    cases h
    unfold call appendRun
    dsimp only
    cases hl : (store.evictExpired now).sessions.lookup id with
    | none =>
      rw [onSession_of_none hl]
      rfl
    | some sess =>
      dsimp only
      rcases owned_cases (t := t) id agentId sess with ⟨howned, hall⟩ | ⟨e, howned, hall⟩
      · have hadmits : (TuneOp.append id agentId run).admits sess = true := hall
        rw [howned, onSession_of_admitted hl hadmits]
        rfl
      · have hrefuses : (TuneOp.append id agentId run).admits sess = false := hall
        rw [howned, onSession_of_refused hl hrefuses]
        rfl
  | select id' agentId runId =>
    cases h
    unfold call selectRun
    dsimp only
    cases hl : (store.evictExpired now).sessions.lookup id with
    | none =>
      rw [onSession_of_none hl]
      rfl
    | some sess =>
      dsimp only
      rcases owned_cases (t := t) id agentId sess with ⟨howned, hall⟩ | ⟨e, howned, hall⟩
      · have hadmits : (TuneOp.select id agentId runId).admits sess = true := hall
        rw [howned, onSession_of_admitted hl hadmits]
        unfold TuneOp.change
        dsimp only
        split
        · rfl
        · rfl
      · have hrefuses : (TuneOp.select id agentId runId).admits sess = false := hall
        rw [howned, onSession_of_refused hl hrefuses]
        rfl
  | exportSession id' agentId contextId =>
    cases h
    unfold call exportSession
    dsimp only
    rw [get_eq]
    cases hl : (store.evictExpired now).sessions.lookup id with
    | none =>
      rw [onSession_of_none hl]
      rfl
    | some sess =>
      dsimp only
      cases hadmits : (TuneOp.get id agentId contextId).admits sess with
      | true =>
        have hexports : (TuneOp.exportSession id agentId contextId).admits sess = true := hadmits
        rw [onSession_of_admitted hl hexports, if_pos rfl]
        dsimp only [TuneOp.change]
        cases TuneRunRecord.toExport sess.runs with
        | none => rfl
        | some run => rfl
      | false =>
        have hexports : (TuneOp.exportSession id agentId contextId).admits sess = false := hadmits
        rw [onSession_of_refused hl hexports]
        rfl

/-! ## The view after a call -/

theorem agentId_change (op : TuneOp) (now : Nat) (sess : TuneSession) :
    (op.change t now sess).1.agentId = sess.agentId := by
  cases op with
  | select =>
    unfold TuneOp.change
    dsimp only
    split
    · rfl
    · rfl
  | _ => rfl

theorem agentId_of_admits {b : String} (hagent : op.agent = some b)
    (h : op.admits sess = true) : sess.agentId = b := by
  cases op with
  | reopen id agentId contextId =>
    cases hagent
    exact of_decide_eq_true (Bool.and_eq_true_iff.mp h).1
  | get id agentId contextId | exportSession id agentId contextId =>
    cases hagent
    exact of_decide_eq_true (Bool.and_eq_true_iff.mp h).1
  | append id agentId run | select id agentId runId =>
    cases hagent
    exact of_decide_eq_true h
  | openNew | close | list => cases h

theorem view_eq_none_of_evicted (hl : (store.evictExpired now).sessions.lookup id = none) :
    store.view a now id = none := by
  rw [Option.eq_none_iff_forall_ne_some]
  intro sess hview
  obtain ⟨hlookup, -, hlive⟩ := view_eq_some_iff.mp hview
  rw [lookup_evictExpired.mpr ⟨hlookup, hlive⟩] at hl
  cases hl

theorem view_of_evicted (hl : (store.evictExpired now).sessions.lookup id = some sess) :
    store.view a now id = if sess.agentId = a then some sess else none := by
  obtain ⟨hlookup, hlive⟩ := lookup_evictExpired.mp hl
  unfold view
  rw [hlookup, Option.filter_some, decide_eq_true hlive, Bool.and_true]
  by_cases hagent : sess.agentId = a
  · rw [decide_eq_true hagent, if_pos rfl, if_pos hagent]
  · rw [decide_eq_false hagent, if_neg Bool.false_ne_true, if_neg hagent]

/-- The work of an operation on what the agent can see. -/
def worked (t : TuneText) (op : TuneOp) (now : Nat) (sess : TuneSession) : TuneSession :=
  if op.admits sess then (op.change t now sess).1 else sess

theorem view_onSession (op : TuneOp) (id : String) (h : now ≤ later) :
    (store.onSession now id (op.work t now) op.missing).1.view a later =
      Function.update (store.view a later) id (((store.view a now id).map (worked t op now)).filter
        fun sess => later - sess.lastTouch < store.ttl) := by
  cases hl : (store.evictExpired now).sessions.lookup id with
  | none =>
    have hself : store.view a later id = _ := view_later h id
    have hnone := view_eq_none_of_evicted (a := a) hl
    rw [hnone] at hself ⊢
    rw [onSession_of_none hl, view_evictExpired h]
    exact (Function.update_eq_self_iff.mpr hself.symm).symm
  | some sess =>
    have hview := view_of_evicted (a := a) hl
    cases hadmits : op.admits sess with
    | false =>
      have hself : store.view a later id = _ := view_later h id
      have hworked : (store.view a now id).map (worked t op now) = store.view a now id := by
        rw [hview]
        by_cases hagent : sess.agentId = a
        · rw [if_pos hagent, Option.map_some, worked, hadmits, if_neg Bool.false_ne_true]
        · rw [if_neg hagent, Option.map_none]
      rw [onSession_of_refused hl hadmits, view_evictExpired h, hworked]
      exact (Function.update_eq_self_iff.mpr hself.symm).symm
    | true =>
      rw [onSession_of_admitted hl hadmits, view_put, view_evictExpired h, hview]
      refine congrArg (Function.update _ id) ?_
      rw [Option.filter_some, agentId_change]
      by_cases hagent : sess.agentId = a
      · rw [if_pos hagent, decide_eq_true hagent, Bool.true_and, Option.map_some, worked, hadmits,
          if_pos rfl, Option.filter_some]
        rfl
      · rw [if_neg hagent, decide_eq_false hagent, Bool.false_and, if_neg Bool.false_ne_true]
        rfl

/-- What an agent sees of its own work. -/
theorem seen_onSession (id : String) (hagent : op.agent = some a) :
    (store.onSession now id (op.work t now) op.missing).2 =
      match store.view a now id with
      | none => op.missing
      | some sess => if op.admits sess then (op.change t now sess).2 else op.missing := by
  cases hl : (store.evictExpired now).sessions.lookup id with
  | none => rw [onSession_of_none hl, view_eq_none_of_evicted hl]
  | some sess =>
    rw [view_of_evicted hl]
    cases hadmits : op.admits sess with
    | true =>
      rw [onSession_of_admitted hl hadmits, if_pos (agentId_of_admits hagent hadmits)]
      dsimp only
      rw [hadmits, if_pos rfl]
    | false =>
      rw [onSession_of_refused hl hadmits]
      by_cases ha : sess.agentId = a
      · rw [if_pos ha]
        dsimp only
        rw [hadmits, if_neg Bool.false_ne_true]
      · rw [if_neg ha]

theorem view_close (id : String) (agentId : Option String) :
    (store.closeWithReason t id agentId).1.view a later =
      if (agentId.all fun agent => a = agent) = true then
        Function.update (store.view a later) id none
      else store.view a later := by
  unfold closeWithReason
  cases hl : store.sessions.lookup id with
  | none =>
    have hnone : store.view a later id = none := by
      unfold view
      rw [hl]
      rfl
    dsimp only
    split
    · exact (Function.update_eq_self_iff.mpr hnone.symm).symm
    · rfl
  | some sess =>
    dsimp only
    have hother (hne : sess.agentId ≠ a) : Function.update (store.view a later) id none =
        store.view a later := by
      refine Function.update_eq_self_iff.mpr ?_
      unfold view
      rw [hl, Option.filter_some, decide_eq_false hne, Bool.false_and,
        if_neg Bool.false_ne_true]
    rcases owned_cases (t := t) id agentId sess with ⟨howned, hall⟩ | ⟨e, howned, hall⟩
    · rw [howned]
      dsimp only
      rw [view_erase]
      by_cases ha : sess.agentId = a
      · rw [← ha, hall, if_pos rfl]
      · rw [hother ha, ite_self]
    · rw [howned]
      dsimp only
      by_cases ha : sess.agentId = a
      · rw [← ha, hall, if_neg Bool.false_ne_true]
      · rw [hother ha, ite_self]

theorem seen_close (id : String) :
    ((store.closeWithReason t id (some a)).2.isOk && store.isLive now id) =
      (store.view a now id).isSome := by
  unfold closeWithReason isLive view
  cases hl : store.sessions.lookup id with
  | none => rfl
  | some sess =>
    dsimp only
    rw [Option.any_some, Option.filter_some]
    rcases owned_cases (t := t) id (some a) sess with ⟨howned, hall⟩ | ⟨e, howned, hall⟩
    · have hagent : decide (sess.agentId = a) = true := hall
      rw [howned, hagent, Bool.true_and]
      dsimp only
      cases decide (now - sess.lastTouch < store.ttl) with
      | true => rfl
      | false => rfl
    · have hagent : decide (sess.agentId = a) = false := hall
      rw [howned, hagent, Bool.false_and, if_neg Bool.false_ne_true]
      rfl

theorem newId_inj {nanos nanos' n n' : Nat} (h : newId nanos n = newId nanos' n') : n = n' := by
  have hparts (nanos n : Nat) : (newId nanos n).toList =
      "sess-".toList ++ (Nat.toDigits 16 nanos ++ ("-".toList ++ Nat.toDigits 10 n)) := by
    simp only [newId, Nat.toString_eq_ofList_toDigits, String.toList_append, String.toList_ofList,
      List.append_assoc]
  have hdigits (n : Nat) : ∀ c ∈ (Nat.toDigits 10 n).reverse, (c != '-') = true := by
    intro c hc
    have hdigit := Nat.isDigit_of_mem_toDigits (by decide) (by decide) (List.mem_reverse.mp hc)
    rw [bne_iff_ne]
    rintro rfl
    cases hdigit
  -- the number is what comes after the last dash
  have hlast (nanos n : Nat) :
      ((Nat.toDigits 16 nanos ++ '-' :: Nat.toDigits 10 n).reverse.takeWhile (· != '-')) =
        (Nat.toDigits 10 n).reverse := by
    rw [List.reverse_append, List.reverse_cons, List.append_assoc,
      List.takeWhile_append_of_pos (hdigits n)]
    exact List.append_nil _
  have heq := congrArg String.toList h
  rw [hparts, hparts] at heq
  have hrest : (Nat.toDigits 10 n).reverse = (Nat.toDigits 10 n').reverse :=
    (hlast nanos n).symm.trans ((congrArg (fun l : List Char => l.reverse.takeWhile (· != '-'))
      (List.append_cancel_left heq)).trans (hlast nanos' n'))
  rw [List.reverse_inj] at hrest
  rw [← Nat.ofDigitChars_ten_toDigits (n := n), hrest, Nat.ofDigitChars_ten_toDigits]

def Numbered (store : TuneSessionStore) : Prop :=
  ∀ id sess, store.sessions.lookup id = some sess →
    ∃ nanos n, id = newId nanos n ∧ n < store.nextId

theorem Numbered.of_lookup {store' : TuneSessionStore} (hs : store.Numbered)
    (hnext : store'.nextId = store.nextId)
    (h : ∀ id sess, store'.sessions.lookup id = some sess →
      ∃ sess, store.sessions.lookup id = some sess) : store'.Numbered := by
  intro id sess' hl'
  obtain ⟨sess, hl⟩ := h id sess' hl'
  rw [hnext]
  exact hs id sess hl

theorem Numbered.evictExpired (hs : store.Numbered) (now : Nat) :
    (store.evictExpired now).Numbered :=
  hs.of_lookup rfl fun _ sess hl => ⟨sess, (lookup_evictExpired.mp hl).1⟩

theorem Numbered.put (hs : store.Numbered) (hl : store.sessions.lookup id = some sess)
    (sess' : TuneSession) : (store.put id sess').Numbered := by
  refine hs.of_lookup rfl fun other found hfound => ?_
  by_cases heq : other = id
  · subst heq
    exact ⟨sess, hl⟩
  · have hkept : (store.put id sess').sessions.lookup other = store.sessions.lookup other :=
      AList.lookup_insert_ne heq
    rw [hkept] at hfound
    exact ⟨found, hfound⟩

/-- The session that a new name stands for. -/
def opened (store : TuneSessionStore) (now nanos : Nat) (agentId contextId : String) :
    TuneSession :=
  ⟨newId nanos store.nextId, agentId, contextId, nanos / 1000000, now, []⟩

theorem openNew_eq (nanos : Nat) (agentId contextId : String) :
    store.call t ⟨now, .openNew nanos agentId contextId⟩ =
      ({ (store.evictExpired now).put (newId nanos store.nextId)
          (store.opened now nanos agentId contextId) with nextId := store.nextId + 1 },
        .session (some (store.opened now nanos agentId contextId))) := rfl

theorem view_openNew (nanos : Nat) (agentId contextId : String) (h : now ≤ later) :
    (store.call t ⟨now, .openNew nanos agentId contextId⟩).1.view a later =
      Function.update (store.view a later) (newId nanos store.nextId)
        ((some (store.opened now nanos agentId contextId)).filter fun sess =>
          decide (sess.agentId = a) && decide (later - sess.lastTouch < store.ttl)) := by
  have hput : ((store.evictExpired now).put (newId nanos store.nextId)
      (store.opened now nanos agentId contextId)).view a later = _ := view_put _ _
  rw [view_evictExpired h] at hput
  exact hput

theorem Numbered.view_newId (hs : store.Numbered) (nanos : Nat) :
    store.view a later (newId nanos store.nextId) = none := by
  rw [Option.eq_none_iff_forall_ne_some]
  intro sess hview
  obtain ⟨nanos', n, hid, hlt⟩ := hs _ sess (view_eq_some_iff.mp hview).1
  have heq := newId_inj hid
  omega

/-- The counter after a call. -/
theorem settings_call (store : TuneSessionStore) (c : TuneCall) :
    (store.call t c).1.ttl = store.ttl ∧
      (store.call t c).1.nextId = store.nextId + c.op.opensNew.toNat := by
  obtain ⟨now, op⟩ := c
  have hsession (id : String) (op : TuneOp) (htarget : op.target = some id)
      (hnew : op.opensNew = false) : (store.call t ⟨now, op⟩).1.ttl = store.ttl ∧
        (store.call t ⟨now, op⟩).1.nextId = store.nextId + op.opensNew.toNat := by
    rw [call_eq_onSession store htarget, hnew]
    unfold onSession
    dsimp only
    split
    · exact ⟨rfl, rfl⟩
    · split
      · exact ⟨rfl, rfl⟩
      · exact ⟨rfl, rfl⟩
  cases op with
  | openNew | list => exact ⟨rfl, rfl⟩
  | reopen id | get id | append id | select id | exportSession id => exact hsession id _ rfl rfl
  | close id agentId =>
    unfold call closeWithReason
    dsimp only
    split
    · exact ⟨rfl, rfl⟩
    · split
      · exact ⟨rfl, rfl⟩
      · exact ⟨rfl, rfl⟩

theorem Numbered.onSession (hs : store.Numbered) (op : TuneOp) (id : String) (now : Nat) :
    (store.onSession now id (op.work t now) op.missing).1.Numbered := by
  cases hl : (store.evictExpired now).sessions.lookup id with
  | none =>
    rw [onSession_of_none hl]
    exact hs.evictExpired now
  | some sess =>
    cases hadmits : op.admits sess with
    | true =>
      rw [onSession_of_admitted hl hadmits]
      exact (hs.evictExpired now).put hl _
    | false =>
      rw [onSession_of_refused hl hadmits]
      exact hs.evictExpired now

theorem Numbered.call (hs : store.Numbered) (c : TuneCall) : (store.call t c).1.Numbered := by
  obtain ⟨now, op⟩ := c
  cases op with
  | openNew nanos agentId contextId =>
    rw [openNew_eq]
    intro id sess hl
    by_cases heq : id = newId nanos store.nextId
    · exact ⟨nanos, store.nextId, heq, Nat.lt_succ_self _⟩
    · have hkept := (AList.lookup_insert_ne heq).symm.trans hl
      obtain ⟨nanos', n, hid, hlt⟩ := hs.evictExpired now id sess hkept
      exact ⟨nanos', n, hid, Nat.lt_succ_of_lt hlt⟩
  | reopen id | get id | append id | select id | exportSession id =>
    rw [call_eq_onSession store rfl]
    exact hs.onSession _ id now
  | close id agentId =>
    have hkept : (store.closeWithReason t id agentId).1.Numbered := by
      unfold closeWithReason
      split
      · exact hs
      · split
        · exact hs
        · refine hs.of_lookup rfl fun other sess hl => ⟨sess, ?_⟩
          by_cases heq : other = id
          · subst heq
            rw [AList.lookup_erase] at hl
            cases hl
          · exact (AList.lookup_erase_ne heq).symm.trans hl
    exact hkept
  | list agentId contextId => exact hs.evictExpired now

/-- What another agent does cannot be seen. -/
theorem view_other (hs : store.Numbered) {c : TuneCall} (hother : c.op.byOther a)
    (h : c.now ≤ later) : (store.call t c).1.view a later = store.view a later := by
  obtain ⟨b, hagent, hne⟩ := hother
  obtain ⟨now, op⟩ := c
  dsimp only at hagent h
  have hsession (id : String) (htarget : op.target = some id) :
      (store.call t ⟨now, op⟩).1.view a later = store.view a later := by
    have hworked : (store.view a now id).map (worked t op now) = store.view a now id := by
      cases hview : store.view a now id with
      | none => rfl
      | some sess =>
        have ha := (view_eq_some_iff.mp hview).2.1
        have hrefuses : op.admits sess = false := by
          refine Bool.eq_false_iff.mpr fun hadmits => hne ?_
          exact (agentId_of_admits hagent hadmits).symm.trans ha
        rw [Option.map_some, worked, hrefuses, if_neg Bool.false_ne_true]
    rw [call_eq_onSession store htarget, view_onSession op id h, hworked, ← view_later h]
    exact Function.update_eq_self id _
  cases op with
  | openNew nanos agentId contextId =>
    cases hagent
    have hfilter : ((some (store.opened now nanos b contextId)).filter fun sess =>
        decide (sess.agentId = a) && decide (later - sess.lastTouch < store.ttl)) = none := by
      have hagent : decide ((store.opened now nanos b contextId).agentId = a) = false :=
        decide_eq_false hne
      rw [Option.filter_some, hagent, Bool.false_and, if_neg Bool.false_ne_true]
    rw [view_openNew nanos b contextId h, hfilter]
    exact Function.update_eq_self_iff.mpr (hs.view_newId nanos).symm
  | reopen id | get id | append id | select id | exportSession id => exact hsession id rfl
  | close id agentId =>
    cases hagent
    have hclose : (store.closeWithReason t id (some b)).1.view a later = _ := view_close id (some b)
    rw [if_neg fun hall => hne (of_decide_eq_true hall).symm] at hclose
    exact hclose
  | list => exact view_evictExpired h

theorem view_shared {store' : TuneSessionStore} (httl : store.ttl = store'.ttl)
    (hnext : store.nextId = store'.nextId) (c : TuneCall)
    (hview : ∀ later, c.now ≤ later → store.view a later = store'.view a later)
    (h : c.now ≤ later) :
    (store.call t c).1.view a later = (store'.call t c).1.view a later := by
  obtain ⟨now, op⟩ := c
  dsimp only at hview h
  have hnow := hview now (Nat.le_refl now)
  have hlater := hview later h
  have hsession (id : String) (htarget : op.target = some id) :
      (store.call t ⟨now, op⟩).1.view a later = (store'.call t ⟨now, op⟩).1.view a later := by
    rw [call_eq_onSession store htarget, call_eq_onSession store' htarget, view_onSession op id h,
      view_onSession op id h, hnow, hlater, httl]
  cases op with
  | openNew nanos agentId contextId =>
    rw [view_openNew nanos agentId contextId h, view_openNew nanos agentId contextId h, hlater,
      opened, opened, httl, hnext]
  | reopen id | get id | append id | select id | exportSession id => exact hsession id rfl
  | close id agentId =>
    have hclose : (store.closeWithReason t id agentId).1.view a later = _ :=
      view_close id agentId
    have hclose' : (store'.closeWithReason t id agentId).1.view a later = _ :=
      view_close id agentId
    rw [hlater] at hclose
    exact hclose.trans hclose'.symm
  | list => exact (view_evictExpired h).trans (hlater.trans (view_evictExpired h).symm)

theorem mem_list (agentId : String) (contextId : Option String) {e : Sigma fun _ : String =>
    TuneSession} :
    e ∈ (store.evictExpired now).sessions.entries.filter (fun e =>
        decide (e.2.agentId = agentId) &&
          contextId.all fun context => e.2.contextId = context) ↔
      store.view agentId now e.1 = some e.2 ∧
        (contextId.all fun context => e.2.contextId = context) = true := by
  have hlookup := AList.mem_lookup_iff (a := e.1) (b := e.2)
    (s := (store.evictExpired now).sessions)
  rw [Option.mem_def, lookup_evictExpired] at hlookup
  rw [List.mem_filter, ← hlookup, Bool.and_eq_true, decide_eq_true_eq, view_eq_some_iff]
  constructor
  · rintro ⟨⟨hl, hlive⟩, hagent, hcontext⟩
    exact ⟨⟨hl, hagent, hlive⟩, hcontext⟩
  · rintro ⟨⟨hl, hagent, hlive⟩, hcontext⟩
    exact ⟨⟨hl, hlive⟩, hagent, hcontext⟩

theorem list_perm {store' : TuneSessionStore} (agentId : String) (contextId : Option String)
    (hview : store.view agentId now = store'.view agentId now) :
    (store.list now agentId contextId).2.Perm (store'.list now agentId contextId).2 := by
  have heq (store : TuneSessionStore) : (store.list now agentId contextId).2 =
      ((store.evictExpired now).sessions.entries.filter fun e =>
        decide (e.2.agentId = agentId) &&
          contextId.all fun context => e.2.contextId = context).map fun e => e.2.summary := by
    unfold list
    dsimp only
    rw [List.filter_map, List.map_map]
    rfl
  have hnodup (store : TuneSessionStore) := (List.NodupKeys.nodup
    (store.evictExpired now).sessions.nodupKeys).filter fun e =>
      decide (e.2.agentId = agentId) && contextId.all fun context => e.2.contextId = context
  rw [heq, heq]
  refine List.Perm.map _ ((List.perm_ext_iff_of_nodup (hnodup store) (hnodup store')).mpr ?_)
  intro e
  rw [mem_list, mem_list, hview]

theorem seen_shared {store' : TuneSessionStore} (hnext : store.nextId = store'.nextId)
    {c : TuneCall} (hagent : c.op.agent = some a)
    (hview : store.view a c.now = store'.view a c.now) :
    Observed.Same (store.call t c).2 (store'.call t c).2 := by
  obtain ⟨now, op⟩ := c
  dsimp only at hagent hview
  have hsession (id : String) (htarget : op.target = some id) :
      Observed.Same (store.call t ⟨now, op⟩).2 (store'.call t ⟨now, op⟩).2 := by
    rw [call_eq_onSession store htarget, call_eq_onSession store' htarget,
      seen_onSession id hagent, seen_onSession id hagent, hview]
    exact .refl _
  cases op with
  | openNew nanos agentId contextId =>
    rw [openNew_eq, openNew_eq, opened, opened, hnext]
    exact .refl _
  | reopen id | get id | append id | select id | exportSession id => exact hsession id rfl
  | close id agentId =>
    cases hagent
    have hclosed : ((store.closeWithReason t id (some a)).2.isOk && store.isLive now id) = _ :=
      seen_close id
    have hclosed' : ((store'.closeWithReason t id (some a)).2.isOk && store'.isLive now id) = _ :=
      seen_close id
    rw [hview] at hclosed
    change Observed.Same (.closed _) (.closed _)
    rw [hclosed, hclosed']
    exact .refl _
  | list agentId contextId =>
    cases hagent
    exact .summaries (list_perm a contextId hview)

end TuneSessionStore

/-! ## Every interleaving -/

/-- The store, and when it was last called. -/
structure TuneService where
  store : TuneSessionStore
  clock : Nat

namespace TuneService

def new (ttlSecs : Nat) : TuneService := ⟨.new ttlSecs, 0⟩

variable (t : TuneText) (a : String)

def step (s : TuneService) (c : TuneCall) : TuneService := ⟨(s.store.call t c).1, c.now⟩

/-- What the agent sees of a call. -/
def seen (s : TuneService) (c : TuneCall) : List Observed :=
  if c.op.agent = some a then [(s.store.call t c).2] else []

/-- The clock does not go back. -/
def InOrder (s : TuneService) (c : TuneCall) : Prop := s.clock ≤ c.now

/-- A call of another agent that opens no new session. -/
def Hidden (c : TuneCall) : Prop := c.op.byOther a ∧ c.op.opensNew = false

/-- The same call, or two new sessions of other agents. -/
def Shared (c c' : TuneCall) : Prop :=
  c = c' ∨ ((c.op.byOther a ∧ c.op.opensNew = true) ∧ c'.op.byOther a ∧ c'.op.opensNew = true)

/-- The agent can see the same, now and later. -/
structure Alike (s s' : TuneService) : Prop where
  ttl : s.store.ttl = s'.store.ttl
  nextId : s.store.nextId = s'.store.nextId
  numbered : s.store.Numbered
  numbered' : s'.store.Numbered
  view : ∀ later, s.clock ≤ later → s'.clock ≤ later →
    s.store.view a later = s'.store.view a later

variable {t a} {s s' : TuneService} {c c' : TuneCall}

theorem not_agent_of_byOther (h : c.op.byOther a) : c.op.agent ≠ some a := by
  obtain ⟨b, hagent, hne⟩ := h
  rw [hagent]
  intro heq
  exact hne (Option.some.inj heq)

theorem Alike.symm (h : Alike a s s') : Alike a s' s :=
  ⟨h.ttl.symm, h.nextId.symm, h.numbered', h.numbered,
    fun later hs' hs => (h.view later hs hs').symm⟩

theorem Alike.hide (h : Alike a s s') (hhidden : Hidden a c) (hc : InOrder s c) :
    Alike a (s.step t c) s' := by
  obtain ⟨hother, hnew⟩ := hhidden
  obtain ⟨httl, hnext⟩ := TuneSessionStore.settings_call (t := t) s.store c
  rw [hnew] at hnext
  refine ⟨httl.trans h.ttl, hnext.trans h.nextId, h.numbered.call c, h.numbered', ?_⟩
  intro later hlater hlater'
  exact (TuneSessionStore.view_other h.numbered hother hlater).trans
    (h.view later (Nat.le_trans hc hlater) hlater')

theorem Alike.share (h : Alike a s s') (hshared : Shared a c c') (hc : InOrder s c)
    (hc' : InOrder s' c') : Alike a (s.step t c) (s'.step t c') := by
  obtain ⟨httl, hnext⟩ := TuneSessionStore.settings_call (t := t) s.store c
  obtain ⟨httl', hnext'⟩ := TuneSessionStore.settings_call (t := t) s'.store c'
  have hnew : c.op.opensNew = c'.op.opensNew := by
    rcases hshared with rfl | ⟨⟨-, hnew⟩, -, hnew'⟩
    · rfl
    · rw [hnew, hnew']
  refine ⟨httl.trans (h.ttl.trans httl'.symm), ?_, h.numbered.call c, h.numbered'.call c', ?_⟩
  · rw [hnew, h.nextId] at hnext
    exact hnext.trans hnext'.symm
  · intro later hlater hlater'
    rcases hshared with rfl | ⟨⟨hother, -⟩, hother', -⟩
    · refine TuneSessionStore.view_shared h.ttl h.nextId c (fun l hl => ?_) hlater
      exact h.view l (Nat.le_trans hc hl) (Nat.le_trans hc' hl)
    · exact (TuneSessionStore.view_other h.numbered hother hlater).trans
        ((h.view later (Nat.le_trans hc hlater) (Nat.le_trans hc' hlater')).trans
          (TuneSessionStore.view_other h.numbered' hother' hlater').symm)

theorem Alike.seen (h : Alike a s s') (hshared : Shared a c c') (hc : InOrder s c)
    (hc' : InOrder s' c') : List.Forall₂ Observed.Same (s.seen t a c) (s'.seen t a c') := by
  unfold TuneService.seen
  rcases hshared with rfl | ⟨⟨hother, -⟩, hother', -⟩
  · split
    · rename_i hagent
      exact .cons (TuneSessionStore.seen_shared h.nextId hagent (h.view c.now hc hc')) .nil
    · exact .nil
  · rw [if_neg (not_agent_of_byOther hother), if_neg (not_agent_of_byOther hother')]
    exact .nil

theorem unwinding (t : TuneText) (a : String) :
    Unwinding (step t) (seen t a) InOrder (Hidden a) (Shared a) (Alike a) Observed.Same where
  symm _ _ h := h.symm
  silent _ _ hhidden := if_neg (not_agent_of_byOther hhidden.1)
  hide _ _ _ hhidden hc h := h.hide hhidden hc
  share _ _ _ _ hshared hc hc' h := h.share hshared hc hc'
  alike _ _ _ _ hshared hc hc' h := h.seen hshared hc hc'

end TuneService

open TuneService in
/-- Agents do not disturb each other: whatever the others do between its own calls, but for how
many sessions they open, an agent gets the same back. -/
theorem agents_isolated (t : TuneText) (a : String) (ttlSecs : Nat) (calls calls' : List TuneCall)
    (hcalls : Interleaved (Hidden a) (Shared a) calls calls')
    (hclock : AllSteps (step t) InOrder (new ttlSecs) calls)
    (hclock' : AllSteps (step t) InOrder (new ttlSecs) calls') :
    List.Forall₂ Observed.Same (outputs (step t) (seen t a) (new ttlSecs) calls)
      (outputs (step t) (seen t a) (new ttlSecs) calls') := by
  have hnumbered : (new ttlSecs).store.Numbered := by
    intro id sess hl
    cases hl
  have halike : Alike a (new ttlSecs) (new ttlSecs) :=
    ⟨rfl, rfl, hnumbered, hnumbered, fun _ _ _ => rfl⟩
  exact (unwinding t a).outputs hcalls halike hclock hclock'

open SessionHistory (plainText sampleRun)

/-- Between the calls of `a`, `b` opens a session, tries to record in the one of `a` and closes its
own. -/
def busyCalls : List TuneCall :=
  [⟨0, .openNew 16 "a" "docs"⟩, ⟨1, .openNew 17 "b" "docs"⟩,
    ⟨2, .append "sess-10-1" (some "b") (sampleRun "r" true)⟩,
    ⟨3, .append "sess-10-1" (some "a") (sampleRun "r1" true)⟩,
    ⟨4, .close "sess-11-2" (some "b")⟩, ⟨5, .exportSession "sess-10-1" (some "a") none⟩,
    ⟨6, .list "a" none⟩]

/-- The same calls of `a`, next to an idle session of `c`. -/
def calmCalls : List TuneCall :=
  [⟨0, .openNew 16 "a" "docs"⟩, ⟨2, .openNew 20 "c" "notes"⟩,
    ⟨3, .append "sess-10-1" (some "a") (sampleRun "r1" true)⟩,
    ⟨5, .exportSession "sess-10-1" (some "a") none⟩, ⟨6, .list "a" none⟩]

open TuneService in
theorem busy_calls_unseen :
    (outputs (step plainText) (seen plainText "a") (new 3600) busyCalls)[1]? =
        some (.recorded true) ∧
      List.Forall₂ Observed.Same
        (outputs (step plainText) (seen plainText "a") (new 3600) busyCalls)
        (outputs (step plainText) (seen plainText "a") (new 3600) calmCalls) := by
  have hother (b : String) (hne : b ≠ "a") (op : TuneOp) (hagent : op.agent = some b) :
      op.byOther "a" := ⟨b, hagent, hne⟩
  have hb (op : TuneOp) := hother "b" (by decide) op
  have hc (op : TuneOp) := hother "c" (by decide) op
  refine ⟨rfl, agents_isolated plainText "a" 3600 busyCalls calmCalls ?_ ?_ ?_⟩
  · exact .pair (.inl rfl) (.pair (.inr ⟨⟨hb _ rfl, rfl⟩, hc _ rfl, rfl⟩)
      (.left ⟨hb _ rfl, rfl⟩ (.pair (.inl rfl) (.left ⟨hb _ rfl, rfl⟩
        (.pair (.inl rfl) (.pair (.inl rfl) .nil))))))
  · exact ⟨Nat.le_refl 0, Nat.zero_le 1, Nat.le_succ 1, Nat.le_succ 2, Nat.le_succ 3,
      Nat.le_succ 4, Nat.le_succ 5, trivial⟩
  · exact ⟨Nat.le_refl 0, Nat.zero_le 2, Nat.le_succ 2, by unfold InOrder; decide, Nat.le_succ 5,
      trivial⟩

end Conproxy
