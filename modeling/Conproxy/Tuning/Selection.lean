import Conproxy.Lib.Machine
import Conproxy.Tuning.Session

/-!
# Which run is selected

The sessions over any sequence of operations, next to a record of the run that was selected last.
`select_run` rewrites every flag before it knows whether the run exists, and the flags of all runs
that share an id.
-/

namespace Conproxy

open Machine

set_option autoImplicit false

inductive SessionOp where
  | openSession (now nanos : Nat) (agentId contextId : String) (sessionId : Option String)
  | append (now : Nat) (sessionId : String) (agentId : Option String) (run : TuneRunRecord)
  | select (now : Nat) (sessionId : String) (agentId : Option String) (runId : String)
  | exportSession (now : Nat) (sessionId : String) (agentId contextId : Option String)
  | close (sessionId : String) (agentId : Option String)

/-- Closing a session does not read the clock. -/
def SessionOp.now : SessionOp → Option Nat
  | openSession now _ _ _ _ | append now _ _ _ | select now _ _ _ | exportSession now _ _ _ =>
    some now
  | close _ _ => none

def errorOf {α : Type} : Except String α → Option String
  | .error e => some e
  | .ok _ => none

namespace TuneSessionStore

def runsOf (store : TuneSessionStore) (sessionId : String) : Option (List TuneRunRecord) :=
  (store.sessions.lookup sessionId).map TuneSession.runs

/-- The operation on the store, and the error that it returns. -/
def apply (t : TuneText) (store : TuneSessionStore) :
    SessionOp → TuneSessionStore × Option String
  | .openSession now nanos agentId contextId sessionId =>
    (store.openSession t now nanos agentId contextId sessionId).map id errorOf
  | .append now sessionId agentId run =>
    (store.appendRun t now sessionId agentId run).map id errorOf
  | .select now sessionId agentId runId =>
    (store.selectRun t now sessionId agentId runId).map id errorOf
  | .exportSession now sessionId agentId contextId =>
    (store.exportSession t now sessionId agentId contextId).map id errorOf
  | .close sessionId agentId => (store.closeWithReason t sessionId agentId).map id errorOf

/-- No session is idle for too long when the operation reads the clock. -/
def NoneExpires (store : TuneSessionStore) (op : SessionOp) : Prop :=
  ∀ now ∈ op.now, ∀ e ∈ store.sessions.entries, now - e.2.lastTouch < store.ttl

instance (store : TuneSessionStore) (op : SessionOp) : Decidable (store.NoneExpires op) :=
  inferInstanceAs (Decidable (∀ now ∈ op.now, ∀ e ∈ store.sessions.entries, _))

end TuneSessionStore

/-- `chosen` holds, for every session, the place of the run that was selected last. -/
structure SessionHistory where
  store : TuneSessionStore
  chosen : String → Option Nat

namespace SessionHistory

variable (t : TuneText)

/-- What an operation that succeeds selects. -/
def choose (h : SessionHistory) : SessionOp → String → Option Nat
  | .openSession _ nanos _ _ none =>
    Function.update h.chosen (TuneSessionStore.newId nanos h.store.nextId) none
  | .append _ sessionId _ run =>
    if run.selected then
      Function.update h.chosen sessionId ((h.store.runsOf sessionId).map List.length)
    else h.chosen
  | .select _ sessionId _ runId =>
    Function.update h.chosen sessionId
      ((h.store.runsOf sessionId).bind fun runs => runs.findIdx? fun run => run.runId = runId)
  | _ => h.chosen

def failed (h : SessionHistory) (op : SessionOp) : Bool := (h.store.apply t op).2.isSome

def step (h : SessionHistory) (op : SessionOp) : SessionHistory :=
  ⟨(h.store.apply t op).1, if h.failed t op then h.chosen else h.choose op⟩

/-- The run that was selected last, or the last run if none ever was. -/
def winner (h : SessionHistory) (sessionId : String) (runs : List TuneRunRecord) :
    Option TuneRunRecord :=
  match h.chosen sessionId with
  | some i => runs[i]?
  | none => runs.getLast?

/-- At most one run of a session is selected, and that one is exported. -/
structure Lawful (h : SessionHistory) : Prop where
  atMostOne : ∀ sessionId runs, h.store.runsOf sessionId = some runs →
    runs.Pairwise fun a b => ¬ (a.selected = true ∧ b.selected = true)
  exports : ∀ now sessionId agentId contextId sess,
    (h.store.get now sessionId agentId contextId).2 = some sess →
      (h.store.exportSession t now sessionId agentId contextId).2 =
        match h.winner sessionId sess.runs with
        | some run => .ok (sess.artifact t run)
        | none => .error "no runs to export"

/-- What a step should do: an error changes no run and no selection. -/
def Keeps (h : SessionHistory) (op : SessionOp) : Prop :=
  (h.failed t op → (h.step t op).store.runsOf = h.store.runsOf) ∧ (h.step t op).Lawful t

/-- One run has the id, or none has it and none is selected. -/
def Selectable (runs : List TuneRunRecord) (runId : String) : Prop :=
  (runs.Pairwise fun a b => ¬ (a.runId = runId ∧ b.runId = runId)) ∧
    ((∃ run ∈ runs, run.runId = runId) ∨ ∀ run ∈ runs, run.selected = false)

/-- A session of the agent is asked for a run that it has once, or that it lacks while none is
selected. -/
def SelectsOne (h : SessionHistory) : SessionOp → Prop
  | .select _ sessionId agentId runId =>
    ∀ sess ∈ h.store.sessions.lookup sessionId,
      (agentId.all fun agent => sess.agentId = agent) = true → Selectable sess.runs runId
  | _ => True

instance (runs : List TuneRunRecord) (runId : String) : Decidable (Selectable runs runId) :=
  inferInstanceAs (Decidable (List.Pairwise _ runs ∧
    ((∃ run ∈ runs, run.runId = runId) ∨ ∀ run ∈ runs, run.selected = false)))

instance (h : SessionHistory) (op : SessionOp) : Decidable (h.SelectsOne op) :=
  match op with
  | .select _ sessionId _ _ =>
    inferInstanceAs (Decidable (∀ sess ∈ h.store.sessions.lookup sessionId, _ → _))
  | .openSession .. | .append .. | .exportSession .. | .close .. => .isTrue trivial

variable {t : TuneText} {h : SessionHistory} {op : SessionOp}

/-! ## One operation -/

/-- What an operation does to the runs and to the record, if no session expires. -/
inductive Effect (h : SessionHistory) (op : SessionOp) :
    Bool → (String → Option (List TuneRunRecord)) → (String → Option Nat) → Prop
  | same {failed : Bool} : Effect h op failed h.store.runsOf h.chosen
  | opened (id : String) :
      Effect h op false (Function.update h.store.runsOf id (some []))
        (Function.update h.chosen id none)
  | appended {id : String} {runs : List TuneRunRecord} (run : TuneRunRecord) :
      h.store.runsOf id = some runs →
      Effect h op false
        (Function.update h.store.runsOf id (some
          ((if run.selected then TuneRunRecord.unselectAll runs else runs) ++ [run])))
        (if run.selected then Function.update h.chosen id (some runs.length) else h.chosen)
  | selected {id runId : String} {runs : List TuneRunRecord} :
      h.store.runsOf id = some runs → (∃ run ∈ runs, run.runId = runId) →
      (h.SelectsOne op → Selectable runs runId) →
      Effect h op false
        (Function.update h.store.runsOf id (some (TuneRunRecord.selectOnly runId runs)))
        (Function.update h.chosen id (runs.findIdx? fun run => run.runId = runId))
  | cleared {id runId : String} {runs : List TuneRunRecord} :
      h.store.runsOf id = some runs → (∀ run ∈ runs, run.runId ≠ runId) →
      (h.SelectsOne op → Selectable runs runId) →
      Effect h op true
        (Function.update h.store.runsOf id (some (TuneRunRecord.selectOnly runId runs))) h.chosen
  | closed (id : String) : Effect h op false (Function.update h.store.runsOf id none) h.chosen

theorem evictExpired_eq {store : TuneSessionStore} {now : Nat}
    (hlive : ∀ e ∈ store.sessions.entries, now - e.2.lastTouch < store.ttl) :
    store.evictExpired now = store := by
  have hsame : (store.evictExpired now).sessions = store.sessions :=
    AList.ext (List.filter_eq_self.2 fun e he => decide_eq_true (hlive e he))
  cases store
  exact congrArg (TuneSessionStore.mk · _ _) hsame

theorem runsOf_put (store : TuneSessionStore) (id : String) (sess : TuneSession) :
    (store.put id sess).runsOf = Function.update store.runsOf id (some sess.runs) := by
  funext other
  by_cases heq : other = id
  · subst heq
    simp [TuneSessionStore.runsOf, TuneSessionStore.put]
  · rw [Function.update_of_ne heq]
    exact congrArg (Option.map TuneSession.runs) (AList.lookup_insert_ne heq)

theorem runsOf_of_lookup {store : TuneSessionStore} {id : String} {sess : TuneSession}
    (hsess : store.sessions.lookup id = some sess) : store.runsOf id = some sess.runs :=
  congrArg (Option.map TuneSession.runs) hsess

theorem runsOf_touch {store : TuneSessionStore} {id : String} {sess sess' : TuneSession}
    (hsess : store.sessions.lookup id = some sess) (hruns : sess'.runs = sess.runs) :
    (store.put id sess').runsOf = store.runsOf := by
  rw [runsOf_put, hruns, ← runsOf_of_lookup hsess, Function.update_eq_self]

theorem runsOf_erase (store : TuneSessionStore) (id : String) :
    ({ store with sessions := store.sessions.erase id } : TuneSessionStore).runsOf =
      Function.update store.runsOf id none := by
  funext other
  by_cases heq : other = id
  · subst heq
    simp [TuneSessionStore.runsOf]
  · rw [Function.update_of_ne heq]
    exact congrArg (Option.map TuneSession.runs) (AList.lookup_erase_ne heq)

theorem owned_eq_ok_iff {id : String} {agentId : Option String} {sess : TuneSession} :
    TuneSessionStore.owned t id agentId sess = .ok () ↔
      (agentId.all fun agent => sess.agentId = agent) = true := by
  cases agentId with
  | none => exact ⟨fun _ => rfl, fun _ => rfl⟩
  | some agent =>
    unfold TuneSessionStore.owned
    by_cases heq : sess.agentId = agent <;> simp [heq]

/-- What `get` returns is the session with its filters met, and it is only touched. -/
theorem get_cases (store : TuneSessionStore) (now : Nat) (id : String)
    (agentId contextId : Option String) :
    (store.get now id agentId contextId).1.runsOf = (store.evictExpired now).runsOf ∧
      ∀ sess, (store.get now id agentId contextId).2 = some sess →
        (store.evictExpired now).runsOf id = some sess.runs := by
  unfold TuneSessionStore.get
  dsimp only
  split
  · exact ⟨rfl, by simp⟩
  · rename_i sess hsess
    split
    · exact ⟨rfl, by simp⟩
    · refine ⟨runsOf_touch hsess rfl, ?_⟩
      intro sess' hsess'
      obtain rfl := Option.some.inj hsess'
      exact (runsOf_of_lookup hsess : _ = some sess.runs)

theorem runsOf_exportSession (store : TuneSessionStore) (now : Nat) (id : String)
    (agentId contextId : Option String) :
    (store.exportSession t now id agentId contextId).1.runsOf =
      (store.evictExpired now).runsOf := by
  rw [← (get_cases store now id agentId contextId).1]
  unfold TuneSessionStore.exportSession
  rcases store.get now id agentId contextId with ⟨store', found⟩
  cases found with
  | none => rfl
  | some sess =>
    dsimp only
    split <;> rfl

section Operations

variable {store : TuneSessionStore} {now : Nat}
  (hlive : ∀ e ∈ store.sessions.entries, now - e.2.lastTouch < store.ttl)

include hlive

/-- `open` makes a session without runs, or it changes no run. -/
theorem openSession_cases (nanos : Nat) (agentId contextId : String) (sessionId : Option String) :
    (store.openSession t now nanos agentId contextId sessionId).1.runsOf = store.runsOf ∧
        ((store.openSession t now nanos agentId contextId sessionId).2.isOk →
          ∃ id, sessionId = some id) ∨
      sessionId = none ∧ (store.openSession t now nanos agentId contextId sessionId).2.isOk ∧
        (store.openSession t now nanos agentId contextId sessionId).1.runsOf =
          Function.update store.runsOf (TuneSessionStore.newId nanos store.nextId) (some []) := by
  unfold TuneSessionStore.openSession
  rw [evictExpired_eq hlive]
  cases sessionId with
  | none => exact .inr ⟨rfl, rfl, runsOf_put _ _ _⟩
  | some id =>
    refine .inl ⟨?_, fun _ => ⟨id, rfl⟩⟩
    dsimp only
    split
    · rfl
    · rename_i sess hsess
      split
      · rfl
      · split
        · rfl
        · exact runsOf_touch hsess rfl

theorem appendRun_cases (id : String) (agentId : Option String) (run : TuneRunRecord) :
    (∃ e, (store.appendRun t now id agentId run).2 = .error e) ∧
        (store.appendRun t now id agentId run).1.runsOf = store.runsOf ∨
      ∃ sess, store.sessions.lookup id = some sess ∧
        (store.appendRun t now id agentId run).2 = .ok () ∧
        (store.appendRun t now id agentId run).1.runsOf =
          Function.update store.runsOf id (some
            ((if run.selected then TuneRunRecord.unselectAll sess.runs else sess.runs) ++
              [run])) := by
  unfold TuneSessionStore.appendRun
  rw [evictExpired_eq hlive]
  dsimp only
  split
  · exact .inl ⟨⟨_, rfl⟩, rfl⟩
  · rename_i sess hsess
    split
    · exact .inl ⟨⟨_, rfl⟩, rfl⟩
    · exact .inr ⟨sess, hsess, rfl, runsOf_put _ _ _⟩

theorem selectRun_cases (id : String) (agentId : Option String) (runId : String) :
    ((∃ e, (store.selectRun t now id agentId runId).2 = .error e) ∧
        (store.selectRun t now id agentId runId).1.runsOf = store.runsOf ∧
        ∀ sess ∈ store.sessions.lookup id,
          (agentId.all fun agent => sess.agentId = agent) = false) ∨
      ∃ sess, store.sessions.lookup id = some sess ∧
        (agentId.all fun agent => sess.agentId = agent) = true ∧
        (store.selectRun t now id agentId runId).1.runsOf =
          Function.update store.runsOf id (some (TuneRunRecord.selectOnly runId sess.runs)) ∧
        ((store.selectRun t now id agentId runId).2 = .ok () ∧
            (∃ run ∈ sess.runs, run.runId = runId) ∨
          (∃ e, (store.selectRun t now id agentId runId).2 = .error e) ∧
            ∀ run ∈ sess.runs, run.runId ≠ runId) := by
  unfold TuneSessionStore.selectRun
  rw [evictExpired_eq hlive]
  dsimp only
  split
  · rename_i hnone
    refine .inl ⟨⟨_, rfl⟩, rfl, ?_⟩
    intro sess hsess
    rw [hnone] at hsess
    cases hsess
  · rename_i sess hsess
    split
    · rename_i e herror
      refine .inl ⟨⟨_, rfl⟩, rfl, ?_⟩
      intro sess' hsess'
      obtain rfl := Option.some.inj (hsess.symm.trans hsess')
      apply Bool.eq_false_iff.2
      intro hall
      rw [owned_eq_ok_iff.2 hall] at herror
      cases herror
    · rename_i howned
      refine .inr ⟨sess, hsess, owned_eq_ok_iff.1 howned, ?_⟩
      split
      · rename_i hany
        exact ⟨runsOf_put _ _ _, .inl ⟨rfl, by simpa using hany⟩⟩
      · rename_i hany
        exact ⟨runsOf_put _ _ _, .inr ⟨⟨_, rfl⟩, by simpa using hany⟩⟩

end Operations

theorem closeWithReason_cases (store : TuneSessionStore) (id : String)
    (agentId : Option String) :
    (∃ e, (store.closeWithReason t id agentId).2 = .error e) ∧
        (store.closeWithReason t id agentId).1.runsOf = store.runsOf ∨
      (store.closeWithReason t id agentId).2 = .ok () ∧
        (store.closeWithReason t id agentId).1.runsOf =
          Function.update store.runsOf id none := by
  unfold TuneSessionStore.closeWithReason
  split
  · exact .inl ⟨⟨_, rfl⟩, rfl⟩
  · split
    · exact .inl ⟨⟨_, rfl⟩, rfl⟩
    · exact .inr ⟨rfl, runsOf_erase _ _⟩

theorem effect_of_error {α : Type} {r : TuneSessionStore × Except String α}
    {runs' : String → Option (List TuneRunRecord)}
    (hr : h.store.apply t op = r.map id errorOf) (herror : ∃ e, r.2 = .error e)
    (hruns : r.1.runsOf = runs') (heffect : Effect h op true runs' h.chosen) :
    Effect h op (h.failed t op) (h.step t op).store.runsOf (h.step t op).chosen := by
  obtain ⟨e, herror⟩ := herror
  have hfailed : h.failed t op = true := by
    unfold failed
    rw [hr, Prod.map_snd, herror]
    rfl
  unfold step
  rw [hfailed, hr, Prod.map_fst]
  simpa only [id, hruns, if_true] using heffect

theorem effect_of_ok {α : Type} {r : TuneSessionStore × Except String α}
    {runs' : String → Option (List TuneRunRecord)}
    (hr : h.store.apply t op = r.map id errorOf) (hok : r.2.isOk)
    (hruns : r.1.runsOf = runs') (heffect : Effect h op false runs' (h.choose op)) :
    Effect h op (h.failed t op) (h.step t op).store.runsOf (h.step t op).chosen := by
  have hfailed : h.failed t op = false := by
    unfold failed
    rw [hr, Prod.map_snd]
    cases hresult : r.2 with
    | ok a => rfl
    | error e =>
      rw [hresult] at hok
      cases hok
  unfold step
  rw [hfailed, hr, Prod.map_fst]
  simpa only [id, hruns, Bool.false_eq_true, if_false] using heffect

theorem isOk_of_eq {α : Type} {r : Except String α} {a : α} (hr : r = .ok a) : r.isOk := by
  rw [hr]
  rfl

theorem effect_open (now nanos : Nat) (agentId contextId : String) (sessionId : Option String)
    (hexp : h.store.NoneExpires (.openSession now nanos agentId contextId sessionId)) :
    Effect h (.openSession now nanos agentId contextId sessionId)
      (h.failed t (.openSession now nanos agentId contextId sessionId))
      (h.step t (.openSession now nanos agentId contextId sessionId)).store.runsOf
      (h.step t (.openSession now nanos agentId contextId sessionId)).chosen := by
  rcases openSession_cases (t := t) (hexp now rfl) nanos agentId contextId sessionId with
    ⟨hruns, hreused⟩ | ⟨rfl, hok, hruns⟩
  · cases hresult : (h.store.openSession t now nanos agentId contextId sessionId).2 with
    | error e => exact effect_of_error rfl ⟨e, hresult⟩ hruns .same
    | ok sess =>
      obtain ⟨id, rfl⟩ := hreused (isOk_of_eq hresult)
      exact effect_of_ok rfl (isOk_of_eq hresult) hruns .same
  · exact effect_of_ok rfl hok hruns (.opened _)

theorem effect_export (now : Nat) (id : String) (agentId contextId : Option String)
    (hexp : h.store.NoneExpires (.exportSession now id agentId contextId)) :
    Effect h (.exportSession now id agentId contextId)
      (h.failed t (.exportSession now id agentId contextId))
      (h.step t (.exportSession now id agentId contextId)).store.runsOf
      (h.step t (.exportSession now id agentId contextId)).chosen := by
  have hruns := runsOf_exportSession (t := t) h.store now id agentId contextId
  rw [evictExpired_eq (hexp now rfl)] at hruns
  cases hresult : (h.store.exportSession t now id agentId contextId).2 with
  | error e => exact effect_of_error rfl ⟨e, hresult⟩ hruns .same
  | ok artifact => exact effect_of_ok rfl (isOk_of_eq hresult) hruns .same

theorem effect_select (now : Nat) (id : String) (agentId : Option String) (runId : String)
    (hexp : h.store.NoneExpires (.select now id agentId runId)) :
    Effect h (.select now id agentId runId) (h.failed t (.select now id agentId runId))
      (h.step t (.select now id agentId runId)).store.runsOf
      (h.step t (.select now id agentId runId)).chosen := by
  rcases selectRun_cases (t := t) (hexp now rfl) id agentId runId with
    ⟨herror, hruns, -⟩ | ⟨sess, hsess, hagent, hruns, hresult⟩
  · exact effect_of_error rfl herror hruns .same
  · have hold := runsOf_of_lookup hsess
    have hone (hok : h.SelectsOne (.select now id agentId runId)) :
        Selectable sess.runs runId := hok sess hsess hagent
    rcases hresult with ⟨hok, hhas⟩ | ⟨herror, hlacks⟩
    · apply effect_of_ok rfl (isOk_of_eq hok) hruns
      have hchosen : h.choose (.select now id agentId runId) = Function.update h.chosen id
          (sess.runs.findIdx? fun run => run.runId = runId) := by
        simp only [choose, hold, Option.bind_some]
      rw [hchosen]
      exact .selected hold hhas hone
    · exact effect_of_error rfl herror hruns (.cleared hold hlacks hone)

/-- Every operation has one of the effects. -/
theorem effect_step (hexp : h.store.NoneExpires op) :
    Effect h op (h.failed t op) (h.step t op).store.runsOf (h.step t op).chosen := by
  cases op with
  | openSession now nanos agentId contextId sessionId =>
    exact effect_open now nanos agentId contextId sessionId hexp
  | append now id agentId run =>
    rcases appendRun_cases (t := t) (hexp now rfl) id agentId run with
      ⟨herror, hruns⟩ | ⟨sess, hsess, hok, hruns⟩
    · exact effect_of_error rfl herror hruns .same
    · apply effect_of_ok rfl (isOk_of_eq hok) hruns
      have hold := runsOf_of_lookup hsess
      have hchosen : h.choose (.append now id agentId run) =
          if run.selected then Function.update h.chosen id (some sess.runs.length)
          else h.chosen := by
        simp only [choose, hold, Option.map_some]
      rw [hchosen]
      exact .appended run hold
  | select now id agentId runId => exact effect_select now id agentId runId hexp
  | exportSession now id agentId contextId => exact effect_export now id agentId contextId hexp
  | close id agentId =>
    rcases closeWithReason_cases (t := t) h.store id agentId with
      ⟨herror, hruns⟩ | ⟨hok, hruns⟩
    · exact effect_of_error rfl herror hruns .same
    · exact effect_of_ok rfl (isOk_of_eq hok) hruns (.closed id)

/-! ## The record and the flags -/

/-- The flag of a run says whether the record points to it. -/
structure Marked (runsOf : String → Option (List TuneRunRecord)) (chosen : String → Option Nat) :
    Prop where
  flag : ∀ id runs, runsOf id = some runs → ∀ (i : Nat) run, runs[i]? = some run →
    (run.selected = true ↔ chosen id = some i)
  within : ∀ id runs, runsOf id = some runs → ∀ i, chosen id = some i → i < runs.length

/-- A session that has other runs, and a record that points into them. -/
theorem Marked.update {runsOf : String → Option (List TuneRunRecord)}
    {chosen : String → Option Nat} (hm : Marked runsOf chosen) {id : String}
    {runs : List TuneRunRecord} {place : Option Nat}
    (hflag : ∀ (i : Nat) run, runs[i]? = some run → (run.selected = true ↔ place = some i))
    (hwithin : ∀ i, place = some i → i < runs.length) :
    Marked (Function.update runsOf id (some runs)) (Function.update chosen id place) where
  flag other runs' hruns i run hrun := by
    by_cases heq : other = id
    · subst heq
      rw [Function.update_self] at hruns ⊢
      obtain rfl := Option.some.inj hruns
      exact hflag i run hrun
    · rw [Function.update_of_ne heq] at hruns ⊢
      exact hm.flag other runs' hruns i run hrun
  within other runs' hruns i hplace := by
    by_cases heq : other = id
    · subst heq
      rw [Function.update_self] at hruns hplace
      obtain rfl := Option.some.inj hruns
      exact hwithin i hplace
    · rw [Function.update_of_ne heq] at hruns hplace
      exact hm.within other runs' hruns i hplace

theorem Marked.update_runs {runsOf : String → Option (List TuneRunRecord)}
    {chosen : String → Option Nat} (hm : Marked runsOf chosen) {id : String}
    {runs : List TuneRunRecord}
    (hflag : ∀ (i : Nat) run, runs[i]? = some run → (run.selected = true ↔ chosen id = some i))
    (hwithin : ∀ i, chosen id = some i → i < runs.length) :
    Marked (Function.update runsOf id (some runs)) chosen := by
  have hupdate : Marked (Function.update runsOf id (some runs))
      (Function.update chosen id (chosen id)) := hm.update hflag hwithin
  rwa [Function.update_eq_self] at hupdate

theorem Marked.erase {runsOf : String → Option (List TuneRunRecord)}
    {chosen : String → Option Nat} (hm : Marked runsOf chosen) (id : String) :
    Marked (Function.update runsOf id none) chosen where
  flag other runs hruns := by
    by_cases heq : other = id
    · rw [heq, Function.update_self] at hruns
      cases hruns
    · rw [Function.update_of_ne heq] at hruns
      exact hm.flag other runs hruns
  within other runs hruns := by
    by_cases heq : other = id
    · rw [heq, Function.update_self] at hruns
      cases hruns
    · rw [Function.update_of_ne heq] at hruns
      exact hm.within other runs hruns

theorem flag_append {runs : List TuneRunRecord} {run : TuneRunRecord} {place : Option Nat}
    (hold : ∀ (i : Nat) r, runs[i]? = some r → (r.selected = true ↔ place = some i))
    (hrun : run.selected = true ↔ place = some runs.length) (i : Nat) (r : TuneRunRecord)
    (hr : (runs ++ [run])[i]? = some r) : r.selected = true ↔ place = some i := by
  rcases Nat.lt_trichotomy i runs.length with hlt | rfl | hgt
  · rw [List.getElem?_append_left hlt] at hr
    exact hold i r hr
  · rw [List.getElem?_concat_length] at hr
    rw [← Option.some.inj hr]
    exact hrun
  · rw [List.getElem?_eq_none (by simp; omega)] at hr
    cases hr

theorem getElem?_unselectAll {runs : List TuneRunRecord} {i : Nat} {r : TuneRunRecord}
    (hr : (TuneRunRecord.unselectAll runs)[i]? = some r) : r.selected = false := by
  rw [TuneRunRecord.unselectAll, List.getElem?_map] at hr
  obtain ⟨r', -, rfl⟩ := Option.map_eq_some_iff.1 hr
  rfl

theorem length_unselectAll (runs : List TuneRunRecord) :
    (TuneRunRecord.unselectAll runs).length = runs.length := List.length_map _

theorem length_selectOnly (runId : String) (runs : List TuneRunRecord) :
    (TuneRunRecord.selectOnly runId runs).length = runs.length := List.length_map _

theorem flag_selectOnly {runs : List TuneRunRecord} {runId : String}
    (hone : runs.Pairwise fun a b => ¬ (a.runId = runId ∧ b.runId = runId)) (i : Nat)
    (r : TuneRunRecord) (hr : (TuneRunRecord.selectOnly runId runs)[i]? = some r) :
    r.selected = true ↔ (runs.findIdx? fun run => run.runId = runId) = some i := by
  rw [TuneRunRecord.selectOnly, List.getElem?_map] at hr
  obtain ⟨run, hrun, rfl⟩ := Option.map_eq_some_iff.1 hr
  obtain ⟨hi, hget⟩ := List.getElem?_eq_some_iff.1 hrun
  rw [List.findIdx?_eq_some_iff_getElem]
  simp only [decide_eq_true_eq]
  constructor
  · intro heq
    refine ⟨hi, by rw [hget]; exact heq, ?_⟩
    intro j hj heq'
    exact List.pairwise_iff_getElem.1 hone j i (hj.trans hi) hi hj ⟨heq', by rw [hget]; exact heq⟩
  · rintro ⟨_, heq, -⟩
    rw [hget] at heq
    exact heq

theorem selectOnly_of_lacks {runs : List TuneRunRecord} {runId : String}
    (hlacks : ∀ run ∈ runs, run.runId ≠ runId) (hnone : ∀ run ∈ runs, run.selected = false) :
    TuneRunRecord.selectOnly runId runs = runs := by
  have hid : ∀ run ∈ runs, { run with selected := decide (run.runId = runId) } = id run := by
    intro run hrun
    rw [decide_eq_false (hlacks run hrun), ← hnone run hrun]
    rfl
  exact (List.map_congr_left hid).trans (List.map_id _)

theorem marked_append (hm : Marked h.store.runsOf h.chosen) {id : String}
    {runs : List TuneRunRecord} (hruns : h.store.runsOf id = some runs) (run : TuneRunRecord) :
    Marked
      (Function.update h.store.runsOf id (some
        ((if run.selected then TuneRunRecord.unselectAll runs else runs) ++ [run])))
      (if run.selected then Function.update h.chosen id (some runs.length) else h.chosen) := by
  cases hselected : run.selected with
  | true =>
    simp only [if_true]
    apply hm.update
    · apply flag_append
      · intro i r hr
        have hlt : i < (TuneRunRecord.unselectAll runs).length :=
          (List.getElem?_eq_some_iff.1 hr).1
        rw [length_unselectAll] at hlt
        rw [getElem?_unselectAll hr, Option.some.injEq]
        simp only [Bool.false_eq_true, false_iff]
        omega
      · simp [length_unselectAll, hselected]
    · intro i hi
      rw [List.length_append, length_unselectAll, ← Option.some.inj hi]
      exact Nat.lt_succ_self _
  | false =>
    simp only [Bool.false_eq_true, if_false]
    apply hm.update_runs
    · apply flag_append (hm.flag id runs hruns)
      rw [hselected]
      simp only [Bool.false_eq_true, false_iff]
      intro hlast
      exact absurd (hm.within id runs hruns _ hlast) (Nat.lt_irrefl _)
    · intro i hi
      rw [List.length_append]
      exact Nat.lt_add_right _ (hm.within id runs hruns i hi)

theorem marked_of_effect {failed : Bool} {runs' : String → Option (List TuneRunRecord)}
    {chosen' : String → Option Nat} (hm : Marked h.store.runsOf h.chosen)
    (heffect : Effect h op failed runs' chosen') (hok : h.SelectsOne op) :
    Marked runs' chosen' ∧ (failed = true → runs' = h.store.runsOf) := by
  cases heffect with
  | same => exact ⟨hm, fun _ => rfl⟩
  | opened id =>
    refine ⟨hm.update ?_ ?_, by simp⟩
    · intro i run hrun
      cases hrun
    · intro i hi
      cases hi
  | appended run hruns => exact ⟨marked_append hm hruns run, by simp⟩
  | selected hruns hhas hone =>
    refine ⟨hm.update (flag_selectOnly (hone hok).1) ?_, by simp⟩
    intro i hi
    rw [length_selectOnly]
    exact (List.findIdx?_eq_some_iff_getElem.1 hi).1
  | @cleared id runId runs hruns hlacks hone =>
    have hnone : ∀ run ∈ runs, run.selected = false := by
      apply (hone hok).2.resolve_left
      rintro ⟨run, hrun, heq⟩
      exact hlacks run hrun heq
    rw [selectOnly_of_lacks hlacks hnone, ← hruns, Function.update_eq_self]
    exact ⟨hm, fun _ => rfl⟩
  | closed id => exact ⟨hm.erase id, by simp⟩

/-- With the flags as recorded the exported run is the recorded one, or else the last one. -/
theorem toExport_of_marked (hm : Marked h.store.runsOf h.chosen) {id : String}
    {runs : List TuneRunRecord} (hruns : h.store.runsOf id = some runs) :
    TuneRunRecord.toExport runs = h.winner id runs := by
  unfold TuneRunRecord.toExport winner
  cases hfound : runs.reverse.find? TuneRunRecord.selected with
  | some run =>
    have hselected : run.selected = true := List.find?_some hfound
    have hmem : run ∈ runs := List.mem_reverse.1 (List.mem_of_find?_eq_some hfound)
    obtain ⟨i, hi⟩ := List.mem_iff_getElem?.1 hmem
    rw [(hm.flag id runs hruns i run hi).1 hselected]
    exact hi.symm
  | none =>
    have hnone : h.chosen id = none := by
      cases hchosen : h.chosen id with
      | none => rfl
      | some i =>
        have hlt := hm.within id runs hruns i hchosen
        have hselected := (hm.flag id runs hruns i runs[i] (List.getElem?_eq_getElem hlt)).2 hchosen
        have hmem : runs[i] ∈ runs.reverse := List.mem_reverse.2 (List.getElem_mem hlt)
        exact absurd hselected (List.find?_eq_none.1 hfound _ hmem)
    rw [hnone]
    rfl

/-- What `get` still finds after an eviction had the same runs before. -/
theorem runsOf_of_evicted {store : TuneSessionStore} {now : Nat} {id : String}
    {runs : List TuneRunRecord} (hruns : (store.evictExpired now).runsOf id = some runs) :
    store.runsOf id = some runs := by
  obtain ⟨sess, hsess, rfl⟩ := Option.map_eq_some_iff.1 hruns
  have hmem : (⟨id, sess⟩ : Sigma fun _ => TuneSession) ∈ store.sessions.entries :=
    (List.mem_filter.1 (AList.mem_lookup_iff.1 hsess)).1
  exact runsOf_of_lookup (AList.mem_lookup_iff.2 hmem)

theorem lawful_of_marked (hm : Marked h.store.runsOf h.chosen) : h.Lawful t where
  atMostOne id runs hruns := by
    apply List.pairwise_iff_getElem.2
    rintro i j hi hj hlt ⟨hselected, hselected'⟩
    have hplace := (hm.flag id runs hruns i _ (List.getElem?_eq_getElem hi)).1 hselected
    have hplace' := (hm.flag id runs hruns j _ (List.getElem?_eq_getElem hj)).1 hselected'
    rw [hplace] at hplace'
    exact absurd (Option.some.inj hplace') (Nat.ne_of_lt hlt)
  exports now id agentId contextId sess hsess := by
    have hruns := runsOf_of_evicted ((get_cases _ _ _ _ _).2 sess hsess)
    rw [← toExport_of_marked hm hruns]
    unfold TuneSessionStore.exportSession
    rcases hget : h.store.get now id agentId contextId with ⟨store', found⟩
    rw [hget] at hsess
    obtain rfl := hsess
    dsimp only
    cases TuneRunRecord.toExport sess.runs <;> rfl

theorem keeps_of_selectsOne (hexp : h.store.NoneExpires op)
    (hm : Marked h.store.runsOf h.chosen) (hok : h.SelectsOne op) :
    h.Keeps t op ∧ Marked (h.step t op).store.runsOf (h.step t op).chosen := by
  obtain ⟨hmarked, hfailed⟩ := marked_of_effect hm (effect_step (t := t) hexp) hok
  exact ⟨⟨hfailed, lawful_of_marked hmarked⟩, hmarked⟩

theorem selectsOne_of_keeps (hexp : h.store.NoneExpires op) (hkeeps : h.Keeps t op) :
    h.SelectsOne op := by
  cases op with
  | select now id agentId runId =>
    intro sess hsess hagent
    rcases selectRun_cases (t := t) (hexp now rfl) id agentId runId with
      ⟨-, -, hother⟩ | ⟨sess', hsess', -, hruns, hresult⟩
    · rw [hother sess hsess] at hagent
      cases hagent
    · obtain rfl := Option.some.inj (hsess'.symm.trans hsess)
      have hstep : (h.step t (.select now id agentId runId)).store.runsOf =
          Function.update h.store.runsOf id
            (some (TuneRunRecord.selectOnly runId sess'.runs)) := hruns
      have hpairs : sess'.runs.Pairwise fun a b => ¬ (a.runId = runId ∧ b.runId = runId) := by
        have hpairs := hkeeps.2.atMostOne id (TuneRunRecord.selectOnly runId sess'.runs)
          (by rw [hstep, Function.update_self])
        simpa [TuneRunRecord.selectOnly, List.pairwise_map] using hpairs
      refine ⟨hpairs, ?_⟩
      rcases hresult with ⟨-, hhas⟩ | ⟨⟨e, herror⟩, hlacks⟩
      · exact .inl hhas
      · right
        have hfailed : h.failed t (.select now id agentId runId) = true := by
          simp [failed, TuneSessionStore.apply, herror, errorOf]
        have hsame := hkeeps.1 hfailed
        rw [hstep] at hsame
        have hruns' := congrFun hsame id
        rw [Function.update_self, runsOf_of_lookup hsess'] at hruns'
        intro run hrun
        rw [← Option.some.inj hruns'] at hrun
        obtain ⟨run', hrun', rfl⟩ := List.mem_map.1 hrun
        exact decide_eq_false (hlacks run' hrun')
  | _ => trivial

def fresh (store : TuneSessionStore) : SessionHistory := ⟨store, fun _ => none⟩

def Recorded (h : SessionHistory) : Prop := Marked h.store.runsOf h.chosen

theorem recorded_fresh {store : TuneSessionStore}
    (hnew : ∀ id runs, store.runsOf id = some runs → runs = []) :
    (fresh store).Recorded where
  flag id runs hruns i run hrun := by
    rw [hnew id runs hruns] at hrun
    cases hrun
  within id runs hruns i hi := by cases hi

/-- Errors change nothing, at most one run is selected and it is exported, exactly if every
`select_run` names a run that its session has once, or that it lacks while none is selected. -/
theorem keeps_iff_selectsOne {store : TuneSessionStore}
    (hnew : ∀ id runs, store.runsOf id = some runs → runs = []) (ops : List SessionOp)
    (hexp : AllSteps (step t) (fun h op => h.store.NoneExpires op) (fresh store) ops) :
    AllSteps (step t) (Keeps t) (fresh store) ops ↔
      AllSteps (step t) SelectsOne (fresh store) ops := by
  apply allSteps_congr _ _ (recorded_fresh hnew) hexp
  · intro h op hexp hm
    exact ⟨selectsOne_of_keeps hexp, fun hok => (keeps_of_selectsOne hexp hm hok).1⟩
  · intro h op hexp hm hok
    exact (keeps_of_selectsOne hexp hm hok).2

def sampleRun (runId : String) (selected : Bool) : TuneRunRecord :=
  ⟨runId, "scope_tune", .object [("mode", .string runId)], .null, selected⟩

/-- A store with one session, opened at time zero. -/
def sampleStore : TuneSessionStore where
  sessions := (∅ : AList fun _ : String => TuneSession).insert "s" ⟨"s", "a", "docs", 0, 0, []⟩
  ttl := 3600
  nextId := 2

/-- Texts for numbers that are all one half. -/
def plainText : TuneText where
  debug s := "\"" ++ s ++ "\""
  display literal := literal
  asF32 _ := .finite (1 / 2)
  literal _ := "0.5"
  quotient _ _ := "0.5"

theorem sampleStore_new (id : String) (runs : List TuneRunRecord)
    (hruns : sampleStore.runsOf id = some runs) : runs = [] := by
  obtain ⟨sess, hsess, rfl⟩ := Option.map_eq_some_iff.1 hruns
  have hmem := AList.mem_lookup_iff.1 hsess
  obtain heq | hnil := List.mem_cons.1 hmem
  · cases heq
    rfl
  · cases hnil

/-- Two runs, of which the first one is selected, and an export. -/
def sampleOps : List SessionOp :=
  [.append 1 "s" (some "a") (sampleRun "r1" false), .append 2 "s" none (sampleRun "r2" true),
    .select 3 "s" none "r1", .select 4 "s" (some "b") "r2", .exportSession 5 "s" none none]

theorem sample_selects_one :
    AllSteps (step plainText) (Keeps plainText) (fresh sampleStore) sampleOps :=
  (keeps_iff_selectsOne sampleStore_new sampleOps (by decide +kernel)).2 (by decide +kernel)

/-- A run that is not there takes the selection with it. -/
theorem unknown_run_clears :
    ¬ ∀ (t : TuneText) (store : TuneSessionStore) (ops : List SessionOp),
      (∀ id runs, store.runsOf id = some runs → runs = []) →
        AllSteps (step t) (fun h op => h.store.NoneExpires op) (fresh store) ops →
          AllSteps (step t) (Keeps t) (fresh store) ops := by
  intro h
  have hkeeps := h plainText sampleStore
    [.append 1 "s" none (sampleRun "r1" true), .select 2 "s" none "r2"] sampleStore_new
    (by decide +kernel)
  have hsame := hkeeps.2.1.1 (by decide +kernel)
  have hruns := congrArg (Option.map (List.map TuneRunRecord.selected)) (congrFun hsame "s")
  exact absurd hruns (by decide +kernel)

end SessionHistory

end Conproxy
