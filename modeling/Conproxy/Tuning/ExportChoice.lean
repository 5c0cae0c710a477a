import Conproxy.Tuning.CacheTune
import Conproxy.Tuning.CascadeTune
import Conproxy.Tuning.RateLimitTune
import Conproxy.Tuning.ScopeTune

/-!
# Whose run is exported

All tools record their runs in one list, and without a selection the last run is exported. What is
exported of a run that is not about a scope is the empty scope.
-/

namespace Conproxy

open Checks Machine SessionHistory

set_option autoImplicit false

inductive ToolCall where
  | scope (params : ScopeTuneParams)
  | cache (params : CacheTuneParams)
  | cascade (params : CascadeTuneParams)
  | rateLimit (params : RateLimitTuneParams)

inductive TuneStep where
  | openSession (now nanos : Nat) (agentId contextId : String) (sessionId : Option String)
  | call (clock : ToolClock) (tool : ToolCall)
  | exportSession (now : Nat) (sessionId : String) (agentId contextId : Option String)
  | close (sessionId : String) (agentId : Option String)

def lastScopeRun (runs : List TuneRunRecord) : Option TuneRunRecord :=
  runs.reverse.find? fun run => run.tool = "scope_tune"

section Choice

variable (A D : F32Arith) (u : CaseTables) (t : TuneText)

/-- What a tool records. `D` is the arithmetic of `f64`. -/
def ToolCall.run (nanos : Nat) : ToolCall → TuneRunRecord
  | .scope params => params.run A u t nanos
  | .cache params => params.run t nanos
  | .cascade params => params.run t nanos
  | .rateLimit params => params.run D t nanos

def ToolCall.apply (store : TuneSessionStore) (clock : ToolClock) :
    ToolCall → TuneSessionStore
  | .scope params => (scopeTune A u t store clock params).1
  | .cache params => (cacheTune t store clock params).1
  | .cascade params => (cascadeTune t store clock params).1
  | .rateLimit params => (rateLimitTune D t store clock params).1

namespace TuneSessionStore

def step (store : TuneSessionStore) : TuneStep → TuneSessionStore
  | .openSession now nanos agentId contextId sessionId =>
    (store.openSession t now nanos agentId contextId sessionId).1
  | .call clock tool => tool.apply A D u t store clock
  | .exportSession now sessionId agentId contextId =>
    (store.exportSession t now sessionId agentId contextId).1
  | .close sessionId agentId => (store.closeWithReason t sessionId agentId).1

/-- Every run was recorded by a tool. -/
def FromTools (store : TuneSessionStore) : Prop :=
  ∀ id runs, store.runsOf id = some runs → ∀ run ∈ runs, ∃ nanos tool,
    run = ToolCall.run A D u t nanos tool

def LastScope (runs : List TuneRunRecord) (params : ScopeTuneParams) : Prop :=
  ∃ nanos, lastScopeRun runs = some (params.run A u t nanos)

/-- What is exported, and what is written with it, is the scope of the last run of `scope_tune`. -/
structure ExportsScope (store : TuneSessionStore) (now : Nat) (id : String)
    (agentId contextId : Option String) : Prop where
  exported : ∀ artifact, (store.exportSession t now id agentId contextId).2 = .ok artifact →
    ∃ sess params, (store.get now id agentId contextId).2 = some sess ∧
      LastScope A u t sess.runs params ∧ artifact.scope = params.scopeJson A u t
  applied : ∀ (codec : Codec Json) text disk configPath disk' report,
    applyTuneExport codec u text disk ((store.exportSession t now id agentId contextId).2.map
        SessionExport.toTuneExportArtifact) configPath = .ok (disk', report) →
      ∃ sess params config scope, (store.get now id agentId contextId).2 = some sess ∧
        LastScope A u t sess.runs params ∧
        loadTuned codec u text disk configPath = .ok config ∧
        codec.scopeOf (params.scopeJson A u t) = .ok scope ∧
        saveTuned codec disk configPath (config.upsertScope sess.contextId scope) = .ok disk'

/-- The last run, if there is one, is a run of `scope_tune`. -/
def LastIsScope (store : TuneSessionStore) (now : Nat) (id : String)
    (agentId contextId : Option String) : Prop :=
  ∀ sess ∈ (store.get now id agentId contextId).2, ∀ run ∈ sess.runs.getLast?,
    run.tool = "scope_tune"

variable {A D : F32Arith} {u : CaseTables} {t : TuneText} {store : TuneSessionStore}

theorem live_evictExpired (store : TuneSessionStore) (now : Nat) :
    ∀ e ∈ (store.evictExpired now).sessions.entries,
      now - e.2.lastTouch < (store.evictExpired now).ttl := by
  intro e he
  exact of_decide_eq_true (List.mem_filter.1 he).2

theorem evictExpired_evictExpired (store : TuneSessionStore) (now : Nat) :
    (store.evictExpired now).evictExpired now = store.evictExpired now :=
  evictExpired_eq (live_evictExpired store now)

theorem FromTools.evictExpired (h : store.FromTools A D u t) (now : Nat) :
    (store.evictExpired now).FromTools A D u t :=
  fun id runs hruns => h id runs (runsOf_of_evicted hruns)

theorem FromTools.of_runsOf {store' : TuneSessionStore} (h : store.FromTools A D u t)
    (hruns : store'.runsOf = store.runsOf) : store'.FromTools A D u t := by
  unfold FromTools
  rw [hruns]
  exact h

theorem FromTools.update {store' : TuneSessionStore} (h : store.FromTools A D u t) {id : String}
    {runs : Option (List TuneRunRecord)}
    (hruns : store'.runsOf = Function.update store.runsOf id runs)
    (hfrom : ∀ list ∈ runs, ∀ run ∈ list, ∃ nanos tool, run = ToolCall.run A D u t nanos tool) :
    store'.FromTools A D u t := by
  intro other list hlist
  rw [hruns] at hlist
  by_cases heq : other = id
  · rw [heq, Function.update_self] at hlist
    exact hfrom list hlist
  · rw [Function.update_of_ne heq] at hlist
    exact h other list hlist

theorem fromTools_get (h : store.FromTools A D u t) (now : Nat) (id : String)
    (agentId contextId : Option String) :
    (store.get now id agentId contextId).1.FromTools A D u t :=
  (h.evictExpired now).of_runsOf (get_cases store now id agentId contextId).1

theorem fromTools_openSession (h : store.FromTools A D u t) (now nanos : Nat)
    (agentId contextId : String) (sessionId : Option String) :
    (store.openSession t now nanos agentId contextId sessionId).1.FromTools A D u t := by
  have hsame : (store.evictExpired now).openSession t now nanos agentId contextId sessionId =
      store.openSession t now nanos agentId contextId sessionId := by
    unfold openSession
    rw [evictExpired_evictExpired]
  rw [← hsame]
  rcases openSession_cases (t := t) (live_evictExpired store now) nanos agentId contextId
    sessionId with ⟨hruns, -⟩ | ⟨-, -, hruns⟩
  · exact (h.evictExpired now).of_runsOf hruns
  · apply (h.evictExpired now).update hruns
    intro list hlist run hrun
    rw [← Option.some.inj hlist] at hrun
    cases hrun

theorem selected_run (nanos : Nat) (tool : ToolCall) :
    (tool.run A D u t nanos).selected = false := by
  cases tool <;> rfl

theorem fromTools_appendRun (h : store.FromTools A D u t) (now nanos : Nat) (id : String)
    (agentId : Option String) (tool : ToolCall) :
    (store.appendRun t now id agentId (tool.run A D u t nanos)).1.FromTools A D u t := by
  have hsame : (store.evictExpired now).appendRun t now id agentId (tool.run A D u t nanos) =
      store.appendRun t now id agentId (tool.run A D u t nanos) := by
    unfold appendRun
    rw [evictExpired_evictExpired]
  rw [← hsame]
  rcases appendRun_cases (t := t) (live_evictExpired store now) id agentId
    (tool.run A D u t nanos) with ⟨-, hruns⟩ | ⟨sess, hsess, -, hruns⟩
  · exact (h.evictExpired now).of_runsOf hruns
  · apply (h.evictExpired now).update hruns
    intro list hlist run hrun
    rw [← Option.some.inj hlist, selected_run] at hrun
    rcases List.mem_append.1 hrun with hold | hnew
    · exact h.evictExpired now id sess.runs (runsOf_of_lookup hsess) run hold
    · exact ⟨nanos, tool, List.mem_singleton.1 hnew⟩

theorem fromTools_runTool {ρ : Type} (h : store.FromTools A D u t) {clock : ToolClock}
    {id : String} {agentId contextId : Option String} {tool : ToolCall}
    {work : Except String (TuneRunRecord × ρ)}
    (hwork : ∀ run report, work = .ok (run, report) → run = tool.run A D u t clock.nanos) :
    (runTool t store clock id agentId contextId work).1.FromTools A D u t := by
  have hget := fromTools_get h clock.lookedUp id agentId contextId
  unfold runTool
  rcases hfound : store.get clock.lookedUp id agentId contextId with ⟨store', found⟩
  rw [hfound] at hget
  cases found with
  | none => exact hget
  | some sess =>
    cases work with
    | error e => exact hget
    | ok done =>
      obtain ⟨run, report⟩ := done
      obtain rfl := hwork run report rfl
      have happend := fromTools_appendRun hget clock.recorded clock.nanos id agentId tool
      dsimp only
      split
      · rename_i hresult
        rw [hresult] at happend
        exact happend
      · rename_i hresult
        rw [hresult] at happend
        exact happend

theorem eq_of_checked {α : Type} {a b : Prop} [Decidable a] [Decidable b] {e e' : String} {x y : α}
    (h : (if a then .error e else if b then .error e' else .ok x : Except String α) = .ok y) :
    y = x := by
  split at h
  · cases h
  · split at h
    · cases h
    · exact (Except.ok.inj h).symm

theorem fromTools_apply (h : store.FromTools A D u t) (clock : ToolClock) (tool : ToolCall) :
    (tool.apply A D u t store clock).FromTools A D u t := by
  cases tool with
  | scope params =>
    have hwork (run : TuneRunRecord) (report : ScopeTuneReport)
        (hok : params.work A u t clock.nanos = .ok (run, report)) :
        run = ToolCall.run A D u t clock.nanos (.scope params) :=
      congrArg Prod.fst (eq_of_checked hok)
    exact fromTools_runTool h hwork
  | cache params =>
    have hwork (run : TuneRunRecord) (report : CacheTuneReport)
        (hok : params.work t clock.nanos = .ok (run, report)) :
        run = ToolCall.run A D u t clock.nanos (.cache params) :=
      congrArg Prod.fst (eq_of_checked hok)
    exact fromTools_runTool h hwork
  | cascade params =>
    have hwork (run : TuneRunRecord) (report : CascadeTuneReport)
        (hok : params.work t clock.nanos = .ok (run, report)) :
        run = ToolCall.run A D u t clock.nanos (.cascade params) :=
      congrArg Prod.fst (eq_of_checked hok)
    exact fromTools_runTool h hwork
  | rateLimit params =>
    have hwork (run : TuneRunRecord) (report : RateLimitTuneReport)
        (hok : params.work D t clock.nanos = .ok (run, report)) :
        run = ToolCall.run A D u t clock.nanos (.rateLimit params) :=
      congrArg Prod.fst (eq_of_checked hok)
    exact fromTools_runTool h hwork

theorem fromTools_step (h : store.FromTools A D u t) (op : TuneStep) :
    (store.step A D u t op).FromTools A D u t := by
  cases op with
  | openSession now nanos agentId contextId sessionId =>
    exact fromTools_openSession h now nanos agentId contextId sessionId
  | call clock tool => exact fromTools_apply h clock tool
  | exportSession now id agentId contextId =>
    exact (h.evictExpired now).of_runsOf (runsOf_exportSession store now id agentId contextId)
  | close id agentId =>
    rcases closeWithReason_cases (t := t) store id agentId with ⟨-, hruns⟩ | ⟨-, hruns⟩
    · exact h.of_runsOf hruns
    · apply h.update hruns
      intro list hlist
      cases hlist

theorem fromTools_new (ttlSecs : Nat) : (new ttlSecs).FromTools A D u t := by
  intro id runs hruns
  cases hruns

theorem fromTools_run (ttlSecs : Nat) (steps : List TuneStep) :
    (Machine.run (step A D u t) (new ttlSecs) steps).FromTools A D u t := by
  have hstep (s : TuneSessionStore) (op : TuneStep) (h : s.FromTools A D u t) :
      (s.step A D u t op).FromTools A D u t := fromTools_step h op
  exact run_preserves hstep (fromTools_new ttlSecs) steps

theorem toExport_of_unselected {runs : List TuneRunRecord}
    (hnone : ∀ run ∈ runs, run.selected = false) :
    TuneRunRecord.toExport runs = runs.getLast? := by
  have hfind : runs.reverse.find? TuneRunRecord.selected = none := by
    apply List.find?_eq_none.2
    intro run hrun
    rw [hnone run (List.mem_reverse.1 hrun)]
    exact Bool.false_ne_true
  unfold TuneRunRecord.toExport
  rw [hfind, Option.none_or]

theorem exportSession_eq_ok_iff {now : Nat} {id : String} {agentId contextId : Option String}
    {artifact : SessionExport} :
    (store.exportSession t now id agentId contextId).2 = .ok artifact ↔
      ∃ sess run, (store.get now id agentId contextId).2 = some sess ∧
        TuneRunRecord.toExport sess.runs = some run ∧ artifact = sess.artifact t run := by
  unfold exportSession
  rcases store.get now id agentId contextId with ⟨store', found⟩
  cases found with
  | none => simp
  | some sess =>
    dsimp only
    split
    · rename_i hrun
      simp [hrun]
    · rename_i run hrun
      constructor
      · intro hok
        exact ⟨sess, run, rfl, hrun, (Except.ok.inj hok).symm⟩
      · rintro ⟨sess', run', hsess, hrun', rfl⟩
        obtain rfl := Option.some.inj hsess
        rw [Option.some.inj (hrun.symm.trans hrun')]

theorem lastScopeRun_of_last {runs : List TuneRunRecord} {run : TuneRunRecord}
    (hlast : runs.getLast? = some run) (htool : run.tool = "scope_tune") :
    lastScopeRun runs = some run := by
  obtain ⟨init, rfl⟩ := List.getLast?_eq_some_iff.1 hlast
  unfold lastScopeRun
  rw [List.reverse_append]
  exact List.find?_cons_of_pos (decide_eq_true htool)

theorem exists_params {nanos : Nat} {tool : ToolCall}
    (htool : (tool.run A D u t nanos).tool = "scope_tune") :
    ∃ params : ScopeTuneParams, tool.run A D u t nanos = params.run A u t nanos := by
  cases tool with
  | scope params => exact ⟨params, rfl⟩
  | cache params => exact absurd (show "cache_tune" = "scope_tune" from htool) (by decide)
  | cascade params => exact absurd (show "cascade_tune" = "scope_tune" from htool) (by decide)
  | rateLimit params => exact absurd (show "rate_limit_tune" = "scope_tune" from htool) (by decide)

theorem exportedScope_of_other {nanos : Nat} {tool : ToolCall}
    (htool : (tool.run A D u t nanos).tool ≠ "scope_tune") :
    exportedScope (tool.run A D u t nanos).params = .object [] := by
  cases tool with
  | scope params => exact absurd rfl htool
  | _ => rfl

section Export

variable {now : Nat} {id : String} {agentId contextId : Option String}

theorem exported_run (h : store.FromTools A D u t) {sess : TuneSession}
    (hsess : (store.get now id agentId contextId).2 = some sess) :
    TuneRunRecord.toExport sess.runs = sess.runs.getLast? ∧
      ∀ run ∈ sess.runs, ∃ nanos tool, run = ToolCall.run A D u t nanos tool := by
  have hruns := runsOf_of_evicted ((get_cases _ _ _ _ _).2 sess hsess)
  have hfrom := h id sess.runs hruns
  refine ⟨toExport_of_unselected ?_, hfrom⟩
  intro run hrun
  obtain ⟨nanos, tool, rfl⟩ := hfrom run hrun
  exact selected_run nanos tool

theorem exported_of_last (h : store.FromTools A D u t)
    (hlast : store.LastIsScope now id agentId contextId) {artifact : SessionExport}
    (hexport : (store.exportSession t now id agentId contextId).2 = .ok artifact) :
    ∃ sess params, (store.get now id agentId contextId).2 = some sess ∧
      LastScope A u t sess.runs params ∧ artifact.scope = params.scopeJson A u t ∧
        artifact.contextId = sess.contextId := by
  obtain ⟨sess, run, hsess, hrun, rfl⟩ := exportSession_eq_ok_iff.1 hexport
  obtain ⟨hchoice, hfrom⟩ := exported_run h hsess
  rw [hchoice] at hrun
  have htool := hlast sess hsess run hrun
  obtain ⟨nanos, tool, rfl⟩ := hfrom run (List.mem_of_getLast? hrun)
  obtain ⟨params, hparams⟩ := exists_params htool
  refine ⟨sess, params, hsess, ⟨nanos, ?_⟩, ?_, rfl⟩
  · rw [← hparams]
    exact lastScopeRun_of_last hrun htool
  · have hscope : exportedScope (params.run A u t nanos).params = params.scopeJson A u t :=
      exportedScope_json params
    rw [← hscope, ← hparams]
    rfl

theorem exportsScope_of_last (h : store.FromTools A D u t)
    (hlast : store.LastIsScope now id agentId contextId) :
    store.ExportsScope A u t now id agentId contextId where
  exported artifact hexport := by
    obtain ⟨sess, params, hsess, hscope, heq, -⟩ := exported_of_last h hlast hexport
    exact ⟨sess, params, hsess, hscope, heq⟩
  applied codec text disk configPath disk' report happly := by
    obtain ⟨artifact, hartifact, happly⟩ := bind_result_eq_ok_iff.1 happly
    obtain ⟨config, scope, written, hload, hread, hsave, hresult⟩ :=
      applyExportArtifact_eq_ok_iff.1 happly
    cases hresult
    cases hexport : (store.exportSession t now id agentId contextId).2 with
    | error e =>
      rw [hexport] at hartifact
      cases hartifact
    | ok exported =>
      rw [hexport] at hartifact
      cases hartifact
      obtain ⟨sess, params, hsess, hscope, heq, hcontext⟩ := exported_of_last h hlast hexport
      rw [heq] at hread
      rw [hcontext] at hsave
      exact ⟨sess, params, config, scope, hsess, hscope, hload, hread, hsave⟩

theorem last_of_exportsScope (h : store.FromTools A D u t)
    (hexports : store.ExportsScope A u t now id agentId contextId) :
    store.LastIsScope now id agentId contextId := by
  intro sess hsess run hrun
  by_contra htool
  obtain ⟨hchoice, hfrom⟩ := exported_run h hsess
  have hexport : (store.exportSession t now id agentId contextId).2 =
      .ok (sess.artifact t run) :=
    exportSession_eq_ok_iff.2 ⟨sess, run, hsess, hchoice.trans hrun, rfl⟩
  obtain ⟨-, params, -, -, heq⟩ := hexports.exported _ hexport
  obtain ⟨nanos, tool, rfl⟩ := hfrom run (List.mem_of_getLast? hrun)
  have hempty : exportedScope (tool.run A D u t nanos).params = .object [] :=
    exportedScope_of_other htool
  rw [show (sess.artifact t (tool.run A D u t nanos)).scope =
    exportedScope (tool.run A D u t nanos).params from rfl, hempty] at heq
  cases heq

/-- Without a selection the export is the scope of the last run of `scope_tune`, and so is what an
applied tune writes, exactly if no tool recorded a run after it. -/
theorem exportsScope_iff_lastIsScope (A D : F32Arith) (u : CaseTables) (t : TuneText)
    (ttlSecs : Nat) (steps : List TuneStep) (now : Nat) (id : String)
    (agentId contextId : Option String) :
    (Machine.run (step A D u t) (new ttlSecs) steps).ExportsScope A u t now id agentId contextId ↔
      (Machine.run (step A D u t) (new ttlSecs) steps).LastIsScope now id agentId contextId :=
  ⟨last_of_exportsScope (fromTools_run ttlSecs steps),
    exportsScope_of_last (fromTools_run ttlSecs steps)⟩

end Export

/-- A scope is read as `serde` reads it. -/
def ReadsScopes (t : TuneText) (codec : Codec Json) : Prop :=
  ∀ value scope, codec.scopeOf value = .ok scope ↔ readScope t value = some scope

/-- After a run of `scope_tune` the scope is written that its first threshold was tried with. -/
theorem written_after_scope {codec : Codec Json} (hcodec : ReadsScopes t codec)
    (ht : t.ReadsBack) {params : ScopeTuneParams}
    (hfinite : params.Finite (params.primary A u).minSimilarity) {scope : ProxyScopeConfig}
    (hscope : codec.scopeOf (params.scopeJson A u t) = .ok scope) :
    scope =
      params.buildScopeConfig params.modeOrDefault (params.primary A u).minSimilarity := by
  have hread := (hcodec _ _).1 hscope
  rw [readScope_scopeJson ht hfinite] at hread
  exact (Option.some.inj hread).symm

/-- After a run of another tool the scope of the context is replaced by the empty one. -/
theorem written_after_other (h : store.FromTools A D u t) {now : Nat} {id : String}
    {agentId contextId : Option String} {sess : TuneSession}
    (hsess : (store.get now id agentId contextId).2 = some sess) {run : TuneRunRecord}
    (hrun : sess.runs.getLast? = some run) (htool : run.tool ≠ "scope_tune")
    {codec : Codec Json} (hcodec : ReadsScopes t codec) {text : F32 → String} {disk disk' : Disk}
    {configPath : Option FilePath} {report : ApplyReport}
    (happly : applyTuneExport codec u text disk
      ((store.exportSession t now id agentId contextId).2.map SessionExport.toTuneExportArtifact)
      configPath = .ok (disk', report)) :
    ∃ config, loadTuned codec u text disk configPath = .ok config ∧
      saveTuned codec disk configPath (config.upsertScope sess.contextId .none) = .ok disk' := by
  obtain ⟨hchoice, hfrom⟩ := exported_run h hsess
  have hexport : (store.exportSession t now id agentId contextId).2 =
      .ok (sess.artifact t run) :=
    exportSession_eq_ok_iff.2 ⟨sess, run, hsess, hchoice.trans hrun, rfl⟩
  rw [hexport] at happly
  obtain ⟨artifact, hartifact, happly⟩ := bind_result_eq_ok_iff.1 happly
  cases hartifact
  obtain ⟨config, scope, written, hload, hscope, hsave, hresult⟩ :=
    applyExportArtifact_eq_ok_iff.1 happly
  cases hresult
  obtain ⟨nanos, tool, rfl⟩ := hfrom run (List.mem_of_getLast? hrun)
  have hempty : exportedScope (tool.run A D u t nanos).params = .object [] :=
    exportedScope_of_other htool
  have hread : readScope t (exportedScope (tool.run A D u t nanos).params) = some scope :=
    (hcodec _ _).1 hscope
  rw [hempty] at hread
  obtain rfl : ProxyScopeConfig.none = scope := Option.some.inj hread
  exact ⟨config, hload, hsave⟩

instance (store : TuneSessionStore) (now : Nat) (id : String) (agentId contextId : Option String) :
    Decidable (store.LastIsScope now id agentId contextId) :=
  inferInstanceAs (Decidable (∀ sess ∈ (store.get now id agentId contextId).2,
    ∀ run ∈ sess.runs.getLast?, run.tool = "scope_tune"))

def sampleScope (sessionId : String) : ScopeTuneParams where
  sessionId := sessionId
  agentId := none
  contextId := none
  hits := [⟨"h", F32.one, "rust async", none, none⟩]
  weightedPhrases := [⟨"rust", F32.one, none⟩]
  mode := none
  minSimilarity := none
  minSimilaritySweep := none
  scopeWeight := none
  lexicalWeight := none
  budget := .default

def sampleCache (sessionId : String) : CacheTuneParams where
  sessionId := sessionId
  agentId := none
  contextId := none
  events := [⟨"k", some 1⟩]
  freshTtlSecs := none
  staleTtlSecs := none
  budget := .default

def sampleSteps : List TuneStep :=
  [.openSession 0 0 "a" "docs" none, .call ⟨1, 2, 3⟩ (.scope (sampleScope "sess-0-1")),
    .call ⟨4, 5, 6⟩ (.cache (sampleCache "sess-0-1"))]

/-- The run of `cache_tune` is exported, which has no scope. -/
theorem cache_run_is_exported :
    ¬ ∀ (A D : F32Arith) (u : CaseTables) (t : TuneText) (ttlSecs : Nat) (steps : List TuneStep)
      (now : Nat) (id : String) (agentId contextId : Option String),
      (Machine.run (step A D u t) (new ttlSecs) steps).ExportsScope A u t now id agentId
        contextId := by
  intro h
  have hexports := h .exact .exact .ascii plainText 3600 sampleSteps 7 "sess-0-1" none none
  have hlast := last_of_exportsScope (fromTools_run 3600 sampleSteps) hexports
  exact absurd hlast (by decide +kernel)

end TuneSessionStore

end Choice

end Conproxy
