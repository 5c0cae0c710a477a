import Conproxy.Hits
import Conproxy.Tune

/-!
# Tune sessions

`TuneSessionStore` of `tune/session.rs`: what the tune tools recorded for a session, which of its
runs is selected, and the artifact that is exported from one run. A lock is held during every
operation, so each is one step; the clock is read once in each.
-/

namespace Conproxy

set_option autoImplicit false

structure TuneRunRecord where
  runId : String
  tool : String
  params : Json
  metrics : Json
  selected : Bool

structure TuneSession where
  sessionId : String
  agentId : String
  contextId : String
  createdAtMs : Nat
  lastTouch : Nat
  runs : List TuneRunRecord

structure TuneSessionStore where
  sessions : AList fun _ : String => TuneSession
  ttl : Duration
  nextId : Nat

structure SessionExport extends TuneExportArtifact Json where
  sessionId : String
  agentId : String
  json : Json

/-- Texts that come from libraries: a string as `{:?}` shows it, the literal of a JSON number as
`{}` shows its `f64` and as an `f32` reads it, and the literals of an `f32` and of a quotient in a
JSON value. -/
structure TuneText where
  debug : String → String
  display : String → String
  asF32 : String → F32
  literal : F32 → String
  quotient : Nat → Nat → String

namespace Json

def asArray : Json → Option (List Json)
  | .array items => some items
  | _ => none

/-- The literal of a number. Every number is an `f64` for `as_f64`. -/
def asNumber : Json → Option String
  | .number literal => some literal
  | _ => none

end Json

/-- The fields that are lifted from flat parameters, in the order in which a map keeps them. -/
def liftedNames : List String :=
  ["embed_band", "lexical_weight", "min_similarity", "mode", "scope_weight", "weighted_phrases"]

/-- The scope of a run: the field of that name, or the scope fields among its parameters. -/
def exportedScope (params : Json) : Json :=
  (params.get "scope").getD
    (.object (liftedNames.filterMap fun name => (params.get name).map fun value => (name, value)))

/-- `replace('\\', "\\\\").replace('"', "\\\"")`. -/
def escapeQuotes (text : String) : String :=
  String.ofList (text.toList.flatMap fun c =>
    if c = '\\' then ['\\', '\\'] else if c = '"' then ['\\', '"'] else [c])

section Render

variable (t : TuneText)

/-- A line of the fragment for a field that holds a number. -/
def numberLine (name : String) (value : Json) : String :=
  match (value.get name).bind Json.asNumber with
  | some literal => name ++ " = " ++ t.display literal ++ "\n"
  | none => ""

def renderPhrase (contextId : String) (phrase : Json) : String :=
  "\n" ++ "[[contexts." ++ contextId ++ ".scope.weighted_phrases]]\n" ++
    (match (phrase.get "text").bind Json.asStr with
      | some text => "text = \"" ++ escapeQuotes text ++ "\"\n"
      | none => "") ++
    numberLine t "weight" phrase ++ numberLine t "min_similarity" phrase

def renderContextScopeToml (contextId : String) (scope : Json) : String :=
  "[contexts." ++ contextId ++ ".scope]\n" ++
    (match (scope.get "mode").bind Json.asStr with
      | some mode => "mode = \"" ++ mode ++ "\"\n"
      | none => "") ++
    numberLine t "min_similarity" scope ++ numberLine t "scope_weight" scope ++
    numberLine t "lexical_weight" scope ++
    String.join ((((scope.get "weighted_phrases").bind Json.asArray).getD []).map
      (renderPhrase t contextId))

end Render

namespace TuneRunRecord

def unselectAll (runs : List TuneRunRecord) : List TuneRunRecord :=
  runs.map fun run => { run with selected := false }

/-- The loop of `select_run`. -/
def selectOnly (runId : String) (runs : List TuneRunRecord) : List TuneRunRecord :=
  runs.map fun run => { run with selected := run.runId = runId }

/-- The run to export: the last one that is selected, or else the last one. -/
def toExport (runs : List TuneRunRecord) : Option TuneRunRecord :=
  (runs.reverse.find? TuneRunRecord.selected).or runs.getLast?

end TuneRunRecord

namespace TuneSession

def artifact (t : TuneText) (sess : TuneSession) (run : TuneRunRecord) : SessionExport where
  contextId := sess.contextId
  scope := exportedScope run.params
  toml := renderContextScopeToml t sess.contextId (exportedScope run.params)
  sourceRunId := some run.runId
  sessionId := sess.sessionId
  agentId := sess.agentId
  json := .object
    [("agent_id", .string sess.agentId), ("context_id", .string sess.contextId),
      ("scope", exportedScope run.params), ("session_id", .string sess.sessionId),
      ("source_run_id", .string run.runId)]

end TuneSession

namespace TuneSessionStore

def new (ttlSecs : Nat) : TuneSessionStore := ⟨∅, max ttlSecs 1 * 1000000000, 1⟩

/-- `retain` with the sessions that were touched within the time to live. -/
def evictExpired (store : TuneSessionStore) (now : Nat) : TuneSessionStore where
  sessions :=
    ⟨store.sessions.entries.filter fun e => now - e.2.lastTouch < store.ttl,
      store.sessions.nodupKeys.sublist List.filter_sublist⟩
  ttl := store.ttl
  nextId := store.nextId

def put (store : TuneSessionStore) (sessionId : String) (sess : TuneSession) : TuneSessionStore :=
  { store with sessions := store.sessions.insert sessionId sess }

section Operations

variable (t : TuneText)

def unknownSession (sessionId : String) : String := "unknown session_id: " ++ sessionId

/-- A session of another agent is refused. -/
def owned (sessionId : String) (agentId : Option String) (sess : TuneSession) :
    Except String Unit :=
  match agentId with
  | some agent =>
    if sess.agentId ≠ agent then
      .error ("agent_id mismatch for session " ++ sessionId ++ ": session is owned by " ++
        t.debug sess.agentId ++ ", got " ++ t.debug agent)
    else .ok ()
  | none => .ok ()

/-- The name of a new session, from the clock and a counter. -/
def newId (nanos n : Nat) : String :=
  "sess-" ++ String.ofList (Nat.toDigits 16 nanos) ++ "-" ++ toString n

/-- `open`. -/
def openSession (store : TuneSessionStore) (now nanos : Nat) (agentId contextId : String)
    (sessionId : Option String) : TuneSessionStore × Except String TuneSession :=
  let store := store.evictExpired now
  match sessionId with
  | some id =>
    match store.sessions.lookup id with
    | none => (store, .error (unknownSession id))
    | some sess =>
      match owned t id (some agentId) sess with
      | .error e => (store, .error e)
      | .ok () =>
        if sess.contextId ≠ contextId then
          (store, .error ("context_id mismatch for session " ++ id ++ ": session is for " ++
            t.debug sess.contextId ++ ", got " ++ t.debug contextId))
        else
          let sess := { sess with lastTouch := now }
          (store.put id sess, .ok sess)
  | none =>
    let id := newId nanos store.nextId
    let sess : TuneSession := ⟨id, agentId, contextId, nanos / 1000000, now, []⟩
    ({ store.put id sess with nextId := store.nextId + 1 }, .ok sess)

/-- `get` with its filters. -/
def get (store : TuneSessionStore) (now : Nat) (sessionId : String)
    (agentId contextId : Option String) : TuneSessionStore × Option TuneSession :=
  let store := store.evictExpired now
  match store.sessions.lookup sessionId with
  | none => (store, none)
  | some sess =>
    if (agentId.any fun agent => sess.agentId ≠ agent) ||
        contextId.any fun context => sess.contextId ≠ context then
      (store, none)
    else
      let sess := { sess with lastTouch := now }
      (store.put sessionId sess, some sess)

/-- `close_with_reason`. Nothing is evicted. -/
def closeWithReason (store : TuneSessionStore) (sessionId : String) (agentId : Option String) :
    TuneSessionStore × Except String Unit :=
  match store.sessions.lookup sessionId with
  | none => (store, .error (unknownSession sessionId))
  | some sess =>
    match owned t sessionId agentId sess with
    | .error e => (store, .error e)
    | .ok () => ({ store with sessions := store.sessions.erase sessionId }, .ok ())

def appendRun (store : TuneSessionStore) (now : Nat) (sessionId : String)
    (agentId : Option String) (run : TuneRunRecord) : TuneSessionStore × Except String Unit :=
  let store := store.evictExpired now
  match store.sessions.lookup sessionId with
  | none => (store, .error (unknownSession sessionId))
  | some sess =>
    match owned t sessionId agentId sess with
    | .error e => (store, .error e)
    | .ok () =>
      let kept := if run.selected then TuneRunRecord.unselectAll sess.runs else sess.runs
      (store.put sessionId { sess with lastTouch := now, runs := kept ++ [run] }, .ok ())

/-- The flags are rewritten before it is known whether the run exists. -/
def selectRun (store : TuneSessionStore) (now : Nat) (sessionId : String)
    (agentId : Option String) (runId : String) : TuneSessionStore × Except String Unit :=
  let store := store.evictExpired now
  match store.sessions.lookup sessionId with
  | none => (store, .error (unknownSession sessionId))
  | some sess =>
    match owned t sessionId agentId sess with
    | .error e => (store, .error e)
    | .ok () =>
      let sess' := { sess with runs := TuneRunRecord.selectOnly runId sess.runs }
      if sess.runs.any fun run => run.runId = runId then
        (store.put sessionId { sess' with lastTouch := now }, .ok ())
      else (store.put sessionId sess', .error ("unknown run_id: " ++ runId))

/-- `export`. -/
def exportSession (store : TuneSessionStore) (now : Nat) (sessionId : String)
    (agentId contextId : Option String) : TuneSessionStore × Except String SessionExport :=
  match store.get now sessionId agentId contextId with
  | (store, none) => (store, .error "session not found")
  | (store, some sess) =>
    match TuneRunRecord.toExport sess.runs with
    | none => (store, .error "no runs to export")
    | some run => (store, .ok (sess.artifact t run))

end Operations

end TuneSessionStore

structure TuneBudget where
  timeoutMs : Nat
  maxResults : Nat
  maxSweepPoints : Nat
  maxQueries : Nat
deriving DecidableEq

def TuneBudget.default : TuneBudget := ⟨30000, 50, 16, 32⟩

/-- When a tool looks the session up, when it records its run, and the nanoseconds that name it. -/
structure ToolClock where
  lookedUp : Nat
  recorded : Nat
  nanos : Nat

def newRunId (nanos : Nat) : String := "run-" ++ toString nanos

namespace Json

def nat (n : Nat) : Json := .number (toString n)

/-- A number that is not finite is `null` in JSON. -/
def f32 (t : TuneText) (x : F32) : Json := if x.isFinite then .number (t.literal x) else .null

def option : Option Json → Json
  | some value => value
  | none => .null

end Json

/-- What every tool does around its own work: it looks the session up, and a run that it has to
record is appended before the report is returned. -/
def runTool {ρ : Type} (t : TuneText) (store : TuneSessionStore) (clock : ToolClock)
    (sessionId : String) (agentId contextId : Option String)
    (work : Except String (TuneRunRecord × ρ)) : TuneSessionStore × Except String ρ :=
  match store.get clock.lookedUp sessionId agentId contextId with
  | (store, none) => (store, .error "session not found")
  | (store, some _) =>
    match work with
    | .error e => (store, .error e)
    | .ok (run, report) =>
      match store.appendRun t clock.recorded sessionId agentId run with
      | (store, .error e) => (store, .error e)
      | (store, .ok ()) => (store, .ok report)

theorem work_of_runTool {ρ : Type} {t : TuneText} {store : TuneSessionStore} {clock : ToolClock}
    {sessionId : String} {agentId contextId : Option String}
    {work : Except String (TuneRunRecord × ρ)} {report : ρ}
    (h : (runTool t store clock sessionId agentId contextId work).2 = .ok report) :
    ∃ run, work = .ok (run, report) := by
  unfold runTool at h
  split at h
  · cases h
  · split at h
    · cases h
    · rename_i run report'
      split at h
      · cases h
      · obtain rfl := Except.ok.inj h
        exact ⟨run, rfl⟩

end Conproxy
