import Conproxy.Tuning.ScopeJson

/-!
# The dry run of a scope

`scope_tune` of `tune/scope.rs` filters the hits of the caller under every threshold of a sweep, and
records the first of them. What it records reads back as the scope that it tried first.
-/

namespace Conproxy

set_option autoImplicit false

structure ScopeTuneParams where
  sessionId : String
  agentId : Option String
  contextId : Option String
  hits : List SearchResult
  weightedPhrases : List WeightedPhrase
  mode : Option String
  minSimilarity : Option F32
  minSimilaritySweep : Option (List F32)
  scopeWeight : Option F32
  lexicalWeight : Option F32
  budget : TuneBudget

structure SweepPointResult where
  minSimilarity : F32
  kept : Nat
  dropped : Nat
  keptIds : List String
  droppedIds : List String

structure ScopeTuneReport where
  sessionId : String
  runId : String
  mode : String
  baselineCount : Nat
  baselineIds : List String
  sweep : List SweepPointResult
  primaryKept : Nat
  primaryDropped : Nat
  warnings : List String

namespace ScopeTuneParams

/-- The hits that the budget allows for. -/
def considered (params : ScopeTuneParams) : List SearchResult :=
  params.hits.take params.budget.maxResults

def modeOrDefault (params : ScopeTuneParams) : String := params.mode.getD "filter"

/-- The sweep, or else the one threshold. -/
def thresholds (params : ScopeTuneParams) : List F32 :=
  let sweep := params.minSimilaritySweep.getD []
  if sweep.isEmpty then [params.minSimilarity.getD (.finite (1 / 4))] else sweep

def buildScopeConfig (params : ScopeTuneParams) (mode : String) (minSimilarity : F32) :
    ProxyScopeConfig :=
  { ProxyScopeConfig.none with
    weightedPhrases := params.weightedPhrases
    mode := some mode
    minSeedSimilarity := some minSimilarity
    seedWeight := params.scopeWeight
    lexicalWeight := params.lexicalWeight }

def warnings (params : ScopeTuneParams) : List String :=
  if params.budget.maxResults < params.hits.length then
    ["truncating hits " ++ toString params.hits.length ++ " → " ++
      toString params.budget.maxResults]
  else []

section Sweep

variable (A : F32Arith) (u : CaseTables) (t : TuneText)

def sweepPoint (params : ScopeTuneParams) (threshold : F32) : SweepPointResult :=
  let filter := ScopeFilter.fromConfig u (params.buildScopeConfig params.modeOrDefault threshold)
  let keptIds := (filter.filterResults A u params.considered).map SearchResult.id
  let droppedIds :=
    (params.considered.filter fun hit => !keptIds.contains hit.id).map SearchResult.id
  ⟨threshold, keptIds.length, droppedIds.length, keptIds, droppedIds⟩

def sweep (params : ScopeTuneParams) : List SweepPointResult :=
  params.thresholds.map (params.sweepPoint A u)

def primary (params : ScopeTuneParams) : SweepPointResult :=
  (params.sweep A u).head?.getD ⟨F32.zero, 0, 0, [], []⟩

def json (params : ScopeTuneParams) : Json :=
  .object
    [("lexical_weight", .option (params.lexicalWeight.map (Json.f32 t))),
      ("min_similarity", .f32 t (params.primary A u).minSimilarity),
      ("min_similarity_sweep", .array (params.thresholds.map (Json.f32 t))),
      ("mode", .string params.modeOrDefault),
      ("scope_weight", .option (params.scopeWeight.map (Json.f32 t))),
      ("weighted_phrases", .array (params.weightedPhrases.map (WeightedPhrase.json t)))]

def run (nanos : Nat) (params : ScopeTuneParams) : TuneRunRecord where
  runId := newRunId nanos
  tool := "scope_tune"
  params := params.json A u t
  metrics := .object
    [("primary_dropped", .nat (params.primary A u).dropped),
      ("primary_kept", .nat (params.primary A u).kept),
      ("sweep_points", .nat (params.sweep A u).length)]
  selected := false

def report (nanos : Nat) (params : ScopeTuneParams) : ScopeTuneReport where
  sessionId := params.sessionId
  runId := newRunId nanos
  mode := params.modeOrDefault
  baselineCount := params.considered.length
  baselineIds := params.considered.map SearchResult.id
  sweep := params.sweep A u
  primaryKept := (params.primary A u).kept
  primaryDropped := (params.primary A u).dropped
  warnings := params.warnings

def work (nanos : Nat) (params : ScopeTuneParams) :
    Except String (TuneRunRecord × ScopeTuneReport) :=
  if params.hits.isEmpty then
    .error ("hits must not be empty — pass search results mapped to " ++
      "[\x7bid, content, score\x7d]; scope_tune does not fetch upstream. " ++
      "Run tune_workflow (composite) to search + tune in one call, or call search first.")
  else if params.budget.maxSweepPoints < params.thresholds.length then
    .error ("sweep has " ++ toString params.thresholds.length ++ " points; max is " ++
      toString params.budget.maxSweepPoints)
  else .ok (params.run A u t nanos, params.report A u nanos)

end Sweep

end ScopeTuneParams

def scopeTune (A : F32Arith) (u : CaseTables) (t : TuneText) (store : TuneSessionStore)
    (clock : ToolClock) (params : ScopeTuneParams) :
    TuneSessionStore × Except String ScopeTuneReport :=
  runTool t store clock params.sessionId params.agentId params.contextId
    (params.work A u t clock.nanos)

/-- A finite number that is written is read again. -/
def TuneText.ReadsBack (t : TuneText) : Prop :=
  ∀ x : F32, x.isFinite = true → t.asF32 (t.literal x) = x

/-- Every number that is recorded is finite: the others are written as `null`. -/
structure ScopeTuneParams.Finite (params : ScopeTuneParams) (threshold : F32) : Prop where
  threshold : threshold.isFinite = true
  scopeWeight : ∀ x ∈ params.scopeWeight, x.isFinite = true
  lexicalWeight : ∀ x ∈ params.lexicalWeight, x.isFinite = true
  weights : ∀ phrase ∈ params.weightedPhrases, phrase.weight.isFinite = true
  floors : ∀ phrase ∈ params.weightedPhrases, ∀ x ∈ phrase.minSimilarity, x.isFinite = true

/-- The fields of the scope among those that are recorded. -/
def ScopeTuneParams.scopeJson (A : F32Arith) (u : CaseTables) (t : TuneText)
    (params : ScopeTuneParams) : Json :=
  .object
    [("lexical_weight", .option (params.lexicalWeight.map (Json.f32 t))),
      ("min_similarity", .f32 t (params.primary A u).minSimilarity),
      ("mode", .string params.modeOrDefault),
      ("scope_weight", .option (params.scopeWeight.map (Json.f32 t))),
      ("weighted_phrases", .array (params.weightedPhrases.map (WeightedPhrase.json t)))]

section ReadBack

variable {A : F32Arith} {u : CaseTables} {t : TuneText}

theorem f32_of_isFinite {x : F32} (hx : x.isFinite = true) :
    Json.f32 t x = .number (t.literal x) := by
  unfold Json.f32
  rw [if_pos hx]

theorem readF32_f32 (ht : t.ReadsBack) {x : F32} (hx : x.isFinite = true) :
    readF32 t (.f32 t x) = some x := by
  rw [f32_of_isFinite hx]
  exact congrArg some (ht x hx)

theorem nullable_f32 (ht : t.ReadsBack) {x : F32} (hx : x.isFinite = true) :
    Json.nullable (readF32 t) (.f32 t x) = some (some x) := by
  have hread := readF32_f32 ht hx
  rw [f32_of_isFinite hx] at hread ⊢
  exact congrArg (Option.map some) hread

theorem nullable_option (ht : t.ReadsBack) {x : Option F32}
    (hx : ∀ value ∈ x, value.isFinite = true) :
    Json.nullable (readF32 t) (.option (x.map (Json.f32 t))) = some x := by
  cases x with
  | none => rfl
  | some value => exact nullable_f32 ht (hx value rfl)

theorem readPhrase_json (ht : t.ReadsBack) {phrase : WeightedPhrase}
    (hweight : phrase.weight.isFinite = true)
    (hfloor : ∀ x ∈ phrase.minSimilarity, x.isFinite = true) :
    readPhrase t (phrase.json t) = some phrase := by
  obtain ⟨text, weight, floor⟩ := phrase
  have hw := readF32_f32 ht hweight
  cases floor with
  | none =>
    simp [WeightedPhrase.json, readPhrase, Json.structFields, Json.readField, Json.fieldOf,
      Json.asStr, hw]
  | some x =>
    have hx := nullable_f32 ht (hfloor x rfl)
    simp [WeightedPhrase.json, readPhrase, Json.structFields, Json.readField, Json.fieldOf,
      Json.asStr, hw, hx]

theorem mapM_readPhrase (ht : t.ReadsBack) {phrases : List WeightedPhrase}
    (hweights : ∀ phrase ∈ phrases, phrase.weight.isFinite = true)
    (hfloors : ∀ phrase ∈ phrases, ∀ x ∈ phrase.minSimilarity, x.isFinite = true) :
    (phrases.map (WeightedPhrase.json t)).mapM (readPhrase t) = some phrases := by
  induction phrases with
  | nil => rfl
  | cons phrase rest ih =>
    have hrest := ih (fun p hp => hweights p (List.mem_cons_of_mem _ hp))
      (fun p hp => hfloors p (List.mem_cons_of_mem _ hp))
    have hfirst := readPhrase_json ht (hweights phrase List.mem_cons_self)
      (hfloors phrase List.mem_cons_self)
    simp [hfirst, hrest]

theorem exportedScope_json (params : ScopeTuneParams) :
    exportedScope (params.json A u t) = params.scopeJson A u t := rfl

theorem readScope_scopeJson (ht : t.ReadsBack) {params : ScopeTuneParams}
    (hfinite : params.Finite (params.primary A u).minSimilarity) :
    readScope t (params.scopeJson A u t) =
      some (params.buildScopeConfig params.modeOrDefault (params.primary A u).minSimilarity) := by
  have hfloor := nullable_f32 ht hfinite.threshold
  have hscope := nullable_option ht hfinite.scopeWeight
  have hlexical := nullable_option ht hfinite.lexicalWeight
  have hphrases := mapM_readPhrase ht hfinite.weights hfinite.floors
  have hmode : Json.nullable Json.asStr (.string params.modeOrDefault) =
      some (some params.modeOrDefault) := rfl
  simp [ScopeTuneParams.scopeJson, readScope, Json.structFields, Json.readField, Json.fieldOf,
    Json.listOf, hfloor, hscope, hlexical, hphrases, hmode, ScopeTuneParams.buildScopeConfig,
    ProxyScopeConfig.none]

end ReadBack

end Conproxy
