import Conproxy.Effort
import Conproxy.Lib.Grouping
import Conproxy.Lib.Sorting
import Conproxy.Sample
import Conproxy.Tuning.Selection

/-!
# The dry run of the cascade

`cascade_tune` of `tune/cascade_tune.rs` walks the legs in the order of their priorities and stops
at the first one that meets the thresholds. `CascadeExecutor::query` does so group by group, with
checks of the depth and of the time on the way.
-/

namespace Conproxy

set_option autoImplicit false

structure CascadeLegProbe where
  upstreamId : String
  priority : Nat
  bestScore : F32
  resultCount : Nat
  latencyMs : Nat
deriving DecidableEq

structure CascadeTuneParams where
  sessionId : String
  agentId : Option String
  contextId : Option String
  legs : List CascadeLegProbe
  minScoreThreshold : Option F32
  minResults : Option Nat
  maxCascadeDepth : Option Nat
  minScoreSweep : Option (List F32)
  budget : TuneBudget

structure CascadeTuneCandidate where
  minScoreThreshold : F32
  minResults : Nat
  chosenUpstreamId : Option String
  tried : List String
  cascaded : Bool
  totalLatencyMs : Nat
deriving DecidableEq

structure CascadeTuneReport where
  sessionId : String
  runId : String
  candidates : List CascadeTuneCandidate
deriving DecidableEq

namespace CascadeTuneParams

def results (params : CascadeTuneParams) : Nat := params.minResults.getD 1

def depth (params : CascadeTuneParams) : Nat := params.maxCascadeDepth.getD params.legs.length

/-- The sweep, or else the one threshold. -/
def thresholds (params : CascadeTuneParams) : List F32 :=
  let sweep := params.minScoreSweep.getD []
  if sweep.isEmpty then [params.minScoreThreshold.getD (.finite (7 / 10))] else sweep

/-- The loop over the sorted legs; the place of the next one is `i`. -/
def tryLegs (params : CascadeTuneParams) (threshold : F32) :
    List CascadeLegProbe → Nat → List String → Nat → CascadeTuneCandidate
  | [], _, tried, latency => ⟨threshold, params.results, none, tried, false, latency⟩
  | leg :: rest, i, tried, latency =>
    if params.depth ≤ tried.length then
      ⟨threshold, params.results, none, tried, false, latency⟩
    else
      let tried := tried ++ [leg.upstreamId]
      let latency := min (latency + leg.latencyMs) (2 ^ 64 - 1)
      if F32.ge leg.bestScore threshold && params.results ≤ leg.resultCount then
        ⟨threshold, params.results, some leg.upstreamId, tried, 0 < i, latency⟩
      else tryLegs params threshold rest (i + 1) tried latency

def candidate (params : CascadeTuneParams) (threshold : F32) : CascadeTuneCandidate :=
  params.tryLegs threshold (params.legs.insertionSort fun a b => a.priority ≤ b.priority) 0 [] 0

def json (t : TuneText) (params : CascadeTuneParams) : Json :=
  .object
    [("legs", .array (params.legs.map fun leg => .string leg.upstreamId)),
      ("max_cascade_depth", .nat params.depth), ("min_results", .nat params.results),
      ("min_score_sweep", .array (params.thresholds.map (Json.f32 t))),
      ("min_score_threshold", .option (params.thresholds.head?.map (Json.f32 t)))]

end CascadeTuneParams

namespace CascadeTuneParams

def candidates (params : CascadeTuneParams) : List CascadeTuneCandidate :=
  params.thresholds.map params.candidate

def run (t : TuneText) (nanos : Nat) (params : CascadeTuneParams) : TuneRunRecord where
  runId := newRunId nanos
  tool := "cascade_tune"
  params := params.json t
  metrics := .object
    [("any_cascade", .bool (params.candidates.any CascadeTuneCandidate.cascaded)),
      ("candidates", .nat params.candidates.length)]
  selected := false

def work (t : TuneText) (nanos : Nat) (params : CascadeTuneParams) :
    Except String (TuneRunRecord × CascadeTuneReport) :=
  if params.legs.isEmpty then .error "legs must not be empty"
  else if params.budget.maxSweepPoints < params.thresholds.length then
    .error ("sweep has " ++ toString params.thresholds.length ++ " points; max is " ++
      toString params.budget.maxSweepPoints)
  else .ok (params.run t nanos, ⟨params.sessionId, newRunId nanos, params.candidates⟩)

end CascadeTuneParams

def cascadeTune (t : TuneText) (store : TuneSessionStore) (clock : ToolClock)
    (params : CascadeTuneParams) : TuneSessionStore × Except String CascadeTuneReport :=
  runTool t store clock params.sessionId params.agentId params.contextId
    (params.work t clock.nanos)

structure Probed (A : F32Arith) (answer : PooledUpstream → QueryResponse) (u : PooledUpstream)
    (leg : CascadeLegProbe) : Prop where
  id : u.id = leg.upstreamId
  priority : u.priority = leg.priority
  score : normalizeScore A (maxScore (answer u).results) u.upstreamType = leg.bestScore
  results : (answer u).results.length = leg.resultCount

/-- The plain cascade: on, without fusion, target, preference or timeout, and every upstream is
available and answers. -/
structure PlainRun (x : CascadeExecutor) (env : Environment) (request : QueryRequest)
    (answer : PooledUpstream → QueryResponse) : Prop where
  enabled : x.config.enabled = true
  fusion : x.config.fusionMethod = .none
  target : request.upstreamId = none
  preference : request.upstreamType = none
  groupTime : ∀ depth, env.groupElapsed depth ≤ x.config.timeout
  upstreamTime : ∀ depth, env.upstreamElapsed depth ≤ x.config.timeout
  available : ∀ u ∈ x.pool.upstreams, u.isAvailable = true
  answers : ∀ (i : Nat) u, x.cascadeOrder[i]? = some u → env.answer i = .ok (answer u)

/-- The dry run tries what the cascade asks, and chooses where the cascade stops for good. -/
structure Predicts (candidate : CascadeTuneCandidate) (result : CascadeResult) : Prop where
  tried : result.upstreamsTried = candidate.tried
  chosen : ∀ u, candidate.chosenUpstreamId = some u ↔
    result.stopReason = .thresholdMet ∧ result.finalUpstream = some u

namespace CascadeExecutor

variable {A : F32Arith} {p : Platform} {x : CascadeExecutor} {env : Environment}
  {request : QueryRequest} {answer : PooledUpstream → QueryResponse}

theorem maxScore_tagResults (uid : String) (results : List SearchResult) :
    maxScore (tagResults uid results) = maxScore results := by
  cases results with
  | nil => rfl
  | cons first rest =>
    simp only [tagResults, List.map_cons, maxScore, List.foldl_map]

theorem stopAt_of_le (depth : Nat) {elapsed : Duration} (h : elapsed ≤ x.config.timeout) :
    x.stopAt depth elapsed =
      if x.config.maxCascadeDepth ≤ depth then some .maxDepthReached else none := by
  unfold stopAt
  rw [if_neg (Nat.not_lt.2 h)]

theorem andThen_assoc (f : CascadeFlow) (g k : CascadeLoop → CascadeFlow) :
    (f.andThen g).andThen k = f.andThen fun l => (g l).andThen k := by
  cases f <;> rfl

theorem askGroup_append (us vs : List PooledUpstream) (l : CascadeLoop) :
    x.askGroup A env (us ++ vs) l = (x.askGroup A env us l).andThen (x.askGroup A env vs) := by
  induction us generalizing l with
  | nil => rfl
  | cons u rest ih =>
    rw [List.cons_append, askGroup, askGroup, andThen_assoc]
    congr 1
    funext l'
    exact ih l'

/-- Without fusion the check of a group is the check of its first upstream. -/
theorem queryGroup_eq (h : PlainRun x env request answer) {group : List PooledUpstream}
    (hne : group ≠ []) (l : CascadeLoop) :
    x.queryGroup A p env request group l = x.askGroup A env group l := by
  have hfuses : x.config.fuses group = false := by
    unfold CascadeConfig.fuses
    rw [h.fusion]
    rfl
  have hgroup := stopAt_of_le (x := x) l.depth (h.groupTime l.depth)
  cases group with
  | nil => exact absurd rfl hne
  | cons u rest =>
    unfold queryGroup
    rw [hfuses]
    by_cases hdeep : x.config.maxCascadeDepth ≤ l.depth
    · rw [if_pos hdeep] at hgroup
      have hupstream := stopAt_of_le (x := x) l.depth (h.upstreamTime l.depth)
      rw [if_pos hdeep] at hupstream
      rw [guarded_some hgroup, askGroup, guarded_some hupstream]
      rfl
    · rw [if_neg hdeep] at hgroup
      rw [guarded_none hgroup]
      rfl

theorem queryGroups_eq (h : PlainRun x env request answer) (groups : List (List PooledUpstream))
    (hne : ∀ group ∈ groups, group ≠ []) (l : CascadeLoop) :
    x.queryGroups A p env request groups l = x.askGroup A env groups.flatten l := by
  induction groups generalizing l with
  | nil => rfl
  | cons group rest ih =>
    rw [List.flatten_cons, askGroup_append, queryGroups,
      queryGroup_eq h (hne group List.mem_cons_self)]
    congr 1
    funext l'
    exact ih (fun g hg => hne g (List.mem_cons_of_mem _ hg)) l'

theorem candidates_of_available (h : ∀ u ∈ x.pool.upstreams, u.isAvailable = true) :
    x.pool.candidates = x.pool.upstreams := by
  have hall : x.pool.available = x.pool.upstreams := List.filter_eq_self.2 h
  unfold UpstreamPool.candidates
  rw [hall]
  exact ite_self _

theorem flatten_groups (h : PlainRun x env request answer) :
    (x.groups p request).flatten = x.cascadeOrder := by
  unfold groups cascadeOrderWithPreference
  rw [h.preference, groupByPriority_eq]
  exact Grouping.flatten_groupBy_of_sorted
    (List.pairwise_insertionSort (fun a b : PooledUpstream => a.priority ≤ b.priority) _)

/-- What the cascade returns after its loop. -/
def finish (env : Environment) : CascadeFlow → CascadeResult
  | .next l => (l.stop env .allExhausted l.tried.length).value
  | .done r => r.value

theorem predicts_stop {l : CascadeLoop} {reason : CascadeStopReason} {depth : Nat}
    (hreason : reason ≠ .thresholdMet) {candidate : CascadeTuneCandidate}
    (htried : candidate.tried = l.tried) (hchosen : candidate.chosenUpstreamId = none) :
    Predicts candidate (l.stop env reason depth).value := by
  refine ⟨htried.symm, fun u => ?_⟩
  rw [hchosen]
  constructor
  · intro hsome
    cases hsome
  · intro hmet
    exact absurd hmet.1 hreason

variable {params : CascadeTuneParams} {threshold : F32}

/-- The flat loop and the executor agree from any place on. -/
theorem predicts_askGroup (h : PlainRun x env request answer)
    (hthreshold : x.config.minScoreThreshold = threshold)
    (hresults : x.config.minResults = params.results)
    (hdepth : x.config.maxCascadeDepth = params.depth) {us : List PooledUpstream}
    {legs : List CascadeLegProbe} (hlegs : List.Forall₂ (Probed A answer) us legs)
    {l : CascadeLoop} {tried : List String} (htried : l.tried = tried)
    (hl : l.depth = tried.length)
    (hanswers : ∀ (i : Nat) u, us[i]? = some u → env.answer (l.depth + i) = .ok (answer u))
    (i latency : Nat) :
    Predicts (params.tryLegs threshold legs i tried latency)
      (finish env (x.askGroup A env us l)) := by
  induction hlegs generalizing l tried i latency with
  | nil => exact predicts_stop (by simp) htried.symm rfl
  | @cons u leg us legs hu hrest ih =>
    have hstop := stopAt_of_le (x := x) l.depth (h.upstreamTime l.depth)
    unfold askGroup CascadeTuneParams.tryLegs
    by_cases hdeep : params.depth ≤ tried.length
    · rw [hdepth, hl, if_pos hdeep, ← hl] at hstop
      rw [guarded_some hstop, if_pos hdeep]
      exact predicts_stop (by simp) htried.symm rfl
    · rw [hdepth, hl, if_neg hdeep, ← hl] at hstop
      rw [guarded_none hstop, if_neg hdeep]
      have hanswer : env.answer l.depth = .ok (answer u) := hanswers 0 u rfl
      have hmet : (scoreOf A x.config u (tagResults u.id (answer u).results)).metThreshold =
          (F32.ge leg.bestScore threshold && decide (params.results ≤ leg.resultCount)) := by
        have hlength : (tagResults u.id (answer u).results).length = leg.resultCount :=
          (List.length_map _).trans hu.results
        simp only [scoreOf, maxScore_tagResults, hu.score, hthreshold, hresults, hlength]
      unfold askUpstream
      simp only [hanswer, hmet]
      cases hok : F32.ge leg.bestScore threshold && decide (params.results ≤ leg.resultCount) with
      | true =>
        simp only [if_true, CascadeFlow.andThen, finish]
        refine ⟨by rw [htried, hu.id], fun v => ?_⟩
        rw [hu.id]
        simp
      | false =>
        simp only [Bool.false_eq_true, if_false, CascadeFlow.andThen]
        have hlater : ∀ (j : Nat) v, us[j]? = some v →
            env.answer (l.depth + 1 + j) = .ok (answer v) := by
          intro j v hv
          have hnext := hanswers (j + 1) v (by simpa using hv)
          rwa [show l.depth + (j + 1) = l.depth + 1 + j by omega] at hnext
        apply ih _ _ hlater
        · rw [htried, hu.id]
        · rw [hl, List.length_append]
          rfl

theorem query_eq (h : PlainRun x env request answer) :
    (x.query A p env request).value =
      if x.cascadeOrder.isEmpty then emptyResult env .noUpstreams
      else finish env (x.askGroup A env x.cascadeOrder (.start [])) := by
  have horder : x.cascadeOrderWithPreference p.tables request.upstreamType = x.cascadeOrder := by
    unfold cascadeOrderWithPreference
    rw [h.preference]
  have hgroups : x.queryGroups A p env request (x.groups p request) (.start []) =
      x.askGroup A env x.cascadeOrder (.start []) := by
    rw [queryGroups_eq h _ (fun _ => group_ne_nil), flatten_groups h]
  unfold query
  rw [h.enabled, h.target]
  simp only [Bool.not_true, Bool.false_eq_true, if_false, Option.bind_none]
  unfold cascade
  rw [horder, hgroups]
  split
  · rfl
  · cases x.askGroup A env x.cascadeOrder (.start []) <;> rfl

end CascadeExecutor

theorem candidates_cascadeTune {t : TuneText} {store : TuneSessionStore} {clock : ToolClock}
    {params : CascadeTuneParams} {report : CascadeTuneReport}
    (h : (cascadeTune t store clock params).2 = .ok report) :
    report.candidates = params.candidates := by
  obtain ⟨run, hwork⟩ := work_of_runTool h
  unfold CascadeTuneParams.work at hwork
  split at hwork
  · cases hwork
  · split at hwork
    · cases hwork
    · cases hwork
      rfl

theorem tryLegs_thresholds (params : CascadeTuneParams) (threshold : F32)
    (legs : List CascadeLegProbe) (i : Nat) (tried : List String) (latency : Nat) :
    (params.tryLegs threshold legs i tried latency).minScoreThreshold = threshold ∧
      (params.tryLegs threshold legs i tried latency).minResults = params.results := by
  induction legs generalizing i tried latency with
  | nil => exact ⟨rfl, rfl⟩
  | cons leg rest ih =>
    unfold CascadeTuneParams.tryLegs
    split
    · exact ⟨rfl, rfl⟩
    · dsimp only
      split
      · exact ⟨rfl, rfl⟩
      · exact ih _ _ _

def sampleLegs : List CascadeLegProbe :=
  [⟨"docs", 1, .finite (1 / 2), 1, 20⟩, ⟨"wiki", 1, .finite (9 / 10), 1, 30⟩]

def sampleCascadeTune : CascadeTuneParams where
  sessionId := "s"
  agentId := none
  contextId := none
  legs := sampleLegs
  minScoreThreshold := none
  minResults := none
  maxCascadeDepth := some 3
  minScoreSweep := none
  budget := .default

/-- Every upstream answers with one result. -/
def sampleAnswer (u : PooledUpstream) : QueryResponse :=
  let score := if u.id = "docs" then .finite (1 / 2) else .finite (9 / 10)
  ⟨[⟨"d", score, "text", none, none⟩], .miss, 1, none, none⟩

def sampleUpstream (id : String) : PooledUpstream :=
  ⟨id, 1, 1, true, .online, .vectorDatabase⟩

def sampleExecutor : CascadeExecutor where
  pool := ⟨[sampleUpstream "docs", sampleUpstream "wiki"], .failover, 0⟩
  config := .default

def sampleEnvironment : Environment where
  permit := true
  targeted := .error ""
  answer i := .ok (sampleAnswer (sampleUpstream (if i = 0 then "docs" else "wiki")))
  joins _ := []
  groupElapsed _ := 0
  upstreamElapsed _ := 0
  finishMs := 0
  fuseOrder := Environment.failing.fuseOrder
  primary := .error ""
  remaining _ := .error ""
  single := .error ""

theorem plainRun_sample :
    PlainRun sampleExecutor sampleEnvironment ⟨"q", none, none, none, none⟩ sampleAnswer where
  enabled := rfl
  fusion := rfl
  target := rfl
  preference := rfl
  groupTime _ := Nat.zero_le _
  upstreamTime _ := Nat.zero_le _
  available := by decide
  answers i u hu := by
    match i with
    | 0 | 1 =>
      obtain rfl := Option.some.inj hu
      rfl
    | i + 2 => cases hu

theorem probed_sample (id : String) (leg : CascadeLegProbe)
    (hid : id = leg.upstreamId) (hpriority : leg.priority = 1) (hcount : leg.resultCount = 1)
    (hscore : leg.bestScore = if id = "docs" then .finite (1 / 2) else .finite (9 / 10)) :
    Probed .exact sampleAnswer (sampleUpstream id) leg where
  id := hid
  priority := hpriority.symm
  score := by
    have hlow : normalizeScore .exact (.finite (1 / 2)) .vectorDatabase = .finite (1 / 2) := by
      decide +kernel
    have hhigh : normalizeScore .exact (.finite (9 / 10)) .vectorDatabase = .finite (9 / 10) := by
      decide +kernel
    rw [hscore]
    unfold sampleAnswer sampleUpstream
    split
    · exact hlow
    · exact hhigh
  results := hcount.symm

def sampleReport : CascadeTuneReport :=
  ⟨"s", "run-3", [⟨.finite (7 / 10), 1, some "wiki", ["docs", "wiki"], true, 50⟩]⟩

theorem sampleReport_eq :
    (cascadeTune SessionHistory.plainText SessionHistory.sampleStore ⟨1, 2, 3⟩
      sampleCascadeTune).2 = .ok sampleReport := by
  decide +kernel

end Conproxy
