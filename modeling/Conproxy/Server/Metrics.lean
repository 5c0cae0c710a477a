import Conproxy.Server.Exits
import Conproxy.Server.Isolation

/-!
# Request metrics

The counters of `metrics.rs` that `execute_query` records, along runs of its calls. Every call
that gets past the checks ends once; how it ends decides which of the counters go up. The
counters are natural numbers: an `AtomicU64` would have to count past `2^64` to wrap.
-/

namespace Conproxy

open CacheStore Machine

set_option autoImplicit false

structure ProxyMetrics where
  requestsTotal : Nat
  cacheHits : Nat
  cacheMisses : Nat
  missNotInCache : Nat
  missExpired : Nat
  missUpstreamError : Nat
  missCircuitOpen : Nat
  cacheStale : Nat
  cacheFrozen : Nat
  coalescedRequests : Nat
  upstreamFailures : Nat
  validationErrors : Nat
  semanticHits : Nat
  semanticMisses : Nat
deriving DecidableEq

namespace ProxyMetrics

def new : ProxyMetrics := ⟨0, 0, 0, 0, 0, 0, 0, 0, 0, 0, 0, 0, 0, 0⟩

def recordHit (m : ProxyMetrics) : ProxyMetrics :=
  { m with requestsTotal := m.requestsTotal + 1, cacheHits := m.cacheHits + 1 }

def recordMiss (reason : MissReason) (m : ProxyMetrics) : ProxyMetrics :=
  let m := { m with requestsTotal := m.requestsTotal + 1, cacheMisses := m.cacheMisses + 1 }
  match reason with
  | .notInCache => { m with missNotInCache := m.missNotInCache + 1 }
  | .expired => { m with missExpired := m.missExpired + 1 }
  | .upstreamError => { m with missUpstreamError := m.missUpstreamError + 1 }
  | .circuitOpen => { m with missCircuitOpen := m.missCircuitOpen + 1 }

def recordStale (m : ProxyMetrics) : ProxyMetrics :=
  { m with requestsTotal := m.requestsTotal + 1, cacheStale := m.cacheStale + 1 }

def recordFrozen (m : ProxyMetrics) : ProxyMetrics :=
  { m with requestsTotal := m.requestsTotal + 1, cacheFrozen := m.cacheFrozen + 1 }

def recordCoalesced (m : ProxyMetrics) : ProxyMetrics :=
  { m with coalescedRequests := m.coalescedRequests + 1 }

def recordUpstreamFailure (m : ProxyMetrics) : ProxyMetrics :=
  { m with upstreamFailures := m.upstreamFailures + 1 }

def recordValidationError (m : ProxyMetrics) : ProxyMetrics :=
  { m with validationErrors := m.validationErrors + 1 }

def recordSemanticHit (m : ProxyMetrics) : ProxyMetrics :=
  { m with semanticHits := m.semanticHits + 1 }

def recordSemanticMiss (m : ProxyMetrics) : ProxyMetrics :=
  { m with semanticMisses := m.semanticMisses + 1 }

/-- The requests by the class they were counted under. -/
def classes (m : ProxyMetrics) : Nat :=
  m.cacheHits + m.cacheMisses + m.cacheStale + m.cacheFrozen

end ProxyMetrics

/-- What a call does in one step: it leaves one of its first two parts, or it goes on as a
leader with the outcome of the dispatch, or as a waiter with what the leader sent. -/
inductive Ending where
  | part (exit : Exit)
  | embedded (exit : Exit)
  | leaderOk (valid : Bool)
  | leaderErr (cached : Bool)
  | waiterOk
  | waiterErr (cached : Bool)
deriving DecidableEq

open ProxyMetrics

/-- A leader counts its upstream request elsewhere, and its class when the upstream has
answered. -/
def Exit.record (missReason : MissReason) (m : ProxyMetrics) : Exit → ProxyMetrics
  | .invalid => m.recordValidationError
  | .fresh => m.recordHit
  | .stale => m.recordStale
  | .semantic _ => m.recordSemanticHit
  | .waits _ => m.recordCoalesced
  | .frozen => m.recordFrozen
  | .circuitOpen => m.recordMiss .circuitOpen
  | .noUpstream => m.recordMiss missReason
  | .paused | .denied | .embeds | .leads | .cachedOnly => m

/-- The exits that return without counting the call. -/
def Exit.miscounted : Exit → Bool
  | .semantic _ | .cachedOnly => true
  | _ => false

namespace Ending

def record (missReason : MissReason) (m : ProxyMetrics) : Ending → ProxyMetrics
  | .part exit => exit.record missReason m
  | .embedded (.semantic matched) => Exit.record missReason m (.semantic matched)
  | .embedded exit => exit.record missReason m.recordSemanticMiss
  | .leaderOk true => m.recordMiss missReason
  | .leaderOk false => (m.recordMiss missReason).recordValidationError
  | .leaderErr true => (m.recordMiss .upstreamError).recordUpstreamFailure.recordFrozen
  | .leaderErr false => (m.recordMiss .upstreamError).recordUpstreamFailure
  | .waiterOk => m
  | .waiterErr true => m.recordFrozen
  | .waiterErr false => m

/-- The call got past validation, pause and authorization, and has returned. -/
def returns : Ending → Bool
  | .part exit => exit.returns
  | .embedded exit => exit.returns
  | .leaderOk _ | .leaderErr _ | .waiterOk | .waiterErr _ => true

/-- The endings that are counted under no class, or under two. -/
def miscounted : Ending → Bool
  | .part exit => exit.miscounted
  | .embedded exit => exit.miscounted
  | .leaderOk _ => false
  | .leaderErr cached => cached
  | .waiterOk => true
  | .waiterErr cached => !cached

end Ending

/-- The runs are of `execute_query` alone: the batch and federated handlers count their
requests themselves. -/
def Event.ofQueries : Event → Bool
  | .batch .. | .federated .. => false
  | _ => true

structure QueryAction where
  action : Action
  ofQueries : action.event.ofQueries = true

section

variable (p : Platform)

/-- How the step of a call ends, and the reason of its miss. -/
def Server.ending (s : Server) (a : Action) : Option (Ending × MissReason) :=
  match a.event with
  | .query contextId request agent skipCache allowed =>
    let c : Client := ⟨.query, contextId, request, a.now.instant⟩
    some (.part (s.arrive.queryExit p a.now c agent skipCache allowed),
      s.arrive.missReasonOf p a.now c skipCache)
  | .embedded id embedding scan allowed =>
    match s.tasks.lookup id with
    | some (.embedding c missReason) =>
      some (.embedded ((s.finish id).semanticExit p a.now c embedding scan allowed), missReason)
    | _ => none
  | .returned id outcome _ =>
    match s.tasks.lookup id with
    | some (.leading c upstreams missReason _) =>
      match c.handler, upstreams.dispatch outcome with
      | .query, .ok response =>
        let valid := ((s.missResponse c missReason response).validate = .ok () : Bool)
        some (.leaderOk valid, missReason)
      | .query, .error _ =>
        some (.leaderErr (c.key.hash p ∈ s.app.cache.entries), missReason)
      | _, _ => none
    | _ => none
  | .received id =>
    match s.tasks.lookup id with
    | some (.waiting c receiver) =>
      match c.handler, s.sent.lookup receiver with
      | .query, some (.ok _) => some (.waiterOk, .notInCache)
      | .query, some (.error _) =>
        some (.waiterErr (c.key.hash p ∈ s.app.cache.entries), .notInCache)
      | _, _ => none
    | _ => none
  | _ => none

structure Counted where
  server : Server
  metrics : ProxyMetrics

namespace Counted

/-- The counters start with the first call. -/
def new (s : Server) : Counted := ⟨{ s with answers := [] }, ProxyMetrics.new⟩

def step (x : Counted) (a : QueryAction) : Counted where
  server := x.server.step p a.action
  metrics :=
    match x.server.ending p a.action with
    | some (ending, missReason) => ending.record missReason x.metrics
    | none => x.metrics

/-- The step ends a call in a way that is counted wrongly. -/
def Miscounts (x : Counted) (a : QueryAction) : Prop :=
  ∃ ending missReason, x.server.ending p a.action = some (ending, missReason) ∧
    ending.miscounted = true

/-- Every call is counted once, under one class. -/
structure Exact (x : Counted) : Prop where
  classes : x.metrics.requestsTotal = x.metrics.classes
  total : x.metrics.requestsTotal = x.server.passed

end Counted

end

namespace ProxyMetrics

/-- The metrics count `n` more requests, each under a class. -/
def Adds (m m' : ProxyMetrics) (n : Nat) : Prop :=
  m'.requestsTotal = m.requestsTotal + n ∧ m'.classes = m.classes + n

variable {m m' m'' : ProxyMetrics} {n k : Nat}

theorem adds_zero : Adds m m 0 := ⟨rfl, rfl⟩

theorem Adds.trans (h : Adds m m' n) (h' : Adds m' m'' k) : Adds m m'' (n + k) := by
  obtain ⟨htotal, hclasses⟩ := h
  obtain ⟨htotal', hclasses'⟩ := h'
  exact ⟨by omega, by omega⟩

theorem adds_recordHit : Adds m m.recordHit 1 := by
  refine ⟨rfl, ?_⟩
  simp only [recordHit, classes]
  omega

theorem adds_recordMiss (reason : MissReason) : Adds m (m.recordMiss reason) 1 := by
  have hclasses : (m.recordMiss reason).classes =
      m.cacheHits + (m.cacheMisses + 1) + m.cacheStale + m.cacheFrozen := by
    cases reason <;> rfl
  refine ⟨by cases reason <;> rfl, ?_⟩
  rw [hclasses, classes]
  omega

theorem adds_recordStale : Adds m m.recordStale 1 := by
  refine ⟨rfl, ?_⟩
  simp only [recordStale, classes]
  omega

theorem adds_recordFrozen : Adds m m.recordFrozen 1 := ⟨rfl, rfl⟩

theorem adds_recordUpstreamFailure : Adds m m.recordUpstreamFailure 0 := ⟨rfl, rfl⟩

theorem adds_recordValidationError : Adds m m.recordValidationError 0 := ⟨rfl, rfl⟩

theorem adds_recordSemanticMiss : Adds m m.recordSemanticMiss 0 := ⟨rfl, rfl⟩

end ProxyMetrics

def Exit.counts : Exit → Nat
  | .fresh | .stale | .frozen | .circuitOpen | .noUpstream => 1
  | _ => 0

theorem Exit.adds (exit : Exit) (missReason : MissReason) (m : ProxyMetrics) :
    m.Adds (exit.record missReason m) exit.counts := by
  cases exit with
  | fresh => exact adds_recordHit
  | stale => exact adds_recordStale
  | frozen => exact adds_recordFrozen
  | circuitOpen => exact adds_recordMiss _
  | noUpstream => exact adds_recordMiss _
  | paused | invalid | denied | embeds | semantic | leads | waits | cachedOnly =>
    exact ⟨rfl, rfl⟩

def Ending.counts : Ending → Nat
  | .part exit => exit.counts
  | .embedded exit => exit.counts
  | .leaderOk _ => 1
  | .leaderErr true => 2
  | .leaderErr false => 1
  | .waiterOk => 0
  | .waiterErr true => 1
  | .waiterErr false => 0

theorem Ending.adds (ending : Ending) (missReason : MissReason) (m : ProxyMetrics) :
    m.Adds (ending.record missReason m) ending.counts := by
  cases ending with
  | part exit => exact exit.adds missReason m
  | embedded exit =>
    have hmiss : m.Adds (exit.record missReason m.recordSemanticMiss) (0 + exit.counts) :=
      adds_recordSemanticMiss.trans (exit.adds missReason _)
    rw [Nat.zero_add] at hmiss
    cases exit with
    | semantic matched => exact ⟨rfl, rfl⟩
    | _ => exact hmiss
  | leaderOk valid =>
    cases valid with
    | true => exact adds_recordMiss missReason
    | false => exact (adds_recordMiss missReason).trans adds_recordValidationError
  | leaderErr cached =>
    have hmiss := (adds_recordMiss (m := m) .upstreamError).trans adds_recordUpstreamFailure
    cases cached with
    | true => exact hmiss.trans adds_recordFrozen
    | false => exact hmiss
  | waiterOk => exact adds_zero
  | waiterErr cached =>
    cases cached with
    | true => exact adds_recordFrozen
    | false => exact adds_zero

theorem Exit.counts_eq_iff (exit : Exit) :
    exit.counts = (if exit.returns then 1 else 0) ↔ exit.miscounted = false := by
  cases exit with
  | semantic | cachedOnly => exact ⟨fun h => absurd h Nat.zero_ne_one, fun h => by cases h⟩
  | _ => exact ⟨fun _ => rfl, fun _ => rfl⟩

/-- An ending counts one request for a call that returns, and none for one that goes on, unless
it is one of the listed ones. -/
theorem Ending.counts_eq_iff (ending : Ending) :
    ending.counts = (if ending.returns then 1 else 0) ↔ ending.miscounted = false := by
  cases ending with
  | part exit => exact exit.counts_eq_iff
  | embedded exit => exact exit.counts_eq_iff
  | leaderOk valid => exact ⟨fun _ => rfl, fun _ => rfl⟩
  | leaderErr cached => cases cached <;> decide
  | waiterOk => decide
  | waiterErr cached => cases cached <;> decide

/-! ## What a step answers -/

namespace Server

variable {p : Platform} {s : Server} {now : Clock} {scan : Scan} {c : Client}
  {missReason : MissReason}

theorem passed_complete (h : QueryHash) (result : CoalesceResult) :
    (s.complete h result).passed = s.passed := by
  unfold complete
  split <;> rfl

theorem passed_read {look : Lookup} {found : CacheEntry → Source → Server → Server}
    {missing : Server → Server} {n : Nat}
    (hfound : ∀ e source cache, (found e source (s.setCache cache)).passed = n)
    (hmissing : (missing s).passed = n) :
    (s.read p now look found missing).passed = n := by
  cases hl : s.app.cache.entries.lookup (look.hash p s.app.cache) with
  | some e =>
    rw [read_of_lookup hl]
    exact hfound _ _ _
  | none =>
    rw [read_of_none hl]
    exact hmissing

theorem passed_share (response : QueryResponse) (source : Source) :
    (s.share p now c response source).passed = s.passed + 1 := by
  unfold share
  rw [passed_answer, passed_complete]
  rfl

theorem passed_leaderOk (stashed computed : Option Embedding) (returned : QueryResponse) :
    (s.leaderOk p now scan c missReason stashed computed returned).passed = s.passed + 1 := by
  unfold leaderOk
  dsimp only
  split
  · exact passed_share _ _
  · exact passed_share _ _

theorem passed_leaderErr (message : String) :
    (s.leaderErr p now c message).passed = s.passed + 1 := by
  unfold leaderErr
  apply passed_read
  · intro e source cache
    unfold serve
    rw [passed_answer, passed_complete]
    rfl
  · unfold refuse
    rw [passed_answer, passed_complete]
    rfl

theorem passed_waiterDone (result : CoalesceResult) :
    (s.waiterDone p now c result).passed = s.passed + 1 := by
  cases result with
  | ok b => exact passed_answer _ _
  | error e =>
    apply passed_read
    · intro e source cache
      exact passed_answer _ _
    · exact passed_answer _ _

theorem passed_batchOk (t : Transport) (returned : QueryResponse) :
    (s.batchOk p now scan c t missReason returned).passed = s.passed := by
  unfold batchOk
  dsimp only
  rw [passed_answer, passed_complete]
  split <;> rfl

theorem passed_batchErr (t : Transport) (message : String) :
    (s.batchErr p now c t message).passed = s.passed := by
  unfold batchErr
  apply passed_read
  · intro e source cache
    unfold serveItem
    rw [passed_answer, passed_complete]
    rfl
  · unfold failItem
    rw [passed_answer, passed_complete]
    rfl

theorem passed_batchWaiterDone (t : Transport) (result : CoalesceResult) :
    (s.batchWaiterDone p now c t result).passed = s.passed := by
  cases result with
  | ok b => exact passed_answer _ _
  | error e =>
    apply passed_read
    · intro e source cache
      exact passed_answer _ _
    · exact passed_answer _ _

theorem passed_federatedDone (returned : Except String QueryResponse) :
    (s.federatedDone p now scan c returned).passed = s.passed := by
  cases returned with
  | error e => exact passed_answer _ _
  | ok response =>
    unfold federatedDone
    dsimp only
    rw [passed_answer]
    split <;> rfl

/-- How many calls the ending of a step answers. -/
def answered (ending : Option (Ending × MissReason)) : Nat :=
  match ending with
  | some (ending, _) => if ending.returns then 1 else 0
  | none => 0

theorem passed_resume {id : Nat} {task : Task} (outcome : Except String QueryResponse)
    (computed : Option Embedding) (hl : s.tasks.lookup id = some task) :
    ((s.finish id).resume p now scan task outcome computed).passed =
      s.passed + answered (s.ending p ⟨now, scan, .returned id outcome computed⟩) := by
  simp only [ending, hl]
  cases task with
  | leading c upstreams missReason embedding =>
    unfold resume
    dsimp only
    cases hdispatch : upstreams.dispatch outcome with
    | ok response =>
      cases hhandler : c.handler with
      | query => exact passed_leaderOk _ _ _
      | batch t => exact passed_batchOk _ _
      | federated t => rfl
    | error e =>
      cases hhandler : c.handler with
      | query => exact passed_leaderErr _
      | batch t => exact passed_batchErr _ _
      | federated t => rfl
  | federating c => exact passed_federatedDone outcome
  | refreshing key =>
    simp only [resume, staleRefreshed]
    split
    · rfl
    · split <;> rfl
  | tracking key =>
    simp only [resume, refreshed]
    split <;> rfl
  | warming key =>
    simp only [resume, warmed]
    split
    · rfl
    · split <;> rfl
  | embedding c missReason => rfl
  | waiting c receiver => rfl

/-- A step answers a call exactly if it ends one. -/
theorem passed_step (s : Server) (a : QueryAction) :
    (s.step p a.action).passed = s.passed + answered (s.ending p a.action) := by
  obtain ⟨⟨now, scan, event⟩, hquery⟩ := a
  cases event with
  | query contextId request agent skipCache allowed => exact leaves_executeQuery.passed
  | batch t contextId request agent upstreams => cases hquery
  | federated t contextId query topK agent remote => cases hquery
  | embedded id embedding scan allowed =>
    simp only [step, ending]
    cases s.tasks.lookup id with
    | none => rfl
    | some task =>
      cases task with
      | embedding c missReason => exact leaves_semanticLookup.passed
      | _ => rfl
  | returned id outcome computed =>
    simp only [step]
    cases hl : s.tasks.lookup id with
    | none => simp only [ending, hl, answered, Nat.add_zero]
    | some task =>
      cases task with
      | embedding c missReason => simp only [ending, hl, answered, Nat.add_zero]
      | waiting c receiver => simp only [ending, hl, answered, Nat.add_zero]
      | _ => exact passed_resume outcome computed hl
  | received id =>
    simp only [step, ending]
    cases s.tasks.lookup id with
    | none => rfl
    | some task =>
      cases task with
      | waiting c receiver =>
        dsimp only
        cases s.sent.lookup receiver with
        | none => cases c.handler <;> rfl
        | some result =>
          unfold receive
          cases hhandler : c.handler with
          | query =>
            dsimp only
            rw [passed_waiterDone]
            cases result <;> rfl
          | batch t => exact passed_batchWaiterDone t result
          | federated t => rfl
      | _ => rfl
  | refreshStale h =>
    simp only [step, refreshStale]
    split
    · rfl
    · split
      · split <;> rfl
      · rfl
  | warmup contextId query =>
    simp only [step, warmup]
    split
    · rfl
    · split <;> rfl
  | replicated key response upstreamId applies =>
    simp only [step, replicated]
    split <;> rfl
  | maintenance op =>
    simp only [step]
    split <;> rfl
  | dropped id => rfl
  | reconfigured upstreams federatedEnabled paused => rfl

end Server

namespace Counted

variable {p : Platform}

/-- One step keeps the count exact exactly if it ends no call in one of the listed ways. -/
theorem exact_step_iff {x : Counted} (h : x.Exact) (a : QueryAction) :
    (x.step p a).Exact ↔ ¬ x.Miscounts p a := by
  obtain ⟨hclasses, htotal⟩ := h
  have hpassed : (x.step p a).server.passed =
      x.server.passed + Server.answered (x.server.ending p a.action) :=
    Server.passed_step x.server a
  cases hending : x.server.ending p a.action with
  | none =>
    rw [hending] at hpassed
    have hmetrics : (x.step p a).metrics = x.metrics := by simp only [step, hending]
    refine iff_of_true ⟨?_, ?_⟩ ?_
    · rw [hmetrics, hclasses]
    · rw [hmetrics, hpassed, htotal]
      rfl
    · rintro ⟨_, _, hsome, -⟩
      rw [hending] at hsome
      cases hsome
  | some found =>
    obtain ⟨ending, missReason⟩ := found
    obtain ⟨hadds, hsum⟩ := ending.adds missReason x.metrics
    rw [hending] at hpassed
    have hmetrics : (x.step p a).metrics = ending.record missReason x.metrics := by
      simp only [step, hending]
    have hmiscounts : x.Miscounts p a ↔ ending.miscounted = true := by
      simp [Miscounts, hending]
    rw [hmiscounts, Bool.not_eq_true, ← ending.counts_eq_iff]
    constructor
    · rintro ⟨-, htotal'⟩
      rw [hmetrics, hpassed, hadds, htotal] at htotal'
      exact Nat.add_left_cancel htotal'
    · intro hcounts
      refine ⟨?_, ?_⟩
      · rw [hmetrics, hadds, hsum, hclasses]
      · rw [hmetrics, hpassed, hadds, htotal, hcounts]
        rfl

theorem exact_new (s : Server) : (new s).Exact := ⟨rfl, rfl⟩

/-- The metrics agree with the calls in every state of a run exactly if no call of the run ended
as a hit of the semantic tier, from the cache without an upstream, as a waiter that was served
or found nothing, or as a leader that fell back to the cache. -/
theorem requests_counted_iff (p : Platform) (s : Server) (actions : List QueryAction) :
    AllSteps (step p) (fun x a => (x.step p a).Exact) (new s) actions ↔
      AllSteps (step p) (fun x a => ¬ x.Miscounts p a) (new s) actions := by
  have hstep : ∀ x a, True → Exact x → ((x.step p a).Exact ↔ ¬ x.Miscounts p a) :=
    fun _ a _ h => exact_step_iff h a
  exact @allSteps_congr_of_invariant _ _ _ (fun _ => True) _ _ (fun _ _ h => h) hstep _ trivial
    (exact_new s) _

/-- Two clients ask the same: the second one waits for the first. -/
def coalescedPair : List QueryAction :=
  [⟨actionAt 0 (plainQuery "a" "q" none), rfl⟩,
    ⟨actionAt 1 (plainQuery "a" "q" none), rfl⟩,
    ⟨actionAt 2 (.returned 0 (.ok (textResponse "x")) none), rfl⟩,
    ⟨actionAt 3 (.received 1), rfl⟩]

/-- Both are answered, and one is counted. -/
theorem waiter_not_counted :
    ¬ ∀ (p : Platform) (s : Server) (actions : List QueryAction),
      AllSteps (step p) (fun x a => (x.step p a).Exact) (new s) actions := by
  intro h
  obtain ⟨-, -, -, hlast, -⟩ := h Platform.sample smallServer coalescedPair
  exact absurd hlast.total (by decide +kernel)

end Counted

end Conproxy
