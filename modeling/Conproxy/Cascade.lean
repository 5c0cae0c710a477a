import Mathlib.Data.List.Dedup
import Conproxy.Pool.Strategies
import Conproxy.Scope

/-!
# The upstream pool and the cascade

`UpstreamPool::query` of `pool.rs` and `CascadeExecutor::query` of `cascade.rs`. What upstreams
answer and what the clock shows are inputs: an `Environment` gives them by the place in the
loop that asks. Next to its result every query returns the outcomes of the calls it made.
-/

namespace Conproxy

set_option autoImplicit false

inductive UpstreamType where
  | fullTextSearch
  | vectorDatabase
  | hybrid
  | unknown
deriving DecidableEq

namespace UpstreamType

def scoreRange : UpstreamType → F32 × F32
  | .fullTextSearch => (.finite 0, .finite 100)
  | _ => (.finite 0, .finite 1)

def asStr : UpstreamType → String
  | .fullTextSearch => "fts"
  | .vectorDatabase => "vector_db"
  | .hybrid => "hybrid"
  | .unknown => "unknown"

end UpstreamType

inductive UpstreamStatus where
  | online
  | degraded
  | offline
deriving DecidableEq

/-- An upstream of the pool, with its health when the query selects upstreams. -/
structure PooledUpstream where
  id : String
  weight : Nat
  priority : Nat
  enabled : Bool
  status : UpstreamStatus
  upstreamType : UpstreamType
deriving DecidableEq

namespace PooledUpstream

def isHealthy (u : PooledUpstream) : Bool := u.enabled && u.status = .online

def isAvailable (u : PooledUpstream) : Bool := u.enabled && u.status ≠ .offline

def reads : UpstreamReads PooledUpstream := ⟨weight, priority, isAvailable, isHealthy⟩

end PooledUpstream

structure UpstreamPool where
  upstreams : List PooledUpstream
  strategy : LoadBalanceStrategy
  currentIndex : Nat
deriving DecidableEq

namespace UpstreamPool

/-- The id index keeps the last upstream of an id. -/
def get (pool : UpstreamPool) (id : String) : Option PooledUpstream :=
  pool.upstreams.reverse.find? fun u => u.id = id

def available (pool : UpstreamPool) : List PooledUpstream :=
  pool.upstreams.filter PooledUpstream.isAvailable

/-- The available upstreams, or all of them if there is none. -/
def candidates (pool : UpstreamPool) : List PooledUpstream :=
  if pool.available.isEmpty then pool.upstreams else pool.available

def byPriority (upstreams : List PooledUpstream) : List PooledUpstream :=
  LoadBalanceStrategy.upstreamsByPriority PooledUpstream.priority upstreams

def selectFromAvailable (pool : UpstreamPool) (available : List PooledUpstream) :
    Option PooledUpstream :=
  (pool.strategy.selectFromAvailable PooledUpstream.reads pool.currentIndex pool.upstreams
    available).1

end UpstreamPool

/-- What a call of an upstream returned. An error is given by its text. -/
abbrev Outcome := Except String QueryResponse

def unavailable (message : String) : Outcome := .error ("Upstream unavailable: " ++ message)

/-- A result of a query with the outcomes of the calls that it made. -/
structure Traced (α : Type) where
  value : α
  calls : List Outcome

def tagResults (uid : String) (results : List SearchResult) : List SearchResult :=
  results.map fun r => { r with upstreamId := some uid }

/-- A task of a fused group as `join_next` returns it: the upstream, the time on the clock, and
its outcome unless the task panicked. -/
structure Join where
  upstream : PooledUpstream
  elapsed : Duration
  outcome : Option Outcome

/-- The order in which a map of fused documents is read. -/
structure FuseScan where
  order : List (F32 × SearchResult) → List (F32 × SearchResult)
  perm : ∀ l, (order l).Perm l

/-- Answers and clock readings of one request. The loop of the cascade asks at a depth: what
the upstream at that depth answers, how a fused group that starts there completes, and the time
at the check of a group and of an upstream. -/
structure Environment where
  permit : Bool
  targeted : Outcome
  answer : Nat → Outcome
  joins : Nat → List Join
  groupElapsed : Nat → Duration
  upstreamElapsed : Nat → Duration
  finishMs : Nat
  fuseOrder : FuseScan
  primary : Outcome
  remaining : Nat → Outcome
  single : Outcome

namespace UpstreamPool

def tagged (u : PooledUpstream) (response : QueryResponse) : QueryResponse :=
  { response with results := tagResults u.id response.results }

/-- The loop over the candidates after the primary upstream. -/
def tryRemaining (env : Environment) : List PooledUpstream → Nat → Traced Outcome
  | [], _ => ⟨unavailable "All upstreams failed", []⟩
  | u :: rest, index =>
    match env.remaining index with
    | .ok response => ⟨.ok (tagged u response), [.ok response]⟩
    | .error e =>
      let later := tryRemaining env rest (index + 1)
      ⟨later.value, .error e :: later.calls⟩

def tryPrimary (pool : UpstreamPool) (env : Environment) : Traced Outcome :=
  match pool.selectFromAvailable pool.candidates with
  | some primary =>
    match env.primary with
    | .ok response => ⟨.ok (tagged primary response), [.ok response]⟩
    | .error e =>
      if pool.candidates.length = 1 then ⟨.error e, [.error e]⟩
      else
        let later := tryRemaining env pool.candidates 0
        ⟨later.value, .error e :: later.calls⟩
  | none => tryRemaining env pool.candidates 0

def query (pool : UpstreamPool) (request : QueryRequest) (env : Environment) : Traced Outcome :=
  if pool.candidates.isEmpty then ⟨unavailable "No upstreams configured", []⟩
  else
    match request.upstreamId.bind pool.get with
    | some target =>
      match env.targeted with
      | .ok response => ⟨.ok (tagged target response), [.ok response]⟩
      | .error e => ⟨.error e, [.error e]⟩
    | none => pool.tryPrimary env

end UpstreamPool

inductive FusionMethod where
  | none
  | rrf
deriving DecidableEq

structure CascadeConfig where
  enabled : Bool
  minScoreThreshold : F32
  minResults : Nat
  maxCascadeDepth : Nat
  cascadeTimeoutMs : Nat
  fusionMethod : FusionMethod
  rrfK : Nat
deriving DecidableEq

namespace CascadeConfig

def default : CascadeConfig := ⟨true, .finite (7 / 10), 1, 3, 30000, .none, 60⟩

def timeout (c : CascadeConfig) : Duration := c.cascadeTimeoutMs * 1000000

/-- A group is fused if fusion is on and it has two upstreams at least. -/
def fuses (c : CascadeConfig) (group : List PooledUpstream) : Bool :=
  c.fusionMethod = .rrf && 2 ≤ group.length

end CascadeConfig

inductive CascadeStopReason where
  | thresholdMet
  | minResultsMet
  | maxDepthReached
  | allExhausted
  | timeout
  | disabled
  | noUpstreams
deriving DecidableEq

structure UpstreamScore where
  upstreamId : String
  maxScore : F32
  normalizedScore : F32
  resultCount : Nat
  metThreshold : Bool
  error : Option String

structure CascadeResult where
  results : List SearchResult
  upstreamsTried : List String
  finalUpstream : Option String
  stopReason : CascadeStopReason
  upstreamScores : List UpstreamScore
  cascadeTimeMs : Nat
  cascadeDepth : Nat

/-- The greatest score, the last one of equals; zero without results. -/
def maxScore (results : List SearchResult) : F32 :=
  match results with
  | [] => F32.zero
  | first :: rest =>
    rest.foldl (fun acc r => if F32.lt r.score acc then acc else r.score) first.score

section Scores

variable (A : F32Arith)

def normalizeScore (score : F32) (upstreamType : UpstreamType) : F32 :=
  let range := upstreamType.scoreRange
  if F32.ge range.1 range.2 then score.clampUnit
  else (A.div (A.sub score range.1) (A.sub range.2 range.1)).clampUnit

def scoreOf (config : CascadeConfig) (u : PooledUpstream) (results : List SearchResult) :
    UpstreamScore :=
  let normalized := normalizeScore A (maxScore results) u.upstreamType
  { upstreamId := u.id
    maxScore := maxScore results
    normalizedScore := normalized
    resultCount := results.length
    metThreshold :=
      F32.ge normalized config.minScoreThreshold && config.minResults ≤ results.length
    error := none }

def failedScore (u : PooledUpstream) (error : String) : UpstreamScore :=
  ⟨u.id, F32.zero, F32.zero, 0, false, some error⟩

/-- One document of a list in `fuse_rrf`: its score grows, and the best instance represents
it. -/
def fuseOne (p : Platform) (k : Nat) (accum : AList fun _ : QueryHash => F32 × SearchResult)
    (ranked : SearchResult × Nat) : AList fun _ : QueryHash => F32 × SearchResult :=
  let key := p.blake3 (utf8 ranked.1.content)
  let rrf := A.div F32.one (A.add (A.add (A.ofNat k) (A.ofNat ranked.2)) F32.one)
  match accum.lookup key with
  | some (score, best) =>
    accum.insert key
      (A.add score rrf, if F32.lt best.score ranked.1.score then ranked.1 else best)
  | none => accum.insert key (rrf, ranked.1)

def fuseRrf (p : Platform) (scan : FuseScan) (lists : List (List SearchResult))
    (k maxResults : Nat) : List SearchResult :=
  let accum := lists.foldl (fun accum results => results.zipIdx.foldl (fuseOne A p k) accum) ∅
  let merged := scan.order (accum.entries.map Sigma.snd)
  ((merged.mergeSort fun a b => !F32.lt a.1 b.1).take maxResults).map Prod.snd

end Scores

def groupByPriority (upstreams : List PooledUpstream) : List (List PooledUpstream) :=
  let priorities := ((upstreams.map PooledUpstream.priority).dedup).insertionSort (· ≤ ·)
  priorities.map fun priority => upstreams.filter fun u => u.priority = priority

structure CascadeExecutor where
  pool : UpstreamPool
  config : CascadeConfig
deriving DecidableEq

/-- The variables of the cascade's loop. -/
structure CascadeLoop where
  tried : List String
  scores : List UpstreamScore
  best : Option (String × List SearchResult × F32)
  depth : Nat
  calls : List Outcome

def CascadeLoop.start (calls : List Outcome) : CascadeLoop := ⟨[], [], none, 0, calls⟩

/-- The loop goes on, or the cascade returns. -/
inductive CascadeFlow where
  | next (l : CascadeLoop)
  | done (r : Traced CascadeResult)

namespace CascadeFlow

def andThen (f : CascadeFlow) (g : CascadeLoop → CascadeFlow) : CascadeFlow :=
  match f with
  | .next l => g l
  | .done r => .done r

end CascadeFlow

namespace CascadeLoop

def stop (l : CascadeLoop) (env : Environment) (reason : CascadeStopReason) (depth : Nat) :
    Traced CascadeResult :=
  { value := {
      results := (l.best.map fun b => b.2.1).getD []
      upstreamsTried := l.tried
      finalUpstream := l.best.map Prod.fst
      stopReason := reason
      upstreamScores := l.scores
      cascadeTimeMs := env.finishMs
      cascadeDepth := depth }
    calls := l.calls }

def keepBest (l : CascadeLoop) (uid : String) (results : List SearchResult) (normalized : F32) :
    CascadeLoop :=
  match l.best with
  | none => { l with best := some (uid, results, normalized) }
  | some b =>
    if F32.lt b.2.2 normalized then { l with best := some (uid, results, normalized) } else l

end CascadeLoop

/-- What `run_rrf_group` collects while the tasks of a group complete. -/
structure RrfGroup where
  upstreamIds : List String
  scores : List UpstreamScore
  lists : List (List SearchResult)
  bestNormalized : F32
  calls : List Outcome

def RrfGroup.start (calls : List Outcome) : RrfGroup := ⟨[], [], [], F32.zero, calls⟩

def asciiLowercase (s : String) : List Char := s.toList.map Char.toLower

namespace CascadeExecutor

section Order

variable (x : CascadeExecutor)

def cascadeOrder : List PooledUpstream := UpstreamPool.byPriority x.pool.candidates

/-- Upstreams whose type or id contains the preference come first. -/
def preferenceKey (pref : List Char) (u : PooledUpstream) : Nat × Nat :=
  let typeMatch := decide (pref <:+: asciiLowercase u.upstreamType.asStr)
  let idMatch := decide (pref <:+: asciiLowercase u.id)
  (if typeMatch || idMatch then 0 else 1, u.priority)

def cascadeOrderWithPreference (tables : CaseTables) (preferredType : Option String) :
    List PooledUpstream :=
  match preferredType with
  | none => x.cascadeOrder
  | some pref =>
    let key := preferenceKey (tables.toLowercase pref.toList)
    x.cascadeOrder.insertionSort fun a b =>
      (key a).1 < (key b).1 ∨ (key a).1 = (key b).1 ∧ (key a).2 ≤ (key b).2

end Order

section Query

variable (A : F32Arith) (p : Platform) (x : CascadeExecutor) (env : Environment)

/-- The check before a group and before an upstream: first the depth, then the time. -/
def stopAt (depth : Nat) (elapsed : Duration) : Option CascadeStopReason :=
  if x.config.maxCascadeDepth ≤ depth then some .maxDepthReached
  else if x.config.timeout < elapsed then some .timeout
  else none

def guarded (l : CascadeLoop) (elapsed : Duration) (go : CascadeFlow) : CascadeFlow :=
  match x.stopAt l.depth elapsed with
  | some reason => .done (l.stop env reason l.depth)
  | none => go

def askUpstream (u : PooledUpstream) (l : CascadeLoop) : CascadeFlow :=
  let tried := l.tried ++ [u.id]
  let calls := l.calls ++ [env.answer l.depth]
  match env.answer l.depth with
  | .ok response =>
    let results := tagResults u.id response.results
    let score := scoreOf A x.config u results
    let scores := l.scores ++ [score]
    if score.metThreshold then
      .done
        ⟨⟨results, tried, some u.id, .thresholdMet, scores, env.finishMs, l.depth + 1⟩, calls⟩
    else
      let kept := l.keepBest u.id results score.normalizedScore
      .next ⟨tried, scores, kept.best, l.depth + 1, calls⟩
  | .error e => .next ⟨tried, l.scores ++ [failedScore u e], l.best, l.depth + 1, calls⟩

def askGroup : List PooledUpstream → CascadeLoop → CascadeFlow
  | [], l => .next l
  | u :: rest, l =>
    (x.guarded env l (env.upstreamElapsed l.depth) (x.askUpstream A env u l)).andThen
      (askGroup rest)

/-- A task of a fused group that returned; a failed call counts as one without results. -/
def joinTask (u : PooledUpstream) (outcome : Outcome) (g : RrfGroup) : RrfGroup :=
  let results :=
    match outcome with
    | .ok response => tagResults u.id response.results
    | .error _ => []
  let error :=
    match outcome with
    | .ok _ => none
    | .error e => some e
  let score := { scoreOf A x.config u results with error := error }
  { upstreamIds := g.upstreamIds ++ [u.id]
    scores := g.scores ++ [score]
    lists := if results.isEmpty then g.lists else g.lists ++ [results]
    bestNormalized :=
      if !results.isEmpty && F32.lt g.bestNormalized score.normalizedScore then
        score.normalizedScore
      else g.bestNormalized
    calls := g.calls }

/-- The loop over `join_next`; past the timeout the remaining tasks are abandoned. -/
def joinAll : List Join → RrfGroup → RrfGroup
  | [], g => g
  | j :: rest, g =>
    let g := { g with calls := g.calls ++ j.outcome.toList }
    if x.config.timeout < j.elapsed then g
    else
      match j.outcome with
      | some outcome => joinAll rest (x.joinTask A j.upstream outcome g)
      | none => joinAll rest g

def fuseGroup (request : QueryRequest) (group : List PooledUpstream) (l : CascadeLoop) :
    CascadeFlow :=
  let g := x.joinAll A (env.joins l.depth) (.start l.calls)
  let depth := l.depth + group.length
  let tried := l.tried ++ g.upstreamIds
  let scores := l.scores ++ g.scores
  if g.lists.isEmpty then .next ⟨tried, scores, l.best, depth, g.calls⟩
  else
    let maxResults := max (request.topK.getD 10) 1
    let fused := fuseRrf A p env.fuseOrder g.lists x.config.rrfK maxResults
    if !fused.isEmpty && F32.ge g.bestNormalized x.config.minScoreThreshold &&
        x.config.minResults ≤ fused.length then
      .done ⟨⟨fused, tried, none, .thresholdMet, scores, env.finishMs, depth⟩, g.calls⟩
    else
      let kept := l.keepBest (g.upstreamIds.headD "") fused g.bestNormalized
      .next ⟨tried, scores, kept.best, depth, g.calls⟩

def queryGroup (request : QueryRequest) (group : List PooledUpstream) (l : CascadeLoop) :
    CascadeFlow :=
  x.guarded env l (env.groupElapsed l.depth)
    (if x.config.fuses group then x.fuseGroup A p env request group l
    else x.askGroup A env group l)

def queryGroups (request : QueryRequest) :
    List (List PooledUpstream) → CascadeLoop → CascadeFlow
  | [], l => .next l
  | group :: rest, l =>
    (x.queryGroup A p env request group l).andThen (queryGroups request rest)

def emptyResult (reason : CascadeStopReason) : CascadeResult :=
  ⟨[], [], none, reason, [], env.finishMs, 0⟩

def groups (request : QueryRequest) : List (List PooledUpstream) :=
  groupByPriority (x.cascadeOrderWithPreference p.tables request.upstreamType)

def cascade (request : QueryRequest) (l : CascadeLoop) : Traced CascadeResult :=
  if (x.cascadeOrderWithPreference p.tables request.upstreamType).isEmpty then
    ⟨emptyResult env .noUpstreams, l.calls⟩
  else
    match x.queryGroups A p env request (x.groups p request) l with
    | .next l => l.stop env .allExhausted l.tried.length
    | .done r => r

def query (request : QueryRequest) : Traced CascadeResult :=
  if !x.config.enabled then ⟨emptyResult env .disabled, []⟩
  else
    match request.upstreamId.bind x.pool.get with
    | none => x.cascade A p env request (.start [])
    | some target =>
      match env.targeted with
      | .error e => x.cascade A p env request (.start [.error e])
      | .ok response =>
        if response.results.isEmpty then x.cascade A p env request (.start [.ok response])
        else
          { value := {
              results := tagResults target.id response.results
              upstreamsTried := [target.id]
              finalUpstream := some target.id
              stopReason := .thresholdMet
              upstreamScores := []
              cascadeTimeMs := env.finishMs
              cascadeDepth := 1 }
            calls := [.ok response] }

end Query

end CascadeExecutor

end Conproxy
