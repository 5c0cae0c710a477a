import Conproxy.Config
import Conproxy.Pool.Failover
import Conproxy.Pool.Health

/-!
# The pool between the queries

`PooledUpstream` and `UpstreamPool` of `pool.rs` with what changes from query to query: the health
tracker, the switches that an administrator or a probe sets, and the counter of the balancing. A
query sees the view of the pool at its begin.
-/

namespace Conproxy

open Machine

set_option autoImplicit false

inductive QueryMode where
  | textNative
  | vectorOnly
  | unknown
deriving DecidableEq

namespace QueryMode

def supportsText : QueryMode → Bool
  | .textNative | .unknown => true
  | .vectorOnly => false

def requiresEmbedding : QueryMode → Bool
  | .vectorOnly => true
  | .textNative | .unknown => false

end QueryMode

namespace UpstreamType

def isFts : UpstreamType → Bool
  | .fullTextSearch | .hybrid => true
  | .vectorDatabase | .unknown => false

def isVectorDb : UpstreamType → Bool
  | .vectorDatabase | .hybrid => true
  | .fullTextSearch | .unknown => false

end UpstreamType

/-- The mode is the one that the adapter keeps. -/
structure LiveUpstream where
  id : String
  queryMode : QueryMode
  health : HealthTracker
  weight : Nat
  priority : Nat
  requests : Nat
  failures : Nat
  enabled : Bool
  upstreamType : UpstreamType
deriving DecidableEq

namespace LiveUpstream

/-- The mode in which the adapter of `create_adapter` starts; `pgvector` says whether the build has
that adapter. -/
def createAdapter (pgvector : Bool) (config : UpstreamEndpointConfig) : QueryMode :=
  match config.upstreamType with
  | some "elasticsearch" | some "opensearch" | some "meilisearch" => .textNative
  | some "milvus" | some "pinecone" => .vectorOnly
  | some "pgvector" => if pgvector then .vectorOnly else .unknown
  | _ => .unknown

def new (pgvector : Bool) (config : UpstreamEndpointConfig) : LiveUpstream where
  id := config.id
  queryMode :=
    match config.queryMode with
    | some "vector_only" => .vectorOnly
    | some "text_native" => .textNative
    | _ => createAdapter pgvector config
  health := .new
  weight := config.weight.getD 1
  priority := config.priority.getD 0
  requests := 0
  failures := 0
  enabled := config.enabled.getD true
  upstreamType :=
    match config.upstreamType with
    | some "elasticsearch" | some "opensearch" | some "meilisearch" => .fullTextSearch
    | some "qdrant" | some "pinecone" | some "milvus" | some "pgvector" => .vectorDatabase
    | _ => .unknown

def isHealthy (A : F32Arith) (u : LiveUpstream) : Bool := u.enabled && u.health.status A = .online

def isAvailable (A : F32Arith) (u : LiveUpstream) : Bool :=
  u.enabled && u.health.status A ≠ .offline

def reads (A : F32Arith) : UpstreamReads LiveUpstream :=
  ⟨weight, priority, isAvailable A, isHealthy A⟩

def enable (u : LiveUpstream) : LiveUpstream := { u with enabled := true }

def disable (u : LiveUpstream) : LiveUpstream := { u with enabled := false }

def recordSuccess (nowMs : Nat) (u : LiveUpstream) : LiveUpstream :=
  { u with requests := (u.requests + 1) % 2 ^ 64, health := u.health.recordSuccess nowMs }

def recordFailure (nowMs : Nat) (u : LiveUpstream) : LiveUpstream :=
  { u with
    requests := (u.requests + 1) % 2 ^ 64
    failures := (u.failures + 1) % 2 ^ 64
    health := u.health.recordFailure nowMs }

def setQueryMode (mode : QueryMode) (u : LiveUpstream) : LiveUpstream :=
  { u with queryMode := mode }

def setUpstreamType (upstreamType : UpstreamType) (u : LiveUpstream) : LiveUpstream :=
  { u with upstreamType := upstreamType }

def supportsText (u : LiveUpstream) : Bool := u.queryMode.supportsText

def requiresEmbedding (u : LiveUpstream) : Bool := u.queryMode.requiresEmbedding

def isFts (u : LiveUpstream) : Bool := u.upstreamType.isFts

def isVectorDb (u : LiveUpstream) : Bool := u.upstreamType.isVectorDb

def view (A : F32Arith) (u : LiveUpstream) : PooledUpstream where
  id := u.id
  weight := u.weight
  priority := u.priority
  enabled := u.enabled
  status := u.health.status A
  upstreamType := u.upstreamType

end LiveUpstream

structure LivePool where
  upstreams : List LiveUpstream
  strategy : LoadBalanceStrategy
  currentIndex : Nat
deriving DecidableEq

namespace LivePool

def new (pgvector : Bool) (configs : List UpstreamEndpointConfig)
    (strategy : LoadBalanceStrategy) : LivePool where
  upstreams := configs.map (.new pgvector)
  strategy := strategy
  currentIndex := 0

def upstreamsByPriority (pool : LivePool) : List LiveUpstream :=
  LoadBalanceStrategy.upstreamsByPriority LiveUpstream.priority pool.upstreams

def available (A : F32Arith) (pool : LivePool) : List LiveUpstream :=
  pool.upstreams.filter (LiveUpstream.isAvailable A)

def advance (pool : LivePool) : LivePool :=
  { pool with currentIndex := LoadBalanceStrategy.fetchAdd pool.currentIndex }

/-- The pool behind a selection that left this counter. -/
def behind (pool : LivePool) (selected : Option LiveUpstream × Nat) :
    Option LiveUpstream × LivePool :=
  (selected.1, { pool with currentIndex := selected.2 })

def totalWeight (available : List LiveUpstream) : Nat :=
  LoadBalanceStrategy.totalWeight LiveUpstream.weight available

def selectWeighted (pool : LivePool) (available : List LiveUpstream) :
    Option LiveUpstream × LivePool :=
  pool.behind (LoadBalanceStrategy.selectWeighted LiveUpstream.weight pool.currentIndex available)

def selectFailover (A : F32Arith) (pool : LivePool) : Option LiveUpstream :=
  LoadBalanceStrategy.selectFailover (LiveUpstream.reads A) pool.upstreams

def selectFromAvailable (A : F32Arith) (pool : LivePool) (available : List LiveUpstream) :
    Option LiveUpstream × LivePool :=
  pool.behind
    (pool.strategy.selectFromAvailable (LiveUpstream.reads A) pool.currentIndex pool.upstreams
      available)

def selectWhere (A : F32Arith) (pool : LivePool) (predicate : LiveUpstream → Bool) :
    Option LiveUpstream × LivePool :=
  pool.selectFromAvailable A (pool.upstreams.filter fun u => u.isAvailable A && predicate u)

def selectTextNative (A : F32Arith) (pool : LivePool) : Option LiveUpstream × LivePool :=
  pool.selectWhere A LiveUpstream.supportsText

def selectVectorOnly (A : F32Arith) (pool : LivePool) : Option LiveUpstream × LivePool :=
  pool.selectWhere A LiveUpstream.requiresEmbedding

def selectFts (A : F32Arith) (pool : LivePool) : Option LiveUpstream × LivePool :=
  pool.selectWhere A LiveUpstream.isFts

def selectVectorDb (A : F32Arith) (pool : LivePool) : Option LiveUpstream × LivePool :=
  pool.selectWhere A LiveUpstream.isVectorDb

def view (A : F32Arith) (pool : LivePool) : UpstreamPool where
  upstreams := pool.upstreams.map (LiveUpstream.view A)
  strategy := pool.strategy
  currentIndex := pool.currentIndex

/-- What changes a pool. Upstreams are given by their place; a query selects and then records what
came of its calls. -/
inductive Step where
  | enable (place : Nat)
  | disable (place : Nat)
  | recordSuccess (place nowMs : Nat)
  | recordFailure (place nowMs : Nat)
  | resetWindow (place : Nat)
  | setQueryMode (place : Nat) (mode : QueryMode)
  | setUpstreamType (place : Nat) (upstreamType : UpstreamType)
  | select (available : List LiveUpstream)

def modify (pool : LivePool) (place : Nat) (f : LiveUpstream → LiveUpstream) : LivePool :=
  { pool with upstreams := pool.upstreams.modify place f }

def step (A : F32Arith) (pool : LivePool) : Step → LivePool
  | .enable place => pool.modify place .enable
  | .disable place => pool.modify place .disable
  | .recordSuccess place nowMs => pool.modify place (.recordSuccess nowMs)
  | .recordFailure place nowMs => pool.modify place (.recordFailure nowMs)
  | .resetWindow place => pool.modify place fun u => { u with health := u.health.resetWindow }
  | .setQueryMode place mode => pool.modify place (.setQueryMode mode)
  | .setUpstreamType place upstreamType => pool.modify place (.setUpstreamType upstreamType)
  | .select available => (pool.selectFromAvailable A available).2

end LivePool

end Conproxy
