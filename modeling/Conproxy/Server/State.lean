import Conproxy.Agent
import Conproxy.Cache.Calls

/-!
# The server: state, tasks and answers

`AppState` with the parts of it that decide what a request is answered with. A request is a
task that runs to its next await in one step and reads the clock once on the way. Outcomes
that come from outside (upstream answers, embeddings, the circuit breaker's decision) are
inputs of the step. Next to the source's data a server carries where every entry and every
answer came from.
-/

namespace Conproxy

open CacheStore

set_option autoImplicit false

/-- A context and a query, from which `context_query` builds the text of a cache key. -/
structure Key where
  contextId : String
  query : String
deriving DecidableEq

namespace Key

def text (k : Key) : String := contextQuery k.contextId k.query

def hash (p : Platform) (k : Key) : QueryHash := hashQuery p k.text

end Key

structure Upstreams where
  cascade : Bool
  pool : Bool
  single : Bool
deriving DecidableEq

namespace Upstreams

def any (u : Upstreams) : Bool := u.cascade || u.pool || u.single

def fillUpstreamId (r : SearchResult) : SearchResult :=
  { r with upstreamId := some (r.upstreamId.getD "default") }

/-- `dispatch_upstream_query`, given what the chosen upstream returned. -/
def dispatch (u : Upstreams) (returned : Except String QueryResponse) :
    Except String QueryResponse :=
  if u.cascade then returned.map fun r => ⟨r.results, .miss, r.tookMs, none, none⟩
  else if u.pool then returned
  else if u.single then
    returned.map fun r => { r with results := r.results.map fillUpstreamId }
  else .error "Upstream not configured"

end Upstreams

def textRequest (query : String) : QueryRequest := ⟨query, none, none, none, none⟩

inductive Requester where
  | client
  | staleRefresh
  | refreshWorker
  | warmup
  | federated
  | peer
deriving DecidableEq

/-- One fetch: the key it was made for, the request sent to the upstream and the results that
were kept of the answer. What a peer replicates was fetched by the peer. -/
structure Fetch where
  requester : Requester
  key : Key
  request : Option QueryRequest
  results : List SearchResult

/-- Where the results of an answer come from. An entry of the cache is given by its hash, its
classification at the moment it was read, and the fetch that had stored it. -/
inductive Source where
  | nowhere
  | entry (h : QueryHash) (freshness : Option Freshness) (stored : Option Fetch)
  | fetched (f : Fetch)
  | shared (s : Source)

namespace Source

def fetch : Source → Option Fetch
  | .nowhere => none
  | .entry _ _ stored => stored
  | .fetched f => some f
  | .shared s => s.fetch

def freshness : Source → Option Freshness
  | .nowhere => none
  | .entry _ freshness _ => freshness
  | .fetched _ => none
  | .shared s => s.freshness

/-- The results were read from the cache, by the request itself or by the leader it waited
for. -/
def cached : Source → Bool
  | .nowhere => false
  | .entry _ _ _ => true
  | .fetched _ => false
  | .shared s => s.cached

def hash? : Source → Option QueryHash
  | .nowhere => none
  | .entry h _ _ => some h
  | .fetched _ => none
  | .shared s => s.hash?

end Source

/-- A broadcast channel, named by the key it serves and the task that leads it. -/
structure Channel where
  hash : QueryHash
  leader : Nat
deriving DecidableEq

/-- What a leader broadcasts: its response, with the source of the results. -/
structure Broadcast where
  response : QueryResponse
  source : Source

abbrev CoalesceResult := Except String Broadcast

structure RequestCoalescer where
  inFlight : Table Channel

inductive CoalesceAction where
  | leader
  | waiter (receiver : Channel)

namespace RequestCoalescer

def new : RequestCoalescer := ⟨∅⟩

def getOrInsert (c : RequestCoalescer) (h : QueryHash) (task : Nat) :
    CoalesceAction × RequestCoalescer :=
  match c.inFlight.lookup h with
  | some channel => (.waiter channel, c)
  | none => (.leader, ⟨c.inFlight.insert h ⟨h, task⟩⟩)

end RequestCoalescer

/-- `QueryTrackingRefreshWorker`: the registered queries by hash, and the hashes that a
refresh was started for. A registered text is the text of a key. -/
structure RefreshWorker where
  queryMap : Table Key
  pending : Finset QueryHash

namespace RefreshWorker

def new : RefreshWorker := ⟨∅, ∅⟩

def registerQuery (p : Platform) (w : RefreshWorker) (key : Key) : RefreshWorker :=
  { w with queryMap := w.queryMap.insert (key.hash p) key }

end RefreshWorker

/-- `semanticCache` is the tier that queries read. It is a tier of its own: inserts write to
the one inside `cache`. -/
structure AppState where
  cache : CacheStore
  upstreams : Upstreams
  coalescer : RequestCoalescer
  refreshWorker : Option RefreshWorker
  upstreamId : String
  scopeFilterFor : String → List SearchResult → List SearchResult
  semanticCache : Option SemanticCache
  smartEmbedder : Bool
  federatedEnabled : Bool
  paused : Bool

inductive Transport where
  | http
  | grpc
deriving DecidableEq

inductive Handler where
  | query
  | batch (transport : Transport)
  | federated (transport : Transport)
deriving DecidableEq

structure Client where
  handler : Handler
  contextId : String
  request : QueryRequest
  start : Nat
deriving DecidableEq

def Client.key (c : Client) : Key := ⟨c.contextId, c.request.query⟩

def Client.tookMs (c : Client) (now : Clock) : Nat := millis (now.instant - c.start)

inductive CachedResponse where
  | cached (entry : CacheEntry) (cacheStatus : CacheStatus) (tookMs : Nat)
  | fresh (response : QueryResponse)
  | sharedFresh (response : QueryResponse) (tookMs : Nat)

def CachedResponse.intoQueryResponse : CachedResponse → QueryResponse
  | .cached entry cacheStatus tookMs =>
    ⟨entry.response.results, cacheStatus, tookMs, entry.response.generatedAt, none⟩
  | .fresh response => response
  | .sharedFresh response tookMs => { response with tookMs := tookMs }

def emptyMissResponse (tookMs : Nat) (missReason : Option MissReason) : QueryResponse :=
  ⟨[], .miss, tookMs, none, missReason⟩

/-- What a handler returns: a `QueryResult`, the outcome of a batch item, the remote part of a
federated answer (if it has one), or a refusal of the whole request. -/
inductive Reply where
  | result (response : CachedResponse) (status : Nat)
  | item (outcome : Except String QueryResponse)
  | remote (response : Option QueryResponse)
  | refused (status : Nat)

def Reply.results : Reply → List SearchResult
  | .result response _ => response.intoQueryResponse.results
  | .item (.ok response) => response.results
  | .item (.error _) => []
  | .remote (some response) => response.results
  | .remote none => []
  | .refused _ => []

structure Answer where
  client : Client
  source : Source
  reply : Reply

/-- A suspended task, by the await it is suspended at. -/
inductive Task where
  | embedding (c : Client) (missReason : MissReason)
  | leading (c : Client) (upstreams : Upstreams) (missReason : MissReason)
      (embedding : Option Embedding)
  | waiting (c : Client) (receiver : Channel)
  | federating (c : Client)
  /-- The single upstream's answer to the refresh of a stale entry. -/
  | refreshing (key : Key)
  /-- The upstream's answer to the refresh worker. -/
  | tracking (key : Key)
  | warming (key : Key)

structure Server where
  app : AppState
  tasks : AList fun _ : Nat => Task
  nextTask : Nat
  sent : AList fun _ : Channel => CoalesceResult
  origins : Table Fetch
  answers : List Answer

namespace Server

variable (p : Platform)

def setCache (s : Server) (cache : CacheStore) : Server :=
  { s with app := { s.app with cache := cache } }

def answer (s : Server) (c : Client) (source : Source) (reply : Reply) : Server :=
  { s with answers := ⟨c, source, reply⟩ :: s.answers }

def await (s : Server) (id : Nat) (task : Task) : Server :=
  { s with tasks := s.tasks.insert id task }

def finish (s : Server) (id : Nat) : Server := { s with tasks := s.tasks.erase id }

def spawn (s : Server) (task : Task) : Server :=
  { s with tasks := s.tasks.insert s.nextTask task, nextTask := s.nextTask + 1 }

/-- `complete`: the key is free again, and every receiver gets the result. -/
def complete (s : Server) (h : QueryHash) (result : CoalesceResult) : Server :=
  match s.app.coalescer.inFlight.lookup h with
  | some channel =>
    { s with
      app := { s.app with coalescer := ⟨s.app.coalescer.inFlight.erase h⟩ }
      sent := s.sent.insert channel result }
  | none => s

/-- A call of the store that inserts what a fetch returned under the key of the fetch. -/
def store (s : Server) (now : Clock) (scan : Scan) (f : Fetch) (op : Op) : Server :=
  { s.setCache (exec p s.app.cache ⟨now, scan, op⟩) with
    origins := s.origins.insert (f.key.hash p) f }

def registerQuery (s : Server) (key : Key) : Server :=
  { s with app := { s.app with
    refreshWorker := s.app.refreshWorker.map fun w => w.registerQuery p key } }

def entrySource (s : Server) (now : Clock) (h : QueryHash) : Source :=
  .entry h (s.app.cache.checkFreshnessByHash p now h) (s.origins.lookup h)

end Server

end Conproxy
