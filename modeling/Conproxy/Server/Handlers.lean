import Conproxy.Lib.Machine
import Conproxy.Server.Query

/-!
# Batch, federated and background work, and the steps of the server

The HTTP and gRPC forms of a handler share a definition with the transport as an argument:
HTTP batches read and write by hash, gRPC batches by key text, and only the HTTP federated
handler uses the cache when federation is on. A task may be dropped at any await.
-/

namespace Conproxy

open CacheStore

set_option autoImplicit false

variable (p : Platform)

namespace Server

def batchLookup (t : Transport) (key : Key) : Lookup :=
  match t with
  | .http => .byHash (key.hash p)
  | .grpc => .byText key.text

def serveItem (now : Clock) (c : Client) (status : CacheStatus) (e : CacheEntry)
    (source : Source) (s : Server) : Server :=
  s.answer c source
    (.item (.ok { e.response with cacheStatus := status, tookMs := c.tookMs now }))

def failItem (s : Server) (c : Client) (message : String) : Server :=
  s.answer c .nowhere (.item (.error message))

def noUpstreamMessage : Transport → String
  | .http => "No upstream configured and query not in cache"
  | .grpc => "No upstream configured"

def batchMiss (s : Server) (now : Clock) (id : Nat) (c : Client) (t : Transport)
    (upstreams : Upstreams) (missReason : MissReason) : Server :=
  if upstreams.any then s.coalesce p id c upstreams missReason none
  else
    s.read p now (batchLookup p t c.key) (serveItem now c .hit) fun s =>
      s.failItem c (noUpstreamMessage t)

/-- One query of a batch, up to its first await. The HTTP handler checks the agent. The
upstreams are those that the handler loaded for the whole batch. -/
def batchItem (s : Server) (now : Clock) (id : Nat) (c : Client) (t : Transport)
    (agent : Option AgentIdentity) (upstreams : Upstreams) : Server :=
  if t = .http ∧ deniedBy agent c.contextId then s.answer c .nowhere (.refused 403)
  else
    let look := batchLookup p t c.key
    match s.app.cache.checkFreshnessByHash p now (c.key.hash p) with
    | some .fresh =>
      s.read p now look (serveItem now c .hit) fun s =>
        s.batchMiss p now id c t upstreams .notInCache
    | some .stale =>
      s.read p now look (serveItem now c .stale) fun s =>
        s.batchMiss p now id c t upstreams .notInCache
    | some .frozen | some .expired => s.batchMiss p now id c t upstreams .expired
    | none => s.batchMiss p now id c t upstreams .notInCache

def batchInsert (t : Transport) (key : Key) (response timed : QueryResponse)
    (upstreamId : String) : Op :=
  match t with
  | .http => .insertByHash (key.hash p) response upstreamId (some key.text)
  | .grpc => .insert key.text timed upstreamId

def batchOk (s : Server) (now : Clock) (scan : Scan) (c : Client) (t : Transport)
    (missReason : MissReason) (returned : QueryResponse) : Server :=
  let response := s.missResponse c missReason returned
  let timed := { response with tookMs := c.tookMs now }
  let f : Fetch := ⟨.client, c.key, some c.request, response.results⟩
  let stored :=
    match response.validate with
    | .error _ => s
    | .ok () =>
      (s.store p now scan f (batchInsert p t c.key response timed s.app.upstreamId)).registerQuery
        p c.key
  (stored.complete (c.key.hash p) (.ok ⟨timed, .fetched f⟩)).answer c (.fetched f)
    (.item (.ok timed))

def batchErr (s : Server) (now : Clock) (c : Client) (t : Transport) (message : String) :
    Server :=
  s.read p now (batchLookup p t c.key)
    (fun e source s =>
      serveItem now c .frozen e source
        (s.complete (c.key.hash p) (.ok
          ⟨{ e.response with cacheStatus := .frozen, tookMs := c.tookMs now }, source⟩)))
    fun s => (s.complete (c.key.hash p) (.error message)).failItem c message

def batchWaiterDone (s : Server) (now : Clock) (c : Client) (t : Transport)
    (result : CoalesceResult) : Server :=
  match result with
  | .ok b =>
    s.answer c (.shared b.source) (.item (.ok { b.response with tookMs := c.tookMs now }))
  | .error _ =>
    s.read p now (batchLookup p t c.key) (serveItem now c .frozen) fun s =>
      s.failItem c "Upstream request failed"

def serveRemote (c : Client) (response : CacheEntry → QueryResponse) (e : CacheEntry)
    (source : Source) (s : Server) : Server :=
  s.answer c source (.remote (some (response e)))

/-- `handle_federated` and `federated_query` up to the upstream. `remote` says that the local
results do not suffice. -/
def handleFederated (s : Server) (now : Clock) (id : Nat) (c : Client) (t : Transport)
    (agent : Option AgentIdentity) (remote : Bool) : Server :=
  if t = .http ∧ deniedBy agent c.contextId then s.answer c .nowhere (.refused 403)
  else if s.app.federatedEnabled = false then
    s.read p now (.byText c.key.text)
      (serveRemote c fun e =>
        { e.response with
          cacheStatus := .hit
          tookMs := if t = .http then c.tookMs now else 0 })
      fun s => s.answer c .nowhere (.refused 503)
  else if remote && (s.app.upstreams.pool || s.app.upstreams.single) then
    match t with
    | .http =>
      s.read p now (.byText c.key.text) (serveRemote c CacheEntry.response) fun s =>
        s.await id (.federating c)
    | .grpc => s.await id (.federating c)
  else s.answer c .nowhere (.remote none)

/-- The upstream's answer to a federated request. Only the HTTP handler stores it, unfiltered
and unchecked. -/
def federatedDone (s : Server) (now : Clock) (scan : Scan) (c : Client)
    (returned : Except String QueryResponse) : Server :=
  match returned with
  | .error _ => s.answer c .nowhere (.remote none)
  | .ok response =>
    let f : Fetch := ⟨.federated, c.key, some c.request, response.results⟩
    let stored :=
      if c.handler = .federated .http then
        s.store p now scan f
          (.insertWithContext c.key.text response s.app.upstreamId c.contextId)
      else s
    stored.answer c (.fetched f) (.remote (some response))

/-- One round of `refresh_stale_entries` for a stale hash. The task removes the hash from a
copy of the pending set, so it stays pending. -/
def refreshStale (s : Server) (now : Clock) (h : QueryHash) : Server :=
  match s.app.refreshWorker with
  | none => s
  | some w =>
    if s.app.cache.checkFreshnessByHash p now h = some .stale ∧ h ∉ w.pending then
      match w.queryMap.lookup h with
      | some key =>
        let app := { s.app with
          refreshWorker := some { w with pending := insert h w.pending }
          cache := (s.app.cache.get p key.text).2 }
        ({ s with app := app }).spawn (.tracking key)
      | none => s
    else s

/-- The worker sends the registered key text as the query and stores the answer as it is. -/
def refreshed (s : Server) (now : Clock) (scan : Scan) (key : Key)
    (returned : Except String QueryResponse) : Server :=
  match returned with
  | .error _ => s
  | .ok response =>
    s.store p now scan ⟨.refreshWorker, key, some (textRequest key.text), response.results⟩
      (.insert key.text response s.app.upstreamId)

def warmup (s : Server) (now : Clock) (id : Nat) (key : Key) : Server :=
  if (s.app.upstreams.pool || s.app.upstreams.single) = false then s
  else if s.app.cache.checkFreshnessByHash p now (key.hash p) = some .fresh then s
  else s.await id (.warming key)

def warmed (s : Server) (now : Clock) (scan : Scan) (key : Key)
    (returned : Except String QueryResponse) : Server :=
  match returned with
  | .error _ => s
  | .ok response =>
    let response :=
      { response with results := s.app.scopeFilterFor key.contextId response.results }
    match response.validate with
    | .error _ => s
    | .ok () =>
      s.store p now scan ⟨.warmup, key, some (textRequest key.query), response.results⟩
        (.insertWithContext key.text response s.app.upstreamId key.contextId)

/-- An INSERT event of a peer, whose key text was built by the peer's server. The receiver
looks the key up; `applies` is the outcome of `deduplicate`. -/
def replicated (s : Server) (now : Clock) (scan : Scan) (key : Key) (response : QueryResponse)
    (upstreamId : String) (applies : Bool) : Server :=
  let s := s.setCache (s.app.cache.get p key.text).2
  if applies then
    s.store p now scan ⟨.peer, key, none, response.results⟩ (.insert key.text response upstreamId)
  else s

end Server

/-- The calls that eviction, administration and reload make: they put no entry into the store
and look nothing up by text. -/
def Op.maintains : Op → Bool
  | .insert .. | .insertWithContext .. | .insertByHash .. | .insertByHashWithEmbedding ..
  | .warmup .. | .restoreFromPersistence | .get _ | .getWithHitType _ => false
  | _ => true

inductive Event where
  | query (contextId : String) (request : QueryRequest) (agent : Option AgentIdentity)
      (skipCache allowed : Bool)
  | batch (t : Transport) (contextId : String) (request : QueryRequest)
      (agent : Option AgentIdentity) (upstreams : Upstreams)
  | federated (t : Transport) (contextId query : String) (topK : Option Nat)
      (agent : Option AgentIdentity) (remote : Bool)
  | embedded (id : Nat) (embedding : Option Embedding) (scan : TierScan) (allowed : Bool)
  /-- The upstream answers a task. `computed` is the embedding of the key text, should the
  task ask for it. -/
  | returned (id : Nat) (outcome : Except String QueryResponse) (computed : Option Embedding)
  | received (id : Nat)
  | refreshStale (h : QueryHash)
  | warmup (contextId query : String)
  | replicated (key : Key) (response : QueryResponse) (upstreamId : String) (applies : Bool)
  | maintenance (op : Op)
  | dropped (id : Nat)
  | reconfigured (upstreams : Upstreams) (federatedEnabled paused : Bool)

structure Action where
  now : Clock
  scan : Scan
  event : Event

namespace Server

def arrive (s : Server) : Server := { s with nextTask := s.nextTask + 1 }

def resume (s : Server) (now : Clock) (scan : Scan) (task : Task)
    (outcome : Except String QueryResponse) (computed : Option Embedding) : Server :=
  match task with
  | .leading c upstreams missReason embedding =>
    match c.handler, upstreams.dispatch outcome with
    | .query, .ok response => s.leaderOk p now scan c missReason embedding computed response
    | .query, .error message => s.leaderErr p now c message
    | .batch t, .ok response => s.batchOk p now scan c t missReason response
    | .batch t, .error message => s.batchErr p now c t message
    | .federated _, _ => s
  | .federating c => s.federatedDone p now scan c outcome
  | .refreshing key => s.staleRefreshed p now scan key outcome
  | .tracking key => s.refreshed p now scan key outcome
  | .warming key => s.warmed p now scan key outcome
  | .embedding _ _ => s
  | .waiting _ _ => s

def receive (s : Server) (now : Clock) (c : Client) (result : CoalesceResult) : Server :=
  match c.handler with
  | .query => s.waiterDone p now c result
  | .batch t => s.batchWaiterDone p now c t result
  | .federated _ => s

def step (s : Server) (a : Action) : Server :=
  match a.event with
  | .query contextId request agent skipCache allowed =>
    s.arrive.executeQuery p a.now s.nextTask ⟨.query, contextId, request, a.now.instant⟩ agent
      skipCache allowed
  | .batch t contextId request agent upstreams =>
    s.arrive.batchItem p a.now s.nextTask ⟨.batch t, contextId, request, a.now.instant⟩ t agent
      upstreams
  | .federated t contextId query topK agent remote =>
    s.arrive.handleFederated p a.now s.nextTask
      ⟨.federated t, contextId, ⟨query, topK, none, none, none⟩, a.now.instant⟩ t agent remote
  | .embedded id embedding scan allowed =>
    match s.tasks.lookup id with
    | some (.embedding c missReason) =>
      (s.finish id).semanticLookup p a.now id c missReason embedding scan allowed
    | _ => s
  | .returned id outcome computed =>
    match s.tasks.lookup id with
    | some (.embedding _ _) | some (.waiting _ _) => s
    | some task => (s.finish id).resume p a.now a.scan task outcome computed
    | none => s
  | .received id =>
    match s.tasks.lookup id with
    | some (.waiting c receiver) =>
      match s.sent.lookup receiver with
      | some result => (s.finish id).receive p a.now c result
      | none => s
    | _ => s
  | .refreshStale h => s.refreshStale p a.now h
  | .warmup contextId query => s.arrive.warmup p a.now s.nextTask ⟨contextId, query⟩
  | .replicated key response upstreamId applies =>
    s.replicated p a.now a.scan key response upstreamId applies
  | .maintenance op =>
    if op.maintains then s.setCache (exec p s.app.cache ⟨a.now, a.scan, op⟩) else s
  | .dropped id => s.finish id
  | .reconfigured upstreams federatedEnabled paused =>
    { s with app := { s.app with
      upstreams := upstreams
      federatedEnabled := federatedEnabled
      paused := paused } }

end Server

end Conproxy
