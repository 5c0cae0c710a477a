import Conproxy.Federated
import Conproxy.Cache.Mappings
import Conproxy.Cache.Twins
import Conproxy.Server.Exits
import Conproxy.Server.Isolation

/-!
# The two transports

A query, a batch and a federated request can come by HTTP and by gRPC. Each transport resolves
the context of a request in its own way, and has its own batch and federated handlers. An
operation is compared piece by piece, from its arrival and from each answer that it waits for,
in any state of the server.
-/

namespace Conproxy

open CacheStore

set_option autoImplicit false

/-- `resolve_context` of the HTTP server. A header that is not text counts as absent. -/
def resolveContext (header : Option String) (agent : Option AgentIdentity) : String :=
  match header.filter fun ctx => ctx ≠ "" with
  | some ctx => ctx
  | none =>
    match agent.bind AgentIdentity.defaultContext with
    | some ctx => ctx
    | none => "default"

/-- `resolve_context` of the gRPC service. -/
def resolveContextGrpc (protoContext : String) (metadata : Option String) : String :=
  if protoContext ≠ "" then protoContext else metadata.getD "default"

/-- Where a gRPC client gives the context that an HTTP client gives in its header. -/
inductive ContextField where
  | proto
  | metadata
deriving DecidableEq

/-- An operation, as both transports decode it. A batch is given by one of its items, with the
upstreams that the handler loaded for the batch. -/
inductive Operation where
  | query (request : QueryRequest) (allowed : Bool)
  | item (request : QueryRequest) (upstreams : Upstreams)
  | federated (text : String) (topK : Option Nat) (localResults : List SearchResult)

/-- What an operation is waiting for: to be taken up, or for the embedding, for an upstream or
for its leader. -/
inductive Stage where
  | arrives
  | embedded (id start : Nat) (missReason : MissReason) (embedding : Option Embedding)
      (scan : TierScan) (allowed : Bool)
  | answered (start : Nat) (upstreams : Upstreams) (missReason : MissReason)
      (stashed computed : Option Embedding) (outcome : Except String QueryResponse)
  | received (start : Nat) (result : CoalesceResult)

namespace Operation

def request : Operation → QueryRequest
  | .query request _ => request
  | .item request _ => request
  | .federated text topK _ => ⟨text, topK, none, none, none⟩

def handler (t : Transport) : Operation → Handler
  | .query _ _ => .query
  | .item _ _ => .batch t
  | .federated _ _ _ => .federated t

def client (op : Operation) (t : Transport) (contextId : String) (start : Nat) : Client :=
  ⟨op.handler t, contextId, op.request, start⟩

def event (fed : FederatedSearchConfig) (t : Transport) (contextId : String)
    (agent : Option AgentIdentity) : Operation → Event
  | .query request allowed => .query contextId request agent false allowed
  | .item request upstreams => .batch t contextId request agent upstreams
  | .federated text topK localResults =>
    .federated t contextId text topK agent
      (fed.shouldQueryRemote localResults ≠ .localSufficient)

/-- The result list of a reply. A federated handler that has searched merges the remote part
with the local results. -/
def returned (fed : FederatedSearchConfig) (searched : Bool) (op : Operation) (reply : Reply) :
    List SearchResult :=
  match op, reply with
  | .federated _ _ localResults, .remote remote =>
    if searched then (fed.mergeResponses ⟨localResults, .hit, 0, none, none⟩ remote).1.results
    else reply.results
  | _, _ => reply.results

end Operation

/-- An operation in a state of the server, and what happens to it there. -/
structure Exchange where
  server : Server
  now : Clock
  scan : Scan
  fed : FederatedSearchConfig
  agent : Option AgentIdentity
  explicit : Option String
  via : ContextField
  operation : Operation
  stage : Stage

namespace Exchange

variable (p : Platform) (x : Exchange)

def context : Transport → String
  | .http => resolveContext x.explicit x.agent
  | .grpc =>
    match x.via with
    | .proto => resolveContextGrpc (x.explicit.getD "") none
    | .metadata => resolveContextGrpc "" x.explicit

/-- The server after the piece that a transport runs. -/
def piece (t : Transport) (contextId : String) : Server :=
  match x.stage with
  | .arrives => x.server.step p ⟨x.now, x.scan, x.operation.event x.fed t contextId x.agent⟩
  | .embedded id start missReason embedding scan allowed =>
    match x.operation with
    | .query _ _ =>
      x.server.semanticLookup p x.now id (x.operation.client t contextId start) missReason
        embedding scan allowed
    | _ => x.server
  | .answered start upstreams missReason stashed computed outcome =>
    let c := x.operation.client t contextId start
    match x.operation with
    | .federated _ _ _ => x.server.resume p x.now x.scan (.federating c) outcome computed
    | _ =>
      x.server.resume p x.now x.scan (.leading c upstreams missReason stashed) outcome computed
  | .received start result => x.server.receive p x.now (x.operation.client t contextId start) result

/-- A federated request that waits for an upstream has found federated search enabled. -/
def returned (reply : Reply) : List SearchResult :=
  match x.stage with
  | .arrives => x.operation.returned x.fed x.server.app.federatedEnabled reply
  | _ => x.operation.returned x.fed true reply

/-- The same result lists are returned, and the cache holds the same keys, responses and context
tags. -/
structure Agree (s s' : Server) : Prop where
  answers : s.answers.map (fun a => x.returned a.reply) = s'.answers.map fun a => x.returned a.reply
  contents : s.app.cache.contents = s'.app.cache.contents

/-- The two transports do the same. -/
structure Parity : Prop where
  context : x.context .http = x.context .grpc
  piece : x.Agree (x.piece p .http (x.context .http)) (x.piece p .grpc (x.context .grpc))

end Exchange

def CacheStore.listed (s : CacheStore) (h : QueryHash) : List SearchResult :=
  ((s.entries.lookup h).map fun e => e.response.results).getD []

/-- There is no entry that an item would be served: a fresh or a stale one. -/
def CacheStore.misses (p : Platform) (s : CacheStore) (now : Clock) (h : QueryHash) : Bool :=
  match s.checkFreshnessByHash p now h with
  | some .fresh | some .stale => false
  | _ => true

namespace Exchange

variable (p : Platform) (x : Exchange)

/-- A context is given, or the agent's default is what the gRPC service falls back to: the
metadata may be empty. -/
def SameContext : Prop :=
  (∃ ctx, x.explicit = some ctx ∧ ctx ≠ "") ∨
    (x.agent.bind AgentIdentity.defaultContext).getD "default" =
      if x.via = .metadata then x.explicit.getD "default" else "default"

/-- The lookup by the hash of a key and the lookup by its text find the same results. -/
def SameListed (key : Key) : Prop :=
  x.server.app.cache.listed (key.hash p) =
    x.server.app.cache.listed (x.server.app.cache.foundAt p key.text)

def denied (contextId : String) : Bool := Server.deniedBy x.agent contextId

/-- An item that asks an upstream must come from an agent that may use the context, since only
the HTTP handler checks. Any other item lists the same under the hash and under the text. -/
def ItemArrives (contextId : String) (upstreams : Upstreams) : Prop :=
  let key : Key := ⟨contextId, x.operation.request.query⟩
  let cache := x.server.app.cache
  if upstreams.any && cache.misses p x.now (key.hash p) then x.denied contextId = false
  else if x.denied contextId then cache.listed (cache.foundAt p key.text) = []
  else x.SameListed p key

/-- The response of a batch leader is stored with the upstream's time by HTTP, and with the time
that the item took by gRPC. -/
def ItemAnswered (contextId : String) (start : Nat) (missReason : MissReason) :
    Except String QueryResponse → Prop
  | .ok returned =>
    let c := x.operation.client .http contextId start
    let response := x.server.missResponse c missReason returned
    response.validate = .ok () → response.tookMs = c.tookMs x.now ∨
      c.key.hash p ∉ (x.server.app.cache.insertByHash p x.scan x.now (c.key.hash p) response
        x.server.app.upstreamId (some c.key.text)).entries
  | .error _ => x.SameListed p ⟨contextId, x.operation.request.query⟩

def ItemReceived (contextId : String) : CoalesceResult → Prop
  | .ok _ => True
  | .error _ => x.SameListed p ⟨contextId, x.operation.request.query⟩

/-- Only the HTTP handler checks the agent, and only it reads the cache before it asks an
upstream. -/
def FederatedArrives (contextId : String) (localResults : List SearchResult) : Prop :=
  let key : Key := ⟨contextId, x.operation.request.query⟩
  let app := x.server.app
  if app.federatedEnabled = false then
    x.denied contextId = true → app.cache.listed (app.cache.foundAt p key.text) = []
  else if x.fed.shouldQueryRemote localResults ≠ .localSufficient ∧
      (app.upstreams.pool || app.upstreams.single) then
    x.denied contextId = false ∧ app.cache.foundAt p key.text ∉ app.cache.entries
  else
    x.denied contextId = true →
      (x.fed.mergeResponses ⟨localResults, .hit, 0, none, none⟩ none).1.results = []

/-- Only the HTTP handler stores what the upstream returned. -/
def FederatedAnswered (contextId : String) : Except String QueryResponse → Prop
  | .ok returned =>
    let key : Key := ⟨contextId, x.operation.request.query⟩
    let app := x.server.app
    (app.cache.insertWithContext p x.scan x.now key.text returned app.upstreamId
      contextId).contents = app.cache.contents
  | .error _ => True

/-- Nothing of the piece depends on the transport. -/
def Matches (contextId : String) : Prop :=
  match x.operation, x.stage with
  | .item _ upstreams, .arrives => x.ItemArrives p contextId upstreams
  | .item _ _, .answered start upstreams missReason _ _ outcome =>
    x.ItemAnswered p contextId start missReason (upstreams.dispatch outcome)
  | .item _ _, .received _ result => x.ItemReceived p contextId result
  | .federated _ _ localResults, .arrives => x.FederatedArrives p contextId localResults
  | .federated _ _ _, .answered _ _ _ _ _ outcome => x.FederatedAnswered p contextId outcome
  | _, _ => True

end Exchange

theorem Touched.contents {s s' : CacheStore} (h : Touched s s') : s'.contents = s.contents := by
  funext k
  have hview (o : Option CacheEntry) : (o.map fun e => (e.response, e.contextId)) =
      (o.map fun e => withFreq e 0).map fun e => (e.response, e.contextId) := by
    rw [Option.map_map]
    rfl
  unfold CacheStore.contents
  rw [hview, h.lookup k, ← hview]

theorem contents_run {p : Platform} (look : Lookup) (s : CacheStore) :
    (look.run p s).2.contents = s.contents := by
  cases look with
  | byHash h => exact (touched_getByHash s h).contents
  | byText text => exact (touched_get s text).contents

theorem Server.answers_complete (s : Server) (h : QueryHash) (result : CoalesceResult) :
    (s.complete h result).answers = s.answers := by
  unfold Server.complete
  split <;> rfl

theorem Server.cache_complete (s : Server) (h : QueryHash) (result : CoalesceResult) :
    (s.complete h result).app.cache = s.app.cache := by
  unfold Server.complete
  split <;> rfl

/-- A piece returned a list or went on waiting, and left the contents of the cache as they
were. -/
structure Shows (f : Reply → List SearchResult) (s s' : Server)
    (shown : Option (List SearchResult)) : Prop where
  answers : (s'.answers.map fun a => f a.reply) =
    shown.toList ++ s.answers.map fun a => f a.reply
  contents : s'.app.cache.contents = s.app.cache.contents

theorem Exchange.agree_iff_of_shows {x : Exchange} {s s₁ s₂ : Server}
    {shown₁ shown₂ : Option (List SearchResult)} (h₁ : Shows x.returned s s₁ shown₁)
    (h₂ : Shows x.returned s s₂ shown₂) : x.Agree s₁ s₂ ↔ shown₁ = shown₂ := by
  constructor
  · intro h
    have hlists := h.answers
    rw [h₁.answers, h₂.answers] at hlists
    have hshown := congrArg List.head? (List.append_cancel_right hlists)
    rwa [Option.head?_toList, Option.head?_toList] at hshown
  · rintro rfl
    exact ⟨h₁.answers.trans h₂.answers.symm, h₁.contents.trans h₂.contents.symm⟩

namespace Shows

variable {f : Reply → List SearchResult} {p : Platform} {s s' : Server} {now : Clock}
  {id : Nat} {c : Client}

theorem answer (h : Shows f s s' none) (source : Source) (reply : Reply) :
    Shows f s (s'.answer c source reply) (some (f reply)) :=
  ⟨congrArg (f reply :: ·) h.answers, h.contents⟩

theorem refl (s : Server) : Shows f s s none := ⟨rfl, rfl⟩

theorem lookedUp (look : Lookup) : Shows f s (s.setCache (look.run p s.app.cache).2) none :=
  ⟨rfl, contents_run look s.app.cache⟩

theorem complete (h : Shows f s s' none) (hash : QueryHash) (result : CoalesceResult) :
    Shows f s (s'.complete hash result) none := by
  refine ⟨?_, ?_⟩
  · rw [Server.answers_complete]
    exact h.answers
  · rw [Server.cache_complete]
    exact h.contents

theorem coalesce {upstreams : Upstreams} {missReason : MissReason}
    {embedding : Option Embedding} :
    Shows f s (s.coalesce p id c upstreams missReason embedding) none := by
  unfold Server.coalesce
  split <;> exact ⟨rfl, rfl⟩

theorem read {look : Lookup} {found : CacheEntry → Source → Server → Server}
    {missing : Server → Server}
    (hfound : ∀ e source s', Shows f s s' none →
      Shows f s (found e source s') (some e.response.results))
    (hmissing : Shows f s (missing s) (some [])) :
    Shows f s (s.read p now look found missing)
      (some (s.app.cache.listed (look.hash p s.app.cache))) := by
  unfold CacheStore.listed
  cases hl : s.app.cache.entries.lookup (look.hash p s.app.cache) with
  | some e =>
    rw [Server.read_of_lookup hl]
    exact hfound e _ _ (lookedUp look)
  | none =>
    rw [Server.read_of_none hl]
    exact hmissing

end Shows

namespace Server

variable {p : Platform} {s : Server} {now : Clock} {id : Nat} {c : Client} {t : Transport}
  {agent : Option AgentIdentity} {upstreams : Upstreams}

/-- What an item returns that leaves through the exit. -/
def itemShown (p : Platform) (s : Server) (c : Client) (t : Transport) :
    ItemExit → Option (List SearchResult)
  | .denied | .failed => some []
  | .served => some (s.app.cache.listed ((batchLookup p t c.key).hash p s.app.cache))
  | .leads | .waits _ => none

theorem shows_of_itemLeaves {exit : ItemExit} {s' : Server}
    (h : ItemLeaves p s now id c t upstreams exit s') :
    Shows Reply.results s s' (s.itemShown p c t exit) := by
  cases h with
  | denied => exact (Shows.refl s).answer _ _
  | served status hl =>
    simp only [itemShown, CacheStore.listed, hl]
    exact (Shows.lookedUp _).answer _ _
  | leads hfree => exact Shows.coalesce
  | waits hbusy => exact Shows.coalesce
  | failed => exact (Shows.refl s).answer _ _

theorem listed_of_not_holds {look : Lookup} (h : ¬ s.holds p look = true) :
    s.app.cache.listed (look.hash p s.app.cache) = [] := by
  unfold holds at h
  rw [Option.not_isSome_iff_eq_none] at h
  rw [CacheStore.listed, h]
  rfl

theorem itemShown_missed :
    s.itemShown p c t (s.missedItemExit p c t upstreams) =
      if upstreams.any then none
      else some (s.app.cache.listed ((batchLookup p t c.key).hash p s.app.cache)) := by
  unfold missedItemExit
  split
  · split <;> rfl
  · split
    · rfl
    · rename_i hnot
      rw [listed_of_not_holds hnot]
      rfl

theorem itemShown_itemExit :
    s.itemShown p c t (s.itemExit p now c t agent upstreams) =
      if t = .http ∧ deniedBy agent c.contextId then some []
      else if upstreams.any && s.app.cache.misses p now (c.key.hash p) then none
      else some (s.app.cache.listed ((batchLookup p t c.key).hash p s.app.cache)) := by
  unfold itemExit CacheStore.misses
  split
  · rfl
  · cases s.app.cache.checkFreshnessByHash p now (c.key.hash p) with
    | none => simpa using itemShown_missed
    | some freshness =>
      cases freshness with
      | fresh | stale => simp [itemShown]
      | frozen | expired => simpa using itemShown_missed

theorem shows_batchItem :
    Shows Reply.results s (s.arrive.batchItem p now id c t agent upstreams)
      (if t = .http ∧ deniedBy agent c.contextId then some []
      else if upstreams.any && s.app.cache.misses p now (c.key.hash p) then none
      else some (s.app.cache.listed ((batchLookup p t c.key).hash p s.app.cache))) := by
  have h : Shows Reply.results s.arrive (s.arrive.batchItem p now id c t agent upstreams)
      (s.arrive.itemShown p c t (s.arrive.itemExit p now c t agent upstreams)) :=
    shows_of_itemLeaves itemLeaves_batchItem
  rw [itemShown_itemExit] at h
  exact ⟨h.answers, h.contents⟩

theorem shows_batchErr (message : String) :
    Shows Reply.results s (s.batchErr p now c t message)
      (some (s.app.cache.listed ((batchLookup p t c.key).hash p s.app.cache))) := by
  refine Shows.read (fun e source s' h => ?_) ?_
  · exact (h.complete _ _).answer _ _
  · exact ((Shows.refl s).complete _ _).answer _ _

theorem shows_batchWaiterDone (result : CoalesceResult) :
    Shows Reply.results s (s.batchWaiterDone p now c t result)
      (match result with
      | .ok b => some b.response.results
      | .error _ => some (s.app.cache.listed ((batchLookup p t c.key).hash p s.app.cache))) := by
  cases result with
  | ok b => exact (Shows.refl s).answer _ _
  | error e =>
    unfold batchWaiterDone
    refine Shows.read (fun e source s' h => ?_) ?_
    · exact h.answer _ _
    · exact (Shows.refl s).answer _ _

theorem answers_batchOk {missReason : MissReason} {returned : QueryResponse} {scan : Scan} :
    ((s.batchOk p now scan c t missReason returned).answers.map fun a => a.reply.results) =
      (s.missResponse c missReason returned).results ::
        s.answers.map fun a => a.reply.results := by
  unfold batchOk
  dsimp only
  rw [answer]
  dsimp only [List.map_cons]
  refine congrArg (_ :: ·) ?_
  rw [answers_complete]
  split <;> rfl

theorem cache_batchOk {missReason : MissReason} {returned : QueryResponse} {scan : Scan} :
    (s.batchOk p now scan c t missReason returned).app.cache =
      match (s.missResponse c missReason returned).validate with
      | .error _ => s.app.cache
      | .ok () => exec p s.app.cache ⟨now, scan, batchInsert p t c.key
          (s.missResponse c missReason returned)
          { s.missResponse c missReason returned with tookMs := c.tookMs now }
          s.app.upstreamId⟩ := by
  unfold batchOk
  dsimp only
  rw [answer]
  dsimp only
  rw [cache_complete]
  cases (s.missResponse c missReason returned).validate with
  | error e => rfl
  | ok _ => rfl

end Server

namespace Server

variable {p : Platform} {s : Server} {now : Clock} {id : Nat} {c : Client} {t : Transport}
  {agent : Option AgentIdentity} {remote : Bool} {f : Reply → List SearchResult}

theorem shows_federated_denied (hrefused : ∀ status, f (.refused status) = [])
    (hdenied : deniedBy agent c.contextId = true) :
    Shows f s (s.handleFederated p now id c .http agent remote) (some []) := by
  unfold handleFederated
  rw [if_pos ⟨rfl, hdenied⟩, ← hrefused 403]
  exact (Shows.refl s).answer _ _

section Admitted

variable (hadmitted : ¬ (t = .http ∧ deniedBy agent c.contextId = true))
include hadmitted

theorem shows_federated_disabled (hoff : s.app.federatedEnabled = false)
    (hrefused : ∀ status, f (.refused status) = [])
    (hremote : ∀ response, f (.remote (some response)) = response.results) :
    Shows f s (s.handleFederated p now id c t agent remote)
      (some (s.app.cache.listed (s.app.cache.foundAt p c.key.text))) := by
  unfold handleFederated
  rw [if_neg hadmitted, if_pos hoff]
  refine Shows.read (fun e source s' h => ?_) ?_
  · rw [← hremote { e.response with
      cacheStatus := .hit, tookMs := if t = .http then c.tookMs now else 0 }]
    exact h.answer _ _
  · rw [← hrefused 503]
    exact (Shows.refl s).answer _ _

theorem shows_federated_local (hon : ¬ s.app.federatedEnabled = false)
    (hlocal : ¬ (remote && (s.app.upstreams.pool || s.app.upstreams.single)) = true) :
    Shows f s (s.handleFederated p now id c t agent remote) (some (f (.remote none))) := by
  unfold handleFederated
  rw [if_neg hadmitted, if_neg hon, if_neg hlocal]
  exact (Shows.refl s).answer _ _

end Admitted

section Asks

variable (hon : ¬ s.app.federatedEnabled = false)
  (hasks : (remote && (s.app.upstreams.pool || s.app.upstreams.single)) = true)
include hon hasks

theorem shows_federated_grpc :
    Shows f s (s.handleFederated p now id c .grpc agent remote) none := by
  unfold handleFederated
  rw [if_neg (fun h => by cases h.1), if_neg hon, if_pos hasks]
  exact ⟨rfl, rfl⟩

theorem shows_federated_http (hadmitted : deniedBy agent c.contextId = false) :
    ∃ shown, Shows f s (s.handleFederated p now id c .http agent remote) shown ∧
      (shown = none ↔ s.app.cache.foundAt p c.key.text ∉ s.app.cache.entries) := by
  unfold handleFederated
  rw [if_neg (fun h => by simp [hadmitted] at h), if_neg hon, if_pos hasks]
  dsimp only
  cases hl : s.app.cache.entries.lookup ((Lookup.byText c.key.text).hash p s.app.cache) with
  | some e =>
    rw [read_of_lookup hl]
    refine ⟨_, (Shows.lookedUp _).answer _ _, iff_of_false nofun ?_⟩
    exact not_not_intro (WeightedTable.mem_of_lookup _ hl)
  | none =>
    rw [read_of_none hl]
    exact ⟨none, ⟨rfl, rfl⟩, iff_of_true rfl (AList.lookup_eq_none.1 hl)⟩

end Asks

theorem answers_federatedDone {scan : Scan} (response : QueryResponse) :
    ((s.federatedDone p now scan c (.ok response)).answers.map fun a => f a.reply) =
      f (.remote (some response)) :: s.answers.map fun a => f a.reply := by
  unfold federatedDone
  dsimp only [answer, List.map_cons]
  split <;> rfl

theorem cache_federatedDone {scan : Scan} (response : QueryResponse) :
    (s.federatedDone p now scan c (.ok response)).app.cache =
      if c.handler = .federated .http then
        s.app.cache.insertWithContext p scan now c.key.text response s.app.upstreamId c.contextId
      else s.app.cache := by
  unfold federatedDone
  dsimp only [answer]
  split <;> rfl

end Server

/-! ## Parity -/

namespace Exchange

variable {p : Platform} {x : Exchange}

theorem resolveContext_given {ctx : String} (h : ctx ≠ "") (agent : Option AgentIdentity) :
    resolveContext (some ctx) agent = ctx := by
  simp [resolveContext, Option.filter, h]

theorem resolveContext_absent {header : Option String} (h : header = none ∨ header = some "")
    (agent : Option AgentIdentity) :
    resolveContext header agent = (agent.bind AgentIdentity.defaultContext).getD "default" := by
  have hfilter : header.filter (fun ctx => ctx ≠ "") = none := by
    obtain rfl | rfl := h <;> rfl
  unfold resolveContext
  rw [hfilter]
  cases agent.bind AgentIdentity.defaultContext <;> rfl

theorem context_iff : x.context .http = x.context .grpc ↔ x.SameContext := by
  obtain ⟨s, now, scan, fed, agent, explicit, via, operation, stage⟩ := x
  simp only [context, SameContext, resolveContextGrpc]
  cases explicit with
  | none =>
    rw [resolveContext_absent (.inl rfl)]
    cases via <;> simp
  | some ctx =>
    by_cases hctx : ctx = ""
    · subst hctx
      rw [resolveContext_absent (.inr rfl)]
      cases via <;> simp
    · rw [resolveContext_given hctx]
      cases via <;> simp [hctx]

theorem returned_item {request : QueryRequest} {upstreams : Upstreams}
    (h : x.operation = .item request upstreams) : x.returned = Reply.results := by
  funext reply
  unfold returned
  rw [h]
  cases x.stage <;> rfl

theorem item_arrives_iff {contextId : String} {request : QueryRequest} {upstreams : Upstreams}
    (hop : x.operation = .item request upstreams) (hstage : x.stage = .arrives) :
    x.Agree (x.piece p .http contextId) (x.piece p .grpc contextId) ↔
      x.ItemArrives p contextId upstreams := by
  let key : Key := ⟨contextId, request.query⟩
  have hshows (t : Transport) : Shows x.returned x.server (x.piece p t contextId)
      (if t = .http ∧ Server.deniedBy x.agent contextId then some []
      else if upstreams.any && x.server.app.cache.misses p x.now (key.hash p) then none
      else some (x.server.app.cache.listed
        ((Server.batchLookup p t key).hash p x.server.app.cache))) := by
    rw [returned_item hop]
    simp only [piece, hop, hstage, Operation.event, Server.step]
    exact Server.shows_batchItem
  rw [agree_iff_of_shows (hshows .http) (hshows .grpc)]
  simp only [ItemArrives, hop, SameListed, denied, Operation.request]
  change _ ↔ if upstreams.any && x.server.app.cache.misses p x.now (key.hash p) then _ else _
  cases upstreams.any && x.server.app.cache.misses p x.now (key.hash p) with
  | true => cases Server.deniedBy x.agent contextId <;> simp
  | false =>
    cases Server.deniedBy x.agent contextId with
    | true =>
      simp only [Server.batchLookup, Lookup.hash, key, and_true, if_true, Option.some.injEq,
        reduceCtorEq, if_false, Bool.false_eq_true]
      exact eq_comm
    | false => simp [Server.batchLookup, Lookup.hash, key]

/-- The response of a leader: both return it, and each stores it with a time of its own. -/
theorem item_answered_ok_iff {contextId : String} {request : QueryRequest}
    {upstreams : Upstreams} (hop : x.operation = .item request upstreams) {start : Nat}
    {missReason : MissReason} {returned : QueryResponse} :
    x.Agree
        (x.server.batchOk p x.now x.scan (x.operation.client .http contextId start) .http
          missReason returned)
        (x.server.batchOk p x.now x.scan (x.operation.client .grpc contextId start) .grpc
          missReason returned) ↔
      x.ItemAnswered p contextId start missReason (.ok returned) := by
  have hresponse : x.server.missResponse (x.operation.client .grpc contextId start) missReason
      returned = x.server.missResponse (x.operation.client .http contextId start) missReason
        returned := rfl
  constructor
  · intro h hvalid
    have hcontents := h.contents
    rw [Server.cache_batchOk, Server.cache_batchOk, hresponse, hvalid] at hcontents
    exact (contents_insert_eq_iff _ _ _ _ _ _ _).1 hcontents
  · intro h
    refine ⟨?_, ?_⟩
    · rw [returned_item hop]
      rw [Server.answers_batchOk, Server.answers_batchOk]
      rfl
    · rw [Server.cache_batchOk, Server.cache_batchOk, hresponse]
      cases hvalid : (x.server.missResponse (x.operation.client .http contextId start) missReason
        returned).validate with
      | error e => rfl
      | ok _ => exact (contents_insert_eq_iff _ _ _ _ _ _ _).2 (h hvalid)

theorem item_answered_iff {contextId : String} {request : QueryRequest} {upstreams : Upstreams}
    (hop : x.operation = .item request upstreams) {start : Nat} {asked : Upstreams}
    {missReason : MissReason} {stashed computed : Option Embedding}
    {outcome : Except String QueryResponse}
    (hstage : x.stage = .answered start asked missReason stashed computed outcome) :
    x.Agree (x.piece p .http contextId) (x.piece p .grpc contextId) ↔
      x.ItemAnswered p contextId start missReason (asked.dispatch outcome) := by
  have hpiece (t : Transport) : x.piece p t contextId =
      match asked.dispatch outcome with
      | .ok returned => x.server.batchOk p x.now x.scan (x.operation.client t contextId start) t
          missReason returned
      | .error message =>
        x.server.batchErr p x.now (x.operation.client t contextId start) t message := by
    simp only [piece, hop, hstage, Server.resume, Operation.client, Operation.handler]
    cases asked.dispatch outcome <;> rfl
  rw [hpiece .http, hpiece .grpc]
  cases asked.dispatch outcome with
  | ok returned => exact item_answered_ok_iff hop
  | error message =>
    have hshows (t : Transport) : Shows x.returned x.server
        (x.server.batchErr p x.now (x.operation.client t contextId start) t message)
        (some (x.server.app.cache.listed ((Server.batchLookup p t
          (x.operation.client t contextId start).key).hash p x.server.app.cache))) := by
      rw [returned_item hop]
      exact Server.shows_batchErr message
    rw [agree_iff_of_shows (hshows .http) (hshows .grpc), Option.some.injEq]
    rfl

theorem item_received_iff {contextId : String} {request : QueryRequest} {upstreams : Upstreams}
    (hop : x.operation = .item request upstreams) {start : Nat} {result : CoalesceResult}
    (hstage : x.stage = .received start result) :
    x.Agree (x.piece p .http contextId) (x.piece p .grpc contextId) ↔
      x.ItemReceived p contextId result := by
  have hpiece (t : Transport) : x.piece p t contextId =
      x.server.batchWaiterDone p x.now (x.operation.client t contextId start) t result := by
    simp only [piece, hop, hstage]
    rfl
  rw [hpiece .http, hpiece .grpc]
  have hshows (t : Transport) : Shows Reply.results x.server
      (x.server.batchWaiterDone p x.now (x.operation.client t contextId start) t result) _ :=
    Server.shows_batchWaiterDone result
  rw [← returned_item hop] at hshows
  rw [agree_iff_of_shows (hshows .http) (hshows .grpc)]
  cases result with
  | ok b => exact iff_of_true rfl trivial
  | error e =>
    simp only [Option.some.injEq]
    rfl

section Federated

variable {contextId text : String} {topK : Option Nat} {localResults : List SearchResult}
  (hop : x.operation = .federated text topK localResults) (hstage : x.stage = .arrives)
include hop hstage

theorem returned_refused (status : Nat) : x.returned (.refused status) = [] := by
  simp only [returned, hop, hstage, Operation.returned, Reply.results]

theorem returned_remote (remote : Option QueryResponse) :
    x.returned (.remote remote) =
      if x.server.app.federatedEnabled then
        (x.fed.mergeResponses ⟨localResults, .hit, 0, none, none⟩ remote).1.results
      else (Reply.remote remote).results := by
  simp only [returned, hop, hstage, Operation.returned]

theorem piece_federated (t : Transport) : x.piece p t contextId =
    x.server.arrive.handleFederated p x.now x.server.nextTask
      ⟨.federated t, contextId, ⟨text, topK, none, none, none⟩, x.now.instant⟩ t x.agent
      (x.fed.shouldQueryRemote localResults ≠ .localSufficient) := by
  simp only [piece, hop, hstage, Operation.event, Server.step]

theorem shows_denied (hdenied : x.denied contextId = true) :
    Shows x.returned x.server.arrive (x.piece p .http contextId) (some []) := by
  rw [piece_federated hop hstage]
  exact Server.shows_federated_denied (returned_refused hop hstage) hdenied

/-- Where both handlers return the same unless the agent is refused, they agree if it is not, or
if there is nothing to return. -/
theorem agree_of_admitted {shown : List SearchResult}
    (h : ∀ t : Transport, ¬ (t = .http ∧ x.denied contextId = true) →
      Shows x.returned x.server.arrive (x.piece p t contextId) (some shown)) :
    x.Agree (x.piece p .http contextId) (x.piece p .grpc contextId) ↔
      (x.denied contextId = true → shown = []) := by
  have hgrpc := h .grpc fun h => by cases h.1
  by_cases hdenied : x.denied contextId = true
  · rw [agree_iff_of_shows (shows_denied hop hstage hdenied) hgrpc, Option.some.injEq]
    exact ⟨fun heq _ => heq.symm, fun heq => (heq hdenied).symm⟩
  · rw [agree_iff_of_shows (h .http fun h => hdenied h.2) hgrpc]
    exact iff_of_true rfl fun h => absurd h hdenied

theorem federated_asks_iff (hon : ¬ x.server.app.federatedEnabled = false)
    (hasks : x.fed.shouldQueryRemote localResults ≠ .localSufficient ∧
      (x.server.app.upstreams.pool || x.server.app.upstreams.single) = true) :
    x.Agree (x.piece p .http contextId) (x.piece p .grpc contextId) ↔
      x.denied contextId = false ∧ x.server.app.cache.foundAt p (Key.text ⟨contextId, text⟩) ∉
        x.server.app.cache.entries := by
  have hremote : (decide (x.fed.shouldQueryRemote localResults ≠ .localSufficient) &&
      (x.server.app.upstreams.pool || x.server.app.upstreams.single)) = true := by
    rw [decide_eq_true hasks.1, hasks.2]
    rfl
  have hgrpc : Shows x.returned x.server.arrive (x.piece p .grpc contextId) none := by
    rw [piece_federated hop hstage]
    exact Server.shows_federated_grpc hon hremote
  cases hdenied : x.denied contextId with
  | true =>
    rw [agree_iff_of_shows (shows_denied hop hstage hdenied) hgrpc]
    exact iff_of_false nofun fun h => by cases h.1
  | false =>
    obtain ⟨shown, hshows, hshown⟩ : ∃ shown,
        Shows x.returned x.server.arrive (x.piece p .http contextId) shown ∧
        (shown = none ↔ x.server.app.cache.foundAt p (Key.text ⟨contextId, text⟩) ∉
          x.server.app.cache.entries) := by
      rw [piece_federated hop hstage]
      exact Server.shows_federated_http hon hremote hdenied
    rw [agree_iff_of_shows hshows hgrpc, hshown]
    simp only [true_and]

theorem federated_arrives_iff :
    x.Agree (x.piece p .http contextId) (x.piece p .grpc contextId) ↔
      x.FederatedArrives p contextId localResults := by
  simp only [FederatedArrives, hop, Operation.request]
  split
  · rename_i hoff
    refine agree_of_admitted hop hstage fun t hadmitted => ?_
    rw [piece_federated hop hstage]
    refine Server.shows_federated_disabled hadmitted hoff (returned_refused hop hstage) ?_
    intro response
    rw [returned_remote hop hstage, hoff]
    rfl
  · rename_i hon
    split
    · rename_i hasks
      exact federated_asks_iff hop hstage hon hasks
    · rename_i hlocal
      refine agree_of_admitted hop hstage fun t hadmitted => ?_
      have hmerged := returned_remote hop hstage none
      rw [if_pos (Bool.of_not_eq_false hon)] at hmerged
      have hstays : ¬ (decide (x.fed.shouldQueryRemote localResults ≠ .localSufficient) &&
          (x.server.app.upstreams.pool || x.server.app.upstreams.single)) = true := by
        simpa using hlocal
      rw [piece_federated hop hstage, ← hmerged]
      exact Server.shows_federated_local hadmitted hon hstays

end Federated

theorem federated_answered_iff {contextId text : String} {topK : Option Nat}
    {localResults : List SearchResult} (hop : x.operation = .federated text topK localResults)
    {start : Nat} {asked : Upstreams} {missReason : MissReason}
    {stashed computed : Option Embedding} {outcome : Except String QueryResponse}
    (hstage : x.stage = .answered start asked missReason stashed computed outcome) :
    x.Agree (x.piece p .http contextId) (x.piece p .grpc contextId) ↔
      x.FederatedAnswered p contextId outcome := by
  have hpiece (t : Transport) : x.piece p t contextId =
      x.server.federatedDone p x.now x.scan (x.operation.client t contextId start) outcome := by
    simp only [piece, hop, hstage]
    rfl
  rw [hpiece .http, hpiece .grpc]
  cases outcome with
  | error e => exact iff_of_true ⟨rfl, rfl⟩ trivial
  | ok returned =>
    have hhttp : (x.operation.client .http contextId start).handler = .federated .http := by
      rw [hop]
      rfl
    have hgrpc : ¬ (x.operation.client .grpc contextId start).handler = .federated .http := by
      rw [hop]
      exact nofun
    constructor
    · intro h
      have hcontents := h.contents
      rw [Server.cache_federatedDone, Server.cache_federatedDone, if_pos hhttp,
        if_neg hgrpc] at hcontents
      exact hcontents
    · intro h
      refine ⟨?_, ?_⟩
      · rw [Server.answers_federatedDone, Server.answers_federatedDone]
      · rw [Server.cache_federatedDone, Server.cache_federatedDone, if_pos hhttp, if_neg hgrpc]
        exact h

theorem agree_of_eq {contextId : String}
    (h : x.piece p .http contextId = x.piece p .grpc contextId) :
    x.Agree (x.piece p .http contextId) (x.piece p .grpc contextId) := by
  rw [h]
  exact ⟨rfl, rfl⟩

/-- The pieces of the two transports agree in a context exactly if they match there. -/
theorem agree_iff_matches (contextId : String) :
    x.Agree (x.piece p .http contextId) (x.piece p .grpc contextId) ↔ x.Matches p contextId := by
  unfold Matches
  cases hop : x.operation with
  | query request allowed =>
    refine iff_of_true (agree_of_eq ?_) trivial
    simp only [piece, hop]
    rfl
  | item request upstreams =>
    cases hstage : x.stage with
    | arrives => exact item_arrives_iff hop hstage
    | embedded =>
      refine iff_of_true (agree_of_eq ?_) trivial
      simp only [piece, hop, hstage]
    | answered => exact item_answered_iff hop hstage
    | received => exact item_received_iff hop hstage
  | federated text topK localResults =>
    cases hstage : x.stage with
    | arrives => exact federated_arrives_iff hop hstage
    | embedded =>
      refine iff_of_true (agree_of_eq ?_) trivial
      simp only [piece, hop, hstage]
    | answered => exact federated_answered_iff hop hstage
    | received =>
      refine iff_of_true (agree_of_eq ?_) trivial
      simp only [piece, hop, hstage]
      rfl

/-- The two transports do the same to an operation exactly if they resolve the same context and
the operation matches there. -/
theorem transports_agree_iff (p : Platform) (x : Exchange) :
    x.Parity p ↔ x.SameContext ∧ x.Matches p (x.context .http) := by
  constructor
  · intro h
    have hpiece := h.piece
    rw [← h.context] at hpiece
    exact ⟨context_iff.1 h.context, (agree_iff_matches _).1 hpiece⟩
  · rintro ⟨hcontext, hmatches⟩
    have hsame := context_iff.2 hcontext
    exact ⟨hsame, hsame ▸ (agree_iff_matches _).2 hmatches⟩

/-- A query without a context, of an agent that has a default context. -/
def agentQuery : Exchange where
  server := smallServer
  now := ⟨0, 0⟩
  scan := Scan.stored
  fed := .fromConfig CaseTables.ascii .default
  agent := some ⟨"agent", some "docs", [], 0⟩
  explicit := none
  via := .proto
  operation := .query (textRequest "q") true
  stage := .arrives

/-- HTTP takes the default context of the agent, and gRPC does not. -/
theorem default_context_ignored : ¬ ∀ (p : Platform) (x : Exchange), x.Parity p := by
  intro h
  have hsame : agentQuery.context .http = agentQuery.context .grpc :=
    (h Platform.sample agentQuery).context
  exact absurd hsame (by decide)

end Exchange

end Conproxy
