import Mathlib.Data.List.AList
import Conproxy.Agent
import Conproxy.Sections

/-!
# The configuration file

The file of `config/mod.rs` and `config/context_rooted.rs`: the named upstreams and embedders, the
contexts with their legs, how a leg is merged with its resource, and how the contexts are
projected to the proxy section. A `HashMap` is an association list in the order in which it
iterates.
-/

namespace Conproxy

set_option autoImplicit false

structure UpstreamEndpointConfig where
  id : String
  url : String
  timeoutSecs : Option Nat
  weight : Option Nat
  priority : Option Nat
  maxConcurrent : Option Nat
  enabled : Option Bool
  versionEndpoint : Option String
  versionPollIntervalSecs : Option Nat
  upstreamType : Option String
  queryMode : Option String
  table : Option String
  embeddingColumn : Option String
  contentColumn : Option String
  metadataColumns : List String
  distanceMetric : Option String
  dimensions : Option Nat
  index : Option String
  searchFields : List String
  returnFields : List String
  apiKey : Option String
deriving DecidableEq

namespace UpstreamEndpointConfig

/-- An endpoint with nothing but an id and a URL. -/
def ofUrl (id url : String) : UpstreamEndpointConfig where
  id := id
  url := url
  timeoutSecs := none
  weight := none
  priority := none
  maxConcurrent := none
  enabled := none
  versionEndpoint := none
  versionPollIntervalSecs := none
  upstreamType := none
  queryMode := none
  table := none
  embeddingColumn := none
  contentColumn := none
  metadataColumns := []
  distanceMetric := none
  dimensions := none
  index := none
  searchFields := []
  returnFields := []
  apiKey := none

def timeout (c : UpstreamEndpointConfig) : Nat := c.timeoutSecs.getD 30

def isPgvector (c : UpstreamEndpointConfig) : Bool := c.upstreamType = some "pgvector"

/-- A field with a fixed list of values: not set, or one of them. -/
def checkChoice (id field : String) (valid : List String) (value : Option String) :
    Except String Unit :=
  match value with
  | none => .ok ()
  | some v =>
    if valid.contains v then .ok ()
    else .error ("upstream '" ++ id ++ "': invalid " ++ field ++ " '" ++ v ++
      "', expected one of: " ++ ", ".intercalate valid)

def validate (c : UpstreamEndpointConfig) : Except String Unit := do
  checkChoice c.id "upstream_type"
    ["elasticsearch", "opensearch", "qdrant", "pinecone", "milvus", "pgvector", "meilisearch"]
    c.upstreamType
  checkChoice c.id "query_mode" ["text_native", "vector_only", "unknown"] c.queryMode
  if c.isPgvector && c.table.isNone then
    .error ("upstream '" ++ c.id ++ "': pgvector upstream requires 'table' field")
  checkChoice c.id "distance_metric" ["cosine", "l2", "inner_product"] c.distanceMetric

end UpstreamEndpointConfig

structure UpstreamResourceConfig where
  url : Option String
  upstreamType : Option String
  timeoutSecs : Option Nat
  weight : Option Nat
  priority : Option Nat
  maxConcurrent : Option Nat
  enabled : Option Bool
  versionEndpoint : Option String
  versionPollIntervalSecs : Option Nat
  queryMode : Option String
  table : Option String
  embeddingColumn : Option String
  contentColumn : Option String
  metadataColumns : List String
  distanceMetric : Option String
  dimensions : Option Nat
  index : Option String
  searchFields : List String
  returnFields : List String
  apiKey : Option String
deriving DecidableEq

def UpstreamResourceConfig.default : UpstreamResourceConfig :=
  ⟨none, none, none, none, none, none, none, none, none, none, none, none, none, [], none, none,
    none, [], [], none⟩

/-- A leg of a context: a reference to a resource, and what it overrides there. -/
structure ContextLegConfig where
  resourceRef : String
  url : Option String
  upstreamType : Option String
  timeoutSecs : Option Nat
  weight : Option Nat
  priority : Option Nat
  maxConcurrent : Option Nat
  enabled : Option Bool
  versionEndpoint : Option String
  versionPollIntervalSecs : Option Nat
  queryMode : Option String
  table : Option String
  embeddingColumn : Option String
  contentColumn : Option String
  metadataColumns : Option (List String)
  distanceMetric : Option String
  dimensions : Option Nat
  index : Option String
  searchFields : Option (List String)
  returnFields : Option (List String)
  apiKey : Option String
deriving DecidableEq

/-- A leg that overrides nothing. -/
def ContextLegConfig.to (resourceRef : String) : ContextLegConfig :=
  ⟨resourceRef, none, none, none, none, none, none, none, none, none, none, none, none, none,
    none, none, none, none, none, none, none⟩

structure ContextCacheConfig where
  freshSecs : Option Nat
  staleSecs : Option Nat
  maxEntries : Option Nat
  maxMemoryMb : Option Nat
  evictionPolicy : Option String
deriving DecidableEq

def ContextCacheConfig.default : ContextCacheConfig := ⟨none, none, none, none, none⟩

structure EmbedderResourceConfig where
  provider : Option String
  model : Option String
  apiKey : Option String
  baseUrl : Option String
  batchSize : Option Nat
deriving DecidableEq

/-- The embedder of a context: a reference to a resource, and what it overrides there. -/
structure ContextEmbedderConfig where
  resourceRef : String
  provider : Option String
  model : Option String
  apiKey : Option String
  baseUrl : Option String
  batchSize : Option Nat
deriving DecidableEq

structure NamedContextConfig where
  default : Option Bool
  description : Option String
  upstreams : List ContextLegConfig
  embedder : Option ContextEmbedderConfig
  cache : ContextCacheConfig
  scope : ProxyScopeConfig
  cascade : CascadeConfig
  federated : FederatedConfig
deriving DecidableEq

/-- `NamedContextConfig::default()`. -/
def NamedContextConfig.blank : NamedContextConfig :=
  ⟨none, none, [], none, .default, .none, .default, .default⟩

structure ResolvedUpstreamLeg where
  resourceId : String
  endpoint : UpstreamEndpointConfig
deriving DecidableEq

structure ResolvedEmbedder where
  resourceId : String
  provider : Option String
  model : Option String
  apiKey : Option String
  baseUrl : Option String
  batchSize : Option Nat
deriving DecidableEq

structure ResolvedContext where
  id : String
  isDefault : Bool
  description : Option String
  legs : List ResolvedUpstreamLeg
  embedder : Option ResolvedEmbedder
  cache : ContextCacheConfig
  scope : ProxyScopeConfig
  cascade : CascadeConfig
  federated : FederatedConfig
deriving DecidableEq

/-- The endpoint of a leg: what the leg sets wins, the rest is the resource's. -/
def mergeLeg (resourceId url : String) (resource : UpstreamResourceConfig)
    (leg : ContextLegConfig) : UpstreamEndpointConfig where
  id := resourceId
  url := url
  timeoutSecs := leg.timeoutSecs <|> resource.timeoutSecs
  weight := leg.weight <|> resource.weight
  priority := leg.priority <|> resource.priority
  maxConcurrent := leg.maxConcurrent <|> resource.maxConcurrent
  enabled := leg.enabled <|> resource.enabled
  versionEndpoint := leg.versionEndpoint <|> resource.versionEndpoint
  versionPollIntervalSecs := leg.versionPollIntervalSecs <|> resource.versionPollIntervalSecs
  upstreamType := leg.upstreamType <|> resource.upstreamType
  queryMode := leg.queryMode <|> resource.queryMode
  table := leg.table <|> resource.table
  embeddingColumn := leg.embeddingColumn <|> resource.embeddingColumn
  contentColumn := leg.contentColumn <|> resource.contentColumn
  metadataColumns := leg.metadataColumns.getD resource.metadataColumns
  distanceMetric := leg.distanceMetric <|> resource.distanceMetric
  dimensions := leg.dimensions <|> resource.dimensions
  index := leg.index <|> resource.index
  searchFields := leg.searchFields.getD resource.searchFields
  returnFields := leg.returnFields.getD resource.returnFields
  apiKey := leg.apiKey <|> resource.apiKey

def resolveLeg (resourceId : String) (resource : UpstreamResourceConfig)
    (leg : ContextLegConfig) : Except String ResolvedUpstreamLeg := do
  match leg.url <|> resource.url with
  | none =>
    .error ("upstream resource '" ++ resourceId ++ "': url required after leg merge")
  | some url =>
    let endpoint := mergeLeg resourceId url resource leg
    endpoint.validate
    return ⟨resourceId, endpoint⟩

def resolveEmbedder (resourceId : String) (resource : EmbedderResourceConfig)
    (attach : ContextEmbedderConfig) : ResolvedEmbedder where
  resourceId := resourceId
  provider := attach.provider.or resource.provider
  model := attach.model.or resource.model
  apiKey := attach.apiKey.or resource.apiKey
  baseUrl := attach.baseUrl.or resource.baseUrl
  batchSize := attach.batchSize.or resource.batchSize

structure ProxyConfig where
  listen : Option String
  httpListen : Option String
  freshDurationSecs : Option Nat
  staleDurationSecs : Option Nat
  maxEntries : Option Nat
  upstreamUrl : Option String
  upstreamTimeoutSecs : Option Nat
  ttlJitterPercent : Option F32
  refreshIntervalSecs : Option Nat
  scope : ProxyScopeConfig
  cache : ProxyCacheConfig
  distill : DistillConfig
  apiKey : Option String
  rateLimit : ProxyRateLimitConfig
  retry : ProxyRetryConfig
  upstreams : List UpstreamEndpointConfig
  federated : FederatedConfig
  security : SecurityConfig
  cascade : CascadeConfig
  pool : ConnectionPoolConfig
  circuitBreaker : ProxyCircuitBreakerConfig
  agents : List AgentConfig
  cdc : CdcConfig
  peer : PeerConfig
  socketTuning : SocketTuningConfig
  shutdownTimeoutSecs : Option Nat
  maxGlobalConnections : Option Nat
  webUi : WebUiConfig
deriving DecidableEq

namespace ProxyConfig

def default : ProxyConfig where
  listen := none
  httpListen := none
  freshDurationSecs := none
  staleDurationSecs := none
  maxEntries := none
  upstreamUrl := none
  upstreamTimeoutSecs := none
  ttlJitterPercent := none
  refreshIntervalSecs := none
  scope := .none
  cache := .default
  distill := .default
  apiKey := none
  rateLimit := .default
  retry := .default
  upstreams := []
  federated := .default
  security := .default
  cascade := .default
  pool := .default
  circuitBreaker := .default
  agents := []
  cdc := .default
  peer := .default
  socketTuning := .default
  shutdownTimeoutSecs := none
  maxGlobalConnections := none
  webUi := .default

def freshSecs (c : ProxyConfig) : Nat := c.freshDurationSecs.getD 300

def staleSecs (c : ProxyConfig) : Nat := c.staleDurationSecs.getD 3600

def entryLimit (c : ProxyConfig) : Nat := c.maxEntries.getD 10000

def upstreamTimeout (c : ProxyConfig) : Nat := c.upstreamTimeoutSecs.getD 30

/-- The deprecated `upstream_url` becomes the endpoint `default`. -/
def normalizeUpstreams (c : ProxyConfig) : ProxyConfig :=
  if c.upstreams.isEmpty then
    match c.upstreamUrl with
    | some url =>
      { c with
        upstreams :=
          [{ UpstreamEndpointConfig.ofUrl "default" url with
            timeoutSecs := c.upstreamTimeoutSecs }] }
    | none => c
  else c

end ProxyConfig

/-- The tables of the file. The removed table `[llm]` is kept as its text. -/
structure ConfigFile where
  llm : Option String
  packages : AList fun _ : String => PackageEntry
  registries : AList fun _ : String => String
  search : SearchConfig
  embedding : EmbeddingConfig
  web : WebConfig
  proxy : ProxyConfig
  context : ConfigFile.ContextConfig
  server : ServerConfig
  upstreams : AList fun _ : String => UpstreamResourceConfig
  embedders : AList fun _ : String => EmbedderResourceConfig
  contexts : AList fun _ : String => NamedContextConfig
  agents : List AgentConfig

/-- A file that says nothing. -/
def ConfigFile.default : ConfigFile where
  llm := none
  packages := ∅
  registries := ∅
  search := .default
  embedding := .default
  web := .default
  proxy := .default
  context := .default
  server := .default
  upstreams := ∅
  embedders := ∅
  contexts := ∅
  agents := []

/-- The endpoints of all contexts, the first one of every resource. -/
def pooledEndpoints (resolved : List ResolvedContext) : List UpstreamEndpointConfig :=
  let legs := resolved.flatMap ResolvedContext.legs
  (legs.foldl (fun seen leg =>
    if seen.any fun l => l.resourceId = leg.resourceId then seen else seen ++ [leg])
    []).map ResolvedUpstreamLeg.endpoint

/-- `project_to_proxy`: the default context's policy over the process-wide settings. -/
def projectToProxy (base : ProxyConfig) (resolved : List ResolvedContext) :
    Except String ProxyConfig :=
  match resolved.find? ResolvedContext.isDefault <|> resolved.head? with
  | none => .error "project_to_proxy: no resolved contexts"
  | some ctx =>
    let out := { base with
      scope := ctx.scope
      cascade := ctx.cascade
      federated := ctx.federated
      freshDurationSecs := ctx.cache.freshSecs <|> base.freshDurationSecs
      staleDurationSecs := ctx.cache.staleSecs <|> base.staleDurationSecs
      maxEntries := ctx.cache.maxEntries <|> base.maxEntries
      cache := { base.cache with
        maxMemoryMb := ctx.cache.maxMemoryMb <|> base.cache.maxMemoryMb
        evictionPolicy := ctx.cache.evictionPolicy <|> base.cache.evictionPolicy } }
    let upstreams := pooledEndpoints resolved
    .ok (if upstreams.isEmpty then out
      else { out with upstreams := upstreams, upstreamUrl := none })

namespace ConfigFile

def resolveLegOf (file : ConfigFile) (id : String) (leg : ContextLegConfig) :
    Except String ResolvedUpstreamLeg :=
  match file.upstreams.lookup leg.resourceRef with
  | some resource => resolveLeg leg.resourceRef resource leg
  | none =>
    .error ("context '" ++ id ++ "': upstream ref '" ++ leg.resourceRef ++
      "' not found in [upstreams]")

def resolveEmbedderOf (file : ConfigFile) (id : String) (attach : ContextEmbedderConfig) :
    Except String ResolvedEmbedder :=
  match file.embedders.lookup attach.resourceRef with
  | some resource => .ok (resolveEmbedder attach.resourceRef resource attach)
  | none =>
    .error ("context '" ++ id ++ "': embedder ref '" ++ attach.resourceRef ++
      "' not found in [embedders]")

def resolveContext (file : ConfigFile) (id : String) (ctx : NamedContextConfig) :
    Except String ResolvedContext := do
  let legs ← ctx.upstreams.mapM (file.resolveLegOf id)
  let embedder ← ctx.embedder.mapM (file.resolveEmbedderOf id)
  return ⟨id, ctx.default.getD false, ctx.description, legs, embedder, ctx.cache, ctx.scope,
    ctx.cascade, ctx.federated⟩

def resolveContexts (file : ConfigFile) : Except String (List ResolvedContext) :=
  file.contexts.entries.mapM fun c => file.resolveContext c.1 c.2

/-- The listeners of `[server]` win over those of the proxy section. -/
def listening (file : ConfigFile) (base : ProxyConfig) : ProxyConfig :=
  { base with
    listen := file.server.listen <|> base.listen
    httpListen := file.server.httpListen <|> base.httpListen }

/-- `effective_proxy`: the agents of the file win over those of the proxy section. -/
def effectiveProxy (file : ConfigFile) : Except String ProxyConfig := do
  let resolved ← file.resolveContexts
  let projected ← projectToProxy (file.listening file.proxy.normalizeUpstreams) resolved
  return if file.agents.isEmpty then projected else { projected with agents := file.agents }

theorem resolveContexts_eq_ok_of_effectiveProxy {file : ConfigFile} {proxy : ProxyConfig}
    (h : file.effectiveProxy = .ok proxy) :
    ∃ resolved, file.resolveContexts = .ok resolved ∧ resolved ≠ [] := by
  unfold effectiveProxy at h
  cases hresolved : file.resolveContexts with
  | error e =>
    rw [hresolved] at h
    cases h
  | ok resolved =>
    refine ⟨resolved, rfl, ?_⟩
    rintro rfl
    rw [hresolved] at h
    cases h

end ConfigFile

end Conproxy
