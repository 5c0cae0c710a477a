import Conproxy.Config
import Conproxy.Lib.FirstSeen
import Conproxy.Lib.WeightedTable

/-!
# Validation of the configuration

`ConfigFile::validate` and `validate_context_rooted`. The proxy section is checked as it stands in
the file, and the server runs on the section that `effective_proxy` projects from the contexts.
-/

namespace Conproxy

open Checks FirstSeen WeightedTable

set_option autoImplicit false

def startsWith (text start : String) : Bool := start.toList.isPrefixOf text.toList

def validateUrl (id url : String) : Except String Unit :=
  require (["http://", "https://", "postgres://", "postgresql://"].any (startsWith url) = true)
    ("upstream '" ++ id ++ "': URL must start with http(s):// or postgres(ql)://, got '" ++ url ++
      "'")

namespace ProxyConfig

def validateUpstream (c : UpstreamEndpointConfig) : Except String Unit := do
  c.validate
  validateUrl c.id c.url
  ifSome c.timeoutSecs fun t =>
    require (t ≠ 0 ∧ t ≤ 300)
      ("upstream '" ++ c.id ++ "': timeout_secs must be 1..=300, got " ++ toString t)

/-- What `ConfigFile::validate` checks of the proxy section. -/
def validate (u : CaseTables) (text : F32 → String) (c : ProxyConfig) : Except String Unit := do
  forEach c.upstreams validateUpstream
  ifSome c.upstreamUrl fun url =>
    require (startsWith url "http://" = true ∨ startsWith url "https://" = true)
      ("proxy.upstream_url: must start with http(s)://, got '" ++ url ++ "'")
  ifSome c.upstreamTimeoutSecs fun t =>
    require (t ≠ 0 ∧ t ≤ 300) ("proxy.upstream_timeout_secs must be 1..=300, got " ++ toString t)
  ifSome c.maxEntries fun max => require (max ≠ 0) "proxy.max_entries must be > 0"
  require (c.pool.maxConnections ≠ 0 ∧ c.pool.maxConnections ≤ 10000)
    ("proxy.pool.max_connections must be 1..=10000, got " ++ toString c.pool.maxConnections)
  require (c.socketTuning.listenBacklog ≤ 65535)
    ("proxy.socket_tuning.listen_backlog must be <= 65535, got " ++
      toString c.socketTuning.listenBacklog)
  ifSome c.freshDurationSecs fun secs =>
    require (secs ≠ 0) "proxy.fresh_duration_secs must be > 0"
  ifSome c.staleDurationSecs fun secs =>
    require (secs ≠ 0) "proxy.stale_duration_secs must be > 0"
  ifSome c.refreshIntervalSecs fun secs =>
    require (secs ≠ 0) "proxy.refresh_interval_secs must be > 0"
  c.distill.validate
  c.federated.validate u
  c.scope.validate u
  c.rateLimit.validate
  c.retry.validate
  c.cache.validate text
  c.security.validate
  c.circuitBreaker.validate

end ProxyConfig

/-- A resource may still lack its URL; its type is checked with a placeholder then. -/
def UpstreamResourceConfig.validate (name : String) (c : UpstreamResourceConfig) :
    Except String Unit := do
  ifSome c.url (validateUrl name)
  ifSome c.upstreamType fun type =>
    ({ UpstreamEndpointConfig.ofUrl name (c.url.getD "http://placeholder") with
      upstreamType := some type
      queryMode := c.queryMode
      table := c.table
      distanceMetric := c.distanceMetric }).validate.mapError
        fun e => "upstreams." ++ name ++ ": " ++ e

/-- An unknown provider is accepted, an empty one is not. -/
def EmbedderResourceConfig.validate (name : String) (c : EmbedderResourceConfig) :
    Except String Unit :=
  ifSome c.provider fun p =>
    require (["onnx", "openai", "voyage", "cohere", "google", "ollama"].contains p = true ∨ p ≠ "")
      ("embedders." ++ name ++ ": provider must not be empty")

namespace ResolvedContext

def validateLeg (id : String) (leg : ResolvedUpstreamLeg) : Except String Unit := do
  validateUrl leg.resourceId leg.endpoint.url
  ifSome leg.endpoint.timeoutSecs fun t =>
    require (t ≠ 0 ∧ t ≤ 300)
      ("context '" ++ id ++ "': leg '" ++ leg.resourceId ++
        "': timeout_secs must be 1..=300, got " ++ toString t)

def validate (u : CaseTables) (ctx : ResolvedContext) : Except String Unit := do
  require (ctx.legs ≠ []) ("context '" ++ ctx.id ++ "': at least one upstream leg required")
  forEach ctx.legs (validateLeg ctx.id)
  (ctx.scope.validate u).mapError fun e => "context '" ++ ctx.id ++ "': scope: " ++ e
  ifSome ctx.cache.maxEntries fun max =>
    require (max ≠ 0) ("context '" ++ ctx.id ++ "': cache.max_entries must be > 0")

end ResolvedContext

/-- `contexts.contains_key` is the parameter. -/
def AgentConfig.validate (known : String → Bool) (agent : AgentConfig) : Except String Unit := do
  require (agent.id ≠ "") "agent id must not be empty"
  forEach agent.allowedContexts fun c =>
    require (known c = true)
      ("agent '" ++ agent.id ++ "': allowed_contexts entry '" ++ c ++ "' not found in [contexts]")
  ifSome agent.defaultContext fun dc =>
    require (known dc = true)
      ("agent '" ++ agent.id ++ "': default_context '" ++ dc ++ "' not found in [contexts]")

namespace ConfigFile

def defaultContexts (file : ConfigFile) : List (Sigma fun _ : String => NamedContextConfig) :=
  file.contexts.entries.filter fun c => c.2.default.getD false

def contextAgents (file : ConfigFile) : List AgentConfig :=
  if file.agents.isEmpty then file.proxy.agents else file.agents

/-- `validate_context_rooted`: a file without contexts passes. -/
def validateContextRooted (u : CaseTables) (file : ConfigFile) : Except String Unit :=
  if file.contexts.entries.isEmpty then .ok ()
  else do
    require (file.upstreams.entries ≠ []) "contexts defined but [upstreams] is empty"
    require (file.defaultContexts.length ≠ 0)
      "contexts: exactly one context must have default = true"
    require (file.defaultContexts.length ≤ 1)
      "contexts: only one context may have default = true"
    forEach file.upstreams.entries fun res => res.2.validate res.1
    forEach file.embedders.entries fun emb => emb.2.validate emb.1
    let resolved ← file.resolveContexts
    forEach resolved (ResolvedContext.validate u)
    forEach file.contextAgents (AgentConfig.validate fun c => decide (c ∈ file.contexts))

def validate (u : CaseTables) (text : F32 → String) (file : ConfigFile) : Except String Unit := do
  require (file.llm = none)
    ("[llm] / [[llm.providers]] removed (plan 01). Use an external gateway (e.g. LiteLLM) for " ++
      "provider proxy/routing. conproxy owns search cache and distill only.")
  file.proxy.validate u text
  file.validateContextRooted u

/-- What a file with contexts has to satisfy, whatever the order in which its maps iterate. -/
structure Rooted (u : CaseTables) (file : ConfigFile) : Prop where
  upstreams : ∃ name, name ∈ file.upstreams
  default : ∃ id ctx, file.contexts.lookup id = some ctx ∧ ctx.default = some true ∧
    ∀ id' ctx', file.contexts.lookup id' = some ctx' → ctx'.default = some true → id' = id
  resources : ∀ name c, file.upstreams.lookup name = some c → c.validate name = .ok ()
  embedders : ∀ name c, file.embedders.lookup name = some c → c.validate name = .ok ()
  contexts : ∀ id ctx, file.contexts.lookup id = some ctx →
    ∃ resolved, file.resolveContext id ctx = .ok resolved ∧ resolved.validate u = .ok ()
  agents : ∀ agent ∈ file.contextAgents,
    agent.validate (fun c => decide (c ∈ file.contexts)) = .ok ()

structure Accepted (u : CaseTables) (text : F32 → String) (file : ConfigFile) : Prop where
  llm : file.llm = none
  proxy : file.proxy.validate u text = .ok ()
  rooted : (∃ id, id ∈ file.contexts) → file.Rooted u

variable {u : CaseTables} {text : F32 → String} {file : ConfigFile}

theorem resolveContexts_eq_ok_iff {resolved : List ResolvedContext} :
    file.resolveContexts = .ok resolved ↔
      List.Forall₂ (fun c r => file.resolveContext c.1 c.2 = .ok r) file.contexts.entries
        resolved :=
  Checks.mapM_eq_ok_iff

theorem resolved_valid_iff :
    (∃ resolved, file.resolveContexts = .ok resolved ∧ ∀ r ∈ resolved, r.validate u = .ok ()) ↔
      ∀ id ctx, file.contexts.lookup id = some ctx →
        ∃ r, file.resolveContext id ctx = .ok r ∧ r.validate u = .ok () := by
  simp only [resolveContexts_eq_ok_iff]
  rw [exists_forall₂_iff]
  exact forall_entries_iff file.contexts fun id ctx =>
    ∃ r, file.resolveContext id ctx = .ok r ∧ r.validate u = .ok ()

theorem default_iff (file : ConfigFile) :
    file.defaultContexts.length ≠ 0 ∧ file.defaultContexts.length ≤ 1 ↔
      ∃ id ctx, file.contexts.lookup id = some ctx ∧ ctx.default = some true ∧
        ∀ id' ctx', file.contexts.lookup id' = some ctx' → ctx'.default = some true → id' = id := by
  have hmem (c : Sigma fun _ : String => NamedContextConfig) : c ∈ file.defaultContexts ↔
      file.contexts.lookup c.1 = some c.2 ∧ c.2.default = some true := by
    rw [defaultContexts, List.mem_filter, ← AList.mem_lookup_iff]
    cases c.2.default with
    | none => simp
    | some b => simp
  have hnodup : file.defaultContexts.Nodup := file.contexts.nodupKeys.nodup.filter _
  constructor
  · rintro ⟨hne, hle⟩
    obtain ⟨c, hc⟩ := List.length_eq_one_iff.mp (by omega : file.defaultContexts.length = 1)
    obtain ⟨hl, hdefault⟩ := (hmem c).mp (by rw [hc]; exact List.mem_singleton_self c)
    refine ⟨c.1, c.2, hl, hdefault, fun id' ctx' hl' hdefault' => ?_⟩
    have hin := (hmem ⟨id', ctx'⟩).mpr ⟨hl', hdefault'⟩
    rw [hc, List.mem_singleton] at hin
    rw [← hin]
  · rintro ⟨id, ctx, hl, hdefault, hunique⟩
    have hin := (hmem ⟨id, ctx⟩).mpr ⟨hl, hdefault⟩
    have hall : ∀ c ∈ file.defaultContexts, c = ⟨id, ctx⟩ := by
      rintro ⟨id', ctx'⟩ hc
      obtain ⟨hl', hdefault'⟩ := (hmem _).mp hc
      obtain rfl : id' = id := hunique id' ctx' hl' hdefault'
      obtain rfl : ctx' = ctx := Option.some.inj (hl'.symm.trans hl)
      rfl
    constructor
    · exact (List.length_pos_of_mem hin).ne'
    · have hsub : file.defaultContexts ⊆ [⟨id, ctx⟩] := fun c hc => by
        rw [hall c hc]
        exact List.mem_singleton_self _
      exact (hnodup.subperm hsub).length_le

theorem validateContextRooted_eq_ok_iff :
    file.validateContextRooted u = .ok () ↔ ((∃ id, id ∈ file.contexts) → file.Rooted u) := by
  rw [exists_mem_iff]
  unfold validateContextRooted
  cases hempty : file.contexts.entries.isEmpty with
  | true => simp [List.isEmpty_iff.mp hempty]
  | false =>
    have hne : file.contexts.entries ≠ [] := by
      rintro hnil
      rw [hnil] at hempty
      cases hempty
    have hnamed := forall_entries_iff file.upstreams fun name c => c.validate name = .ok ()
    have hnamed' := forall_entries_iff file.embedders fun name c => c.validate name = .ok ()
    simp only [if_neg, Bool.false_eq_true, bind_eq_ok_iff,
      @bind_result_eq_ok_iff String (List ResolvedContext), require_eq_ok_iff, forEach_eq_ok_iff,
      not_false_eq_true, ne_eq]
    constructor
    · rintro ⟨hupstreams, hsome, hone, hresources, hembedders, resolved, hok, hcontexts, hagents⟩ -
      exact ⟨(exists_mem_iff _).mpr hupstreams, file.default_iff.mp ⟨hsome, hone⟩,
        hnamed.mp hresources,
        hnamed'.mp hembedders,
        resolved_valid_iff.mp ⟨resolved, hok, hcontexts⟩, hagents⟩
    · intro h
      have hrooted := h hne
      obtain ⟨hsome, hone⟩ := file.default_iff.mpr hrooted.default
      obtain ⟨resolved, hok, hcontexts⟩ := resolved_valid_iff.mpr hrooted.contexts
      exact ⟨(exists_mem_iff _).mp hrooted.upstreams, hsome, hone,
        hnamed.mpr hrooted.resources,
        hnamed'.mpr hrooted.embedders,
        resolved, hok, hcontexts, hrooted.agents⟩

/-- `validate` accepts a file if and only if the file satisfies the conditions. -/
theorem validate_eq_ok_iff : file.validate u text = .ok () ↔ file.Accepted u text := by
  simp only [validate, bind_eq_ok_iff, require_eq_ok_iff, validateContextRooted_eq_ok_iff]
  constructor
  · rintro ⟨hllm, hproxy, hrooted⟩
    exact ⟨hllm, hproxy, hrooted⟩
  · rintro ⟨hllm, hproxy, hrooted⟩
    exact ⟨hllm, hproxy, hrooted⟩

end ConfigFile

theorem pooledEndpoints_eq (resolved : List ResolvedContext) :
    pooledEndpoints resolved =
      (firstSeen ResolvedUpstreamLeg.resourceId
        (resolved.flatMap ResolvedContext.legs)).map ResolvedUpstreamLeg.endpoint :=
  rfl

theorem mem_pooledEndpoints {resolved : List ResolvedContext} {endpoint : UpstreamEndpointConfig}
    (h : endpoint ∈ pooledEndpoints resolved) :
    ∃ ctx ∈ resolved, ∃ leg ∈ ctx.legs, leg.endpoint = endpoint := by
  rw [pooledEndpoints_eq, List.mem_map] at h
  obtain ⟨leg, hleg, rfl⟩ := h
  obtain ⟨ctx, hctx, hmem⟩ := List.mem_flatMap.mp (mem_of_mem_firstSeen hleg)
  exact ⟨ctx, hctx, leg, hmem, rfl⟩

theorem pooledEndpoints_ne_nil {resolved : List ResolvedContext} {ctx : ResolvedContext}
    (hctx : ctx ∈ resolved) (hlegs : ctx.legs ≠ []) : pooledEndpoints resolved ≠ [] := by
  rw [pooledEndpoints_eq, ne_eq, List.map_eq_nil_iff, firstSeen_eq_nil_iff, List.flatMap_eq_nil_iff]
  intro h
  exact hlegs (h ctx hctx)

/-- With a default context and an endpoint, this is what is projected. -/
theorem projectToProxy_eq (base : ProxyConfig) {resolved : List ResolvedContext}
    {ctx : ResolvedContext} (hfind : resolved.find? ResolvedContext.isDefault = some ctx)
    (hne : pooledEndpoints resolved ≠ []) :
    projectToProxy base resolved = .ok { base with
      scope := ctx.scope
      cascade := ctx.cascade
      federated := ctx.federated
      freshDurationSecs := ctx.cache.freshSecs <|> base.freshDurationSecs
      staleDurationSecs := ctx.cache.staleSecs <|> base.staleDurationSecs
      maxEntries := ctx.cache.maxEntries <|> base.maxEntries
      cache := { base.cache with
        maxMemoryMb := ctx.cache.maxMemoryMb <|> base.cache.maxMemoryMb
        evictionPolicy := ctx.cache.evictionPolicy <|> base.cache.evictionPolicy }
      upstreams := pooledEndpoints resolved
      upstreamUrl := none } := by
  have hnonempty : (pooledEndpoints resolved).isEmpty = false := by
    rw [List.isEmpty_eq_false_iff]
    exact hne
  unfold projectToProxy
  rw [hfind]
  simp [hnonempty]

theorem resolveLeg_eq_ok_iff {resourceId : String} {resource : UpstreamResourceConfig}
    {leg : ContextLegConfig} {resolved : ResolvedUpstreamLeg} :
    resolveLeg resourceId resource leg = .ok resolved ↔
      ∃ url, (leg.url <|> resource.url) = some url ∧
        (mergeLeg resourceId url resource leg).validate = .ok () ∧
        resolved = ⟨resourceId, mergeLeg resourceId url resource leg⟩ := by
  unfold resolveLeg
  cases hurl : leg.url <|> resource.url with
  | none => simp
  | some url =>
    cases hvalid : (mergeLeg resourceId url resource leg).validate with
    | error e => simp [hvalid, bind, Except.bind]
    | ok => simp [hvalid, bind, Except.bind, pure, Except.pure, eq_comm]

namespace ProxyConfig

theorem normalizeUpstreams_eq (c : ProxyConfig) :
    c.normalizeUpstreams = { c with upstreams := c.normalizeUpstreams.upstreams } := by
  unfold normalizeUpstreams
  split
  · split
    · rfl
    · rfl
  · rfl

end ProxyConfig

namespace ConfigFile

variable {u : CaseTables} {text : F32 → String} {file : ConfigFile}

theorem resolveLegOf_eq_ok_iff {id : String} {leg : ContextLegConfig}
    {resolved : ResolvedUpstreamLeg} :
    file.resolveLegOf id leg = .ok resolved ↔
      ∃ resource, file.upstreams.lookup leg.resourceRef = some resource ∧
        resolveLeg leg.resourceRef resource leg = .ok resolved := by
  unfold resolveLegOf
  cases file.upstreams.lookup leg.resourceRef with
  | none => simp
  | some resource => simp

theorem resolveContext_eq_ok_iff {id : String} {ctx : NamedContextConfig}
    {resolved : ResolvedContext} :
    file.resolveContext id ctx = .ok resolved ↔
      ∃ legs embedder, ctx.upstreams.mapM (file.resolveLegOf id) = .ok legs ∧
        ctx.embedder.mapM (file.resolveEmbedderOf id) = .ok embedder ∧
        resolved = ⟨id, ctx.default.getD false, ctx.description, legs, embedder, ctx.cache,
          ctx.scope, ctx.cascade, ctx.federated⟩ := by
  unfold resolveContext
  cases ctx.upstreams.mapM (file.resolveLegOf id) with
  | error e => simp [bind, Except.bind]
  | ok legs =>
    cases ctx.embedder.mapM (file.resolveEmbedderOf id) with
    | error e => simp [bind, Except.bind]
    | ok embedder => simp [bind, Except.bind, pure, Except.pure, eq_comm]

theorem leg_of_resolveContext {id : String} {ctx : NamedContextConfig} {resolved : ResolvedContext}
    (h : file.resolveContext id ctx = .ok resolved) {leg : ResolvedUpstreamLeg}
    (hleg : leg ∈ resolved.legs) :
    leg.endpoint.id = leg.resourceId ∧ leg.endpoint.validate = .ok () := by
  obtain ⟨legs, embedder, hlegs, -, rfl⟩ := resolveContext_eq_ok_iff.mp h
  obtain ⟨leg', -, hresolve⟩ := exists_item (mapM_eq_ok_iff.mp hlegs) hleg
  obtain ⟨resource, -, hmerge⟩ := resolveLegOf_eq_ok_iff.mp hresolve
  obtain ⟨url, -, hvalid, rfl⟩ := resolveLeg_eq_ok_iff.mp hmerge
  exact ⟨rfl, hvalid⟩

/-- What the server runs on then. -/
theorem effectiveProxy_eq {resolved : List ResolvedContext} {ctx : ResolvedContext}
    (hresolved : file.resolveContexts = .ok resolved)
    (hfind : resolved.find? ResolvedContext.isDefault = some ctx)
    (hne : pooledEndpoints resolved ≠ []) :
    file.effectiveProxy = .ok { file.proxy with
      listen := file.server.listen <|> file.proxy.listen
      httpListen := file.server.httpListen <|> file.proxy.httpListen
      scope := ctx.scope
      cascade := ctx.cascade
      federated := ctx.federated
      freshDurationSecs := ctx.cache.freshSecs <|> file.proxy.freshDurationSecs
      staleDurationSecs := ctx.cache.staleSecs <|> file.proxy.staleDurationSecs
      maxEntries := ctx.cache.maxEntries <|> file.proxy.maxEntries
      cache := { file.proxy.cache with
        maxMemoryMb := ctx.cache.maxMemoryMb <|> file.proxy.cache.maxMemoryMb
        evictionPolicy := ctx.cache.evictionPolicy <|> file.proxy.cache.evictionPolicy }
      upstreams := pooledEndpoints resolved
      upstreamUrl := none
      agents := file.contextAgents } := by
  unfold effectiveProxy
  rw [hresolved, ProxyConfig.normalizeUpstreams_eq]
  simp only [bind, Except.bind, pure, Except.pure, projectToProxy_eq _ hfind hne, listening,
    contextAgents]
  cases file.agents.isEmpty with
  | true => rfl
  | false => rfl

/-- The default context of an accepted file is the one that is projected. -/
theorem Rooted.find_default (h : file.Rooted u) {resolved : List ResolvedContext}
    (hresolved : file.resolveContexts = .ok resolved) {id : String} {ctx : NamedContextConfig}
    (hctx : file.contexts.lookup id = some ctx) (hdefault : ctx.default = some true) :
    ∃ r ∈ resolved, resolved.find? ResolvedContext.isDefault = some r ∧
      file.resolveContext id ctx = .ok r := by
  have hall := resolveContexts_eq_ok_iff.mp hresolved
  obtain ⟨r, hr, hresolve⟩ := exists_result hall (AList.mem_lookup_iff.mp hctx)
  refine ⟨r, hr, ?_, hresolve⟩
  have hrdefault : r.isDefault = true := by
    obtain ⟨legs, embedder, -, -, rfl⟩ := resolveContext_eq_ok_iff.mp hresolve
    simp [hdefault]
  obtain ⟨first, hfirst⟩ : ∃ first, resolved.find? ResolvedContext.isDefault = some first :=
    Option.isSome_iff_exists.mp (List.find?_isSome.mpr ⟨r, hr, hrdefault⟩)
  obtain ⟨⟨id', ctx'⟩, hentry, hresolve'⟩ := exists_item hall (List.mem_of_find?_eq_some hfirst)
  -- The first default context is the only one.
  have hdefault' : ctx'.default = some true := by
    have hset := List.find?_some hfirst
    obtain ⟨legs, embedder, -, -, rfl⟩ := resolveContext_eq_ok_iff.mp hresolve'
    cases hd : ctx'.default with
    | none => simp [hd] at hset
    | some b => simpa [hd] using hset
  have hctx' := AList.mem_lookup_iff.mpr hentry
  obtain ⟨only, octx, -, -, hunique⟩ := h.default
  obtain rfl : id' = id :=
    (hunique id' ctx' hctx' hdefault').trans (hunique id ctx hctx hdefault).symm
  obtain rfl : ctx' = ctx := Option.some.inj (hctx'.symm.trans hctx)
  rw [hfirst, ← Except.ok.inj (hresolve'.symm.trans hresolve)]

/-- What the projection takes over from the default context, and `validate` does not look at. -/
structure Unchecked (u : CaseTables) (ctx : NamedContextConfig) : Prop where
  fresh : ctx.cache.freshSecs ≠ some 0
  stale : ctx.cache.staleSecs ≠ some 0
  federated : ctx.federated.validate u = .ok ()
  policy : ProxyCacheConfig.validatePolicy ctx.cache.evictionPolicy = .ok ()

theorem duration_iff {own base : Option Nat} {message : String}
    (hbase : ∀ secs, base = some secs → require (secs ≠ 0) message = .ok ()) :
    (∀ secs, (own <|> base) = some secs → require (secs ≠ 0) message = .ok ()) ↔
      own ≠ some 0 := by
  cases own with
  | none => simpa using hbase
  | some secs => simp

theorem validatePolicy_or_iff {own base : Option String}
    (hbase : ProxyCacheConfig.validatePolicy base = .ok ()) :
    ProxyCacheConfig.validatePolicy (own <|> base) = .ok () ↔
      ProxyCacheConfig.validatePolicy own = .ok () := by
  cases own with
  | none => simpa [ProxyCacheConfig.validatePolicy] using hbase
  | some policy => simp

theorem validateUpstream_of_leg {id : String} {ctx : NamedContextConfig} {r : ResolvedContext}
    (hresolve : file.resolveContext id ctx = .ok r) (hvalid : r.validate u = .ok ())
    {leg : ResolvedUpstreamLeg} (hleg : leg ∈ r.legs) :
    ProxyConfig.validateUpstream leg.endpoint = .ok () := by
  obtain ⟨hid, hendpoint⟩ := leg_of_resolveContext hresolve hleg
  simp only [ResolvedContext.validate, bind_eq_ok_iff, forEach_eq_ok_iff] at hvalid
  have hchecked := hvalid.2.1 leg hleg
  simp only [ResolvedContext.validateLeg, bind_eq_ok_iff, ifSome_eq_ok_iff,
    require_eq_ok_iff] at hchecked
  simp only [ProxyConfig.validateUpstream, bind_eq_ok_iff, ifSome_eq_ok_iff, require_eq_ok_iff]
  rw [hid]
  exact ⟨hendpoint, hchecked⟩

/-- The projection of an accepted file with contexts passes validation if the default context
does in what `validate` does not look at. -/
theorem Rooted.effectiveProxy_valid_iff (h : file.Rooted u)
    (hproxy : file.proxy.validate u text = .ok ()) {id : String} {ctx : NamedContextConfig}
    (hctx : file.contexts.lookup id = some ctx) (hdefault : ctx.default = some true) :
    (∃ proxy, file.effectiveProxy = .ok proxy ∧ proxy.validate u text = .ok ()) ↔
      Unchecked u ctx := by
  obtain ⟨resolved, hresolved, hvalid⟩ := resolved_valid_iff.mpr h.contexts
  have hall := resolveContexts_eq_ok_iff.mp hresolved
  obtain ⟨r, hr, hfind, hresolve⟩ := h.find_default hresolved hctx hdefault
  have hrvalid := hvalid r hr
  simp only [ResolvedContext.validate, bind_eq_ok_iff, require_eq_ok_iff, mapError_eq_ok_iff,
    ifSome_eq_ok_iff] at hrvalid
  obtain ⟨hlegs, -, hscope, hmax⟩ := hrvalid
  rw [effectiveProxy_eq hresolved hfind (pooledEndpoints_ne_nil hr hlegs)]
  obtain ⟨legs, embedder, -, -, rfl⟩ := resolveContext_eq_ok_iff.mp hresolve
  have hpool (endpoint : UpstreamEndpointConfig) (hin : endpoint ∈ pooledEndpoints resolved) :
      ProxyConfig.validateUpstream endpoint = .ok () := by
    obtain ⟨r', hr', leg, hleg, rfl⟩ := mem_pooledEndpoints hin
    obtain ⟨c, -, hresolve'⟩ := exists_item hall hr'
    exact validateUpstream_of_leg hresolve' (hvalid r' hr') hleg
  simp only [ProxyConfig.validate, ProxyCacheConfig.validate, bind_eq_ok_iff, forEach_eq_ok_iff,
    ifSome_eq_ok_iff] at hproxy
  obtain ⟨-, hurl, htimeout, hentries, hconnections, hbacklog, hfresh, hstale, hrefresh, hdistill,
    -, -, hrate, hretry, ⟨hpolicy, hcache⟩, hlast⟩ := hproxy
  simp only [Except.ok.injEq, exists_eq_left', ProxyConfig.validate, ProxyCacheConfig.validate,
    bind_eq_ok_iff, forEach_eq_ok_iff, ifSome_eq_ok_iff, duration_iff hfresh,
    duration_iff hstale, duration_iff hentries, validatePolicy_or_iff hpolicy]
  constructor
  · rintro ⟨-, -, -, -, -, -, hf, hs, -, -, hfederated, -, -, -, ⟨hp, -⟩, -⟩
    exact ⟨hf, hs, hfederated, hp⟩
  · rintro ⟨hf, hs, hfederated, hp⟩
    exact ⟨hpool, by simp, htimeout, fun hzero => hmax 0 hzero rfl, hconnections, hbacklog, hf, hs,
      hrefresh, hdistill, hfederated, hscope, hrate, hretry, ⟨hp, hcache⟩, hlast⟩

/-- The server runs on a section that validation would accept if and only if the file has contexts
and the default one passes what `validate` does not look at. -/
theorem validation_survives_iff (h : file.validate u text = .ok ()) :
    (∃ proxy, file.effectiveProxy = .ok proxy ∧ proxy.validate u text = .ok ()) ↔
      (∃ id, id ∈ file.contexts) ∧ ∀ id ctx, file.contexts.lookup id = some ctx →
        ctx.default = some true → Unchecked u ctx := by
  obtain ⟨-, hproxy, hrooted⟩ := validate_eq_ok_iff.mp h
  by_cases hsome : ∃ id, id ∈ file.contexts
  · have hr := hrooted hsome
    obtain ⟨id, ctx, hctx, hdefault, hunique⟩ := hr.default
    rw [hr.effectiveProxy_valid_iff hproxy hctx hdefault]
    constructor
    · intro hunchecked
      refine ⟨hsome, fun id' ctx' hctx' hdefault' => ?_⟩
      obtain rfl := hunique id' ctx' hctx' hdefault'
      obtain rfl : ctx' = ctx := Option.some.inj (hctx'.symm.trans hctx)
      exact hunchecked
    · rintro ⟨-, hall⟩
      exact hall id ctx hctx hdefault
  · constructor
    · rintro ⟨proxy, hok, -⟩
      obtain ⟨resolved, hresolved, hne⟩ := resolveContexts_eq_ok_of_effectiveProxy hok
      obtain ⟨r, hr⟩ := List.exists_mem_of_ne_nil _ hne
      obtain ⟨c, hc, -⟩ := exists_item (resolveContexts_eq_ok_iff.mp hresolved) hr
      exact absurd ((exists_mem_iff _).mpr (List.ne_nil_of_mem hc)) hsome
    · rintro ⟨hsome', -⟩
      exact absurd hsome' hsome

def single (cache : ContextCacheConfig) : ConfigFile :=
  { ConfigFile.default with
    upstreams := (∅ : AList fun _ : String => UpstreamResourceConfig).insert "meili"
      { UpstreamResourceConfig.default with url := some "http://localhost:7700" }
    contexts := (∅ : AList fun _ : String => NamedContextConfig).insert "docs"
      { NamedContextConfig.blank with
        default := some true
        upstreams := [.to "meili"]
        cache := cache } }

theorem single_survives :
    ∃ proxy, (single .default).effectiveProxy = .ok proxy ∧
      proxy.validate CaseTables.ascii (fun _ => "") = .ok () := by
  refine (validation_survives_iff (by rfl)).mpr ⟨⟨"docs", by decide +kernel⟩, ?_⟩
  intro id ctx hctx _
  have hid : id ∈ (single .default).contexts := mem_of_lookup _ hctx
  obtain rfl : id = "docs" :=
    ((AList.mem_insert _).mp hid).resolve_right (AList.notMem_empty id)
  obtain rfl := Option.some.inj ((AList.lookup_insert _).symm.trans hctx)
  exact ⟨by decide, by decide, by rfl, by rfl⟩

/-- A context with a fresh duration of zero is accepted, and so is a file without contexts. The
server then runs on a section that validation rejects, or on none. -/
theorem rejected_values_projected :
    (single { ContextCacheConfig.default with freshSecs := some 0 }).validate CaseTables.ascii
      (fun _ => "") = .ok () ∧
    (∃ proxy,
      (single { ContextCacheConfig.default with freshSecs := some 0 }).effectiveProxy = .ok proxy ∧
      proxy.validate CaseTables.ascii (fun _ => "") =
        .error "proxy.fresh_duration_secs must be > 0") ∧
    ConfigFile.default.validate CaseTables.ascii (fun _ => "") = .ok () ∧
    ConfigFile.default.effectiveProxy = .error "project_to_proxy: no resolved contexts" := by
  refine ⟨by rfl, ⟨_, rfl, by rfl⟩, by rfl, by rfl⟩

end ConfigFile

end Conproxy
