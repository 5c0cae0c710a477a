import Conproxy.Config

/-!
# Configuration layers

`ConfigFile::merge_with` and `ProxyConfig::merge_with`: a local file over the global one. Every
table is layered by a rule that takes the global value where the local file says nothing and does
not depend on the grouping, but for four tables of the proxy section that are copied from the
local file, and the packages and contexts, which a local file replaces as a whole.
-/

namespace Conproxy

open Layering

set_option autoImplicit false

namespace ProxyConfig

def mergeWith (c base : ProxyConfig) : ProxyConfig where
  listen := c.listen.or base.listen
  freshDurationSecs := c.freshDurationSecs.or base.freshDurationSecs
  staleDurationSecs := c.staleDurationSecs.or base.staleDurationSecs
  maxEntries := c.maxEntries.or base.maxEntries
  upstreamUrl := c.upstreamUrl.or base.upstreamUrl
  upstreamTimeoutSecs := c.upstreamTimeoutSecs.or base.upstreamTimeoutSecs
  ttlJitterPercent := c.ttlJitterPercent.or base.ttlJitterPercent
  refreshIntervalSecs := c.refreshIntervalSecs.or base.refreshIntervalSecs
  scope := c.scope.mergeWith base.scope
  cache := c.cache.mergeWith base.cache
  distill := c.distill.mergeWith base.distill
  apiKey := c.apiKey.or base.apiKey
  rateLimit := c.rateLimit.mergeWith base.rateLimit
  retry := c.retry.mergeWith base.retry
  upstreams := unlessEmpty c.upstreams base.upstreams
  federated := c.federated.mergeWith base.federated
  security := c.security.mergeWith base.security
  cascade := c.cascade
  pool := c.pool
  circuitBreaker := c.circuitBreaker
  agents := unlessEmpty c.agents base.agents
  httpListen := c.httpListen.or base.httpListen
  cdc := c.cdc.mergeWith base.cdc
  peer := c.peer.mergeWith base.peer
  socketTuning := c.socketTuning.mergeWith base.socketTuning
  shutdownTimeoutSecs := c.shutdownTimeoutSecs.or base.shutdownTimeoutSecs
  maxGlobalConnections := c.maxGlobalConnections.or base.maxGlobalConnections
  webUi := c.webUi.mergeWith base.webUi

/-- The section without the tables that are copied. -/
def layered (c : ProxyConfig) : ProxyConfig :=
  { c with
    cascade := .default
    pool := .default
    circuitBreaker := .default
    socketTuning := .default }

theorem layered_mergeWith_of_silent {c : ProxyConfig} (base : ProxyConfig)
    (h : c.layered = default) : (c.mergeWith base).layered = base.layered := by
  have hmerge : (c.mergeWith base).layered = (c.layered.mergeWith base).layered := rfl
  rw [hmerge, h]
  simp [layered, mergeWith, default, ProxyScopeConfig.overlay.nothing_over,
    ProxyCacheConfig.overlay.nothing_over, DistillConfig.overlay.nothing_over,
    ProxyRateLimitConfig.overlay.nothing_over, ProxyRetryConfig.overlay.nothing_over,
    FederatedConfig.overlay.nothing_over, SecurityConfig.overlay.nothing_over,
    CdcConfig.overlay.nothing_over, PeerConfig.overlay.nothing_over,
    WebUiConfig.overlay.nothing_over, overlay_unlessEmpty.nothing_over]

theorem mergeWith_assoc (a b c : ProxyConfig) :
    (a.mergeWith b).mergeWith c = a.mergeWith (b.mergeWith c) := by
  simp [mergeWith, SocketTuningConfig.mergeWith, Option.or_assoc, ProxyScopeConfig.overlay.assoc,
    ProxyCacheConfig.overlay.assoc, DistillConfig.overlay.assoc,
    ProxyRateLimitConfig.overlay.assoc, ProxyRetryConfig.overlay.assoc,
    FederatedConfig.overlay.assoc, SecurityConfig.overlay.assoc, CdcConfig.overlay.assoc,
    PeerConfig.overlay.assoc, WebUiConfig.overlay.assoc, overlay_unlessEmpty.assoc]

end ProxyConfig

namespace ConfigFile

/-- `merge_with`: the other file is the local one. -/
def mergeWith (file other : ConfigFile) : ConfigFile where
  llm := none
  packages := replaceUnlessEmpty other.packages file.packages
  registries := extend file.registries other.registries
  search := other.search.mergeWith file.search
  embedding := other.embedding.mergeWith file.embedding
  web := other.web.mergeWith file.web
  proxy := other.proxy.mergeWith file.proxy
  context := other.context.mergeWith file.context
  server := other.server.mergeWith file.server
  upstreams := extend file.upstreams other.upstreams
  embedders := extend file.embedders other.embedders
  contexts := replaceUnlessEmpty other.contexts file.contexts
  agents := unlessEmpty other.agents file.agents

/-- The same file, whatever the order in which its maps iterate. -/
structure Same (file file' : ConfigFile) : Prop where
  llm : file.llm = file'.llm
  packages : ∀ name, file.packages.lookup name = file'.packages.lookup name
  registries : ∀ name, file.registries.lookup name = file'.registries.lookup name
  search : file.search = file'.search
  embedding : file.embedding = file'.embedding
  web : file.web = file'.web
  proxy : file.proxy = file'.proxy
  context : file.context = file'.context
  server : file.server = file'.server
  upstreams : ∀ name, file.upstreams.lookup name = file'.upstreams.lookup name
  embedders : ∀ name, file.embedders.lookup name = file'.embedders.lookup name
  contexts : ∀ name, file.contexts.lookup name = file'.contexts.lookup name
  agents : file.agents = file'.agents

theorem Same.refl (file : ConfigFile) : Same file file :=
  ⟨rfl, fun _ => rfl, fun _ => rfl, rfl, rfl, rfl, rfl, rfl, rfl, fun _ => rfl, fun _ => rfl,
    fun _ => rfl, rfl⟩

theorem Same.symm {file file' : ConfigFile} (h : Same file file') : Same file' file where
  llm := h.llm.symm
  packages name := (h.packages name).symm
  registries name := (h.registries name).symm
  search := h.search.symm
  embedding := h.embedding.symm
  web := h.web.symm
  proxy := h.proxy.symm
  context := h.context.symm
  server := h.server.symm
  upstreams name := (h.upstreams name).symm
  embedders name := (h.embedders name).symm
  contexts name := (h.contexts name).symm
  agents := h.agents.symm

theorem mergeWith_assoc (a b c : ConfigFile) :
    Same ((a.mergeWith b).mergeWith c) (a.mergeWith (b.mergeWith c)) where
  llm := rfl
  packages _ := by simp only [mergeWith, overlay_replaceUnlessEmpty.assoc]
  registries := lookup_extend_assoc a.registries b.registries c.registries
  search := (SearchConfig.overlay.assoc c.search b.search a.search).symm
  embedding := (EmbeddingConfig.overlay.assoc c.embedding b.embedding a.embedding).symm
  web := (WebConfig.overlay.assoc c.web b.web a.web).symm
  proxy := (ProxyConfig.mergeWith_assoc c.proxy b.proxy a.proxy).symm
  context := (ContextConfig.overlay.assoc c.context b.context a.context).symm
  server := (ServerConfig.overlay.assoc c.server b.server a.server).symm
  upstreams := lookup_extend_assoc a.upstreams b.upstreams c.upstreams
  embedders := lookup_extend_assoc a.embedders b.embedders c.embedders
  contexts _ := by simp only [mergeWith, overlay_replaceUnlessEmpty.assoc]
  agents := (overlay_unlessEmpty.assoc c.agents b.agents a.agents).symm

/-- The file without the tables that are copied and the removed one. -/
def layered (file : ConfigFile) : ConfigFile :=
  { file with llm := none, proxy := file.proxy.layered }

theorem layered_mergeWith_default (file : ConfigFile) :
    (file.mergeWith .default).layered = file.layered := by
  have hproxy := ProxyConfig.layered_mergeWith_of_silent (c := .default) file.proxy rfl
  simp only [layered, mergeWith, default, hproxy, extend_empty,
    SearchConfig.overlay.nothing_over, EmbeddingConfig.overlay.nothing_over,
    WebConfig.overlay.nothing_over, ContextConfig.overlay.nothing_over,
    ServerConfig.overlay.nothing_over, overlay_replaceUnlessEmpty.nothing_over,
    overlay_unlessEmpty.nothing_over]

/-- A part of the file, and its value in a file that does not mention it. -/
structure Part where
  Value : Type
  get : ConfigFile → Value
  silent : Value

def proxySettings : List Part :=
  [⟨_, fun f => f.proxy.listen, none⟩, ⟨_, fun f => f.proxy.httpListen, none⟩,
    ⟨_, fun f => f.proxy.freshDurationSecs, none⟩, ⟨_, fun f => f.proxy.staleDurationSecs, none⟩,
    ⟨_, fun f => f.proxy.maxEntries, none⟩, ⟨_, fun f => f.proxy.upstreamUrl, none⟩,
    ⟨_, fun f => f.proxy.upstreamTimeoutSecs, none⟩, ⟨_, fun f => f.proxy.ttlJitterPercent, none⟩,
    ⟨_, fun f => f.proxy.refreshIntervalSecs, none⟩, ⟨_, fun f => f.proxy.apiKey, none⟩,
    ⟨_, fun f => f.proxy.shutdownTimeoutSecs, none⟩,
    ⟨_, fun f => f.proxy.maxGlobalConnections, none⟩]

/-- The tables under the proxy section, without those that are copied. -/
def proxyTables : List Part :=
  [⟨_, fun f => f.proxy.scope, .none⟩, ⟨_, fun f => f.proxy.cache, .default⟩,
    ⟨_, fun f => f.proxy.cache.semantic, .default⟩, ⟨_, fun f => f.proxy.distill, .default⟩,
    ⟨_, fun f => f.proxy.rateLimit, .default⟩, ⟨_, fun f => f.proxy.retry, .default⟩,
    ⟨_, fun f => f.proxy.upstreams, []⟩, ⟨_, fun f => f.proxy.federated, .default⟩,
    ⟨_, fun f => f.proxy.security, .default⟩,
    ⟨_, fun f => f.proxy.security.rateLimit, .default⟩,
    ⟨_, fun f => f.proxy.security.advanced, .default⟩, ⟨_, fun f => f.proxy.agents, []⟩,
    ⟨_, fun f => f.proxy.cdc, .default⟩, ⟨_, fun f => f.proxy.peer, .default⟩,
    ⟨_, fun f => f.proxy.webUi, .default⟩, ⟨_, fun f => f.proxy.cache.perUpstream, .default⟩,
    ⟨_, fun f => f.proxy.layered, .default⟩]

/-- The other tables. Registries, upstreams and embedders have one for each name. -/
def tables (name : String) : List Part :=
  [⟨_, fun f => f.packages, ∅⟩, ⟨_, fun f => f.registries.lookup name, none⟩,
    ⟨_, fun f => f.search, .default⟩, ⟨_, fun f => f.search.federated, .default⟩,
    ⟨_, fun f => f.embedding, .default⟩, ⟨_, fun f => f.web, .default⟩,
    ⟨_, fun f => f.context, .default⟩, ⟨_, fun f => f.server, .default⟩,
    ⟨_, fun f => f.upstreams.lookup name, none⟩, ⟨_, fun f => f.embedders.lookup name, none⟩,
    ⟨_, fun f => f.contexts, ∅⟩, ⟨_, fun f => f.agents, []⟩]

/-- A local file that does not mention the part leaves the global value. -/
def Part.Kept (part : Part) : Prop :=
  ∀ g l : ConfigFile, part.get l = part.silent → part.get (g.mergeWith l) = part.get g

theorem proxySettings_kept : ∀ part ∈ proxySettings, part.Kept := by
  simp only [proxySettings, List.forall_mem_cons]
  refine ⟨?_, ?_, ?_, ?_, ?_, ?_, ?_, ?_, ?_, ?_, ?_, ?_, by simp⟩ <;>
    exact fun g l hl => overlay_or.kept hl

theorem perUpstream_kept {own base : ProxyCacheConfig} (h : own.perUpstream = .default) :
    (own.mergeWith base).perUpstream = base.perUpstream := by
  simp [ProxyCacheConfig.mergeWith, h, PerUpstreamCacheConfig.default]

theorem proxyTables_kept : ∀ part ∈ proxyTables, part.Kept := by
  simp only [proxyTables, List.forall_mem_cons]
  exact ⟨fun g l h => ProxyScopeConfig.overlay.kept h, fun g l h => ProxyCacheConfig.overlay.kept h,
    fun g l h => SemanticCacheSettingsConfig.overlay.kept h,
    fun g l h => DistillConfig.overlay.kept h, fun g l h => ProxyRateLimitConfig.overlay.kept h,
    fun g l h => ProxyRetryConfig.overlay.kept h, fun g l h => overlay_unlessEmpty.kept h,
    fun g l h => FederatedConfig.overlay.kept h, fun g l h => SecurityConfig.overlay.kept h,
    fun g l h => ProxyRateLimitConfig.overlay.kept h,
    fun g l h => AdvancedSecurityConfig.overlay.kept h, fun g l h => overlay_unlessEmpty.kept h,
    fun g l h => CdcConfig.overlay.kept h, fun g l h => PeerConfig.overlay.kept h,
    fun g l h => WebUiConfig.overlay.kept h, fun g l h => perUpstream_kept h,
    fun g l h => ProxyConfig.layered_mergeWith_of_silent g.proxy h, by simp⟩

theorem tables_kept (name : String) : ∀ part ∈ tables name, part.Kept := by
  simp only [tables, List.forall_mem_cons]
  exact ⟨fun g l h => overlay_replaceUnlessEmpty.kept h, fun g l h => lookup_extend_of_none h,
    fun g l h => SearchConfig.overlay.kept h, fun g l h => FederatedConfig.overlay.kept h,
    fun g l h => EmbeddingConfig.overlay.kept h, fun g l h => WebConfig.overlay.kept h,
    fun g l h => ContextConfig.overlay.kept h, fun g l h => ServerConfig.overlay.kept h,
    fun g l h => lookup_extend_of_none h, fun g l h => lookup_extend_of_none h,
    fun g l h => overlay_replaceUnlessEmpty.kept h, fun g l h => overlay_unlessEmpty.kept h,
    by simp⟩

/-- An empty local file changes nothing, apart from the tables that are copied, and a local file
leaves every part that it does not mention. The socket tuning is always the local one, and a local
file with a package or a context replaces all of them. Three files can be grouped either way. -/
theorem configuration_layers (name : String) :
    (∀ g : ConfigFile, (g.mergeWith .default).layered = g.layered) ∧
    (∀ part ∈ proxySettings ++ proxyTables ++ tables name, part.Kept) ∧
    (∀ g l : ConfigFile, (g.mergeWith l).proxy.socketTuning = l.proxy.socketTuning ∧
      (l.packages ≠ ∅ → (g.mergeWith l).packages = l.packages) ∧
      (l.contexts ≠ ∅ → (g.mergeWith l).contexts = l.contexts)) ∧
    ∀ a b c : ConfigFile, Same ((a.mergeWith b).mergeWith c) (a.mergeWith (b.mergeWith c)) := by
  refine ⟨layered_mergeWith_default, fun part hpart => ?_, fun g l => ?_, mergeWith_assoc⟩
  · rcases List.mem_append.mp hpart with hpart | hpart
    · rcases List.mem_append.mp hpart with hpart | hpart
      · exact proxySettings_kept part hpart
      · exact proxyTables_kept part hpart
    · exact tables_kept name part hpart
  · exact ⟨rfl, replaceUnlessEmpty_of_ne, replaceUnlessEmpty_of_ne⟩

def tuned (context : String) : ConfigFile :=
  { ConfigFile.default with
    contexts := (∅ : AList fun _ : String => NamedContextConfig).insert context .blank
    proxy := { ProxyConfig.default with
      socketTuning := { SocketTuningConfig.default with reusePort := false } } }

/-- An empty local file resets the socket, and a local file with another context drops the one of
the global file. -/
theorem layers_lost :
    (tuned "docs").mergeWith .default ≠ tuned "docs" ∧
    (tuned "support").contexts.lookup "docs" = none ∧
    ((tuned "docs").mergeWith (tuned "support")).contexts.lookup "docs" ≠
      (tuned "docs").contexts.lookup "docs" := by
  refine ⟨fun hsame => ?_, by decide +kernel, by decide +kernel⟩
  have hreuse := congrArg (fun f => f.proxy.socketTuning.reusePort) hsame
  revert hreuse
  decide

end ConfigFile

end Conproxy
