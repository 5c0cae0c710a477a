import Conproxy.Lib.Checks
import Conproxy.Lib.Layering
import Conproxy.Cascade
import Conproxy.Pool.Connections

/-!
# The sections of the configuration file

The tables of `config/mod.rs` with the checks that a file has to pass and the rules by which the
table of a local file is put over that of the global one. Integers are natural numbers: no check
and no rule depends on their width. A check that writes a number with a fraction into its message
takes the text of the number from outside.
-/

namespace Conproxy

open Checks Layering

set_option autoImplicit false

/-- An `f64` has the values of an `f32`, kept exact. -/
abbrev F64 := F32

/-- `(0.0..=1.0).contains(&val)`. -/
def F32.inUnit : F32 → Bool
  | .finite value => 0 ≤ value && value ≤ 1
  | _ => false

/-! ## Search, embedding, web and warming -/

structure FederatedConfig where
  enabled : Option Bool
  minLocalResults : Option Nat
  minLocalConfidence : Option F32
  fallbackOnEmpty : Option Bool
  fallbackOnLowConfidence : Option Bool
  mergeMode : Option String
  maxMergedResults : Option Nat
deriving DecidableEq

namespace FederatedConfig

def default : FederatedConfig := ⟨none, none, none, none, none, none, none⟩

def mergeWith (c base : FederatedConfig) : FederatedConfig where
  enabled := c.enabled.or base.enabled
  minLocalResults := c.minLocalResults.or base.minLocalResults
  minLocalConfidence := c.minLocalConfidence.or base.minLocalConfidence
  fallbackOnEmpty := c.fallbackOnEmpty.or base.fallbackOnEmpty
  fallbackOnLowConfidence := c.fallbackOnLowConfidence.or base.fallbackOnLowConfidence
  mergeMode := c.mergeMode.or base.mergeMode
  maxMergedResults := c.maxMergedResults.or base.maxMergedResults

theorem overlay : Overlay mergeWith default where
  nothing_over _ := by simp [mergeWith, default]
  assoc _ _ _ := by simp [mergeWith, Option.or_assoc]

def mergeModes : List String :=
  ["local_only_fallback", "local_priority", "remote_priority", "interleave"]

def validate (u : CaseTables) (c : FederatedConfig) : Except String Unit := do
  ifSome c.minLocalConfidence fun val =>
    require (val.inUnit = true) "federated.min_local_confidence must be between 0.0 and 1.0"
  ifSome c.mergeMode fun mode =>
    require (mergeModes.contains (String.ofList (u.toLowercase mode.toList)) = true)
      ("federated.merge_mode '" ++ mode ++ "' invalid, expected one of: " ++
        ", ".intercalate mergeModes)
  ifSome c.maxMergedResults fun val =>
    require (val ≠ 0) "federated.max_merged_results must be > 0"
  ifSome c.minLocalResults fun val =>
    require (val ≠ 0) "federated.min_local_results must be > 0"

end FederatedConfig

structure SearchConfig where
  useHybrid : Option Bool
  defaultLimit : Option Nat
  autoIndexOnInstall : Option Bool
  federated : FederatedConfig
deriving DecidableEq

namespace SearchConfig

def default : SearchConfig := ⟨none, none, none, .default⟩

def mergeWith (c base : SearchConfig) : SearchConfig where
  useHybrid := c.useHybrid.or base.useHybrid
  defaultLimit := c.defaultLimit.or base.defaultLimit
  autoIndexOnInstall := c.autoIndexOnInstall.or base.autoIndexOnInstall
  federated := c.federated.mergeWith base.federated

theorem overlay : Overlay mergeWith default where
  nothing_over _ := by simp [mergeWith, default, FederatedConfig.overlay.nothing_over]
  assoc _ _ _ := by simp [mergeWith, Option.or_assoc, FederatedConfig.overlay.assoc]

end SearchConfig

structure EmbeddingConfig where
  modelPath : Option String
  tokenizerPath : Option String
  batchSize : Option Nat
  provider : Option String
  apiKey : Option String
  baseUrl : Option String
deriving DecidableEq

namespace EmbeddingConfig

def default : EmbeddingConfig := ⟨none, none, none, none, none, none⟩

def mergeWith (c base : EmbeddingConfig) : EmbeddingConfig where
  modelPath := c.modelPath.or base.modelPath
  tokenizerPath := c.tokenizerPath.or base.tokenizerPath
  batchSize := c.batchSize.or base.batchSize
  provider := c.provider.or base.provider
  apiKey := c.apiKey.or base.apiKey
  baseUrl := c.baseUrl.or base.baseUrl

theorem overlay : Overlay mergeWith default where
  nothing_over _ := by simp [mergeWith, default]
  assoc _ _ _ := by simp [mergeWith, Option.or_assoc]

end EmbeddingConfig

structure WebConfig where
  autoIndex : Option Bool
  contentDir : Option String
deriving DecidableEq

namespace WebConfig

def default : WebConfig := ⟨none, none⟩

def mergeWith (c base : WebConfig) : WebConfig where
  autoIndex := c.autoIndex.or base.autoIndex
  contentDir := c.contentDir.or base.contentDir

theorem overlay : Overlay mergeWith default where
  nothing_over _ := by simp [mergeWith, default]
  assoc _ _ _ := by simp [mergeWith, Option.or_assoc]

end WebConfig

/-- The table `[context]`: which files are kept warm. -/
structure ConfigFile.ContextConfig where
  paths : Option (List String)
  warmInterval : Option Nat
  warmLimit : Option Nat
deriving DecidableEq

namespace ConfigFile.ContextConfig

def default : ContextConfig := ⟨none, none, none⟩

def mergeWith (c base : ContextConfig) : ContextConfig where
  paths := c.paths.or base.paths
  warmInterval := c.warmInterval.or base.warmInterval
  warmLimit := c.warmLimit.or base.warmLimit

theorem overlay : Overlay mergeWith default where
  nothing_over _ := by simp [mergeWith, default]
  assoc _ _ _ := by simp [mergeWith, Option.or_assoc]

end ConfigFile.ContextConfig

structure PackageEntry where
  git : String
  tag : Option String
deriving DecidableEq

structure ServerConfig where
  listen : Option String
  httpListen : Option String
deriving DecidableEq

namespace ServerConfig

def default : ServerConfig := ⟨none, none⟩

def mergeWith (c base : ServerConfig) : ServerConfig where
  listen := c.listen.or base.listen
  httpListen := c.httpListen.or base.httpListen

theorem overlay : Overlay mergeWith default where
  nothing_over _ := by simp [mergeWith, default]
  assoc _ _ _ := by simp [mergeWith, Option.or_assoc]

end ServerConfig

namespace ProxyScopeConfig

def mergeWith (c base : ProxyScopeConfig) : ProxyScopeConfig where
  weightedPhrases := unlessEmpty c.weightedPhrases base.weightedPhrases
  seeds := unlessEmpty c.seeds base.seeds
  mode := c.mode.or base.mode
  minSeedSimilarity := c.minSeedSimilarity.or base.minSeedSimilarity
  seedWeight := c.seedWeight.or base.seedWeight
  queryPrefix := c.queryPrefix.or base.queryPrefix
  lexicalWeight := c.lexicalWeight.or base.lexicalWeight
  embedBand := c.embedBand.or base.embedBand

theorem overlay : Overlay mergeWith none where
  nothing_over _ := by simp [mergeWith, none, overlay_unlessEmpty.nothing_over]
  assoc _ _ _ := by simp [mergeWith, Option.or_assoc, overlay_unlessEmpty.assoc]

def modes : List String := ["filter", "rerank", "boost"]

/-- One entry of `weighted_phrases`, with its index. -/
def validatePhrase (phrase : WeightedPhrase × Nat) : Except String Unit := do
  let name := "scope.weighted_phrases[" ++ toString phrase.2 ++ "]"
  require (trim phrase.1.text.toList ≠ []) (name ++ ".text must be non-empty")
  require (phrase.1.weight.isFinite = true ∧ F32.lt phrase.1.weight F32.zero = false)
    (name ++ ".weight must be finite and >= 0")
  ifSome phrase.1.minSimilarity fun val =>
    require (val.inUnit = true) (name ++ ".min_similarity must be between 0.0 and 1.0")

def validate (u : CaseTables) (c : ProxyScopeConfig) : Except String Unit := do
  ifSome c.mode fun mode =>
    require (modes.contains (String.ofList (u.toLowercase mode.toList)) = true)
      ("scope.mode '" ++ mode ++ "' invalid, expected one of: " ++ ", ".intercalate modes)
  ifSome c.minSeedSimilarity fun val =>
    require (val.inUnit = true)
      "scope.min_similarity / min_seed_similarity must be between 0.0 and 1.0"
  ifSome c.seedWeight fun val =>
    require (val.inUnit = true) "scope.scope_weight / seed_weight must be between 0.0 and 1.0"
  ifSome c.lexicalWeight fun val =>
    require (val.inUnit = true) "scope.lexical_weight must be between 0.0 and 1.0"
  ifSome c.embedBand fun band => do
    require (band.1.inUnit = true ∧ band.2.inUnit = true)
      "scope.embed_band values must be between 0.0 and 1.0"
    require (F32.lt band.2 band.1 = false) "scope.embed_band lo must be <= hi"
  forEach c.weightedPhrases.zipIdx validatePhrase

end ProxyScopeConfig

structure PerUpstreamCacheConfig where
  enabled : Option Bool
  maxEntriesPerUpstream : Option Nat
deriving DecidableEq

namespace PerUpstreamCacheConfig

def default : PerUpstreamCacheConfig := ⟨none, none⟩

def validate (c : PerUpstreamCacheConfig) : Except String Unit :=
  ifSome c.maxEntriesPerUpstream fun val =>
    require (val ≠ 0) "cache.per_upstream.max_entries_per_upstream must be > 0"

end PerUpstreamCacheConfig

structure SemanticCacheSettingsConfig where
  enabled : Option Bool
  similarityThreshold : Option F32
  maxEntries : Option Nat
  allowUnsafeThreshold : Option Bool
deriving DecidableEq

def safeSimilarityThresholdFloor : F32 := .finite (85 / 100)

namespace SemanticCacheSettingsConfig

def default : SemanticCacheSettingsConfig := ⟨none, none, none, none⟩

def mergeWith (c base : SemanticCacheSettingsConfig) : SemanticCacheSettingsConfig where
  enabled := c.enabled.or base.enabled
  similarityThreshold := c.similarityThreshold.or base.similarityThreshold
  maxEntries := c.maxEntries.or base.maxEntries
  allowUnsafeThreshold := c.allowUnsafeThreshold.or base.allowUnsafeThreshold

theorem overlay : Overlay mergeWith default where
  nothing_over _ := by simp [mergeWith, default]
  assoc _ _ _ := by simp [mergeWith, Option.or_assoc]

def validate (text : F32 → String) (c : SemanticCacheSettingsConfig) : Except String Unit :=
  ifSome c.similarityThreshold fun t => do
    require (t.inUnit = true)
      ("cache.semantic.similarity_threshold must be in [0.0, 1.0], got " ++ text t)
    require (¬ (c.enabled.getD false = true ∧ F32.lt t safeSimilarityThresholdFloor = true ∧
        c.allowUnsafeThreshold.getD false = false))
      ("cache.semantic.similarity_threshold " ++ text t ++ " is below the safe floor 0.85. " ++
        "Below this, bench-hitrate-sem shows false-hit 34–88%. " ++
        "Set allow_unsafe_threshold = true to override (discouraged).")

end SemanticCacheSettingsConfig

structure ProxyCacheConfig where
  maxMemoryMb : Option Nat
  maxEntrySizeKb : Option Nat
  evictionPolicy : Option String
  errorTtl5xxSecs : Option Nat
  errorTtlTimeoutSecs : Option Nat
  errorTtlConnectionSecs : Option Nat
  normalizedMatching : Option Bool
  perUpstream : PerUpstreamCacheConfig
  semantic : SemanticCacheSettingsConfig
deriving DecidableEq

namespace ProxyCacheConfig

def default : ProxyCacheConfig := ⟨none, none, none, none, none, none, none, .default, .default⟩

/-- The limits per upstream are merged here, field by field. -/
def mergeWith (c base : ProxyCacheConfig) : ProxyCacheConfig where
  maxMemoryMb := c.maxMemoryMb.or base.maxMemoryMb
  maxEntrySizeKb := c.maxEntrySizeKb.or base.maxEntrySizeKb
  evictionPolicy := c.evictionPolicy.or base.evictionPolicy
  errorTtl5xxSecs := c.errorTtl5xxSecs.or base.errorTtl5xxSecs
  errorTtlTimeoutSecs := c.errorTtlTimeoutSecs.or base.errorTtlTimeoutSecs
  errorTtlConnectionSecs := c.errorTtlConnectionSecs.or base.errorTtlConnectionSecs
  normalizedMatching := c.normalizedMatching.or base.normalizedMatching
  perUpstream :=
    ⟨c.perUpstream.enabled.or base.perUpstream.enabled,
      c.perUpstream.maxEntriesPerUpstream.or base.perUpstream.maxEntriesPerUpstream⟩
  semantic := c.semantic.mergeWith base.semantic

theorem overlay : Overlay mergeWith default where
  nothing_over _ := by
    simp [mergeWith, default, PerUpstreamCacheConfig.default,
      SemanticCacheSettingsConfig.overlay.nothing_over]
  assoc _ _ _ := by simp [mergeWith, Option.or_assoc, SemanticCacheSettingsConfig.overlay.assoc]

def evictionPolicies : List String := ["lru", "lfu", "ttl_first"]

def validatePolicy (policy : Option String) : Except String Unit :=
  ifSome policy fun policy =>
    require (evictionPolicies.contains policy = true)
      ("cache.eviction_policy '" ++ policy ++ "' invalid, expected one of: " ++
        ", ".intercalate evictionPolicies)

def validate (text : F32 → String) (c : ProxyCacheConfig) : Except String Unit := do
  validatePolicy c.evictionPolicy
  ifSome c.maxEntrySizeKb fun val => require (val ≠ 0) "cache.max_entry_size_kb must be > 0"
  c.perUpstream.validate
  c.semantic.validate text

end ProxyCacheConfig

structure DistillConfig where
  outputDir : Option String
  postProcessCmd : Option String
  format : Option String
  includeStale : Option Bool
deriving DecidableEq

namespace DistillConfig

def default : DistillConfig := ⟨none, none, none, none⟩

def mergeWith (c base : DistillConfig) : DistillConfig where
  outputDir := c.outputDir.or base.outputDir
  postProcessCmd := c.postProcessCmd.or base.postProcessCmd
  format := c.format.or base.format
  includeStale := c.includeStale.or base.includeStale

theorem overlay : Overlay mergeWith default where
  nothing_over _ := by simp [mergeWith, default]
  assoc _ _ _ := by simp [mergeWith, Option.or_assoc]

def validate (c : DistillConfig) : Except String Unit :=
  ifSome c.format fun fmt =>
    require (["md", "json", "both"].contains fmt = true)
      ("proxy.distill.format must be 'md', 'json', or 'both', got '" ++ fmt ++ "'")

end DistillConfig

structure ProxyRateLimitConfig where
  enabled : Option Bool
  requestsPerSecond : Option Nat
  burstSize : Option Nat
deriving DecidableEq

namespace ProxyRateLimitConfig

def default : ProxyRateLimitConfig := ⟨none, none, none⟩

def mergeWith (c base : ProxyRateLimitConfig) : ProxyRateLimitConfig where
  enabled := c.enabled.or base.enabled
  requestsPerSecond := c.requestsPerSecond.or base.requestsPerSecond
  burstSize := c.burstSize.or base.burstSize

theorem overlay : Overlay mergeWith default where
  nothing_over _ := by simp [mergeWith, default]
  assoc _ _ _ := by simp [mergeWith, Option.or_assoc]

def validate (c : ProxyRateLimitConfig) : Except String Unit := do
  ifSome c.requestsPerSecond fun val =>
    require (val ≠ 0) "rate_limit.requests_per_second must be > 0"
  ifSome c.burstSize fun val => require (val ≠ 0) "rate_limit.burst_size must be > 0"

end ProxyRateLimitConfig

structure ProxyRetryConfig where
  enabled : Option Bool
  maxRetries : Option Nat
  initialDelayMs : Option Nat
  maxDelayMs : Option Nat
  backoffMultiplier : Option F64
  onNetworkError : Option Bool
  onTimeout : Option Bool
  onServerError : Option Bool
  onRateLimited : Option Bool
deriving DecidableEq

namespace ProxyRetryConfig

def default : ProxyRetryConfig := ⟨none, none, none, none, none, none, none, none, none⟩

def mergeWith (c base : ProxyRetryConfig) : ProxyRetryConfig where
  enabled := c.enabled.or base.enabled
  maxRetries := c.maxRetries.or base.maxRetries
  initialDelayMs := c.initialDelayMs.or base.initialDelayMs
  maxDelayMs := c.maxDelayMs.or base.maxDelayMs
  backoffMultiplier := c.backoffMultiplier.or base.backoffMultiplier
  onNetworkError := c.onNetworkError.or base.onNetworkError
  onTimeout := c.onTimeout.or base.onTimeout
  onServerError := c.onServerError.or base.onServerError
  onRateLimited := c.onRateLimited.or base.onRateLimited

theorem overlay : Overlay mergeWith default where
  nothing_over _ := by simp [mergeWith, default]
  assoc _ _ _ := by simp [mergeWith, Option.or_assoc]

def validate (c : ProxyRetryConfig) : Except String Unit := do
  ifSome c.maxDelayMs fun max => do
    require (max ≠ 0) "retry.max_delay_ms must be > 0"
    ifSome c.initialDelayMs fun initial =>
      require (initial ≤ max) "retry.max_delay_ms must be >= retry.initial_delay_ms"
  ifSome c.backoffMultiplier fun val =>
    require (F32.lt val F32.one = false) "retry.backoff_multiplier must be >= 1.0"

end ProxyRetryConfig

structure AdvancedSecurityConfig where
  enabled : Option Bool
  signatureAlgorithm : Option String
  tlsPinning : Option Bool
  replayDetection : Option Bool
  replayWindowSeconds : Option Nat
deriving DecidableEq

namespace AdvancedSecurityConfig

def default : AdvancedSecurityConfig := ⟨none, none, none, none, none⟩

def mergeWith (c base : AdvancedSecurityConfig) : AdvancedSecurityConfig where
  enabled := c.enabled.or base.enabled
  signatureAlgorithm := c.signatureAlgorithm.or base.signatureAlgorithm
  tlsPinning := c.tlsPinning.or base.tlsPinning
  replayDetection := c.replayDetection.or base.replayDetection
  replayWindowSeconds := c.replayWindowSeconds.or base.replayWindowSeconds

theorem overlay : Overlay mergeWith default where
  nothing_over _ := by simp [mergeWith, default]
  assoc _ _ _ := by simp [mergeWith, Option.or_assoc]

def signatureAlgorithms : List String := ["hmac-sha256", "blake3"]

def validate (c : AdvancedSecurityConfig) : Except String Unit := do
  ifSome c.signatureAlgorithm fun sig =>
    require (signatureAlgorithms.contains sig = true)
      ("advanced.signature_algorithm '" ++ sig ++ "' invalid, expected one of: " ++
        ", ".intercalate signatureAlgorithms)
  ifSome c.replayWindowSeconds fun val =>
    require (val ≠ 0) "advanced.replay_window_seconds must be > 0"

end AdvancedSecurityConfig

structure SecurityConfig where
  apiKey : Option String
  rateLimit : ProxyRateLimitConfig
  advanced : AdvancedSecurityConfig
deriving DecidableEq

namespace SecurityConfig

def default : SecurityConfig := ⟨none, .default, .default⟩

def mergeWith (c base : SecurityConfig) : SecurityConfig where
  apiKey := c.apiKey.or base.apiKey
  rateLimit := c.rateLimit.mergeWith base.rateLimit
  advanced := c.advanced.mergeWith base.advanced

theorem overlay : Overlay mergeWith default where
  nothing_over _ := by
    simp [mergeWith, default, ProxyRateLimitConfig.overlay.nothing_over,
      AdvancedSecurityConfig.overlay.nothing_over]
  assoc _ _ _ := by
    simp [mergeWith, Option.or_assoc, ProxyRateLimitConfig.overlay.assoc,
      AdvancedSecurityConfig.overlay.assoc]

/-- The rate limit of this table is not checked. -/
def validate (c : SecurityConfig) : Except String Unit := do
  ifSome c.apiKey fun key => require (key ≠ "") "security.api_key must not be empty"
  c.advanced.validate

end SecurityConfig

structure ProxyCircuitBreakerConfig where
  failureThreshold : Nat
  successThreshold : Nat
  openDurationSecs : Nat
  failureWindowSecs : Nat
deriving DecidableEq

namespace ProxyCircuitBreakerConfig

def default : ProxyCircuitBreakerConfig := ⟨25, 2, 30, 60⟩

def validate (c : ProxyCircuitBreakerConfig) : Except String Unit := do
  require (c.failureThreshold ≠ 0) "circuit_breaker.failure_threshold must be > 0"
  require (c.successThreshold ≠ 0) "circuit_breaker.success_threshold must be > 0"
  require (c.openDurationSecs ≠ 0) "circuit_breaker.open_duration_secs must be > 0"
  require (c.failureWindowSecs ≠ 0) "circuit_breaker.failure_window_secs must be > 0"

end ProxyCircuitBreakerConfig

def ConnectionPoolConfig.default : ConnectionPoolConfig := ⟨100, 500, 30000⟩

structure CdcConfig where
  enabled : Option Bool
  bufferSize : Option Nat
deriving DecidableEq

namespace CdcConfig

def default : CdcConfig := ⟨none, none⟩

def mergeWith (c base : CdcConfig) : CdcConfig where
  enabled := c.enabled.or base.enabled
  bufferSize := c.bufferSize.or base.bufferSize

theorem overlay : Overlay mergeWith default where
  nothing_over _ := by simp [mergeWith, default]
  assoc _ _ _ := by simp [mergeWith, Option.or_assoc]

end CdcConfig

structure PeerConfig where
  enabled : Option Bool
  nodeId : Option String
  peers : List String
  reconnectIntervalMs : Option Nat
  fetchWaitTimeoutMs : Option Nat
  snapshotOnJoin : Option Bool
  readyThreshold : Option F64
  snapshotBatchSize : Option Nat
  sharedSecret : Option String
deriving DecidableEq

namespace PeerConfig

def default : PeerConfig := ⟨none, none, [], none, none, none, none, none, none⟩

def mergeWith (c base : PeerConfig) : PeerConfig where
  enabled := c.enabled.or base.enabled
  nodeId := c.nodeId.or base.nodeId
  peers := unlessEmpty c.peers base.peers
  reconnectIntervalMs := c.reconnectIntervalMs.or base.reconnectIntervalMs
  fetchWaitTimeoutMs := c.fetchWaitTimeoutMs.or base.fetchWaitTimeoutMs
  snapshotOnJoin := c.snapshotOnJoin.or base.snapshotOnJoin
  readyThreshold := c.readyThreshold.or base.readyThreshold
  snapshotBatchSize := c.snapshotBatchSize.or base.snapshotBatchSize
  sharedSecret := c.sharedSecret.or base.sharedSecret

theorem overlay : Overlay mergeWith default where
  nothing_over _ := by simp [mergeWith, default, overlay_unlessEmpty.nothing_over]
  assoc _ _ _ := by simp [mergeWith, Option.or_assoc, overlay_unlessEmpty.assoc]

end PeerConfig

structure SocketTuningConfig where
  tcpNodelay : Bool
  tcpKeepaliveSecs : Nat
  tcpKeepaliveInterval : Nat
  tcpKeepaliveProbes : Nat
  listenBacklog : Nat
  sendBufferSize : Option Nat
  recvBufferSize : Option Nat
  deferAcceptSecs : Int
  userTimeoutMs : Nat
  reusePort : Bool
  upstreamPoolIdleTimeoutSecs : Nat
  upstreamPoolMaxIdle : Nat
deriving DecidableEq

namespace SocketTuningConfig

def default : SocketTuningConfig := ⟨true, 60, 15, 5, 4096, none, none, 5, 30000, true, 90, 32⟩

/-- The local table replaces that of the base, whatever it says. -/
def mergeWith (c _base : SocketTuningConfig) : SocketTuningConfig := c

end SocketTuningConfig

structure WebUiConfig where
  enabled : Bool
deriving DecidableEq

namespace WebUiConfig

def default : WebUiConfig := ⟨false⟩

def mergeWith (c base : WebUiConfig) : WebUiConfig := ⟨c.enabled || base.enabled⟩

theorem overlay : Overlay mergeWith default where
  nothing_over _ := by simp [mergeWith, default]
  assoc _ _ _ := by simp [mergeWith, Bool.or_assoc]

end WebUiConfig

end Conproxy
