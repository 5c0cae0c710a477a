import Conproxy.Layers

/-!
# The settings of the sections

What a section takes from its base, setting by setting. A section stays as it is over a base
exactly if each setting that the base makes is also made in the section. The tables that are copied
have no settings here, and a table with an entry for each name is taken by entries.
-/

namespace Conproxy

open Layering

set_option autoImplicit false

namespace FederatedConfig

def settings : List (FederatedConfig → Bool) :=
  [(·.enabled.isSome), (·.minLocalResults.isSome), (·.minLocalConfidence.isSome),
    (·.fallbackOnEmpty.isSome), (·.fallbackOnLowConfidence.isSome), (·.mergeMode.isSome),
    (·.maxMergedResults.isSome)]

theorem mergeWith_eq_self_iff {own base : FederatedConfig} :
    own.mergeWith base = own ↔ Covers settings base own := by
  cases own
  cases base
  simp [mergeWith, settings, or_eq_left_iff]

end FederatedConfig

namespace SearchConfig

def settings : List (SearchConfig → Bool) :=
  [(·.useHybrid.isSome), (·.defaultLimit.isSome), (·.autoIndexOnInstall.isSome)] ++
    FederatedConfig.settings.map (· ∘ federated)

theorem mergeWith_eq_self_iff {own base : SearchConfig} :
    own.mergeWith base = own ↔ Covers settings base own := by
  cases own
  cases base
  simp [mergeWith, settings, or_eq_left_iff, FederatedConfig.mergeWith_eq_self_iff]

end SearchConfig

namespace EmbeddingConfig

def settings : List (EmbeddingConfig → Bool) :=
  [(·.modelPath.isSome), (·.tokenizerPath.isSome), (·.batchSize.isSome), (·.provider.isSome),
    (·.apiKey.isSome), (·.baseUrl.isSome)]

theorem mergeWith_eq_self_iff {own base : EmbeddingConfig} :
    own.mergeWith base = own ↔ Covers settings base own := by
  cases own
  cases base
  simp [mergeWith, settings, or_eq_left_iff]

end EmbeddingConfig

namespace WebConfig

def settings : List (WebConfig → Bool) :=
  [(·.autoIndex.isSome), (·.contentDir.isSome)]

theorem mergeWith_eq_self_iff {own base : WebConfig} :
    own.mergeWith base = own ↔ Covers settings base own := by
  cases own
  cases base
  simp [mergeWith, settings, or_eq_left_iff]

end WebConfig

namespace ConfigFile.ContextConfig

def settings : List (ContextConfig → Bool) :=
  [(·.paths.isSome), (·.warmInterval.isSome), (·.warmLimit.isSome)]

theorem mergeWith_eq_self_iff {own base : ContextConfig} :
    own.mergeWith base = own ↔ Covers settings base own := by
  cases own
  cases base
  simp [mergeWith, settings, or_eq_left_iff]

end ConfigFile.ContextConfig

namespace ServerConfig

def settings : List (ServerConfig → Bool) :=
  [(·.listen.isSome), (·.httpListen.isSome)]

theorem mergeWith_eq_self_iff {own base : ServerConfig} :
    own.mergeWith base = own ↔ Covers settings base own := by
  cases own
  cases base
  simp [mergeWith, settings, or_eq_left_iff]

end ServerConfig

namespace ProxyScopeConfig

def settings : List (ProxyScopeConfig → Bool) :=
  [(!·.weightedPhrases.isEmpty), (!·.seeds.isEmpty), (·.mode.isSome), (·.minSeedSimilarity.isSome),
    (·.seedWeight.isSome), (·.queryPrefix.isSome), (·.lexicalWeight.isSome), (·.embedBand.isSome)]

theorem mergeWith_eq_self_iff {own base : ProxyScopeConfig} :
    own.mergeWith base = own ↔ Covers settings base own := by
  cases own
  cases base
  simp [mergeWith, settings, or_eq_left_iff, unlessEmpty_eq_left_iff]

end ProxyScopeConfig

namespace SemanticCacheSettingsConfig

def settings : List (SemanticCacheSettingsConfig → Bool) :=
  [(·.enabled.isSome), (·.similarityThreshold.isSome), (·.maxEntries.isSome),
    (·.allowUnsafeThreshold.isSome)]

theorem mergeWith_eq_self_iff {own base : SemanticCacheSettingsConfig} :
    own.mergeWith base = own ↔ Covers settings base own := by
  cases own
  cases base
  simp [mergeWith, settings, or_eq_left_iff]

end SemanticCacheSettingsConfig

namespace ProxyCacheConfig

def settings : List (ProxyCacheConfig → Bool) :=
  [(·.maxMemoryMb.isSome), (·.maxEntrySizeKb.isSome), (·.evictionPolicy.isSome),
    (·.errorTtl5xxSecs.isSome), (·.errorTtlTimeoutSecs.isSome), (·.errorTtlConnectionSecs.isSome),
    (·.normalizedMatching.isSome), (·.perUpstream.enabled.isSome),
    (·.perUpstream.maxEntriesPerUpstream.isSome)] ++
    SemanticCacheSettingsConfig.settings.map (· ∘ semantic)

theorem mergeWith_eq_self_iff {own base : ProxyCacheConfig} :
    own.mergeWith base = own ↔ Covers settings base own := by
  obtain ⟨_, _, _, _, _, _, _, ⟨_, _⟩, _⟩ := own
  obtain ⟨_, _, _, _, _, _, _, ⟨_, _⟩, _⟩ := base
  simp [mergeWith, settings, or_eq_left_iff, and_assoc,
    SemanticCacheSettingsConfig.mergeWith_eq_self_iff]

end ProxyCacheConfig

namespace DistillConfig

def settings : List (DistillConfig → Bool) :=
  [(·.outputDir.isSome), (·.postProcessCmd.isSome), (·.format.isSome), (·.includeStale.isSome)]

theorem mergeWith_eq_self_iff {own base : DistillConfig} :
    own.mergeWith base = own ↔ Covers settings base own := by
  cases own
  cases base
  simp [mergeWith, settings, or_eq_left_iff]

end DistillConfig

namespace ProxyRateLimitConfig

def settings : List (ProxyRateLimitConfig → Bool) :=
  [(·.enabled.isSome), (·.requestsPerSecond.isSome), (·.burstSize.isSome)]

theorem mergeWith_eq_self_iff {own base : ProxyRateLimitConfig} :
    own.mergeWith base = own ↔ Covers settings base own := by
  cases own
  cases base
  simp [mergeWith, settings, or_eq_left_iff]

end ProxyRateLimitConfig

namespace ProxyRetryConfig

def settings : List (ProxyRetryConfig → Bool) :=
  [(·.enabled.isSome), (·.maxRetries.isSome), (·.initialDelayMs.isSome), (·.maxDelayMs.isSome),
    (·.backoffMultiplier.isSome), (·.onNetworkError.isSome), (·.onTimeout.isSome),
    (·.onServerError.isSome), (·.onRateLimited.isSome)]

theorem mergeWith_eq_self_iff {own base : ProxyRetryConfig} :
    own.mergeWith base = own ↔ Covers settings base own := by
  cases own
  cases base
  simp [mergeWith, settings, or_eq_left_iff]

end ProxyRetryConfig

namespace AdvancedSecurityConfig

def settings : List (AdvancedSecurityConfig → Bool) :=
  [(·.enabled.isSome), (·.signatureAlgorithm.isSome), (·.tlsPinning.isSome),
    (·.replayDetection.isSome), (·.replayWindowSeconds.isSome)]

theorem mergeWith_eq_self_iff {own base : AdvancedSecurityConfig} :
    own.mergeWith base = own ↔ Covers settings base own := by
  cases own
  cases base
  simp [mergeWith, settings, or_eq_left_iff]

end AdvancedSecurityConfig

namespace SecurityConfig

def settings : List (SecurityConfig → Bool) :=
  [(·.apiKey.isSome)] ++
    ProxyRateLimitConfig.settings.map (· ∘ rateLimit) ++
    AdvancedSecurityConfig.settings.map (· ∘ advanced)

theorem mergeWith_eq_self_iff {own base : SecurityConfig} :
    own.mergeWith base = own ↔ Covers settings base own := by
  cases own
  cases base
  simp [mergeWith, settings, or_eq_left_iff, ProxyRateLimitConfig.mergeWith_eq_self_iff,
    AdvancedSecurityConfig.mergeWith_eq_self_iff]

end SecurityConfig

namespace CdcConfig

def settings : List (CdcConfig → Bool) :=
  [(·.enabled.isSome), (·.bufferSize.isSome)]

theorem mergeWith_eq_self_iff {own base : CdcConfig} :
    own.mergeWith base = own ↔ Covers settings base own := by
  cases own
  cases base
  simp [mergeWith, settings, or_eq_left_iff]

end CdcConfig

namespace PeerConfig

def settings : List (PeerConfig → Bool) :=
  [(·.enabled.isSome), (·.nodeId.isSome), (!·.peers.isEmpty), (·.reconnectIntervalMs.isSome),
    (·.fetchWaitTimeoutMs.isSome), (·.snapshotOnJoin.isSome), (·.readyThreshold.isSome),
    (·.snapshotBatchSize.isSome), (·.sharedSecret.isSome)]

theorem mergeWith_eq_self_iff {own base : PeerConfig} :
    own.mergeWith base = own ↔ Covers settings base own := by
  cases own
  cases base
  simp [mergeWith, settings, or_eq_left_iff, unlessEmpty_eq_left_iff]

end PeerConfig

namespace WebUiConfig

def settings : List (WebUiConfig → Bool) := [enabled]

theorem mergeWith_eq_self_iff {own base : WebUiConfig} :
    own.mergeWith base = own ↔ Covers settings base own := by
  cases own
  cases base
  simp [mergeWith, settings]

end WebUiConfig

namespace ProxyConfig

def settings : List (ProxyConfig → Bool) :=
  [(·.listen.isSome), (·.httpListen.isSome), (·.freshDurationSecs.isSome),
    (·.staleDurationSecs.isSome), (·.maxEntries.isSome), (·.upstreamUrl.isSome),
    (·.upstreamTimeoutSecs.isSome), (·.ttlJitterPercent.isSome), (·.refreshIntervalSecs.isSome)] ++
    ProxyScopeConfig.settings.map (· ∘ scope) ++
    ProxyCacheConfig.settings.map (· ∘ cache) ++
    DistillConfig.settings.map (· ∘ distill) ++
    [(·.apiKey.isSome)] ++
    ProxyRateLimitConfig.settings.map (· ∘ rateLimit) ++
    ProxyRetryConfig.settings.map (· ∘ retry) ++
    [(!·.upstreams.isEmpty)] ++
    FederatedConfig.settings.map (· ∘ federated) ++
    SecurityConfig.settings.map (· ∘ security) ++
    [(!·.agents.isEmpty)] ++
    CdcConfig.settings.map (· ∘ cdc) ++
    PeerConfig.settings.map (· ∘ peer) ++
    [(·.shutdownTimeoutSecs.isSome), (·.maxGlobalConnections.isSome)] ++
    WebUiConfig.settings.map (· ∘ webUi)

theorem mergeWith_eq_self_iff {own base : ProxyConfig} :
    own.mergeWith base = own ↔ Covers settings base own := by
  cases own
  cases base
  simp [mergeWith, settings, or_eq_left_iff, unlessEmpty_eq_left_iff, SocketTuningConfig.mergeWith,
    ProxyScopeConfig.mergeWith_eq_self_iff, ProxyCacheConfig.mergeWith_eq_self_iff,
    DistillConfig.mergeWith_eq_self_iff, ProxyRateLimitConfig.mergeWith_eq_self_iff,
    ProxyRetryConfig.mergeWith_eq_self_iff, FederatedConfig.mergeWith_eq_self_iff,
    SecurityConfig.mergeWith_eq_self_iff, CdcConfig.mergeWith_eq_self_iff,
    PeerConfig.mergeWith_eq_self_iff, WebUiConfig.mergeWith_eq_self_iff]

end ProxyConfig

end Conproxy
