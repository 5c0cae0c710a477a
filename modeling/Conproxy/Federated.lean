import Conproxy.Config
import Conproxy.Scope

/-!
# Federated search

`FederatedSearch` of `federated.rs`: whether the local results suffice, and how they are merged
with the remote ones.
-/

namespace Conproxy

set_option autoImplicit false

inductive MergeMode where
  | localOnlyFallback
  | localPriority
  | remotePriority
  | interleave
deriving DecidableEq

def MergeMode.parse (u : CaseTables) (text : String) : MergeMode :=
  let lower := String.ofList (u.toLowercase text.toList)
  if ["local_only_fallback", "localonly", "fallback"].contains lower then .localOnlyFallback
  else if ["local_priority", "local"].contains lower then .localPriority
  else if ["remote_priority", "remote"].contains lower then .remotePriority
  else if ["interleave", "blend", "merge"].contains lower then .interleave
  else .localOnlyFallback

structure FederatedSearchConfig where
  enabled : Bool
  minLocalResults : Nat
  minLocalConfidence : F32
  fallbackOnEmpty : Bool
  fallbackOnLowConfidence : Bool
  mergeMode : MergeMode
  maxMergedResults : Nat
deriving DecidableEq

def FederatedSearchConfig.fromConfig (u : CaseTables) (c : FederatedConfig) :
    FederatedSearchConfig where
  enabled := c.enabled.getD false
  minLocalResults := c.minLocalResults.getD 3
  minLocalConfidence := c.minLocalConfidence.getD (.finite (7 / 10))
  fallbackOnEmpty := c.fallbackOnEmpty.getD true
  fallbackOnLowConfidence := c.fallbackOnLowConfidence.getD true
  mergeMode := MergeMode.parse u (c.mergeMode.getD "local_only_fallback")
  maxMergedResults := c.maxMergedResults.getD 10

inductive FallbackDecision where
  | localSufficient
  | emptyLocal
  | belowMinResults
  | lowConfidence
  | alwaysRemote
deriving DecidableEq

inductive ResultSource where
  | fromLocal
  | fromRemote
deriving DecidableEq

structure FederatedResult where
  result : SearchResult
  source : ResultSource

structure FederatedStats where
  localCount : Nat
  remoteCount : Nat
  mergedCount : Nat
  duplicatesRemoved : Nat
  remoteQueried : Bool
  fallbackReason : Option String
  localLatencyMs : Nat
  remoteLatencyMs : Option Nat
deriving DecidableEq

/-- The results without those whose id came before, and how many these were. -/
def dropSeen : List String → List FederatedResult → List FederatedResult × Nat
  | _, [] => ([], 0)
  | seen, r :: rest =>
    if r.result.id ∈ seen then
      let later := dropSeen seen rest
      (later.1, later.2 + 1)
    else
      let later := dropSeen (r.result.id :: seen) rest
      (r :: later.1, later.2)

namespace FederatedSearchConfig

variable (f : FederatedSearchConfig)

def shouldQueryRemote (localResults : List SearchResult) : FallbackDecision :=
  if f.mergeMode = .interleave ∨ f.mergeMode = .remotePriority then .alwaysRemote
  else if localResults.isEmpty then
    if f.fallbackOnEmpty then .emptyLocal else .localSufficient
  else if localResults.length < f.minLocalResults then .belowMinResults
  else if f.fallbackOnLowConfidence ∧
      F32.lt ((localResults.map SearchResult.score).foldl F32.max F32.zero)
        f.minLocalConfidence then
    .lowConfidence
  else .localSufficient

/-- `merge_priority`: all of the primary results are kept, also those that share an id. -/
def mergePriority (primary secondary : List FederatedResult) : List FederatedResult × Nat :=
  let added := dropSeen (primary.map fun r => r.result.id) secondary
  (primary ++ added.1, added.2)

/-- `merge_interleave`. The sort is stable, and takes scores that do not compare as equal. -/
def mergeInterleave (localResults remoteResults : List FederatedResult) :
    List FederatedResult × Nat :=
  dropSeen []
    ((localResults ++ remoteResults).mergeSort fun a b => !F32.lt a.result.score b.result.score)

def merge (localResults remoteResults : List SearchResult) :
    List FederatedResult × FederatedStats :=
  let fromLocal := localResults.map fun r => (⟨r, .fromLocal⟩ : FederatedResult)
  let fromRemote := remoteResults.map fun r => (⟨r, .fromRemote⟩ : FederatedResult)
  let merged :=
    match f.mergeMode with
    | .localOnlyFallback => (if localResults.isEmpty then fromRemote else fromLocal, 0)
    | .localPriority => mergePriority fromLocal fromRemote
    | .remotePriority => mergePriority fromRemote fromLocal
    | .interleave => mergeInterleave fromLocal fromRemote
  let limited := merged.1.take f.maxMergedResults
  (limited,
    { localCount := localResults.length
      remoteCount := remoteResults.length
      mergedCount := limited.length
      duplicatesRemoved := merged.2
      remoteQueried := 0 < remoteResults.length
      fallbackReason := none
      localLatencyMs := 0
      remoteLatencyMs := none })

def mergeResponses (localResponse : QueryResponse) (remoteResponse : Option QueryResponse) :
    QueryResponse × FederatedStats :=
  let remoteLatency := remoteResponse.map QueryResponse.tookMs
  let merged := f.merge localResponse.results ((remoteResponse.map QueryResponse.results).getD [])
  let took := min (localResponse.tookMs + remoteLatency.getD 0) 18446744073709551615
  (⟨merged.1.map FederatedResult.result, .miss, took, none, none⟩,
    { merged.2 with
      localLatencyMs := localResponse.tookMs
      remoteLatencyMs := remoteLatency })

end FederatedSearchConfig

end Conproxy
