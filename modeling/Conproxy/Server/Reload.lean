import Conproxy.Adapter
import Conproxy.Circuit
import Conproxy.Context
import Conproxy.Federated
import Conproxy.Cache.Operations

/-!
# Reloading the configuration

`apply_reload` of `server/mod.rs`. It installs the contexts, changes the entry limit and the
two durations in place, then builds the upstreams, and commits the rest. A failed reload keeps
the observable state exactly if nothing before the failing step had anything to change.
-/

namespace Conproxy

open ContextManager

set_option autoImplicit false

def ProxyCircuitBreakerConfig.toCircuitBreakerConfig (c : ProxyCircuitBreakerConfig) :
    CircuitBreakerConfig :=
  ⟨c.failureThreshold, c.successThreshold, fromSecs c.openDurationSecs,
    fromSecs c.failureWindowSecs⟩

/-- Where the configuration comes from. A path that is not UTF-8 has no text. -/
inductive ReloadSource where
  | path (text : Option String) (display : String)
  | defaultLocations
deriving DecidableEq

/-- The parts of the running server that a reload reads or writes. -/
structure LiveState where
  reloadSource : ReloadSource
  contextManager : ContextManager
  cache : CacheStore
  upstreamPool : Option BuiltPool
  cascadeExecutor : Option CascadeExecutor
  upstream : Option UpstreamAdapter
  federatedSearch : FederatedSearchConfig
  circuitBreaker : CircuitBreakerConfig
  agentRegistry : Option AgentRegistry

structure ReloadSummary where
  sections : List String
  restartRequired : List String
deriving DecidableEq

inductive UpstreamBuild where
  | pool (pool : BuiltPool) (cascade : Option CascadeExecutor) (count : Nat)
  | single (adapter : UpstreamAdapter) (url : String)
  | none
deriving DecidableEq

/-- The configuration files: a parse with its validation may fail with a message. -/
structure ConfigFiles where
  loadFrom : String → Except String ConfigFile
  load : Except String ConfigFile

def ReloadSource.read (files : ConfigFiles) : ReloadSource → Except String ConfigFile
  | .path none display => .error ("config path is not valid UTF-8: " ++ display)
  | .path (some text) display =>
    (files.loadFrom text).mapError fun e => "Failed to parse config at " ++ display ++ ": " ++ e
  | .defaultLocations =>
    files.load.mapError fun e => "Failed to load config from default locations: " ++ e

namespace Backends

variable (b : Backends)

def buildPool (proxy : ProxyConfig) : Except String UpstreamBuild := do
  let pool ← (BuiltPool.new b proxy.upstreams .roundRobin).mapError
    fun e => "proxy.upstreams: failed to build pool: " ++ e
  let cascade := if proxy.cascade.enabled then some ⟨pool.pool, proxy.cascade⟩ else none
  return .pool pool cascade proxy.upstreams.length

def buildUpstream (proxy : ProxyConfig) : Except String UpstreamBuild :=
  if proxy.upstreams.isEmpty then
    match proxy.upstreamUrl with
    | some url => do
      let adapter ← (b.genericAdapter url (fromSecs proxy.upstreamTimeout)).mapError
        fun e => "proxy.upstreams: failed to build adapter: " ++ e
      return .single adapter url
    | none => .ok .none
  else b.buildPool proxy

end Backends

namespace LiveState

variable (u : CaseTables) (now : Nat)

def refreshContexts (s : LiveState) (file : ConfigFile) : LiveState × List String :=
  match file.resolveContexts with
  | .ok resolved =>
    if resolved.isEmpty then (s, [])
    else ({ s with contextManager := s.contextManager.installResolved u now resolved },
      ["contexts=" ++ toString resolved.length])
  | .error _ => (s, [])

def reloadMaxEntries (s : LiveState) (proxy : ProxyConfig) :
    Except String (LiveState × List String) :=
  if proxy.entryLimit = s.cache.maxEntries then .ok (s, [])
  else
    match s.cache.setMaxEntries proxy.entryLimit with
    | .ok cache =>
      .ok ({ s with cache := cache }, ["cache.max_entries=" ++ toString proxy.entryLimit])
    | .error e => .error ("cache.max_entries: " ++ e)

def reloadFreshDuration (s : LiveState) (proxy : ProxyConfig) : LiveState × List String :=
  if proxy.freshSecs = asSecs s.cache.freshDuration then (s, [])
  else ({ s with cache := s.cache.setFreshDuration (fromSecs proxy.freshSecs) },
    ["cache.fresh_duration_secs=" ++ toString proxy.freshSecs])

def reloadStaleDuration (s : LiveState) (proxy : ProxyConfig) : LiveState × List String :=
  if proxy.staleSecs = asSecs s.cache.staleDuration then (s, [])
  else ({ s with cache := s.cache.setStaleDuration (fromSecs proxy.staleSecs) },
    ["cache.stale_duration_secs=" ++ toString proxy.staleSecs])

def commitUpstream (s : LiveState) : UpstreamBuild → LiveState × List String
  | .pool pool cascade count =>
    ({ s with upstreamPool := some pool, upstream := none, cascadeExecutor := cascade },
      ["proxy.upstreams (" ++ toString count ++ " in pool)"] ++
        if cascade.isSome then ["proxy.cascade"] else [])
  | .single adapter url =>
    ({ s with upstream := some adapter, upstreamPool := none, cascadeExecutor := none },
      ["proxy.upstreams (single: " ++ url ++ ")"])
  | .none =>
    ({ s with upstreamPool := none, cascadeExecutor := none, upstream := none },
      ["proxy.upstreams (none)"])

/-- Without agents there is no registry, as at the start of the server. -/
def commitAgents (s : LiveState) (file : ConfigFile) (proxy : ProxyConfig) :
    LiveState × List String :=
  let agents := if file.agents.isEmpty then proxy.agents else file.agents
  if agents.isEmpty then
    ({ s with agentRegistry := none }, ["agents (none; auth disabled)"])
  else
    let registry := AgentRegistry.fromConfig agents
    ({ s with agentRegistry := some registry },
      ["agents (" ++ toString registry.agents.entries.length ++ " registered)"])

/-- The commit phase; no step of it fails. -/
def commit (s : LiveState) (file : ConfigFile) (proxy : ProxyConfig) (build : UpstreamBuild) :
    LiveState × List String :=
  let s := { s with federatedSearch := FederatedSearchConfig.fromConfig u proxy.federated }
  let upstream := s.commitUpstream build
  let s := { upstream.1 with
    circuitBreaker := file.proxy.circuitBreaker.toCircuitBreakerConfig }
  let agents := s.commitAgents file proxy
  (agents.1,
    ["proxy.federated (enabled=" ++ toString (proxy.federated.enabled.getD false) ++ ")"] ++
      upstream.2 ++ ["proxy.circuit_breaker"] ++ agents.2)

def restartRequired (proxy : ProxyConfig) : List String :=
  (if proxy.peer.enabled.getD false then ["proxy.peer (restart to apply)"] else []) ++
  (match proxy.apiKey with
    | some key => if key = "" then [] else ["proxy.api_key (auth key; restart to apply)"]
    | none => []) ++
  if proxy.rateLimit.enabled.getD false then ["proxy.rate_limit (restart to apply)"] else []

/-- The reload of a configuration that was loaded and projected. -/
def applyProxy (b : Backends) (s : LiveState) (file : ConfigFile) (proxy : ProxyConfig) :
    Except String ReloadSummary × LiveState :=
  let contexts := s.refreshContexts u now file
  match contexts.1.reloadMaxEntries proxy with
  | .error e => (.error e, contexts.1)
  | .ok limit =>
    let fresh := limit.1.reloadFreshDuration proxy
    let stale := fresh.1.reloadStaleDuration proxy
    match b.buildUpstream proxy with
    | .error e => (.error e, stale.1)
    | .ok build =>
      let committed := stale.1.commit u file proxy build
      let sections := contexts.2 ++ limit.2 ++ fresh.2 ++ stale.2 ++ committed.2
      (.ok ⟨if sections.isEmpty then ["config.parsed (no reloadable changes detected)"]
        else sections, restartRequired proxy⟩, committed.1)

def applyReload (files : ConfigFiles) (b : Backends) (s : LiveState) :
    Except String ReloadSummary × LiveState :=
  match s.reloadSource.read files with
  | .error e => (.error e, s)
  | .ok file =>
    match file.effectiveProxy with
    | .error e => (.error ("config project: " ++ e), s)
    | .ok proxy => s.applyProxy u now b file proxy

@[ext]
structure Observable where
  policies : String → Option ContextPolicy
  current : String
  maxEntries : Nat
  freshDuration : Duration
  staleDuration : Duration
  pool : Option BuiltPool
  cascade : Option CascadeExecutor
  upstream : Option UpstreamAdapter

def observable (s : LiveState) : Observable where
  policies := s.contextManager.policyFor
  current := s.contextManager.current
  maxEntries := s.cache.maxEntries
  freshDuration := s.cache.freshDuration
  staleDuration := s.cache.staleDuration
  pool := s.upstreamPool
  cascade := s.cascadeExecutor
  upstream := s.upstream

/-- Installing the contexts has nothing to do: each has its policy already, and the default
context, if it is or becomes active, is the current one. -/
structure Installed (m : ContextManager) (resolved : List ResolvedContext) : Prop where
  policies : ∀ ctx ∈ resolved, m.policyFor ctx.id = installedPolicy u resolved ctx.id
  current : (resolvedDefault resolved ∈ m.active ∨
      resolvedDefault resolved ∈ resolved.map ResolvedContext.id) →
    m.current = resolvedDefault resolved

/-- `set_max_entries` refuses the new limit. -/
def RejectsLimit (s : LiveState) (proxy : ProxyConfig) : Prop :=
  proxy.entryLimit ≠ s.cache.maxEntries ∧ proxy.entryLimit = 0

/-- The limit and the durations of the cache are those of the configuration already. -/
structure SameLimits (s : LiveState) (proxy : ProxyConfig) : Prop where
  maxEntries : proxy.entryLimit = s.cache.maxEntries
  fresh : proxy.freshSecs = asSecs s.cache.freshDuration
  stale : proxy.staleSecs = asSecs s.cache.staleDuration

variable {u now} {s : LiveState}

theorem isSome_installedPolicy {resolved : List ResolvedContext} {ctx : ResolvedContext}
    (h : ctx ∈ resolved) : (installedPolicy u resolved ctx.id).isSome := by
  unfold installedPolicy
  rw [Option.isSome_map, List.find?_isSome]
  exact ⟨ctx, List.mem_reverse.mpr h, by simp⟩

theorem exists_of_installedPolicy {resolved : List ResolvedContext} {id : String}
    {policy : ContextPolicy} (h : installedPolicy u resolved id = some policy) :
    ∃ ctx ∈ resolved, ctx.id = id := by
  unfold installedPolicy at h
  obtain ⟨ctx, hctx, -⟩ := Option.map_eq_some_iff.mp h
  refine ⟨ctx, List.mem_reverse.mp (List.mem_of_find?_eq_some hctx), ?_⟩
  simpa using List.find?_some hctx

theorem policyFor_installResolved_eq_iff (m : ContextManager) (resolved : List ResolvedContext) :
    (m.installResolved u now resolved).policyFor = m.policyFor ↔
      ∀ ctx ∈ resolved, m.policyFor ctx.id = installedPolicy u resolved ctx.id := by
  constructor
  · intro h ctx hctx
    obtain ⟨policy, hpolicy⟩ := Option.isSome_iff_exists.mp (isSome_installedPolicy (u := u) hctx)
    rw [← h, policyFor_installResolved, hpolicy]
    rfl
  · intro h
    funext id
    rw [policyFor_installResolved]
    cases hpolicy : installedPolicy u resolved id with
    | none => simp
    | some policy =>
      obtain ⟨ctx, hctx, rfl⟩ := exists_of_installedPolicy hpolicy
      rw [h ctx hctx, hpolicy]
      rfl

theorem mem_installOne (m : ContextManager) (ctx : ResolvedContext) (id : String) :
    id ∈ (installOne u now m ctx).active ↔ id ∈ m.active ∨ id = ctx.id := by
  unfold installOne
  dsimp only
  split
  · rw [AList.mem_insert]
    exact or_comm
  · rw [AList.mem_insert]
    exact or_comm

theorem current_installOne (m : ContextManager) (ctx : ResolvedContext) :
    (installOne u now m ctx).current = m.current := by
  unfold installOne
  dsimp only
  split <;> rfl

theorem mem_foldl_installOne (u : CaseTables) (now : Nat) (resolved : List ResolvedContext)
    (m : ContextManager) (id : String) :
    id ∈ (resolved.foldl (installOne u now) m).active ↔
      id ∈ m.active ∨ id ∈ resolved.map ResolvedContext.id := by
  induction resolved generalizing m with
  | nil => simp
  | cons ctx rest ih =>
    rw [List.foldl_cons, ih, mem_installOne, List.map_cons, List.mem_cons, or_assoc]

theorem current_foldl_installOne (resolved : List ResolvedContext) (m : ContextManager) :
    (resolved.foldl (installOne u now) m).current = m.current := by
  induction resolved generalizing m with
  | nil => rfl
  | cons ctx rest ih => rw [List.foldl_cons, ih, current_installOne]

theorem current_installResolved_eq_iff (m : ContextManager) (resolved : List ResolvedContext) :
    (m.installResolved u now resolved).current = m.current ↔
      ((resolvedDefault resolved ∈ m.active ∨
          resolvedDefault resolved ∈ resolved.map ResolvedContext.id) →
        m.current = resolvedDefault resolved) := by
  rw [← mem_foldl_installOne u now resolved m]
  unfold installResolved
  dsimp only
  split
  · rename_i hactive
    exact ⟨fun h _ => h.symm, fun h => (h hactive).symm⟩
  · rename_i hinactive
    rw [current_foldl_installOne]
    exact ⟨fun _ h => absurd h hinactive, fun _ => rfl⟩

theorem installed_iff (u : CaseTables) (now : Nat) (m : ContextManager)
    (resolved : List ResolvedContext) :
    ((m.installResolved u now resolved).policyFor = m.policyFor ∧
      (m.installResolved u now resolved).current = m.current) ↔ Installed u m resolved := by
  rw [policyFor_installResolved_eq_iff, current_installResolved_eq_iff]
  exact ⟨fun h => ⟨h.1, h.2⟩, fun h => ⟨h.policies, h.current⟩⟩

/-! ## What the sections do -/

theorem refreshContexts_of_ok {file : ConfigFile} {resolved : List ResolvedContext}
    (hresolved : file.resolveContexts = .ok resolved) (hne : resolved ≠ []) :
    (s.refreshContexts u now file).1 =
      { s with contextManager := s.contextManager.installResolved u now resolved } := by
  unfold refreshContexts
  rw [hresolved]
  simp [hne]

theorem reloadMaxEntries_of_rejects {proxy : ProxyConfig} (h : s.RejectsLimit proxy) :
    s.reloadMaxEntries proxy = .error "cache.max_entries: cache.max_entries must be > 0" := by
  unfold reloadMaxEntries CacheStore.setMaxEntries
  rw [if_neg h.1, if_pos h.2]
  rfl

theorem reloadMaxEntries_of_accepts {proxy : ProxyConfig} (h : ¬ s.RejectsLimit proxy) :
    ∃ sections, s.reloadMaxEntries proxy =
      .ok ({ s with cache := { s.cache with maxEntries := proxy.entryLimit } }, sections) := by
  unfold reloadMaxEntries
  split
  · rename_i hsame
    rw [hsame]
    exact ⟨_, rfl⟩
  · rename_i hnew
    have hpositive : proxy.entryLimit ≠ 0 := fun hzero => h ⟨hnew, hzero⟩
    unfold CacheStore.setMaxEntries
    rw [if_neg hpositive]
    exact ⟨_, rfl⟩

/-- A duration after a reload: only the whole seconds are compared. -/
def durationAfter (secs : Nat) (d : Duration) : Duration :=
  if secs = asSecs d then d else fromSecs secs

theorem durationAfter_eq_iff (secs : Nat) (d : Duration) :
    durationAfter secs d = d ↔ secs = asSecs d := by
  unfold durationAfter
  split
  · rename_i hsame
    simp [← hsame]
  · rename_i hnew
    refine ⟨fun h => ?_, fun h => absurd h hnew⟩
    rw [← h, asSecs_fromSecs]

theorem reloadDurations (s : LiveState) (proxy : ProxyConfig) :
    ((s.reloadFreshDuration proxy).1.reloadStaleDuration proxy).1 =
      { s with cache := { s.cache with
        freshDuration := durationAfter proxy.freshSecs s.cache.freshDuration
        staleDuration := durationAfter proxy.staleSecs s.cache.staleDuration } } := by
  have hfresh : (s.reloadFreshDuration proxy).1 =
      { s with cache := { s.cache with
        freshDuration := durationAfter proxy.freshSecs s.cache.freshDuration } } := by
    unfold reloadFreshDuration durationAfter
    split <;> rfl
  rw [hfresh]
  unfold reloadStaleDuration durationAfter
  dsimp only
  split <;> rfl

/-- The state in which a reload asks for the upstreams. -/
def beforeBuild (u : CaseTables) (now : Nat) (s : LiveState) (resolved : List ResolvedContext)
    (proxy : ProxyConfig) : LiveState :=
  { s with
    contextManager := s.contextManager.installResolved u now resolved
    cache := { s.cache with
      maxEntries := proxy.entryLimit
      freshDuration := durationAfter proxy.freshSecs s.cache.freshDuration
      staleDuration := durationAfter proxy.staleSecs s.cache.staleDuration } }

theorem observable_installResolved_iff (resolved : List ResolvedContext) :
    observable { s with contextManager := s.contextManager.installResolved u now resolved } =
      s.observable ↔ Installed u s.contextManager resolved := by
  rw [← installed_iff u now, Observable.ext_iff]
  simp [observable]

theorem observable_beforeBuild_iff (resolved : List ResolvedContext) (proxy : ProxyConfig) :
    (s.beforeBuild u now resolved proxy).observable = s.observable ↔
      Installed u s.contextManager resolved ∧ s.SameLimits proxy := by
  have hlimits : s.SameLimits proxy ↔
      proxy.entryLimit = s.cache.maxEntries ∧
        durationAfter proxy.freshSecs s.cache.freshDuration = s.cache.freshDuration ∧
        durationAfter proxy.staleSecs s.cache.staleDuration = s.cache.staleDuration := by
    rw [durationAfter_eq_iff, durationAfter_eq_iff]
    exact ⟨fun h => ⟨h.maxEntries, h.fresh, h.stale⟩, fun h => ⟨h.1, h.2.1, h.2.2⟩⟩
  rw [hlimits, ← installed_iff u now, Observable.ext_iff]
  simp [observable, beforeBuild, and_assoc]

section

variable {files : ConfigFiles} {b : Backends} {file : ConfigFile} {proxy : ProxyConfig}
  {resolved : List ResolvedContext}

theorem applyProxy_of_rejects (hresolved : file.resolveContexts = .ok resolved)
    (hne : resolved ≠ []) (h : s.RejectsLimit proxy) :
    s.applyProxy u now b file proxy =
      (.error "cache.max_entries: cache.max_entries must be > 0",
        { s with contextManager := s.contextManager.installResolved u now resolved }) := by
  have hlimit := reloadMaxEntries_of_rejects
    (s := { s with contextManager := s.contextManager.installResolved u now resolved }) h
  unfold applyProxy
  dsimp only
  rw [refreshContexts_of_ok hresolved hne, hlimit]

theorem applyProxy_of_build_error (hresolved : file.resolveContexts = .ok resolved)
    (hne : resolved ≠ []) (h : ¬ s.RejectsLimit proxy) {e : String}
    (hbuild : b.buildUpstream proxy = .error e) :
    s.applyProxy u now b file proxy = (.error e, s.beforeBuild u now resolved proxy) := by
  obtain ⟨sections, hlimit⟩ := reloadMaxEntries_of_accepts
    (s := { s with contextManager := s.contextManager.installResolved u now resolved }) h
  unfold applyProxy
  dsimp only
  rw [refreshContexts_of_ok hresolved hne, hlimit]
  dsimp only
  rw [hbuild, reloadDurations]
  rfl

theorem applyProxy_of_build_ok (u : CaseTables) (now : Nat)
    (hresolved : file.resolveContexts = .ok resolved) (hne : resolved ≠ [])
    (h : ¬ s.RejectsLimit proxy) {build : UpstreamBuild}
    (hbuild : b.buildUpstream proxy = .ok build) :
    ∃ summary, (s.applyProxy u now b file proxy).1 = .ok summary := by
  obtain ⟨sections, hlimit⟩ := reloadMaxEntries_of_accepts
    (s := { s with contextManager := s.contextManager.installResolved u now resolved }) h
  unfold applyProxy
  dsimp only
  rw [refreshContexts_of_ok hresolved hne, hlimit]
  dsimp only
  rw [hbuild]
  exact ⟨_, rfl⟩

end

/-- A reload that returns an error leaves what can be observed as it was. -/
def FailsAtomically (u : CaseTables) (now : Nat) (files : ConfigFiles) (b : Backends)
    (s : LiveState) : Prop :=
  ∀ e, (s.applyReload u now files b).1 = .error e →
    (s.applyReload u now files b).2.observable = s.observable

/-- If the limit is refused, the contexts are installed already. If it is not, the upstreams can
be built, or there is nothing to change before that. -/
structure SafeReload (u : CaseTables) (b : Backends) (s : LiveState) (proxy : ProxyConfig)
    (resolved : List ResolvedContext) : Prop where
  rejected : s.RejectsLimit proxy → Installed u s.contextManager resolved
  accepted : ¬ s.RejectsLimit proxy → (∃ build, b.buildUpstream proxy = .ok build) ∨
    (Installed u s.contextManager resolved ∧ s.SameLimits proxy)

theorem applyProxy_atomic_iff {b : Backends} {file : ConfigFile} {proxy : ProxyConfig}
    {resolved : List ResolvedContext} (hresolved : file.resolveContexts = .ok resolved)
    (hne : resolved ≠ []) :
    (∀ e, (s.applyProxy u now b file proxy).1 = .error e →
      (s.applyProxy u now b file proxy).2.observable = s.observable) ↔
      SafeReload u b s proxy resolved := by
  by_cases hrejects : s.RejectsLimit proxy
  · rw [applyProxy_of_rejects hresolved hne hrejects]
    simp only [Except.error.injEq, forall_eq', observable_installResolved_iff]
    exact ⟨fun h => ⟨fun _ => h, fun haccepts => absurd hrejects haccepts⟩,
      fun h => h.rejected hrejects⟩
  · cases hbuild : b.buildUpstream proxy with
    | ok build =>
      obtain ⟨summary, hok⟩ := applyProxy_of_build_ok u now hresolved hne hrejects hbuild
      simp only [hok, reduceCtorEq, false_imp_iff, implies_true, true_iff]
      exact ⟨fun h => absurd h hrejects, fun _ => .inl ⟨build, hbuild⟩⟩
    | error e =>
      rw [applyProxy_of_build_error hresolved hne hrejects hbuild]
      simp only [Except.error.injEq, forall_eq', observable_beforeBuild_iff]
      refine ⟨fun h => ⟨fun hrej => absurd hrej hrejects, fun _ => .inr h⟩, fun h => ?_⟩
      rcases h.accepted hrejects with ⟨build, hok⟩ | hsame
      · rw [hbuild] at hok
        cases hok
      · exact hsame

/-- A failing reload is atomic exactly if the file cannot be loaded or projected, or what the
reload changes before the step that fails is in place already. -/
theorem failed_reload_atomic_iff (u : CaseTables) (now : Nat) (files : ConfigFiles)
    (b : Backends) (s : LiveState) :
    s.FailsAtomically u now files b ↔
      ∀ file proxy resolved, s.reloadSource.read files = .ok file →
        file.effectiveProxy = .ok proxy → file.resolveContexts = .ok resolved →
        SafeReload u b s proxy resolved := by
  unfold FailsAtomically applyReload
  cases hread : s.reloadSource.read files with
  | error e => simp
  | ok file =>
    cases hproxy : file.effectiveProxy with
    | error e =>
      simp only [hproxy, implies_true, true_iff]
      intro file' proxy' resolved' hfile' hproxy'
      cases hfile'
      rw [hproxy] at hproxy'
      cases hproxy'
    | ok proxy =>
      obtain ⟨resolved, hresolved, hne⟩ := file.resolveContexts_eq_ok_of_effectiveProxy hproxy
      simp only [hproxy]
      rw [applyProxy_atomic_iff hresolved hne]
      constructor
      · intro h file' proxy' resolved' hfile' hproxy' hresolved'
        cases hfile'
        rw [hproxy] at hproxy'
        rw [hresolved] at hresolved'
        cases hproxy'
        cases hresolved'
        exact h
      · intro h
        exact h file proxy resolved rfl hproxy hresolved

/-- A server with the settings of an empty proxy section. -/
def started : LiveState where
  reloadSource := .path (some "conproxy.toml") "conproxy.toml"
  contextManager := ContextManager.new 0 .default
  cache := CacheStore.withJitter (fromSecs 300) (fromSecs 3600) 10000 0
  upstreamPool := none
  cascadeExecutor := none
  upstream := none
  federatedSearch := FederatedSearchConfig.fromConfig CaseTables.ascii .default
  circuitBreaker := ProxyCircuitBreakerConfig.default.toCircuitBreakerConfig
  agentRegistry := none

/-- A database whose table has a name with a hyphen. -/
def vectors : UpstreamResourceConfig where
  url := some "postgres://db/docs"
  upstreamType := some "pgvector"
  timeoutSecs := none
  weight := none
  priority := none
  maxConcurrent := none
  enabled := none
  versionEndpoint := none
  versionPollIntervalSecs := none
  queryMode := none
  table := some "docs-v2"
  embeddingColumn := none
  contentColumn := none
  metadataColumns := []
  distanceMetric := none
  dimensions := none
  index := none
  searchFields := []
  returnFields := []
  apiKey := none

def vectorsFile : ConfigFile :=
  { ConfigFile.default with
    upstreams := (∅ : AList fun _ : String => UpstreamResourceConfig).insert "vectors" vectors
    contexts := (∅ : AList fun _ : String => NamedContextConfig).insert "docs"
      { default := some true
        description := none
        upstreams := [.to "vectors"]
        embedder := none
        cache := { ContextCacheConfig.default with freshSecs := some 60 }
        scope := .none
        cascade := .default
        federated := .default } }

/-- Clients and databases that always answer. -/
def reachable : Backends := ⟨fun _ => none, true, fun _ => .ok (), fun _ => .ok ()⟩

def vectorsFiles : ConfigFiles := ⟨fun _ => .ok vectorsFile, .ok vectorsFile⟩

/-- The pool cannot be built from `vectorsFile`, and yet its context and its fresh duration are in
force. -/
theorem failed_reload_applied :
    (started.applyReload CaseTables.ascii 1 vectorsFiles reachable).1 =
      .error ("proxy.upstreams: failed to build pool: pgvector connect (postgres://db/docs): " ++
        "Network error: unsafe identifier: docs-v2") ∧
    (started.applyReload CaseTables.ascii 1 vectorsFiles reachable).2.contextManager.current =
      "docs" ∧
    (started.applyReload CaseTables.ascii 1 vectorsFiles reachable).2.cache.freshDuration =
      fromSecs 60 ∧
    ¬ started.FailsAtomically CaseTables.ascii 1 vectorsFiles reachable := by
  have herror : (started.applyReload CaseTables.ascii 1 vectorsFiles reachable).1 =
      .error ("proxy.upstreams: failed to build pool: pgvector connect (postgres://db/docs): " ++
        "Network error: unsafe identifier: docs-v2") := by decide +kernel
  have hcurrent : (started.applyReload CaseTables.ascii 1 vectorsFiles
      reachable).2.contextManager.current = "docs" := by decide +kernel
  refine ⟨herror, hcurrent, by decide +kernel, fun h => ?_⟩
  have hsame := congrArg Observable.current (h _ herror)
  have hdefault : started.contextManager.current = "default" := by decide
  rw [observable, observable, hcurrent, hdefault] at hsame
  exact absurd hsame (by decide)

end LiveState

end Conproxy
