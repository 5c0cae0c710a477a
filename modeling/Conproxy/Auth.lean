import Conproxy.Agent
import Conproxy.Types

/-!
# Authentication over HTTP and gRPC

`auth_middleware` of `middleware.rs` on the one side, the interceptor of `grpc/middleware.rs`
followed by `authenticate` of `grpc/search.rs` on the other. Both read the same registry and
the same global key.
-/

namespace Conproxy

set_option autoImplicit false

/-- The headers, or metadata, that carry a credential. A value whose bytes are not text is
`some none`. -/
structure Credentials where
  xApiKey : Option (Option String)
  authorization : Option (Option String)
deriving DecidableEq

def bearerToken (auth : String) : Option String :=
  if "Bearer ".toList <+: auth.toList then some (String.ofList (auth.toList.drop 7)) else none

/-- `extract_api_key`, of which each transport has a copy: `x-api-key` goes first, even if it
holds no text. -/
def Credentials.extractApiKey (c : Credentials) : Option String :=
  match c.xApiKey with
  | some key => key
  | none =>
    match c.authorization with
    | some (some auth) => bearerToken auth
    | _ => none

def constantTimeEq (a b : String) : Bool :=
  if (utf8 a).length ≠ (utf8 b).length then false
  else ((utf8 a).zip (utf8 b)).foldl (fun result xy => result ||| (xy.1 ^^^ xy.2)) 0 == 0

inductive Method where
  | get
  | post
deriving DecidableEq

structure HttpRequest where
  method : Method
  path : String
  credentials : Credentials

structure AuthConfig where
  apiKey : Option String
  agentRegistry : Option AgentRegistry
  webUiEnabled : Bool

/-- A refusal: the HTTP status or gRPC code, and the error text. -/
structure Rejection where
  status : String
  error : String
deriving DecidableEq

abbrev Admission := Except Rejection (Option AgentIdentity)

def webUiAllowlist : List String :=
  ["/stats", "/stats/queries", "/metrics", "/audit", "/circuit", "/queue", "/clients",
    "/cache/integrity", "/cache/upstreams", "/contexts", "/contexts/current"]

def isContextStatsPath (path : String) : Bool :=
  let slashes := fun c : Char => c = '/'
  let trimmed := ((path.toList.dropWhile slashes).reverse.dropWhile slashes).reverse
  match trimmed.splitOn '/' with
  | [first, _, last] => first = "contexts".toList && last = "stats".toList
  | _ => false

def isWebUiAllowlisted (path : String) : Bool :=
  webUiAllowlist.contains path || isContextStatsPath path

def activeRegistry (registry : Option AgentRegistry) : Option AgentRegistry :=
  registry.filter fun r => !r.isEmpty

namespace AuthConfig

def hasAuth (config : AuthConfig) : Bool :=
  config.apiKey.isSome || (activeRegistry config.agentRegistry).isSome

/-- The global key, for a credential that is no agent's. -/
def globalKeyCheck (config : AuthConfig) (providedKey : String) : Admission :=
  match config.apiKey with
  | some expectedKey =>
    if constantTimeEq providedKey expectedKey then .ok none
    else .error ⟨"401", "Invalid API key"⟩
  | none => .error ⟨"401", "Invalid API key"⟩

/-- An agent is admitted with its identity if its own rate limiter allows. -/
def agentCheck (found : AgentLookup) : Admission :=
  match found.rateLimiter with
  | some limiter =>
    if limiter.tryAcquire then .ok (some found.identity)
    else .error ⟨"429", "Rate limit exceeded"⟩
  | none => .ok (some found.identity)

def authMiddleware (config : AuthConfig) (request : HttpRequest) : Admission :=
  if config.webUiEnabled && request.method = .get && isWebUiAllowlisted request.path then .ok none
  else if config.hasAuth = false then .ok none
  else
    match request.credentials.extractApiKey with
    | none =>
      .error ⟨"401", "API key required (provide via X-API-Key or Authorization: Bearer header)"⟩
    | some providedKey =>
      match activeRegistry config.agentRegistry with
      | some registry =>
        match registry.lookup providedKey with
        | some found => agentCheck found
        | none => config.globalKeyCheck providedKey
      | none => config.globalKeyCheck providedKey

end AuthConfig

structure GrpcInterceptorConfig where
  agentRegistry : Option AgentRegistry
  rateLimiter : Option RateLimiter
  apiKey : Option String

namespace GrpcInterceptorConfig

def requiresAuth (config : GrpcInterceptorConfig) : Bool :=
  config.agentRegistry.isSome || config.apiKey.isSome

/-- The interceptor's limiter has no token left. -/
def throttled (config : GrpcInterceptorConfig) : Bool :=
  match config.rateLimiter with
  | some limiter => !limiter.tryAcquire
  | none => false

def authenticated (config : GrpcInterceptorConfig) (key : String) : Bool :=
  (match config.agentRegistry with
    | some registry => (registry.lookup key).isSome
    | none => false) ||
  (match config.apiKey with
    | some expected => constantTimeEq key expected
    | none => false)

def interceptor (config : GrpcInterceptorConfig) (metadata : Credentials) :
    Except Rejection Unit :=
  if config.throttled then .error ⟨"resource_exhausted", "Rate limit exceeded"⟩
  else if config.requiresAuth then
    match metadata.extractApiKey with
    | some key =>
      if config.authenticated key then .ok ()
      else .error ⟨"unauthenticated", "Invalid API key"⟩
    | none =>
      .error ⟨"unauthenticated",
        "API key required (provide via x-api-key or Authorization: Bearer)"⟩
  else .ok ()

end GrpcInterceptorConfig

/-- `authenticate`, which every call of the search service makes first. -/
def authenticate (registry : Option AgentRegistry) (metadata : Credentials) : Admission :=
  match activeRegistry registry with
  | some registry =>
    match metadata.extractApiKey with
    | some key =>
      match registry.lookup key with
      | some found => .ok (some found.identity)
      | none => .error ⟨"unauthenticated", "Invalid API key"⟩
    | none => .error ⟨"unauthenticated", "API key required"⟩
  | none => .ok none

/-- A call of the search service: the interceptor, then `authenticate`. -/
def grpcAdmission (config : GrpcInterceptorConfig) (metadata : Credentials) : Admission :=
  match config.interceptor metadata with
  | .ok () => authenticate config.agentRegistry metadata
  | .error e => .error e

theorem foldl_or_xor_eq_zero (l : List (UInt8 × UInt8)) (acc : UInt8) :
    l.foldl (fun result xy => result ||| (xy.1 ^^^ xy.2)) acc = 0 ↔
      acc = 0 ∧ ∀ xy ∈ l, xy.1 = xy.2 := by
  induction l generalizing acc with
  | nil => simp
  | cons xy l ih =>
    rw [List.foldl_cons, ih, UInt8.or_eq_zero_iff, UInt8.xor_eq_zero_iff]
    simp only [List.mem_cons, forall_eq_or_imp, and_assoc]

theorem constantTimeEq_iff (a b : String) : constantTimeEq a b = true ↔ a = b := by
  unfold constantTimeEq
  split
  · rename_i hlen
    simp only [Bool.false_eq_true, false_iff]
    intro h
    exact hlen (by rw [h])
  · rename_i hlen
    rw [beq_iff_eq, foldl_or_xor_eq_zero, ← utf8_inj]
    simp only [true_and]
    have hlen : (utf8 a).length = (utf8 b).length := not_not.mp hlen
    constructor
    · intro h
      apply List.ext_getElem hlen
      intro i hi hi'
      exact h (_, _) (List.mem_iff_getElem.mpr ⟨i, by simp [hi, hi'], by simp⟩)
    · intro h xy hxy
      rw [h] at hxy
      obtain ⟨i, hi, heq⟩ := List.mem_iff_getElem.mp hxy
      rw [← heq]
      simp

/-- The agent that a key belongs to. -/
def agentFor (registry : Option AgentRegistry) (key : String) : Option AgentLookup :=
  (activeRegistry registry).bind fun r => r.lookup key

def AgentLookup.throttled (found : AgentLookup) : Bool :=
  match found.rateLimiter with
  | some limiter => !limiter.tryAcquire
  | none => false

/-- When the two transports agree. The interceptor's limiter must leave the call through, or
HTTP must refuse the credential as well. An empty registry must not stand alone. An agent must
have a token left, and the global key may not be presented beside agents. -/
def AuthAgrees (registry : Option AgentRegistry) (limiter : Option RateLimiter)
    (apiKey presented : Option String) : Prop :=
  if GrpcInterceptorConfig.throttled ⟨registry, limiter, apiKey⟩ then
    (apiKey.isSome ∨ (activeRegistry registry).isSome) ∧
      ∀ key ∈ presented,
        match agentFor registry key with
        | some found => found.throttled = true
        | none => apiKey ≠ some key
  else
    (registry.isSome → apiKey = none → (activeRegistry registry).isSome) ∧
      ∀ key ∈ presented,
        match agentFor registry key with
        | some found => found.throttled = false
        | none => (activeRegistry registry).isSome → apiKey ≠ some key

theorem toOption_agentCheck (found : AgentLookup) :
    (AuthConfig.agentCheck found).toOption =
      if found.throttled then none else some (some found.identity) := by
  unfold AuthConfig.agentCheck AgentLookup.throttled
  cases found.rateLimiter with
  | none => rfl
  | some limiter => cases h : limiter.tryAcquire <;> simp [h, Except.toOption]

theorem toOption_globalKeyCheck (config : AuthConfig) (key : String) :
    (config.globalKeyCheck key).toOption =
      if config.apiKey = some key then some none else none := by
  unfold AuthConfig.globalKeyCheck
  cases config.apiKey with
  | none => rfl
  | some expected =>
    by_cases h : key = expected
    · simp [h, (constantTimeEq_iff expected expected).mpr rfl, Except.toOption]
    · have hne : constantTimeEq key expected = false := by
        rw [← Bool.not_eq_true, constantTimeEq_iff]
        exact h
      simp [hne, Ne.symm h, Except.toOption]

/-- What HTTP decides on a credential. -/
theorem toOption_authMiddleware (registry : Option AgentRegistry) (apiKey : Option String)
    (webUi : Bool) (path : String) (c : Credentials) :
    (AuthConfig.authMiddleware ⟨apiKey, registry, webUi⟩ ⟨.post, path, c⟩).toOption =
      if apiKey.isSome || (activeRegistry registry).isSome then
        c.extractApiKey.bind fun key =>
          match agentFor registry key with
          | some found => if found.throttled then none else some (some found.identity)
          | none => if apiKey = some key then some none else none
      else some none := by
  unfold AuthConfig.authMiddleware AuthConfig.hasAuth agentFor
  cases apiKey.isSome || (activeRegistry registry).isSome with
  | false => simp [Except.toOption]
  | true =>
    cases c.extractApiKey with
    | none => simp [Except.toOption]
    | some key =>
      cases activeRegistry registry with
      | none => simp [toOption_globalKeyCheck]
      | some r =>
        cases hl : r.lookup key with
        | none => simp [hl, toOption_globalKeyCheck]
        | some found => simp [hl, toOption_agentCheck]

theorem AgentRegistry.lookup_of_isEmpty {r : AgentRegistry} (h : r.isEmpty = true)
    (key : String) : r.lookup key = none := by
  have hnil : r.agents.entries = [] := List.isEmpty_iff.mp h
  unfold AgentRegistry.lookup AList.lookup
  rw [hnil]
  rfl

theorem activeRegistry_eq_some {registry : Option AgentRegistry} {r : AgentRegistry}
    (h : activeRegistry registry = some r) : registry = some r :=
  (Option.filter_eq_some_iff.mp h).1

/-- Without an active registry, only the global key is found. -/
theorem authenticated_of_inactive {registry : Option AgentRegistry}
    (h : activeRegistry registry = none) (limiter : Option RateLimiter) (apiKey : Option String)
    (key : String) :
    GrpcInterceptorConfig.authenticated ⟨registry, limiter, apiKey⟩ key =
      decide (apiKey = some key) := by
  have hlookup : ∀ r, registry = some r → r.lookup key = none := by
    rintro r rfl
    apply AgentRegistry.lookup_of_isEmpty
    simpa [activeRegistry, Option.filter] using h
  have hglobal : (match apiKey with
      | some expected => constantTimeEq key expected
      | none => false) = decide (apiKey = some key) := by
    cases apiKey with
    | none => rfl
    | some expected =>
      rw [Bool.eq_iff_iff, constantTimeEq_iff]
      simp [eq_comm]
  unfold GrpcInterceptorConfig.authenticated
  rw [hglobal]
  cases registry with
  | none => rfl
  | some r => simp [hlookup r rfl]

/-- What gRPC decides on a credential. -/
theorem toOption_grpcAdmission (registry : Option AgentRegistry) (limiter : Option RateLimiter)
    (apiKey : Option String) (c : Credentials) :
    (grpcAdmission ⟨registry, limiter, apiKey⟩ c).toOption =
      if GrpcInterceptorConfig.throttled ⟨registry, limiter, apiKey⟩ then none
      else
        match activeRegistry registry with
        | some r =>
          c.extractApiKey.bind fun key => (r.lookup key).map fun found => some found.identity
        | none =>
          if registry.isSome || apiKey.isSome then
            c.extractApiKey.bind fun key => if apiKey = some key then some none else none
          else some none := by
  unfold grpcAdmission GrpcInterceptorConfig.interceptor authenticate
  cases GrpcInterceptorConfig.throttled ⟨registry, limiter, apiKey⟩ with
  | true => simp [Except.toOption]
  | false =>
    cases hactive : activeRegistry registry with
    | some r =>
      obtain rfl := activeRegistry_eq_some hactive
      cases c.extractApiKey with
      | none => simp [GrpcInterceptorConfig.requiresAuth, Except.toOption]
      | some key =>
        cases hl : r.lookup key with
        | some found =>
          simp [GrpcInterceptorConfig.requiresAuth, GrpcInterceptorConfig.authenticated, hl,
            Except.toOption]
        | none =>
          cases ha : GrpcInterceptorConfig.authenticated ⟨some r, limiter, apiKey⟩ key with
          | true => simp [GrpcInterceptorConfig.requiresAuth, ha, hl, Except.toOption]
          | false => simp [GrpcInterceptorConfig.requiresAuth, ha, hl, Except.toOption]
    | none =>
      cases hauth : registry.isSome || apiKey.isSome with
      | false => simp [GrpcInterceptorConfig.requiresAuth, hauth, Except.toOption]
      | true =>
        cases c.extractApiKey with
        | none => simp [GrpcInterceptorConfig.requiresAuth, hauth, Except.toOption]
        | some key =>
          by_cases hkey : apiKey = some key
          · simp [GrpcInterceptorConfig.requiresAuth, hkey, authenticated_of_inactive hactive,
              Except.toOption]
          · simp [GrpcInterceptorConfig.requiresAuth, hauth, hkey,
              authenticated_of_inactive hactive, Except.toOption]

/-- HTTP and gRPC admit the same requests with the same identity exactly under `AuthAgrees`.
Queries, batches and federated queries are POST requests. -/
theorem auth_agrees_iff (registry : Option AgentRegistry) (limiter : Option RateLimiter)
    (apiKey : Option String) (webUi : Bool) (path : String) (c : Credentials) :
    (AuthConfig.authMiddleware ⟨apiKey, registry, webUi⟩ ⟨.post, path, c⟩).toOption =
        (grpcAdmission ⟨registry, limiter, apiKey⟩ c).toOption ↔
      AuthAgrees registry limiter apiKey c.extractApiKey := by
  rw [toOption_authMiddleware, toOption_grpcAdmission]
  unfold AuthAgrees agentFor
  cases GrpcInterceptorConfig.throttled ⟨registry, limiter, apiKey⟩ with
  | true =>
    cases hactive : activeRegistry registry with
    | none =>
      cases apiKey with
      | none => simp
      | some expected =>
        cases c.extractApiKey with
        | none => simp
        | some key => simp
    | some r =>
      cases c.extractApiKey with
      | none => simp
      | some key =>
        cases hl : r.lookup key with
        | none => simp [hl]
        | some found => simp [hl]
  | false =>
    cases hactive : activeRegistry registry with
    | none =>
      cases apiKey with
      | none =>
        cases registry with
        | none => simp
        | some r =>
          cases c.extractApiKey with
          | none => simp
          | some key => simp
      | some expected =>
        cases c.extractApiKey with
        | none => simp
        | some key => simp
    | some r =>
      cases c.extractApiKey with
      | none => simp
      | some key =>
        cases hl : r.lookup key with
        | none => simp [hl]
        | some found => simp [hl]

def keyHeader (key : String) : Credentials := ⟨some (some key), none⟩

def oneAgent : AgentRegistry := .fromConfig [⟨"a", "k1", none, [], none, none, true⟩]

/-- The global key beside an agent, and a registry without agents, with no limiter at all:
HTTP admits both requests and gRPC refuses them. -/
theorem auth_disagrees :
    AuthConfig.authMiddleware ⟨some "g", some oneAgent, false⟩ ⟨.post, "/query", keyHeader "g"⟩ =
      .ok none ∧
    grpcAdmission ⟨some oneAgent, none, some "g"⟩ (keyHeader "g") =
      .error ⟨"unauthenticated", "Invalid API key"⟩ ∧
    AuthConfig.authMiddleware ⟨none, some .new, false⟩ ⟨.post, "/query", ⟨none, none⟩⟩ =
      .ok none ∧
    grpcAdmission ⟨some .new, none, none⟩ ⟨none, none⟩ =
      .error ⟨"unauthenticated",
        "API key required (provide via x-api-key or Authorization: Bearer)"⟩ := by
  decide

end Conproxy
