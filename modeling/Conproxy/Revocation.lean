import Conproxy.Auth
import Conproxy.Lib.WeightedTable

/-!
# Rotating and revoking keys

A rotation makes its updates of the two maps one after the other, and other requests read the
registry in between: whether it is empty, and whom a key belongs to. Authentication decisions
are made of these two reads. A removal is one update for the readers, but the decision on every
other credential depends on whether it leaves the registry empty.
-/

namespace Conproxy

open Machine

set_option autoImplicit false

/-- What `rotate_key` does next. -/
inductive RotationPhase where
  | reading
  | removing (oldKey : String)
  | inserting (entry : AgentEntry)
  | indexing
  | finished (rotated : Bool)
deriving DecidableEq

/-- What another request has read. -/
inductive Observation where
  | empty (answer : Bool)
  | lookup (key : String) (answer : Option AgentLookup)
deriving DecidableEq

structure Rotating where
  registry : AgentRegistry
  phase : RotationPhase
  observed : List Observation

inductive RotationEvent where
  | update
  | isEmpty
  | lookup (key : String)
deriving DecidableEq

namespace Rotating

variable (agentId newKey : String)

def start (r : AgentRegistry) : Rotating := ⟨r, .reading, []⟩

/-- The next access of `rotate_key(agentId, newKey)` to one of the maps. -/
def update (x : Rotating) : Rotating :=
  match x.phase with
  | .reading =>
    match x.registry.idToKey.lookup agentId with
    | some oldKey => { x with phase := .removing oldKey }
    | none => { x with phase := .finished false }
  | .removing oldKey =>
    match x.registry.agents.lookup oldKey with
    | some entry =>
      { x with
        registry := { x.registry with agents := x.registry.agents.erase oldKey }
        phase := .inserting entry }
    | none => { x with phase := .finished false }
  | .inserting entry =>
    { x with
      registry := { x.registry with agents := x.registry.agents.insert newKey entry }
      phase := .indexing }
  | .indexing =>
    { x with
      registry := { x.registry with idToKey := x.registry.idToKey.insert agentId newKey }
      phase := .finished true }
  | .finished _ => x

def step (x : Rotating) : RotationEvent → Rotating
  | .update => x.update agentId newKey
  | .isEmpty => { x with observed := .empty x.registry.isEmpty :: x.observed }
  | .lookup key => { x with observed := .lookup key (x.registry.lookup key) :: x.observed }

/-- The registry that a rotation of `r` has made so far. -/
def Follows (r : AgentRegistry) (x : Rotating) : Prop :=
  match x.phase with
  | .reading => x.registry = r
  | .removing oldKey => x.registry = r ∧ r.idToKey.lookup agentId = some oldKey
  | .inserting entry => ∃ oldKey, r.idToKey.lookup agentId = some oldKey ∧
      r.agents.lookup oldKey = some entry ∧ x.registry = ⟨r.agents.erase oldKey, r.idToKey⟩
  | .indexing => ∃ oldKey entry, r.idToKey.lookup agentId = some oldKey ∧
      r.agents.lookup oldKey = some entry ∧
      x.registry = ⟨(r.agents.erase oldKey).insert newKey entry, r.idToKey⟩
  | .finished rotated => r.rotateKey agentId newKey = (rotated, x.registry)

/-- No reader of the interleaving finds the agent without a key that is its own, or the
registry without agents. -/
def Gapless (r : AgentRegistry) : Prop :=
  ∀ events : List RotationEvent,
    (∀ oldKey, r.idToKey.lookup agentId = some oldKey → r.Authenticates oldKey agentId →
      (run (step agentId newKey) (start r) events).registry.Authenticates oldKey agentId ∨
      (run (step agentId newKey) (start r) events).registry.Authenticates newKey agentId) ∧
    (r.isEmpty = false → (r.rotateKey agentId newKey).2.isEmpty = false →
      .empty true ∉ (run (step agentId newKey) (start r) events).observed)

variable {agentId newKey} {r : AgentRegistry} {x : Rotating}

theorem follows_update (h : x.Follows agentId newKey r) :
    (x.update agentId newKey).Follows agentId newKey r := by
  obtain ⟨registry, phase, observed⟩ := x
  cases phase with
  | reading =>
    obtain rfl : registry = r := h
    simp only [update]
    cases hl : registry.idToKey.lookup agentId with
    | none => simp [Follows, AgentRegistry.rotateKey, hl]
    | some oldKey => exact ⟨rfl, hl⟩
  | removing oldKey =>
    obtain ⟨rfl, hl⟩ : registry = r ∧ r.idToKey.lookup agentId = some oldKey := h
    simp only [update]
    cases he : registry.agents.lookup oldKey with
    | none => simp [Follows, AgentRegistry.rotateKey, hl, he]
    | some entry => exact ⟨oldKey, hl, he, rfl⟩
  | inserting entry =>
    obtain ⟨oldKey, hl, he, rfl⟩ := h
    exact ⟨oldKey, entry, hl, he, rfl⟩
  | indexing =>
    obtain ⟨oldKey, entry, hl, he, rfl⟩ := h
    simp [update, Follows, AgentRegistry.rotateKey, hl, he]
  | finished rotated => exact h

theorem follows_step (h : x.Follows agentId newKey r) (event : RotationEvent) :
    (x.step agentId newKey event).Follows agentId newKey r := by
  cases event with
  | update => exact follows_update h
  | isEmpty => exact h
  | lookup key => exact h

theorem follows_run (r : AgentRegistry) (events : List RotationEvent) :
    (run (step agentId newKey) (start r) events).Follows agentId newKey r := by
  have hstep (x : Rotating) (event : RotationEvent) (h : x.Follows agentId newKey r) :
      (x.step agentId newKey event).Follows agentId newKey r := follows_step h event
  have hstart : (start r).Follows agentId newKey r := rfl
  exact run_preserves hstep hstart events

/-- The agents are as before, or the entry is on its way, or it has arrived. -/
theorem Follows.agents_cases (h : x.Follows agentId newKey r) :
    x.registry.agents = r.agents ∨
      ∃ oldKey entry, r.idToKey.lookup agentId = some oldKey ∧
        r.agents.lookup oldKey = some entry ∧
        (x.registry.agents = r.agents.erase oldKey ∨
          x.registry.agents = (r.agents.erase oldKey).insert newKey entry) := by
  obtain ⟨registry, phase, observed⟩ := x
  cases phase with
  | reading =>
    obtain rfl : registry = r := h
    exact .inl rfl
  | removing oldKey =>
    obtain ⟨rfl, -⟩ : registry = r ∧ r.idToKey.lookup agentId = some oldKey := h
    exact .inl rfl
  | inserting entry =>
    obtain ⟨oldKey, hl, he, rfl⟩ := h
    exact .inr ⟨oldKey, entry, hl, he, .inl rfl⟩
  | indexing =>
    obtain ⟨oldKey, entry, hl, he, rfl⟩ := h
    exact .inr ⟨oldKey, entry, hl, he, .inr rfl⟩
  | finished rotated =>
    have h : r.rotateKey agentId newKey = (rotated, registry) := h
    cases rotated with
    | true =>
      obtain ⟨oldKey, entry, hl, he, rfl⟩ := AgentRegistry.rotateKey_eq_true h
      exact .inr ⟨oldKey, entry, hl, he, .inr rfl⟩
    | false =>
      unfold AgentRegistry.rotateKey at h
      split at h
      · exact .inl (by rw [(Prod.mk.inj h).2])
      · split at h
        · cases (Prod.mk.inj h).1
        · exact .inl (by rw [(Prod.mk.inj h).2])

end Rotating

theorem AgentRegistry.isEmpty_eq_false_iff (r : AgentRegistry) :
    r.isEmpty = false ↔ ∃ key, key ∈ r.agents := by
  rw [AgentRegistry.isEmpty, List.isEmpty_eq_false_iff, WeightedTable.exists_mem_iff]

namespace Rotating

variable {agentId newKey : String} {r : AgentRegistry} {x : Rotating}

/-- What a rotation must find besides the entry that it moves. -/
def Covered (agentId newKey : String) (r : AgentRegistry) : Prop :=
  ∀ oldKey entry, r.idToKey.lookup agentId = some oldKey → r.agents.lookup oldKey = some entry →
    (∃ key ≠ oldKey, key ∈ r.agents) ∧
      (entry.enabled = true → entry.identity.id = agentId →
        newKey ≠ oldKey ∧ r.Authenticates newKey agentId)

theorem authenticates_of_agents {r r' : AgentRegistry} (h : r'.agents = r.agents)
    (key agentId : String) : r'.Authenticates key agentId ↔ r.Authenticates key agentId := by
  rw [AgentRegistry.authenticates_iff, AgentRegistry.authenticates_iff, h]

theorem Covered.authenticates (hcovered : Covered agentId newKey r)
    (h : x.Follows agentId newKey r) {oldKey : String}
    (hold : r.idToKey.lookup agentId = some oldKey) (hauth : r.Authenticates oldKey agentId) :
    x.registry.Authenticates oldKey agentId ∨ x.registry.Authenticates newKey agentId := by
  rcases h.agents_cases with hsame | ⟨old, entry, hl, he, hagents⟩
  · exact .inl ((authenticates_of_agents hsame _ _).mpr hauth)
  · obtain rfl : old = oldKey := Option.some.inj (hl.symm.trans hold)
    obtain ⟨e, he', henabled, hid⟩ := (AgentRegistry.authenticates_iff _ _ _).mp hauth
    obtain rfl : entry = e := Option.some.inj (he.symm.trans he')
    obtain ⟨hne, hnew⟩ := (hcovered old entry hl he).2 henabled hid
    refine .inr ((AgentRegistry.authenticates_iff _ _ _).mpr ?_)
    rcases hagents with hagents | hagents
    · rw [hagents, AList.lookup_erase_ne hne]
      exact (AgentRegistry.authenticates_iff _ _ _).mp hnew
    · rw [hagents, AList.lookup_insert]
      exact ⟨entry, rfl, henabled, hid⟩

theorem Covered.nonempty (hcovered : Covered agentId newKey r) (h : x.Follows agentId newKey r)
    (hr : r.isEmpty = false) : x.registry.isEmpty = false := by
  rw [AgentRegistry.isEmpty_eq_false_iff] at hr ⊢
  rcases h.agents_cases with hsame | ⟨oldKey, entry, hl, he, hagents⟩
  · rw [hsame]
    exact hr
  · obtain ⟨key, hne, hkey⟩ := (hcovered oldKey entry hl he).1
    rcases hagents with hagents | hagents
    · exact ⟨key, by rw [hagents, AList.mem_erase]; exact ⟨hne, hkey⟩⟩
    · exact ⟨newKey, by rw [hagents, AList.mem_insert]; exact .inl rfl⟩

theorem observed_update (x : Rotating) : (x.update agentId newKey).observed = x.observed := by
  obtain ⟨registry, phase, observed⟩ := x
  cases phase with
  | reading =>
    simp only [update]
    cases registry.idToKey.lookup agentId with
    | none => rfl
    | some oldKey => rfl
  | removing oldKey =>
    simp only [update]
    cases registry.agents.lookup oldKey with
    | none => rfl
    | some entry => rfl
  | inserting entry => rfl
  | indexing => rfl
  | finished rotated => rfl

/-- A covered rotation shows nobody an empty registry. -/
theorem Covered.observed (hcovered : Covered agentId newKey r) (hr : r.isEmpty = false)
    (events : List RotationEvent) :
    .empty true ∉ (run (step agentId newKey) (start r) events).observed := by
  have hstep (x : Rotating) (event : RotationEvent)
      (h : x.Follows agentId newKey r ∧ .empty true ∉ x.observed) :
      (x.step agentId newKey event).Follows agentId newKey r ∧
        .empty true ∉ (x.step agentId newKey event).observed := by
    refine ⟨follows_step h.1 event, ?_⟩
    cases event with
    | update =>
      show .empty true ∉ (x.update agentId newKey).observed
      rw [observed_update]
      exact h.2
    | isEmpty =>
      show .empty true ∉ Observation.empty x.registry.isEmpty :: x.observed
      rw [hcovered.nonempty h.1 hr]
      simp [h.2]
    | lookup key => simp [step, h.2]
  have hstart : (start r).Follows agentId newKey r ∧ .empty true ∉ (start r).observed :=
    ⟨rfl, by simp [start]⟩
  exact (run_preserves hstep hstart _).2

theorem run_inserting {oldKey : String} {entry : AgentEntry}
    (hl : r.idToKey.lookup agentId = some oldKey) (he : r.agents.lookup oldKey = some entry) :
    run (step agentId newKey) (start r) [.update, .update, .isEmpty] =
      ⟨⟨r.agents.erase oldKey, r.idToKey⟩, .inserting entry,
        [.empty (AgentRegistry.isEmpty ⟨r.agents.erase oldKey, r.idToKey⟩)]⟩ := by
  simp [run, step, update, start, hl, he]

/-- A rotation has no gap exactly if it moves no entry, or another key is registered and, for an
enabled agent, the new key is another one that authenticates as the agent already. -/
theorem rotation_gapless_iff (r : AgentRegistry) (agentId newKey : String) :
    Gapless agentId newKey r ↔ Covered agentId newKey r := by
  constructor
  · intro h oldKey entry hl he
    obtain ⟨hauth, hempty⟩ := h [.update, .update, .isEmpty]
    rw [run_inserting hl he] at hempty
    rw [run_inserting hl he] at hauth
    have hmem : oldKey ∈ r.agents := AList.lookup_isSome.mp (by simp [he])
    have hrotated : (r.rotateKey agentId newKey).2.isEmpty = false := by
      rw [AgentRegistry.isEmpty_eq_false_iff]
      exact ⟨newKey, by simp [AgentRegistry.rotateKey, hl, he]⟩
    constructor
    · have hseen := hempty ((AgentRegistry.isEmpty_eq_false_iff r).mpr ⟨oldKey, hmem⟩) hrotated
      have hsome : AgentRegistry.isEmpty ⟨r.agents.erase oldKey, r.idToKey⟩ = false := by
        simpa using hseen
      obtain ⟨key, hkey⟩ := (AgentRegistry.isEmpty_eq_false_iff _).mp hsome
      obtain ⟨hne, hkey⟩ := AList.mem_erase.mp hkey
      exact ⟨key, hne, hkey⟩
    · intro henabled hid
      have hbefore : r.Authenticates oldKey agentId :=
        (AgentRegistry.authenticates_iff _ _ _).mpr ⟨entry, he, henabled, hid⟩
      rcases hauth oldKey hl hbefore with hgone | hnew
      · obtain ⟨e, hlookup, -⟩ := (AgentRegistry.authenticates_iff _ _ _).mp hgone
        rw [AList.lookup_erase] at hlookup
        cases hlookup
      · obtain ⟨e, hlookup, hrest⟩ := (AgentRegistry.authenticates_iff _ _ _).mp hnew
        have hne : newKey ≠ oldKey := by
          rintro rfl
          rw [AList.lookup_erase] at hlookup
          cases hlookup
        rw [AList.lookup_erase_ne hne] at hlookup
        exact ⟨hne, (AgentRegistry.authenticates_iff _ _ _).mpr ⟨e, hlookup, hrest⟩⟩
  · intro hcovered events
    exact ⟨fun oldKey hold hauth => hcovered.authenticates (follows_run r events) hold hauth,
      fun hr _ => hcovered.observed hr events⟩

/-- While the only agent is between its two keys, HTTP and gRPC admit a request without any. -/
theorem rotation_opens_registry :
    ¬ Gapless "a" "k2" oneAgent ∧
      AuthConfig.authMiddleware ⟨none, some (run (step "a" "k2") (start oneAgent)
        [.update, .update]).registry, false⟩ ⟨.post, "/query", ⟨none, none⟩⟩ = .ok none ∧
      authenticate (some (run (step "a" "k2") (start oneAgent) [.update, .update]).registry)
        ⟨none, none⟩ = .ok none := by
  refine ⟨?_, by decide, by decide⟩
  intro h
  exact absurd ((h [.update, .update, .isEmpty]).2 (by decide) (by decide)) (by decide)

end Rotating

/-- The request is let through without authentication. -/
def AuthConfig.bypasses (config : AuthConfig) (request : HttpRequest) : Bool :=
  config.webUiEnabled && decide (request.method = .get) && isWebUiAllowlisted request.path

/-- What HTTP rejects: a request that needs a credential and has none, the key of an agent that
is out of tokens, or a key that is nobody's. -/
theorem rejects_authMiddleware_iff (config : AuthConfig) (request : HttpRequest) :
    (config.authMiddleware request).toOption = none ↔
      config.bypasses request = false ∧ config.hasAuth = true ∧
        ∀ key ∈ request.credentials.extractApiKey,
          match agentFor config.agentRegistry key with
          | some found => found.throttled = true
          | none => config.apiKey ≠ some key := by
  unfold AuthConfig.authMiddleware AuthConfig.bypasses agentFor
  cases config.webUiEnabled && decide (request.method = .get) &&
    isWebUiAllowlisted request.path with
  | true => simp [Except.toOption]
  | false =>
    cases config.hasAuth with
    | false => simp [Except.toOption]
    | true =>
      cases request.credentials.extractApiKey with
      | none => simp [Except.toOption]
      | some key =>
        cases activeRegistry config.agentRegistry with
        | none => simp [toOption_globalKeyCheck]
        | some r =>
          cases hl : r.lookup key with
          | none => simp [hl, toOption_globalKeyCheck]
          | some found => simp [hl, toOption_agentCheck]

/-- What `authenticate` rejects, with a registry configured. -/
theorem rejects_authenticate_iff (r : AgentRegistry) (metadata : Credentials) :
    (authenticate (some r) metadata).toOption = none ↔
      r.isEmpty = false ∧ ∀ key ∈ metadata.extractApiKey, r.lookup key = none := by
  unfold authenticate activeRegistry
  cases hr : r.isEmpty with
  | true => simp [Option.filter, hr, Except.toOption]
  | false =>
    cases metadata.extractApiKey with
    | none => simp [Option.filter, hr, Except.toOption]
    | some key =>
      cases hl : r.lookup key with
      | none => simp [Option.filter, hr, hl, Except.toOption]
      | some found => simp [Option.filter, hr, hl, Except.toOption]

theorem agentFor_some (r : AgentRegistry) (key : String) :
    agentFor (some r) key = r.lookup key := by
  unfold agentFor activeRegistry
  cases hr : r.isEmpty with
  | true => simp [Option.filter, hr, AgentRegistry.lookup_of_isEmpty hr]
  | false => simp [Option.filter, hr]

theorem hasAuth_iff (apiKey : Option String) (r : AgentRegistry) (webUi : Bool) :
    AuthConfig.hasAuth ⟨apiKey, some r, webUi⟩ = true ↔ ¬ (apiKey = none ∧ r.isEmpty = true) := by
  unfold AuthConfig.hasAuth activeRegistry
  cases apiKey with
  | some key => simp
  | none => cases hr : r.isEmpty <;> simp [Option.filter, hr]

namespace AgentRegistry

variable {r : AgentRegistry} {agentId key : String}

theorem lookup_removeById_self (h : r.idToKey.lookup agentId = some key) :
    (r.removeById agentId).2.lookup key = none := by
  simp [removeById, h, lookup]

theorem lookup_removeById_ne (h : r.idToKey.lookup agentId ≠ some key) :
    (r.removeById agentId).2.lookup key = r.lookup key := by
  unfold removeById
  cases hl : r.idToKey.lookup agentId with
  | none => rfl
  | some removed =>
    have hne : key ≠ removed := by
      rintro rfl
      exact h hl
    simp only [lookup, AList.lookup_erase_ne hne]

theorem lookup_removeById_of_none (h : r.lookup key = none) :
    (r.removeById agentId).2.lookup key = none := by
  by_cases hl : r.idToKey.lookup agentId = some key
  · exact lookup_removeById_self hl
  · rw [lookup_removeById_ne hl, h]

end AgentRegistry

theorem authMiddleware_removeById_iff (r : AgentRegistry) (agentId : String)
    (apiKey : Option String) (webUi : Bool) (request : HttpRequest)
    (hbefore : (AuthConfig.authMiddleware ⟨apiKey, some r, webUi⟩ request).toOption = none) :
    (AuthConfig.authMiddleware ⟨apiKey, some (r.removeById agentId).2, webUi⟩ request).toOption =
        none ↔
      ¬ (apiKey = none ∧ (r.removeById agentId).2.isEmpty = true) ∧
        ∀ key ∈ request.credentials.extractApiKey,
          r.idToKey.lookup agentId = some key → apiKey ≠ some key := by
  obtain ⟨hbypass, -, hkeys⟩ := (rejects_authMiddleware_iff _ _).mp hbefore
  rw [rejects_authMiddleware_iff, hasAuth_iff]
  constructor
  · rintro ⟨-, hauth, hafter⟩
    refine ⟨hauth, ?_⟩
    intro key hkey hremoved
    have hnone := hafter key hkey
    rwa [agentFor_some, AgentRegistry.lookup_removeById_self hremoved] at hnone
  · rintro ⟨hauth, hglobal⟩
    refine ⟨hbypass, hauth, ?_⟩
    intro key hkey
    rw [agentFor_some]
    by_cases hremoved : r.idToKey.lookup agentId = some key
    · rw [AgentRegistry.lookup_removeById_self hremoved]
      exact hglobal key hkey hremoved
    · rw [AgentRegistry.lookup_removeById_ne hremoved, ← agentFor_some]
      exact hkeys key hkey

theorem authenticate_removeById_iff (r : AgentRegistry) (agentId : String)
    (metadata : Credentials) (hbefore : (authenticate (some r) metadata).toOption = none) :
    (authenticate (some (r.removeById agentId).2) metadata).toOption = none ↔
      (r.removeById agentId).2.isEmpty = false := by
  obtain ⟨-, hkeys⟩ := (rejects_authenticate_iff _ _).mp hbefore
  rw [rejects_authenticate_iff]
  constructor
  · exact fun h => h.1
  · exact fun h => ⟨h, fun key hkey => AgentRegistry.lookup_removeById_of_none (hkeys key hkey)⟩

/-- A request that was rejected before a removal is still rejected after it, unless the removal
takes the last agent (over HTTP: with no global key), or over HTTP the rejected key was that of
the removed agent and is the global key. -/
theorem removal_keeps_rejections (ops : List AgentRegistry.Op) (agentId : String)
    (apiKey : Option String) (webUi : Bool) (request : HttpRequest) (metadata : Credentials) :
    let r := run AgentRegistry.step .new ops
    let r' := (r.removeById agentId).2
    ((AuthConfig.authMiddleware ⟨apiKey, some r, webUi⟩ request).toOption = none →
      ((AuthConfig.authMiddleware ⟨apiKey, some r', webUi⟩ request).toOption = none ↔
        ¬ (apiKey = none ∧ r'.isEmpty = true) ∧
          ∀ key ∈ request.credentials.extractApiKey,
            r.idToKey.lookup agentId = some key → apiKey ≠ some key)) ∧
    ((authenticate (some r) metadata).toOption = none →
      ((authenticate (some r') metadata).toOption = none ↔ r'.isEmpty = false)) :=
  ⟨authMiddleware_removeById_iff _ agentId apiKey webUi request,
    authenticate_removeById_iff _ agentId metadata⟩

def twoAgents : List AgentRegistry.Op :=
  [.register (AgentRegistry.plainAgent "a" "k1"), .register (AgentRegistry.plainAgent "b" "k2")]

/-- With another agent left, a request without a key stays out. -/
theorem removal_of_first_agent :
    (AuthConfig.authMiddleware ⟨none, some ((run AgentRegistry.step .new twoAgents).removeById
        "a").2, false⟩ ⟨.post, "/query", ⟨none, none⟩⟩).toOption = none ∧
      (authenticate (some ((run AgentRegistry.step .new twoAgents).removeById "a").2)
        ⟨none, none⟩).toOption = none := by
  obtain ⟨hhttp, hgrpc⟩ := removal_keeps_rejections twoAgents "a" none false
    ⟨.post, "/query", ⟨none, none⟩⟩ ⟨none, none⟩
  exact ⟨(hhttp (by decide)).mpr (by decide), (hgrpc (by decide)).mpr (by decide)⟩

/-- The only agent is removed, no global key is set: both transports let everybody in. -/
theorem last_removal_opens_access :
    ¬ ∀ (ops : List AgentRegistry.Op) (agentId : String) (apiKey : Option String) (webUi : Bool)
      (request : HttpRequest) (metadata : Credentials),
      ((AuthConfig.authMiddleware ⟨apiKey, some (run AgentRegistry.step .new ops), webUi⟩
          request).toOption = none →
        (AuthConfig.authMiddleware ⟨apiKey,
          some ((run AgentRegistry.step .new ops).removeById agentId).2, webUi⟩
          request).toOption = none) ∧
      ((authenticate (some (run AgentRegistry.step .new ops)) metadata).toOption = none →
        (authenticate (some ((run AgentRegistry.step .new ops).removeById agentId).2)
          metadata).toOption = none) := by
  intro h
  have hopened := (h [.register (AgentRegistry.plainAgent "a" "k1")] "a" none false
    ⟨.post, "/query", ⟨none, none⟩⟩ ⟨none, none⟩).1 (by decide)
  exact absurd hopened (by decide)

end Conproxy
