import Conproxy.Lib.KeyIndex
import Conproxy.Lib.Machine

/-!
# The agent registry

`AgentRegistry` of `agent.rs`: the agents by API key, and the key of every agent id. The
administrative endpoints register, remove and rotate; the middleware looks keys up. The usage
counters of an agent decide nothing and are left out.
-/

namespace Conproxy

open Machine KeyIndex

set_option autoImplicit false

structure AgentIdentity where
  id : String
  defaultContext : Option String
  allowedContexts : List String
  priorityClass : Nat
deriving DecidableEq

/-- `can_access_context`: an agent without a list may use every context. -/
def AgentIdentity.canAccessContext (a : AgentIdentity) (context : String) : Bool :=
  a.allowedContexts.isEmpty || a.allowedContexts.contains context

/-- A token bucket, in thousandths of a token. -/
structure RateLimiter where
  capacity : Nat
  refillRate : Nat
  tokens : Nat
deriving DecidableEq

namespace RateLimiter

def new (requestsPerSecond burstSize : Nat) : RateLimiter :=
  ⟨burstSize, requestsPerSecond, burstSize * 1000⟩

/-- `try_acquire` on the bucket as the refill left it. -/
def tryAcquire (l : RateLimiter) : Bool := 1000 ≤ l.tokens

end RateLimiter

structure AgentConfig where
  id : String
  apiKey : String
  defaultContext : Option String
  allowedContexts : List String
  priorityClass : Option Nat
  rateLimitRps : Option Nat
  enabled : Bool
deriving DecidableEq

structure AgentEntry where
  identity : AgentIdentity
  rateLimiter : Option RateLimiter
  enabled : Bool
deriving DecidableEq

structure AgentLookup where
  identity : AgentIdentity
  rateLimiter : Option RateLimiter
deriving DecidableEq

structure AgentRegistry where
  agents : AList fun _ : String => AgentEntry
  idToKey : AList fun _ : String => String

def u32Max : Nat := 4294967295

namespace AgentConfig

def identity (c : AgentConfig) : AgentIdentity :=
  ⟨c.id, c.defaultContext, c.allowedContexts, c.priorityClass.getD 0⟩

/-- The burst is twice the rate, and at least one. -/
def rateLimiter (c : AgentConfig) : Option RateLimiter :=
  c.rateLimitRps.map fun rps => .new rps (max (min (rps * 2) u32Max) 1)

def entry (c : AgentConfig) : AgentEntry := ⟨c.identity, c.rateLimiter, c.enabled⟩

end AgentConfig

namespace AgentRegistry

def new : AgentRegistry := ⟨∅, ∅⟩

def register (r : AgentRegistry) (config : AgentConfig) : AgentRegistry where
  agents := r.agents.insert config.apiKey config.entry
  idToKey := r.idToKey.insert config.id config.apiKey

def fromConfig (agents : List AgentConfig) : AgentRegistry := agents.foldl register new

/-- A key that is not registered, or whose agent is disabled, finds nothing. -/
def lookup (r : AgentRegistry) (apiKey : String) : Option AgentLookup :=
  match r.agents.lookup apiKey with
  | some entry => if entry.enabled then some ⟨entry.identity, entry.rateLimiter⟩ else none
  | none => none

def isEmpty (r : AgentRegistry) : Bool := r.agents.entries.isEmpty

def removeById (r : AgentRegistry) (agentId : String) : Bool × AgentRegistry :=
  match r.idToKey.lookup agentId with
  | some key => (true, ⟨r.agents.erase key, r.idToKey.erase agentId⟩)
  | none => (false, r)

def rotateKey (r : AgentRegistry) (agentId newKey : String) : Bool × AgentRegistry :=
  match r.idToKey.lookup agentId with
  | none => (false, r)
  | some oldKey =>
    match r.agents.lookup oldKey with
    | some entry =>
      (true, ⟨(r.agents.erase oldKey).insert newKey entry, r.idToKey.insert agentId newKey⟩)
    | none => (false, r)

inductive Op where
  | register (config : AgentConfig)
  | removeById (agentId : String)
  | rotateKey (agentId newKey : String)

/-- The agent an operation is about. -/
def Op.agentId : Op → String
  | .register config => config.id
  | .removeById agentId => agentId
  | .rotateKey agentId _ => agentId

def step (r : AgentRegistry) : Op → AgentRegistry
  | .register config => r.register config
  | .removeById agentId => (r.removeById agentId).2
  | .rotateKey agentId newKey => (r.rotateKey agentId newKey).2

def KeyFreeFor (r : AgentRegistry) (agentId key : String) : Prop :=
  ∀ entry ∈ r.agents.lookup key, entry.identity.id = agentId

instance (r : AgentRegistry) (agentId key : String) : Decidable (r.KeyFreeFor agentId key) :=
  inferInstanceAs (Decidable (∀ entry ∈ r.agents.lookup key, entry.identity.id = agentId))

/-- A registration brings a new id, or the id's own key again, and the key of no other agent.
A rotation does not take the key of another agent. -/
def Admissible (r : AgentRegistry) : Op → Prop
  | .register config =>
    (∀ key ∈ r.idToKey.lookup config.id, key = config.apiKey) ∧
      r.KeyFreeFor config.id config.apiKey
  | .removeById _ => True
  | .rotateKey agentId newKey =>
    (r.idToKey.lookup agentId).isSome → r.KeyFreeFor agentId newKey

instance (r : AgentRegistry) : ∀ op, Decidable (r.Admissible op)
  | .register config => inferInstanceAs (Decidable
      ((∀ key ∈ r.idToKey.lookup config.id, key = config.apiKey) ∧ r.KeyFreeFor config.id _))
  | .removeById _ => inferInstanceAs (Decidable True)
  | .rotateKey agentId newKey => inferInstanceAs (Decidable
      ((r.idToKey.lookup agentId).isSome → r.KeyFreeFor agentId newKey))

/-- `agents` and `id_to_key` are inverse to each other. -/
def Consistent (r : AgentRegistry) : Prop :=
  Inverse (fun entry : AgentEntry => entry.identity.id) r.agents r.idToKey

def Authenticates (r : AgentRegistry) (key agentId : String) : Prop :=
  ∃ found, r.lookup key = some found ∧ found.identity.id = agentId

theorem authenticates_iff (r : AgentRegistry) (key agentId : String) :
    r.Authenticates key agentId ↔
      ∃ entry, r.agents.lookup key = some entry ∧ entry.enabled = true ∧
        entry.identity.id = agentId := by
  unfold Authenticates lookup
  cases r.agents.lookup key with
  | none => simp
  | some entry =>
    cases he : entry.enabled with
    | false => simp [he]
    | true => simp [he]

variable {r : AgentRegistry}

theorem removeById_eq_true {agentId : String} {r' : AgentRegistry}
    (h : r.removeById agentId = (true, r')) :
    ∃ key, r.idToKey.lookup agentId = some key ∧
      r' = ⟨r.agents.erase key, r.idToKey.erase agentId⟩ := by
  unfold removeById at h
  cases hl : r.idToKey.lookup agentId with
  | none => simp [hl] at h
  | some key =>
    simp only [hl, Prod.mk.injEq, true_and] at h
    exact ⟨key, rfl, h.symm⟩

theorem rotateKey_eq_true {agentId newKey : String} {r' : AgentRegistry}
    (h : r.rotateKey agentId newKey = (true, r')) :
    ∃ oldKey entry, r.idToKey.lookup agentId = some oldKey ∧
      r.agents.lookup oldKey = some entry ∧
      r' = ⟨(r.agents.erase oldKey).insert newKey entry, r.idToKey.insert agentId newKey⟩ := by
  unfold rotateKey at h
  cases hl : r.idToKey.lookup agentId with
  | none => simp [hl] at h
  | some oldKey =>
    cases he : r.agents.lookup oldKey with
    | none => simp [hl, he] at h
    | some entry =>
      simp only [hl, he, Prod.mk.injEq, true_and] at h
      exact ⟨oldKey, entry, rfl, he, h.symm⟩

theorem step_cases (r : AgentRegistry) (op : Op) :
    (∃ config, op = .register config ∧ r.step op = r.register config) ∨
    (∃ agentId, op = .removeById agentId ∧ r.removeById agentId = (true, r.step op)) ∨
    (∃ agentId newKey, op = .rotateKey agentId newKey ∧
      r.rotateKey agentId newKey = (true, r.step op)) ∨
    r.step op = r := by
  cases op with
  | register config => exact Or.inl ⟨config, rfl, rfl⟩
  | removeById agentId =>
    cases hl : r.idToKey.lookup agentId with
    | none => simp [step, removeById, hl]
    | some key => exact Or.inr (Or.inl ⟨agentId, rfl, by simp [step, removeById, hl]⟩)
  | rotateKey agentId newKey =>
    cases hl : r.idToKey.lookup agentId with
    | none => simp [step, rotateKey, hl]
    | some oldKey =>
      cases he : r.agents.lookup oldKey with
      | none => simp [step, rotateKey, hl, he]
      | some entry =>
        exact Or.inr (Or.inr (Or.inl ⟨agentId, newKey, rfl, by simp [step, rotateKey, hl, he]⟩))

theorem consistent_register (hr : r.Consistent) {config : AgentConfig}
    (h : r.Admissible (.register config)) : (r.register config).Consistent :=
  Inverse.insert hr config.entry config.apiKey h.1 h.2

theorem consistent_removeById (hr : r.Consistent) {agentId : String} {r' : AgentRegistry}
    (h : r.removeById agentId = (true, r')) : r'.Consistent := by
  obtain ⟨key, hl, rfl⟩ := removeById_eq_true h
  exact Inverse.erase hr hl

theorem consistent_rotateKey (hr : r.Consistent) {agentId newKey : String} {r' : AgentRegistry}
    (hok : r.Admissible (.rotateKey agentId newKey))
    (h : r.rotateKey agentId newKey = (true, r')) : r'.Consistent := by
  obtain ⟨oldKey, entry, hl, hentry, rfl⟩ := rotateKey_eq_true h
  have howner : entry.identity.id = agentId := by
    obtain ⟨e, hlookup, he⟩ := (hr agentId oldKey).mp hl
    rw [hentry] at hlookup
    cases hlookup
    exact he
  have hfree := hok (by simp [hl])
  have hmoved : Inverse (fun e : AgentEntry => e.identity.id)
      ((r.agents.erase oldKey).insert newKey entry)
      ((r.idToKey.erase agentId).insert entry.identity.id newKey) := by
    apply Inverse.insert (Inverse.erase hr hl)
    · intro key hkey
      rw [howner, AList.lookup_erase] at hkey
      cases hkey
    · intro e' he'
      by_cases hk : newKey = oldKey
      · rw [hk, AList.lookup_erase] at he'
        cases he'
      · rw [AList.lookup_erase_ne hk] at he'
        exact (hfree e' he').trans howner.symm
  apply hmoved.congr
  intro i
  simp only [howner]
  by_cases hi : i = agentId
  · rw [hi, AList.lookup_insert, AList.lookup_insert]
  · rw [AList.lookup_insert_ne hi, AList.lookup_insert_ne hi, AList.lookup_erase_ne hi]

theorem consistent_step (r : AgentRegistry) (op : Op) (hok : r.Admissible op)
    (hr : r.Consistent) : (r.step op).Consistent := by
  rcases step_cases r op with ⟨config, rfl, h⟩ | ⟨agentId, rfl, h⟩ | ⟨agentId, newKey, rfl, h⟩ | h
  · rw [h]
    exact consistent_register hr hok
  · exact consistent_removeById hr h
  · exact consistent_rotateKey hr hok h
  · rw [h]
    exact hr

/-- A key authenticates as before if its entry is untouched, or is another agent's before and
after. -/
theorem authenticates_congr {r' : AgentRegistry} {key other : String}
    (h : r'.agents.lookup key = r.agents.lookup key ∨
      (∀ e, r.agents.lookup key = some e → e.identity.id ≠ other) ∧
        ∀ e, r'.agents.lookup key = some e → e.identity.id ≠ other) :
    r'.Authenticates key other ↔ r.Authenticates key other := by
  rw [authenticates_iff, authenticates_iff]
  rcases h with h | ⟨hbefore, hafter⟩
  · rw [h]
  · constructor
    · rintro ⟨e, hl, -, hid⟩
      exact absurd hid (hafter e hl)
    · rintro ⟨e, hl, -, hid⟩
      exact absurd hid (hbefore e hl)

theorem step_authenticates_other (hr : r.Consistent) {op : Op} (hok : r.Admissible op)
    {other : String} (hother : other ≠ op.agentId) (key : String) :
    (r.step op).Authenticates key other ↔ r.Authenticates key other := by
  rcases step_cases r op with ⟨config, rfl, h⟩ | ⟨agentId, rfl, h⟩ | ⟨agentId, newKey, rfl, h⟩ | h
  · apply authenticates_congr
    rw [h]
    by_cases hk : key = config.apiKey
    · subst hk
      refine Or.inr ⟨fun e he hid => hother (hid.symm.trans (hok.2 e he)), ?_⟩
      intro e he hid
      rw [register, AList.lookup_insert] at he
      cases he
      exact hother hid.symm
    · exact Or.inl (AList.lookup_insert_ne hk)
  · obtain ⟨removed, hl, hr'⟩ := removeById_eq_true h
    obtain ⟨entry, hentry, howner⟩ := (hr agentId removed).mp hl
    apply authenticates_congr
    rw [hr']
    by_cases hk : key = removed
    · subst hk
      refine Or.inr ⟨?_, fun e he => by simp at he⟩
      intro e he hid
      rw [hentry] at he
      cases he
      exact hother (hid.symm.trans howner)
    · exact Or.inl (AList.lookup_erase_ne hk)
  · obtain ⟨oldKey, entry, hl, hentry, hr'⟩ := rotateKey_eq_true h
    have hown : ∀ e, r.agents.lookup oldKey = some e → e.identity.id = agentId := by
      obtain ⟨e', he', howner⟩ := (hr agentId oldKey).mp hl
      intro e he
      rw [he'] at he
      cases he
      exact howner
    have hfree := hok (by simp [hl])
    apply authenticates_congr
    rw [hr']
    by_cases hnew : key = newKey
    · subst hnew
      refine Or.inr ⟨fun e he hid => hother (hid.symm.trans (hfree e he)), ?_⟩
      intro e he hid
      rw [AList.lookup_insert] at he
      cases he
      exact hother (hid.symm.trans (hown _ hentry))
    · by_cases hold : key = oldKey
      · subst hold
        refine Or.inr ⟨fun e he hid => hother (hid.symm.trans (hown e he)), ?_⟩
        intro e he
        rw [AList.lookup_insert_ne hnew, AList.lookup_erase] at he
        cases he
      · exact Or.inl ((AList.lookup_insert_ne hnew).trans (AList.lookup_erase_ne hold))
  · rw [h]

theorem removeById_revokes (hr : r.Consistent) {agentId : String} {r' : AgentRegistry}
    (h : r.removeById agentId = (true, r')) (key : String) : ¬ r'.Authenticates key agentId := by
  have hr' := consistent_removeById hr h
  obtain ⟨removed, -, rfl⟩ := removeById_eq_true h
  rw [authenticates_iff]
  rintro ⟨entry, hl, -, hid⟩
  have hkey := (hr' agentId key).mpr ⟨entry, hl, hid⟩
  rw [AList.lookup_erase] at hkey
  cases hkey

theorem rotateKey_revokes (hr : r.Consistent) {agentId newKey : String} {r' : AgentRegistry}
    (hok : r.Admissible (.rotateKey agentId newKey))
    (h : r.rotateKey agentId newKey = (true, r')) {key : String}
    (hkey : r'.Authenticates key agentId) : key = newKey := by
  have hr' := consistent_rotateKey hr hok h
  obtain ⟨oldKey, entry, -, -, rfl⟩ := rotateKey_eq_true h
  obtain ⟨e, hl, -, hid⟩ := (authenticates_iff _ _ _).mp hkey
  have hindex := (hr' agentId key).mpr ⟨e, hl, hid⟩
  rw [AList.lookup_insert] at hindex
  exact (Option.some.inj hindex).symm

/-- In every state of a run of admissible operations the two maps are inverse. A removal
leaves no key of the agent, a rotation only the new one, and no operation touches the keys of
another agent. -/
theorem revocation_complete (ops : List Op) (hops : AllSteps step Admissible new ops) :
    (run step new ops).Consistent ∧
    (∀ agentId r', (run step new ops).removeById agentId = (true, r') →
      ∀ key, ¬ r'.Authenticates key agentId) ∧
    (∀ agentId newKey r', (run step new ops).Admissible (.rotateKey agentId newKey) →
      (run step new ops).rotateKey agentId newKey = (true, r') →
      ∀ key, r'.Authenticates key agentId → key = newKey) ∧
    ∀ op, (run step new ops).Admissible op → ∀ other, other ≠ op.agentId → ∀ key,
      (((run step new ops).step op).Authenticates key other ↔
        (run step new ops).Authenticates key other) := by
  have hnew : Consistent new := Inverse.empty
  have hinv : (run step new ops).Consistent := run_invariant consistent_step hnew hops
  refine ⟨hinv, ?_, ?_, ?_⟩
  · intro agentId r' h key
    exact removeById_revokes hinv h key
  · intro agentId newKey r' hok h key hkey
    exact rotateKey_revokes hinv hok h hkey
  · intro op hok other hother key
    exact step_authenticates_other hinv hok hother key

def plainAgent (id apiKey : String) : AgentConfig := ⟨id, apiKey, none, [], none, none, true⟩

def rotatedThenSecond : List Op :=
  [.register (plainAgent "a" "k1"), .rotateKey "a" "k2", .register (plainAgent "b" "k1")]

/-- The old key of `a` is free after the rotation, so `b` may have it. -/
theorem revocation_after_rotation :
    (run step new rotatedThenSecond).Consistent ∧
      ∀ key, ¬ ((run step new rotatedThenSecond).removeById "a").2.Authenticates key "a" := by
  have hops : AllSteps step Admissible new rotatedThenSecond := by decide
  obtain ⟨hconsistent, hremoved, -, -⟩ := revocation_complete rotatedThenSecond hops
  exact ⟨hconsistent, hremoved "a" _ rfl⟩

/-- `a` is registered again with a second key and then removed: the first key stays valid. -/
theorem removed_agent_authenticates :
    ((run step new [.register (plainAgent "a" "k1"), .register (plainAgent "a" "k2")]).removeById
      "a").1 = true ∧
    ((run step new [.register (plainAgent "a" "k1"), .register (plainAgent "a" "k2"),
      .removeById "a"]).lookup "k1").map (fun found => found.identity.id) = some "a" := by
  decide

end AgentRegistry

end Conproxy
