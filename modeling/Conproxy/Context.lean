import Conproxy.Lib.Leaders
import Conproxy.Lib.Machine
import Conproxy.Lib.WeightedTable
import Conproxy.Config

/-!
# Contexts and their policies

`ContextManager` of `context.rs`: the active contexts, the current one, and the policy that
the configuration installed for a context. Any client id creates a context, and a full table
evicts the contexts that were used least recently. Statistics and timestamps of the wall clock
are left out.
-/

namespace Conproxy

open Machine

set_option autoImplicit false

structure ContextPolicy where
  scopeFilter : ScopeFilter
  scope : ProxyScopeConfig
  cache : ContextCacheConfig
  cascade : CascadeConfig
  federated : FederatedConfig
deriving DecidableEq

def ContextPolicy.fromResolved (u : CaseTables) (ctx : ResolvedContext) : ContextPolicy :=
  ⟨ScopeFilter.fromConfig u ctx.scope, ctx.scope, ctx.cache, ctx.cascade, ctx.federated⟩

structure ContextMetadata where
  id : String
  upstreamUrl : String
  collection : String
  description : Option String
deriving DecidableEq

structure ContextCache where
  metadata : ContextMetadata
  lastAccess : Nat
  policy : Option ContextPolicy
deriving DecidableEq

structure ContextConfig where
  defaultContext : String
  maxActiveContexts : Nat
  autoCreate : Bool
deriving DecidableEq

def ContextConfig.default : ContextConfig := ⟨"default", 10, true⟩

structure ContextManager where
  active : AList fun _ : String => ContextCache
  current : String
  config : ContextConfig

inductive ContextError where
  | notFound (id : String)
  | alreadyExists (id : String)
  | cannotDeleteDefault
deriving DecidableEq

/-- An iteration order of the active contexts. -/
structure ContextScan where
  order : List (String × ContextCache) → List (String × ContextCache)
  perm : ∀ l, (order l).Perm l

def ContextScan.stored : ContextScan := ⟨id, List.Perm.refl⟩

namespace ContextManager

def newContext (now : Nat) (id upstreamUrl collection : String) : ContextCache :=
  ⟨⟨id, upstreamUrl, collection, none⟩, now, none⟩

def new (now : Nat) (config : ContextConfig) : ContextManager where
  active := (∅ : AList fun _ : String => ContextCache).insert config.defaultContext
    (newContext now config.defaultContext "" "")
  current := config.defaultContext
  config := config

def get (m : ContextManager) (id : String) : Option ContextMetadata :=
  (m.active.lookup id).map ContextCache.metadata

def policyFor (m : ContextManager) (id : String) : Option ContextPolicy :=
  (m.active.lookup id).bind ContextCache.policy

def scopeFilterFor (m : ContextManager) (id : String) : Option ScopeFilter :=
  (m.policyFor id).map ContextPolicy.scopeFilter

def create (m : ContextManager) (now : Nat) (id upstreamUrl collection : String) :
    Except ContextError ContextManager :=
  if id ∈ m.active then .error (.alreadyExists id)
  else .ok { m with active := m.active.insert id (newContext now id upstreamUrl collection) }

def touch (m : ContextManager) (now : Nat) (id : String) : ContextManager :=
  match m.active.lookup id with
  | some c => { m with active := m.active.insert id { c with lastAccess := now } }
  | none => m

def iter (m : ContextManager) (scan : ContextScan) : List (String × ContextCache) :=
  scan.order (m.active.entries.map fun e => (e.1, e.2))

def activeCount (m : ContextManager) : Nat := m.active.keys.length

/-- The contexts that may be evicted, least recently used first. -/
def candidates (m : ContextManager) (scan : ContextScan) : List String :=
  let others := (m.iter scan).filter fun c =>
    c.1 ≠ m.current && c.1 ≠ m.config.defaultContext
  ((others.map fun c => (c.1, c.2.lastAccess)).insertionSort fun a b => a.2 ≤ b.2).map Prod.fst

def evictees (m : ContextManager) (scan : ContextScan) : List String :=
  (m.candidates scan).take (m.activeCount - m.config.maxActiveContexts)

def removeContexts (m : ContextManager) (ids : List String) : ContextManager :=
  { m with active := ids.foldl (fun active id => active.erase id) m.active }

def maybeEvict (m : ContextManager) (scan : ContextScan) : ContextManager :=
  if m.activeCount ≤ m.config.maxActiveContexts then m else m.removeContexts (m.evictees scan)

/-- An unknown context is created without a policy, if the configuration allows it. -/
def createMissing (m : ContextManager) (now : Nat) (id : String) :
    Except ContextError ContextManager :=
  if id ∈ m.active then .ok m
  else if m.config.autoCreate then
    match m.create now id "" "" with
    | .ok m' => .ok m'
    | .error (.alreadyExists _) => .ok m
    | .error e => .error e
  else .error (.notFound id)

/-- `switch` up to the eviction. -/
def enter (m : ContextManager) (now : Nat) (id : String) : Except ContextError ContextManager :=
  match m.createMissing now id with
  | .ok m' => .ok { m'.touch now id with current := id }
  | .error e => .error e

def switch (m : ContextManager) (scan : ContextScan) (now : Nat) (id : String) :
    Except ContextError ContextManager :=
  match m.enter now id with
  | .ok m' => .ok (m'.maybeEvict scan)
  | .error e => .error e

/-- What every query entry point does first: switch to a context that does not exist. A
failure is logged. -/
def ensure (m : ContextManager) (scan : ContextScan) (now : Nat) (id : String) :
    ContextManager :=
  if (m.get id).isNone then (m.switch scan now id).toOption.getD m else m

def delete (m : ContextManager) (id : String) : Except ContextError ContextManager :=
  if id = m.config.defaultContext then .error .cannotDeleteDefault
  else if id ∈ m.active then
    .ok { m with
      active := m.active.erase id
      current := if m.current = id then m.config.defaultContext else m.current }
  else .error (.notFound id)

variable (u : CaseTables)

/-- One resolved context: its policy replaces that of the active context, or comes with a new
one. -/
def installOne (now : Nat) (m : ContextManager) (ctx : ResolvedContext) : ContextManager :=
  let policy := ContextPolicy.fromResolved u ctx
  match m.active.lookup ctx.id with
  | some c =>
    { m with
      active := m.active.insert ctx.id
        { c with
          policy := some policy
          metadata := { c.metadata with
            description := ctx.description <|> c.metadata.description }
          lastAccess := now } }
  | none =>
    let url := (ctx.legs.head?.map fun leg => leg.endpoint.url).getD ""
    let collection := (ctx.legs.head?.bind fun leg => leg.endpoint.index).getD ""
    { m with
      active := m.active.insert ctx.id
        ⟨⟨ctx.id, url, collection, ctx.description⟩, now, some policy⟩ }

def resolvedDefault (resolved : List ResolvedContext) : String :=
  ((resolved.find? ResolvedContext.isDefault).map ResolvedContext.id).getD "default"

def installResolved (m : ContextManager) (now : Nat) (resolved : List ResolvedContext) :
    ContextManager :=
  let m := resolved.foldl (installOne u now) m
  if resolvedDefault resolved ∈ m.active then { m with current := resolvedDefault resolved }
  else m

/-- The policy that an installation gives to an id: the last context with that id counts. -/
def installedPolicy (resolved : List ResolvedContext) (id : String) : Option ContextPolicy :=
  (resolved.reverse.find? fun ctx => ctx.id = id).map (ContextPolicy.fromResolved u)

variable {u} {m : ContextManager}

theorem lookup_installOne (now : Nat) (m : ContextManager) (ctx : ResolvedContext)
    (id : String) :
    (installOne u now m ctx).policyFor id =
      if ctx.id = id then some (ContextPolicy.fromResolved u ctx) else m.policyFor id := by
  unfold installOne policyFor
  by_cases hid : ctx.id = id
  · subst hid
    cases m.active.lookup ctx.id with
    | none => simp
    | some c => simp
  · have hne : id ≠ ctx.id := Ne.symm hid
    cases m.active.lookup ctx.id with
    | none => simp [hid, AList.lookup_insert_ne hne]
    | some c => simp [hid, AList.lookup_insert_ne hne]

theorem policyFor_foldl_installOne (now : Nat) (resolved : List ResolvedContext)
    (m : ContextManager) (id : String) :
    (resolved.foldl (installOne u now) m).policyFor id =
      (installedPolicy u resolved id <|> m.policyFor id) := by
  induction resolved generalizing m with
  | nil => simp [installedPolicy]
  | cons ctx rest ih =>
    rw [List.foldl_cons, ih, lookup_installOne]
    unfold installedPolicy
    rw [List.reverse_cons, List.find?_append]
    cases rest.reverse.find? fun c => c.id = id with
    | some c => simp
    | none =>
      by_cases hid : ctx.id = id
      · simp [hid]
      · simp [hid]

theorem policyFor_installResolved (m : ContextManager) (now : Nat)
    (resolved : List ResolvedContext) (id : String) :
    (m.installResolved u now resolved).policyFor id =
      (installedPolicy u resolved id <|> m.policyFor id) := by
  rw [← policyFor_foldl_installOne now resolved m id]
  unfold installResolved
  dsimp only
  split <;> rfl

theorem policyFor_touch (m : ContextManager) (now : Nat) (touched id : String) :
    (m.touch now touched).policyFor id = m.policyFor id := by
  unfold touch policyFor
  cases hl : m.active.lookup touched with
  | none => rfl
  | some c =>
    by_cases hid : id = touched
    · subst hid
      simp [hl]
    · simp [AList.lookup_insert_ne hid]

theorem policyFor_create {now : Nat} {created url collection : String} {m' : ContextManager}
    (h : m.create now created url collection = .ok m') (id : String) :
    m'.policyFor id = m.policyFor id := by
  unfold create at h
  split at h
  · cases h
  · rename_i hnew
    cases h
    unfold policyFor
    by_cases hid : id = created
    · subst hid
      have hnone : m.active.lookup id = none := AList.lookup_eq_none.mpr hnew
      simp [newContext, hnone]
    · simp [AList.lookup_insert_ne hid]

theorem policyFor_createMissing {now : Nat} {entered : String} {m' : ContextManager}
    (h : m.createMissing now entered = .ok m') (id : String) :
    m'.policyFor id = m.policyFor id := by
  unfold createMissing at h
  split at h
  · cases h
    rfl
  · split at h
    · split at h
      · rename_i m₁ hcreate
        cases h
        exact policyFor_create hcreate id
      · cases h
        rfl
      · cases h
    · cases h

theorem policyFor_enter {now : Nat} {entered : String} {m' : ContextManager}
    (h : m.enter now entered = .ok m') (id : String) : m'.policyFor id = m.policyFor id := by
  unfold enter at h
  split at h
  · rename_i m₁ hm₁
    cases h
    exact (policyFor_touch m₁ now entered id).trans (policyFor_createMissing hm₁ id)
  · cases h

theorem policyFor_maybeEvict (m : ContextManager) (scan : ContextScan) (id : String) :
    (m.maybeEvict scan).policyFor id =
      if id ∈ m.evictees scan then none else m.policyFor id := by
  unfold maybeEvict
  split
  · rename_i hroom
    have hnone : m.evictees scan = [] := by
      unfold evictees
      rw [Nat.sub_eq_zero_of_le hroom, List.take_zero]
    simp [hnone]
  · unfold policyFor removeContexts
    rw [WeightedTable.lookup_foldl_erase]
    split
    · rfl
    · rfl

inductive Op where
  | switch (id : String)
  | create (id upstreamUrl collection : String)
  /-- A query, a batch or a federated query of the context. -/
  | query (id : String)
  | delete (id : String)
deriving DecidableEq

structure Call where
  now : Nat
  scan : ContextScan
  op : Op

def step (m : ContextManager) (call : Call) : ContextManager :=
  match call.op with
  | .switch id => (m.switch call.scan call.now id).toOption.getD m
  | .create id upstreamUrl collection =>
    (m.create call.now id upstreamUrl collection).toOption.getD m
  | .query id => m.ensure call.scan call.now id
  | .delete id => (m.delete id).toOption.getD m

def Call.enters (m : ContextManager) (call : Call) : Option String :=
  match call.op with
  | .switch id => some id
  | .query id => if (m.get id).isNone then some id else none
  | _ => none

/-- Switching to `entered` evicts the context: it is among the least recently used ones that no
longer fit. -/
def switchEvicts (m : ContextManager) (scan : ContextScan) (now : Nat) (entered id : String) :
    Bool :=
  match m.enter now entered with
  | .ok m' => (m'.evictees scan).contains id
  | .error _ => false

def evicts (m : ContextManager) (call : Call) (id : String) : Bool :=
  match call.enters m with
  | some entered => m.switchEvicts call.scan call.now entered id
  | none => false

theorem policyFor_switch (m : ContextManager) (scan : ContextScan) (now : Nat)
    (entered id : String) :
    ((m.switch scan now entered).toOption.getD m).policyFor id =
      if m.switchEvicts scan now entered id then none else m.policyFor id := by
  unfold switch switchEvicts
  cases henter : m.enter now entered with
  | error e => rfl
  | ok m' =>
    have hpolicy := policyFor_maybeEvict m' scan id
    rw [policyFor_enter henter id] at hpolicy
    simpa [Except.toOption] using hpolicy

theorem policyFor_delete (m : ContextManager) {deleted id : String} (hid : id ≠ deleted) :
    ((m.delete deleted).toOption.getD m).policyFor id = m.policyFor id := by
  unfold delete
  split
  · rfl
  · split
    · simp [Except.toOption, policyFor, AList.lookup_erase_ne hid]
    · rfl

/-- No call but an installation gives a context a policy, and only an eviction or the deletion
of the context takes it away. -/
theorem policyFor_step (m : ContextManager) (call : Call) (id : String)
    (hdelete : call.op ≠ .delete id) :
    (m.step call).policyFor id = if m.evicts call id then none else m.policyFor id := by
  rcases call with ⟨now, scan, op⟩
  cases op with
  | switch entered =>
    exact policyFor_switch m scan now entered id
  | create created url collection =>
    simp only [step, evicts, Call.enters, Bool.false_eq_true, if_false]
    cases hcreate : m.create now created url collection with
    | ok m' => exact policyFor_create hcreate id
    | error e => rfl
  | query entered =>
    simp only [step, evicts, Call.enters, ensure]
    split
    · exact policyFor_switch m scan now entered id
    · simp
  | delete deleted =>
    simp only [step, evicts, Call.enters, Bool.false_eq_true, if_false]
    apply policyFor_delete
    rintro rfl
    exact hdelete rfl

/-! ## Which contexts a switch may evict -/

/-- How many contexts are above the limit once the entered one is active. -/
def excess (m : ContextManager) (entered : String) : Nat :=
  m.activeCount + (if entered ∈ m.active then 0 else 1) - m.config.maxActiveContexts

/-- How many contexts that a switch to `entered` does not spare were last accessed before a
time. -/
def accessedBefore (m : ContextManager) (entered : String) (time : Nat) : Nat :=
  m.active.entries.countP fun e =>
    (e.1 ≠ entered && e.1 ≠ m.config.defaultContext) && e.2.lastAccess < time

/-- The context is active, a switch to `entered` does not spare it, and fewer contexts were last
accessed before it than are above the limit. -/
def crowdedOut (m : ContextManager) (entered id : String) : Bool :=
  (id ≠ entered && id ≠ m.config.defaultContext) &&
    (m.active.lookup id).any fun c => m.accessedBefore entered c.lastAccess < m.excess entered

/-- The call switches to a context that is there or may be created, and crowds out another one. -/
def crowdsOut (m : ContextManager) (call : Call) (id : String) : Bool :=
  (call.enters m).any fun entered =>
    (entered ∈ m.active || m.config.autoCreate) && m.crowdedOut entered id

def startingAt (id : String) : ContextScan where
  order l := l.filter (fun c => c.1 = id) ++ l.filter fun c => !decide (c.1 = id)
  perm l := List.filter_append_perm (fun c => decide (c.1 = id)) l

/-- The order of the evictions. -/
def Earlier (a b : String × Nat) : Prop := a.2 ≤ b.2

instance : DecidableRel Earlier := fun a b => inferInstanceAs (Decidable (a.2 ≤ b.2))

instance : Std.Total Earlier := ⟨fun a b => Nat.le_total a.2 b.2⟩

instance : IsTrans (String × Nat) Earlier := ⟨fun _ _ _ hab hbc => Nat.le_trans hab hbc⟩

/-- What may be evicted, with the times of the last access, in the order of the iteration. -/
def accesses (m : ContextManager) (scan : ContextScan) : List (String × Nat) :=
  ((m.iter scan).filter fun c => c.1 ≠ m.current && c.1 ≠ m.config.defaultContext).map
    fun c => (c.1, c.2.lastAccess)

theorem candidates_eq (m : ContextManager) (scan : ContextScan) :
    m.candidates scan = ((m.accesses scan).insertionSort Earlier).map Prod.fst := rfl

theorem mem_iter_iff {scan : ContextScan} {c : String × ContextCache} :
    c ∈ m.iter scan ↔ m.active.lookup c.1 = some c.2 := by
  unfold iter
  rw [(scan.perm _).mem_iff, List.mem_map, ← Option.mem_def, AList.mem_lookup_iff]
  constructor
  · rintro ⟨e, he, rfl⟩
    exact he
  · intro hc
    exact ⟨_, hc, rfl⟩

theorem iter_startingAt {id : String} {c : ContextCache} (hl : m.active.lookup id = some c) :
    ∃ rest, m.iter (startingAt id) = (id, c) :: rest := by
  have hin : (id, c) ∈ m.iter (startingAt id) := mem_iter_iff.2 hl
  have hiter : m.iter (startingAt id) =
      (m.active.entries.map fun e => (e.1, e.2)).filter (fun c => c.1 = id) ++
        (m.active.entries.map fun e => (e.1, e.2)).filter fun c => !decide (c.1 = id) := rfl
  cases hfront : (m.active.entries.map fun e => (e.1, e.2)).filter (fun c => c.1 = id) with
  | nil =>
    rw [hiter, hfront, List.nil_append, List.mem_filter] at hin
    simp at hin
  | cons x xs =>
    rw [hfront, List.cons_append] at hiter
    have hx : x ∈ m.iter (startingAt id) := by
      rw [hiter]
      exact List.mem_cons_self
    have hmem : x ∈ (m.active.entries.map fun e => (e.1, e.2)).filter fun c => c.1 = id := by
      rw [hfront]
      exact List.mem_cons_self
    have hkey : x.1 = id := by simpa using (List.mem_filter.1 hmem).2
    have hcache := mem_iter_iff.1 hx
    rw [hkey, hl] at hcache
    obtain rfl : x = (id, c) := Prod.ext hkey (Option.some.inj hcache).symm
    exact ⟨_, hiter⟩

theorem mem_candidates (scan : ContextScan) (id : String) :
    id ∈ m.candidates scan ↔
      id ∈ m.active ∧ id ≠ m.current ∧ id ≠ m.config.defaultContext := by
  have hmem : id ∈ m.active ↔ ∃ c, m.active.lookup id = some c := by
    rw [← AList.lookup_isSome, Option.isSome_iff_exists]
  simp only [candidates, List.mem_map, List.mem_insertionSort, List.mem_filter, mem_iter_iff, hmem]
  constructor
  · rintro ⟨_, ⟨c, ⟨hc, hne⟩, rfl⟩, rfl⟩
    simp only [ne_eq, decide_not, Bool.and_eq_true, Bool.not_eq_eq_eq_not, Bool.not_true,
      decide_eq_false_iff_not] at hne
    exact ⟨⟨c.2, hc⟩, hne⟩
  · rintro ⟨⟨c, hc⟩, hcurrent, hdefault⟩
    exact ⟨_, ⟨(id, c), ⟨hc, by simp [hcurrent, hdefault]⟩, rfl⟩, rfl⟩

theorem mem_of_mem_evictees {scan : ContextScan} {id : String} (h : id ∈ m.evictees scan) :
    id ∈ m.active ∧ id ≠ m.current ∧ id ≠ m.config.defaultContext :=
  (mem_candidates scan id).1 (List.mem_of_mem_take h)

theorem ahead_accesses (m : ContextManager) (scan : ContextScan) (id : String) (time : Nat) :
    Leaders.ahead Earlier (id, time) (m.accesses scan) = m.accessedBefore m.current time := by
  have hperm := ((scan.perm (m.active.entries.map fun e => (e.1, e.2))).filter
    fun c => c.1 ≠ m.current && c.1 ≠ m.config.defaultContext).map
      fun c => (c.1, c.2.lastAccess)
  rw [accesses, iter, Leaders.ahead_perm hperm, Leaders.ahead, accessedBefore, List.countP_map,
    List.countP_filter, List.countP_map]
  refine List.countP_congr fun e _ => ?_
  simp [Earlier, and_comm, and_assoc]

/-- With some iteration order a context that may be evicted is, exactly if fewer others were
accessed before it than are above the limit. -/
theorem exists_mem_evictees_iff {id : String} {c : ContextCache}
    (hl : m.active.lookup id = some c) (hcurrent : id ≠ m.current)
    (hdefault : id ≠ m.config.defaultContext) :
    (∃ scan, id ∈ m.evictees scan) ↔
      m.accessedBefore m.current c.lastAccess < m.activeCount - m.config.maxActiveContexts := by
  constructor
  · rintro ⟨scan, hid⟩
    rw [evictees, candidates_eq, ← List.map_take, List.mem_map] at hid
    obtain ⟨x, hx, rfl⟩ := hid
    obtain ⟨c', hc', rfl⟩ := List.mem_map.1
      ((List.mem_insertionSort Earlier).1 (List.mem_of_mem_take hx))
    have hl' := mem_iter_iff.1 (List.mem_filter.1 hc').1
    obtain rfl : c = c'.2 := Option.some.inj (hl.symm.trans hl')
    rw [← ahead_accesses m scan c'.1]
    exact Leaders.ahead_lt_of_mem_take hx
  · intro hlt
    obtain ⟨rest, hrest⟩ := iter_startingAt hl
    refine ⟨startingAt id, ?_⟩
    have haccesses : m.accesses (startingAt id) = (id, c.lastAccess) ::
        ((rest.filter fun c => c.1 ≠ m.current && c.1 ≠ m.config.defaultContext).map
          fun c => (c.1, c.2.lastAccess)) := by
      rw [accesses, hrest, List.filter_cons_of_pos (by simp [hcurrent, hdefault]), List.map_cons]
    rw [← ahead_accesses m (startingAt id) id, haccesses, Leaders.ahead,
      List.countP_cons_of_neg (by simp [Earlier])] at hlt
    rw [evictees, candidates_eq, haccesses, ← List.map_take]
    exact List.mem_map.2 ⟨_, Leaders.mem_take_of_ahead_lt hlt, rfl⟩

/-- A switch puts the context into the table, or touches it there, before it evicts. -/
theorem enter_eq {now : Nat} {entered : String} {m' : ContextManager}
    (h : m.enter now entered = .ok m') :
    ∃ c, m' = { m with active := m.active.insert entered c, current := entered } := by
  unfold enter createMissing create at h
  split at h
  · rename_i m₁ hcreated
    cases h
    split at hcreated
    · rename_i hmem
      cases hcreated
      obtain ⟨c, hl⟩ := WeightedTable.lookup_of_mem _ hmem
      unfold touch
      rw [hl]
      exact ⟨_, rfl⟩
    · split at hcreated
      · cases hcreated
        unfold touch
        rw [AList.lookup_insert]
        refine ⟨{ newContext now entered "" "" with lastAccess := now }, ?_⟩
        dsimp only
        rw [AList.insert_insert]
      · cases hcreated
  · cases h

theorem enter_ok_iff {now : Nat} {entered : String} :
    (∃ m', m.enter now entered = .ok m') ↔ entered ∈ m.active ∨ m.config.autoCreate = true := by
  unfold enter createMissing create
  by_cases hmem : entered ∈ m.active
  · simp [hmem]
  · cases hauto : m.config.autoCreate <;> simp [hmem]

theorem activeCount_insert (m : ContextManager) (entered : String) (c : ContextCache) :
    (m.active.insert entered c).keys.length =
      m.activeCount + if entered ∈ m.active then 0 else 1 := by
  split
  · rename_i hmem
    exact WeightedTable.length_keys_insert _ hmem
  · rename_i hnew
    rw [AList.insert_of_notMem hnew]
    rfl

/-- A switch evicts the context in some order exactly if it crowds it out. -/
theorem exists_switchEvicts_iff {now : Nat} {entered id : String} {c : ContextCache}
    (hl : m.active.lookup id = some c) :
    (∃ scan, m.switchEvicts scan now entered id = true) ↔
      ((entered ∈ m.active || m.config.autoCreate) && m.crowdedOut entered id) = true := by
  have hok : (∃ m', m.enter now entered = .ok m') ↔
      entered ∈ m.active ∨ m.config.autoCreate = true := enter_ok_iff
  unfold switchEvicts
  cases henter : m.enter now entered with
  | error e =>
    have hnot : ¬ (entered ∈ m.active ∨ m.config.autoCreate = true) := by
      rw [← hok, henter]
      rintro ⟨m', hm'⟩
      cases hm'
    simpa using fun hauto => absurd hauto hnot
  | ok m' =>
    have hopen : (entered ∈ m.active || m.config.autoCreate) = true := by
      simpa using hok.1 ⟨m', henter⟩
    obtain ⟨c', rfl⟩ := enter_eq henter
    rw [hopen, Bool.true_and]
    simp only [List.contains_iff_mem]
    by_cases hspared : id = entered ∨ id = m.config.defaultContext
    · refine iff_of_false ?_ ?_
      · rintro ⟨scan, hid⟩
        have hne := (mem_of_mem_evictees hid).2
        exact hspared.elim hne.1 hne.2
      · unfold crowdedOut
        rcases hspared with rfl | rfl <;> simp
    · obtain ⟨hentered, hdefault⟩ := not_or.1 hspared
      have hl' : (m.active.insert entered c').lookup id = some c := by
        rw [AList.lookup_insert_ne hentered, hl]
      have hsame : ({ m with active := m.active.insert entered c', current := entered } :
          ContextManager).accessedBefore entered c.lastAccess =
            m.accessedBefore entered c.lastAccess :=
        WeightedTable.countP_insert_of_not _ fun x => by simp
      rw [exists_mem_evictees_iff (m := { m with
        active := m.active.insert entered c', current := entered }) hl' hentered hdefault, hsame]
      unfold activeCount
      have hopen : (id ≠ entered && id ≠ m.config.defaultContext) = true := by
        simp [hentered, hdefault]
      rw [activeCount_insert, crowdedOut, hl, Option.any_some, hopen, Bool.true_and]
      exact decide_eq_true_iff.symm

/-- The policy of a context is there after a step, whatever the iteration order, exactly if the
step does not crowd the context out. -/
theorem policyFor_step_iff {id : String} {policy : ContextPolicy} (call : Call)
    (hdelete : call.op ≠ .delete id) (hm : m.policyFor id = some policy) :
    (∀ scan, (m.step ⟨call.now, scan, call.op⟩).policyFor id = some policy) ↔
      m.crowdsOut call id = false := by
  obtain ⟨c, hl, -⟩ := Option.bind_eq_some_iff.1 hm
  have hstep (scan : ContextScan) :
      (m.step ⟨call.now, scan, call.op⟩).policyFor id = some policy ↔
        m.evicts ⟨call.now, scan, call.op⟩ id = false := by
    rw [policyFor_step m ⟨call.now, scan, call.op⟩ id hdelete, hm]
    cases m.evicts ⟨call.now, scan, call.op⟩ id <;> simp
  have henters (scan : ContextScan) :
      Call.enters m ⟨call.now, scan, call.op⟩ = call.enters m := rfl
  simp only [hstep, evicts, henters, crowdsOut]
  cases call.enters m with
  | none => simp
  | some entered =>
    have hiff : (∃ scan, m.switchEvicts scan call.now entered id = true) ↔
        ((entered ∈ m.active || m.config.autoCreate) && m.crowdedOut entered id) = true :=
      exists_switchEvicts_iff hl
    rw [Option.any_some, ← Bool.not_eq_true, ← hiff, not_exists]
    simp only [Bool.not_eq_true]

/-- The policy installed for a context is there after every step of a run, whatever the iteration
order of an eviction, exactly if no step crowds the context out. The run may switch, create, query
and delete any contexts, but not delete this one. -/
theorem policy_persists_iff (u : CaseTables) (m : ContextManager) (now : Nat)
    (resolved : List ResolvedContext) (calls : List Call) (id : String) (policy : ContextPolicy)
    (hconfigured : installedPolicy u resolved id = some policy)
    (hdelete : ∀ call ∈ calls, call.op ≠ .delete id) :
    AllSteps step (fun m call => ∀ scan,
        (m.step ⟨call.now, scan, call.op⟩).policyFor id = some policy)
        (m.installResolved u now resolved) calls ↔
      AllSteps step (fun m call => m.crowdsOut call id = false)
        (m.installResolved u now resolved) calls := by
  have hstart : (m.installResolved u now resolved).policyFor id = some policy := by
    rw [policyFor_installResolved, hconfigured]
    rfl
  have hgiven : AllSteps step (fun _ call => call.op ≠ .delete id)
      (m.installResolved u now resolved) calls :=
    allSteps_of_forall (fun call hcall _ => hdelete call hcall) _
  have hiff (m : ContextManager) (call : Call) (hne : call.op ≠ .delete id)
      (hm : m.policyFor id = some policy) :=
    policyFor_step_iff call hne hm
  refine allSteps_congr hiff ?_ hstart hgiven
  intro m call hne hm hkept
  exact (hiff m call hne hm).2 hkept call.scan

def docsContext : ResolvedContext where
  id := "docs"
  isDefault := false
  description := none
  legs := []
  embedder := none
  cache := .default
  scope := { ProxyScopeConfig.none with seeds := ["rust"] }
  cascade := .default
  federated := .default

/-- A manager as the server starts it, with the one configured context `docs`. -/
def withDocs : ContextManager :=
  (ContextManager.new 0 .default).installResolved CaseTables.ascii 0 [docsContext]

def queries (ids : List String) : List Call :=
  ids.zipIdx.map fun id => ⟨id.2 + 1, .stored, .query id.1⟩

theorem docs_persists :
    AllSteps step (fun m call => ∀ scan, (m.step ⟨call.now, scan, call.op⟩).policyFor "docs" =
        some (ContextPolicy.fromResolved CaseTables.ascii docsContext))
      withDocs (queries ["a", "b", "docs", "c", "d", "e", "f", "g"]) := by
  apply (policy_persists_iff CaseTables.ascii _ 0 [docsContext]
    (queries ["a", "b", "docs", "c", "d", "e", "f", "g"]) "docs" _
    (by simp [installedPolicy, docsContext]) (by decide)).mpr
  decide +kernel

/-- Nine unknown contexts fill the table of ten, which already holds the default context, and
`docs` is the one that was used least recently. -/
theorem configured_policy_lost :
    installedPolicy CaseTables.ascii [docsContext] "docs" =
      some (ContextPolicy.fromResolved CaseTables.ascii docsContext) ∧
    (∀ call ∈ queries ["a", "b", "c", "d", "e", "f", "g", "h", "i"], call.op ≠ .delete "docs") ∧
    (run step withDocs
      (queries ["a", "b", "c", "d", "e", "f", "g", "h", "i"])).policyFor "docs" = none := by
  decide +kernel

end ContextManager

end Conproxy
