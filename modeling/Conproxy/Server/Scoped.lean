import Conproxy.Context
import Conproxy.Server.Isolation
import Conproxy.Server.Storing

/-!
# Scope filters and the cache

The server together with its contexts. A context may lose its policy at any time, and a reload
may install another one. A leader and a warmup load the filter of the context when the upstream
has answered, a stale refresh when it is spawned, and a batch for all its items when it arrives.
The federated handler, the refresh worker and the receiver of a peer's events load none.
-/

namespace Conproxy

open CacheStore Machine ContextManager

set_option autoImplicit false

structure Batch where
  contextId : String
  filter : ScopeFilter

/-- `held` gives the filters that tasks have loaded and not used yet. -/
structure Proxy where
  server : Server
  contexts : ContextManager
  scopeFilter : ScopeFilter
  embedder : Option (String → Embedding)
  held : AList fun _ : Nat => ScopeFilter
  batches : AList fun _ : Nat => Batch

inductive ProxyEvent where
  /-- A step of the server. `embeds` says whether the embedder answers. -/
  | serve (event : Event) (embeds : Bool)
  | openBatch (batch : Nat) (contextId : String)
  | item (batch : Nat) (t : Transport) (contextId : String) (request : QueryRequest)
      (agent : Option AgentIdentity) (upstreams : Upstreams)
  /-- A task loads its filter and asks the embedder. -/
  | load (task : Nat)
  | context (op : ContextManager.Op)
  /-- The part of a reload that installs policies. -/
  | install (resolved : List ResolvedContext)

structure ProxyAction where
  now : Clock
  scan : Scan
  contextScan : ContextScan
  event : ProxyEvent

namespace Proxy

variable (A : F32Arith) (p : Platform)

/-- `scope_filter_for`: the filter of the context's policy, or that of the proxy section. -/
def filterFor (x : Proxy) (contextId : String) : ScopeFilter :=
  (x.contexts.scopeFilterFor contextId).getD x.scopeFilter

def filterOf (x : Proxy) (task : Nat) (contextId : String) : ScopeFilter :=
  (x.held.lookup task).getD (x.filterFor contextId)

def hold (x : Proxy) (task : Nat) (filter : ScopeFilter) : Proxy :=
  { x with held := x.held.insert task filter }

def ensured (x : Proxy) (a : ProxyAction) (contextId : String) : Proxy :=
  { x with contexts := x.contexts.ensure a.contextScan a.now.instant contextId }

def take (x : Proxy) (a : ProxyAction) (event : Event) : Proxy :=
  { x with server := x.server.step p ⟨a.now, a.scan, event⟩ }

/-- The proxy with the filter that the task applies to the answer of its upstream. -/
def applying (x : Proxy) (task : Nat) (embeds : Bool) : Proxy :=
  { x with server := { x.server with app := { x.server.app with
    scopeFilterFor := fun contextId results =>
      (x.filterOf task contextId).apply A p.tables (if embeds then x.embedder else none)
        results } } }

/-- The context that `execute_query` makes exist: it checks the request before. -/
def entersQuery (x : Proxy) (a : ProxyAction) (contextId : String) (request : QueryRequest) :
    Proxy :=
  if x.server.app.paused then x
  else
    match request.validate with
    | .error _ => x
    | .ok () => x.ensured a contextId

/-- A background refresh that was just spawned holds the filter of its context. -/
def holdRefresh (x : Proxy) (task : Nat) (contextId : String) : Proxy :=
  match x.server.tasks.lookup task with
  | some (.refreshing _) => x.hold task (x.filterFor contextId)
  | _ => x

/-- A step of the server. A batch item that comes this way is a batch of its own. -/
def serve (x : Proxy) (a : ProxyAction) (event : Event) (embeds : Bool) : Proxy :=
  match event with
  | .query contextId request _ _ _ =>
    ((x.entersQuery a contextId request).take p a event).holdRefresh (x.server.nextTask + 1)
      contextId
  | .batch _ contextId _ _ _ =>
    let x := x.ensured a contextId
    (x.take p a event).hold x.server.nextTask (x.filterFor contextId)
  | .federated _ contextId _ _ _ _ => (x.ensured a contextId).take p a event
  | .returned task _ _ => (x.applying A p task embeds).take p a event
  | _ => x.take p a event

def step (x : Proxy) (a : ProxyAction) : Proxy :=
  match a.event with
  | .serve event embeds => x.serve A p a event embeds
  | .openBatch batch contextId =>
    let x := x.ensured a contextId
    { x with batches := x.batches.insert batch ⟨contextId, x.filterFor contextId⟩ }
  | .item batch t contextId request agent upstreams =>
    match x.batches.lookup batch with
    | some b =>
      if b.contextId = contextId then
        (x.take p a (.batch t contextId request agent upstreams)).hold x.server.nextTask b.filter
      else x
    | none => x
  | .load task =>
    match x.held.lookup task, x.server.tasks.lookup task with
    | none, some (.leading c _ _ _) => x.hold task (x.filterFor c.contextId)
    | none, some (.warming key) => x.hold task (x.filterFor key.contextId)
    | _, _ => x
  | .context op => { x with contexts := x.contexts.step ⟨a.now.instant, a.contextScan, op⟩ }
  | .install resolved =>
    { x with contexts := x.contexts.installResolved p.tables a.now.instant resolved }

/-- All results pass the filter that the manager has for the context, if that one drops any. -/
def Respects (x : Proxy) (m : ContextManager) (contextId : String)
    (results : List SearchResult) : Prop :=
  ∀ filter, m.scopeFilterFor contextId = some filter → filter.drops = true →
    ∀ r ∈ results, filter.Passes A p.tables x.embedder r

/-- Every entry under a key of a context whose installed filter drops results holds only results
that pass it. -/
def ScopeIntact (K : Set Key) (x : Proxy) : Prop :=
  ∀ k ∈ K, ∀ e, x.server.app.cache.entries.lookup (k.hash p) = some e →
    x.Respects A p x.contexts k.contextId e.response.results

/-- The fetch whose results an action puts into the cache. -/
def stored (x : Proxy) (a : ProxyAction) : Option Fetch :=
  match a.event with
  | .serve (.returned task outcome computed) embeds =>
    (x.applying A p task embeds).server.stored (.returned task outcome computed)
  | .serve event _ => x.server.stored event
  | _ => none

/-- The filter that an action applies to the results it stores. -/
def filterUsed (x : Proxy) (a : ProxyAction) (f : Fetch) : Option ScopeFilter :=
  match a.event with
  | .serve (.returned task _ _) _ =>
    if f.requester.filters then some (x.filterOf task f.key.contextId) else none
  | _ => none

/-- What the action stores went through the filter that is installed at that moment, or would
pass it. A policy that the action installs lets the entries of its context through. -/
structure Admissible (K : Set Key) (x : Proxy) (a : ProxyAction) : Prop where
  stores : ∀ f, x.stored A p a = some f →
    x.filterUsed a f = x.contexts.scopeFilterFor f.key.contextId ∨
      x.Respects A p x.contexts f.key.contextId f.results
  installs : ∀ resolved, a.event = .install resolved → ∀ k ∈ K, ∀ e,
    x.server.app.cache.entries.lookup (k.hash p) = some e →
      x.Respects A p (x.contexts.installResolved p.tables a.now.instant resolved) k.contextId
        e.response.results

/-- No context has a filter that it did not have before. -/
def Narrows (m m' : ContextManager) : Prop :=
  ∀ id filter, m'.scopeFilterFor id = some filter → m.scopeFilterFor id = some filter

theorem narrows_of_policyFor {m m' : ContextManager}
    (h : ∀ id, m'.policyFor id = none ∨ m'.policyFor id = m.policyFor id) : Narrows m m' := by
  intro id filter hfilter
  unfold scopeFilterFor at hfilter ⊢
  rcases h id with hnone | hsame
  · rw [hnone] at hfilter
    cases hfilter
  · rwa [hsame] at hfilter

theorem policyFor_delete_self (m : ContextManager) (id : String) :
    ((m.delete id).toOption.getD m).policyFor id = none ∨
      ((m.delete id).toOption.getD m).policyFor id = m.policyFor id := by
  unfold delete
  split
  · exact .inr rfl
  · split
    · refine .inl ?_
      simp [Except.toOption, policyFor]
    · exact .inr rfl

theorem narrows_step (m : ContextManager) (call : ContextManager.Call) :
    Narrows m (m.step call) := by
  apply narrows_of_policyFor
  intro id
  by_cases hdelete : call.op = .delete id
  · rcases call with ⟨now, scan, op⟩
    cases hdelete
    exact policyFor_delete_self m id
  · rw [policyFor_step m call id hdelete]
    split
    · exact .inl rfl
    · exact .inr rfl

theorem narrows_ensure (m : ContextManager) (scan : ContextScan) (now : Nat) (id : String) :
    Narrows m (m.ensure scan now id) :=
  narrows_step m ⟨now, scan, .query id⟩

variable {A p} {K : Set Key} {x : Proxy}

theorem Respects.narrow {m m' : ContextManager} {contextId : String}
    {results : List SearchResult} (h : x.Respects A p m contextId results) (hm : Narrows m m') :
    x.Respects A p m' contextId results :=
  fun filter hfilter => h filter (hm contextId filter hfilter)

/-- The new entries of a change must pass the filters of their keys. -/
def Conforms (A : F32Arith) (p : Platform) (K : Set Key) (x : Proxy) (h : QueryHash)
    (results : List SearchResult) : Prop :=
  ∀ k ∈ K, k.hash p = h → x.Respects A p x.contexts k.contextId results

theorem ScopeIntact.of_gains {x' : Proxy} (hx : x.ScopeIntact A p K)
    (hembedder : x'.embedder = x.embedder) (hcontexts : Narrows x.contexts x'.contexts)
    (hserver : x.server.Gains (x.Conforms A p K) x'.server) : x'.ScopeIntact A p K := by
  intro k hk e' hl
  have hresults : x.Respects A p x.contexts k.contextId e'.response.results := by
    rcases hserver _ e' hl with ⟨e, hold, hsame⟩ | hnew
    · rw [hsame.response]
      exact hx k hk e hold
    · exact hnew k hk rfl
  intro filter hfilter hdrops r hr
  rw [hembedder]
  exact hresults.narrow hcontexts filter hfilter hdrops r hr

theorem contextId_eq_of_hash (hfree : CollisionFree p K)
    (hsep : ∀ k ∈ K, ∀ l ∈ K, k.contextId ≠ l.contextId →
      Separated p.tables k.contextId l.contextId)
    {k l : Key} (hk : k ∈ K) (hl : l ∈ K) (h : k.hash p = l.hash p) :
    k.contextId = l.contextId := by
  by_contra hne
  exact normalizeQuery_contextQuery_ne (hsep k hk l hl hne) k.query l.query
    (hfree.normalized hk hl h)

/-! ## Steps -/

end Proxy

def ProxyEvent.keys : ProxyEvent → List Key
  | .serve event _ => event.keys
  | .item _ _ contextId request _ _ => [⟨contextId, request.query⟩]
  | _ => []

namespace Proxy

variable {A : F32Arith} {p : Platform} {K : Set Key} {x : Proxy}

theorem server_entersQuery (a : ProxyAction) (contextId : String) (request : QueryRequest) :
    (x.entersQuery a contextId request).server = x.server := by
  unfold entersQuery
  split
  · rfl
  · split <;> rfl

theorem server_holdRefresh (task : Nat) (contextId : String) :
    (x.holdRefresh task contextId).server = x.server := by
  unfold holdRefresh
  split <;> rfl

theorem provenance_take (hfree : CollisionFree p K) (hx : Provenance p K x.server)
    (a : ProxyAction) {event : Event} (hkeys : ∀ k ∈ event.keys, k ∈ K) :
    Provenance p K (x.take p a event).server :=
  Provenance.step hfree x.server ⟨a.now, a.scan, event⟩ hkeys hx

theorem provenance_serve (hfree : CollisionFree p K) (hx : Provenance p K x.server)
    (a : ProxyAction) (event : Event) (embeds : Bool) (hkeys : ∀ k ∈ event.keys, k ∈ K) :
    Provenance p K (x.serve A p a event embeds).server := by
  unfold serve
  split
  · rename_i contextId request _ _ _
    have henters : Provenance p K (x.entersQuery a contextId request).server := by
      rwa [server_entersQuery]
    rw [server_holdRefresh]
    exact provenance_take hfree henters a hkeys
  · exact provenance_take hfree (x := x.ensured a _) hx a hkeys
  · exact provenance_take hfree (x := x.ensured a _) hx a hkeys
  · exact provenance_take hfree (x := x.applying A p _ embeds) { hx with } a hkeys
  · exact provenance_take hfree hx a hkeys

/-- The contexts do not matter for the origin of entries and answers. -/
theorem provenance_step (hfree : CollisionFree p K) (x : Proxy) (a : ProxyAction)
    (ha : ∀ k ∈ a.event.keys, k ∈ K) (hx : Provenance p K x.server) :
    Provenance p K (x.step A p a).server := by
  rcases a with ⟨now, scan, contextScan, event⟩
  cases event with
  | serve event embeds => exact provenance_serve hfree hx _ event embeds ha
  | openBatch batch contextId => exact hx
  | item batch t contextId request agent upstreams =>
    have hkeys : ∀ k ∈ (Event.batch t contextId request agent upstreams).keys, k ∈ K := ha
    simp only [step]
    split
    · split
      · exact provenance_take hfree hx _ hkeys
      · exact hx
    · exact hx
  | load task =>
    simp only [step]
    split
    · exact hx
    · exact hx
    · exact hx
  | context op => exact hx
  | install resolved => exact hx

theorem ScopeIntact.ensured (hx : x.ScopeIntact A p K) (a : ProxyAction) (contextId : String) :
    (x.ensured a contextId).ScopeIntact A p K :=
  hx.of_gains rfl (narrows_ensure x.contexts a.contextScan a.now.instant contextId) (.refl _ _)

theorem ScopeIntact.entersQuery (hx : x.ScopeIntact A p K) (a : ProxyAction) (contextId : String)
    (request : QueryRequest) : (x.entersQuery a contextId request).ScopeIntact A p K := by
  unfold Proxy.entersQuery
  split
  · exact hx
  · split
    · exact hx
    · exact hx.ensured a contextId

theorem ScopeIntact.holdRefresh (hx : x.ScopeIntact A p K) (task : Nat) (contextId : String) :
    (x.holdRefresh task contextId).ScopeIntact A p K := by
  unfold Proxy.holdRefresh
  split
  · exact hx
  · exact hx

theorem ScopeIntact.take_quiet (hx : x.ScopeIntact A p K) (a : ProxyAction) {event : Event}
    (hquiet : x.server.stored event = none) : (x.take p a event).ScopeIntact A p K := by
  refine hx.of_gains rfl (fun _ _ h => h) (.step x.server ⟨a.now, a.scan, event⟩ ?_)
  intro f hf
  rw [hquiet] at hf
  cases hf

section

variable (hfree : CollisionFree p K)
  (hsep : ∀ k ∈ K, ∀ l ∈ K, k.contextId ≠ l.contextId →
    Separated p.tables k.contextId l.contextId)

include hfree hsep

theorem ScopeIntact.take (hx : x.ScopeIntact A p K) (a : ProxyAction) {event : Event}
    (hstored : ∀ f, x.server.stored event = some f → f.key ∈ K ∧
      x.Respects A p x.contexts f.key.contextId f.results) :
    (x.take p a event).ScopeIntact A p K := by
  refine hx.of_gains rfl (fun _ _ h => h) (.step x.server ⟨a.now, a.scan, event⟩ ?_)
  intro f hf k hk hhash
  obtain ⟨hkey, hrespects⟩ := hstored f hf
  rw [contextId_eq_of_hash hfree hsep hk hkey hhash]
  exact hrespects

/-- The answer of an upstream is filtered by the installed filter, or passes it anyhow. -/
theorem ScopeIntact.returned (hx : x.ScopeIntact A p K) (hprovenance : Provenance p K x.server)
    (a : ProxyAction) {task : Nat} {outcome : Except String QueryResponse}
    {computed : Option Embedding} {embeds : Bool}
    (hevent : a.event = .serve (.returned task outcome computed) embeds)
    (ha : x.Admissible A p K a) :
    ((x.applying A p task embeds).take p a (.returned task outcome computed)).ScopeIntact A p
      K := by
  have happlying : (x.applying A p task embeds).ScopeIntact A p K := hx
  refine happlying.take hfree hsep a fun f hf => ?_
  obtain ⟨t, hl, ht⟩ := Option.bind_eq_some_iff.mp hf
  obtain ⟨hkey, hfiltered⟩ := Server.storedByTask_eq_some (hprovenance.tasks task t hl) ht
  refine ⟨hkey, ?_⟩
  have hstored : x.stored A p a = some f := by
    simp only [stored, hevent]
    exact hf
  rcases ha.stores f hstored with hused | hrespects
  · intro filter hfilter hdrops r hr
    rw [show x.contexts.scopeFilterFor f.key.contextId = some filter from hfilter] at hused
    simp only [filterUsed, hevent] at hused
    split at hused
    · rename_i hfilters
      cases hused
      obtain ⟨returned, hresults⟩ := hfiltered hfilters
      rw [hresults] at hr
      refine ScopeFilter.passes_of_mem_apply ?_ hdrops hr
      cases embeds with
      | true => exact .inr rfl
      | false => exact .inl rfl
    · cases hused
  · exact hrespects

theorem ScopeIntact.serve (hx : x.ScopeIntact A p K) (hprovenance : Provenance p K x.server)
    (a : ProxyAction) {event : Event} {embeds : Bool} (hevent : a.event = .serve event embeds)
    (hkeys : ∀ k ∈ event.keys, k ∈ K) (ha : x.Admissible A p K a) :
    (x.serve A p a event embeds).ScopeIntact A p K := by
  cases event with
  | query contextId request agent skipCache allowed =>
    exact ((hx.entersQuery a contextId request).take_quiet a rfl).holdRefresh _ contextId
  | batch t contextId request agent upstreams =>
    exact (hx.ensured a contextId).take_quiet a rfl
  | federated t contextId query topK agent remote =>
    exact (hx.ensured a contextId).take_quiet a rfl
  | returned task outcome computed =>
    exact hx.returned hfree hsep hprovenance a hevent ha
  | replicated key response upstreamId applies =>
    refine hx.take hfree hsep a fun f hf => ?_
    have hstored : x.stored A p a = some f := by
      simp only [Proxy.stored, hevent]
      exact hf
    have hkey : f.key = key := by
      simp only [Server.stored, Option.ite_none_right_eq_some, Option.some.injEq] at hf
      rw [← hf.2]
    refine ⟨hkey ▸ hkeys key List.mem_cons_self, ?_⟩
    rcases ha.stores f hstored with hused | hrespects
    · intro filter hfilter
      rw [hfilter] at hused
      simp only [filterUsed, hevent] at hused
      cases hused
    · exact hrespects
  | embedded | received | refreshStale | warmup | maintenance | dropped | reconfigured =>
    exact hx.take_quiet a rfl

theorem ScopeIntact.step (hx : x.ScopeIntact A p K) (hprovenance : Provenance p K x.server)
    (a : ProxyAction) (hkeys : ∀ k ∈ a.event.keys, k ∈ K) (ha : x.Admissible A p K a) :
    (x.step A p a).ScopeIntact A p K := by
  rcases a with ⟨now, scan, contextScan, event⟩
  cases event with
  | serve event embeds => exact hx.serve hfree hsep hprovenance _ rfl hkeys ha
  | openBatch batch contextId => exact hx.ensured _ contextId
  | item batch t contextId request agent upstreams =>
    simp only [Proxy.step]
    split
    · split
      · exact hx.take_quiet _ rfl
      · exact hx
    · exact hx
  | load task =>
    simp only [Proxy.step]
    split
    · exact hx
    · exact hx
    · exact hx
  | context op => exact hx.of_gains rfl (narrows_step x.contexts _) (.refl _ _)
  | install resolved =>
    intro k hk e hl
    exact ha.installs resolved rfl k hk e hl

end

/-- A task that filters and does not hold a filter yet applies the installed one. -/
theorem Admissible.of_unheld {a : ProxyAction} {task : Nat} {outcome : Except String QueryResponse}
    {computed : Option Embedding} {embeds : Bool}
    (hevent : a.event = .serve (.returned task outcome computed) embeds)
    (hheld : x.held.lookup task = none)
    (hfilters : ∀ f, x.stored A p a = some f → f.requester.filters = true) :
    x.Admissible A p K a where
  stores := by
    intro f hf
    cases hfilter : x.contexts.scopeFilterFor f.key.contextId with
    | none =>
      refine .inr fun filter hsome => ?_
      rw [hfilter] at hsome
      cases hsome
    | some filter =>
      refine .inl ?_
      simp only [filterUsed, hevent, hfilters f hf, if_true, filterOf, hheld, Option.getD_none,
        filterFor, hfilter, Option.getD_some]
  installs := by
    intro resolved h
    rw [hevent] at h
    cases h

/-- The keys of the entries that the proxy starts with and of the requests of a run. -/
def runKeys (x : Proxy) (as : List ProxyAction) : Set Key :=
  { k | (∃ h f, x.server.origins.lookup h = some f ∧ f.key = k) ∨ ∃ a ∈ as, k ∈ a.event.keys }

/-- In a run over separated contexts whose actions are all admissible, every entry under a key of
a context holds only results that pass the filter installed for it. -/
theorem scope_integrity (A : F32Arith) (p : Platform) (K : Set Key) {x : Proxy}
    (hlaunched : Launched p x.server) (as : List ProxyAction) (hkeys : x.runKeys as ⊆ K)
    (hfree : CollisionFree p K)
    (hsep : ∀ k ∈ K, ∀ l ∈ K, k.contextId ≠ l.contextId →
      Separated p.tables k.contextId l.contextId)
    (hstart : x.ScopeIntact A p K)
    (hsteps : AllSteps (step A p) (fun y a => y.Admissible A p K a) x as) :
    (run (step A p) x as).ScopeIntact A p K := by
  have hprovenance : Provenance p K x.server :=
    hlaunched.provenance_on fun h f horigin => hkeys (.inl ⟨h, f, horigin, rfl⟩)
  have hknown : AllSteps (step A p) (fun _ a => ∀ k ∈ a.event.keys, k ∈ K) x as :=
    allSteps_of_forall (fun a ha _ k hk => hkeys (.inr ⟨a, ha, hk⟩)) x
  have hstep : ∀ (y : Proxy) (a : ProxyAction),
      (∀ k ∈ a.event.keys, k ∈ K) ∧ y.Admissible A p K a →
      Provenance p K y.server ∧ y.ScopeIntact A p K →
      Provenance p K (y.step A p a).server ∧ (y.step A p a).ScopeIntact A p K := by
    rintro y a ⟨ha, hadmissible⟩ ⟨hy, hintact⟩
    exact ⟨provenance_step hfree y a ha hy, hintact.step hfree hsep hy a ha hadmissible⟩
  exact (run_invariant hstep ⟨hprovenance, hstart⟩ (allSteps_and hknown hsteps)).2

/-- A proxy that was just started, with one configured context, `docs`, about `rust`. -/
def withDocs : Proxy where
  server := smallServer
  contexts := ContextManager.withDocs
  scopeFilter := ScopeFilter.fromConfig CaseTables.ascii .none
  embedder := none
  held := ∅
  batches := ∅

def actionAt (time : Nat) (event : Event) : ProxyAction :=
  ⟨⟨time, time⟩, Scan.stored, ContextScan.stored, .serve event false⟩

def docsKey : Key := ⟨"docs", "q"⟩

def docsFilter : ScopeFilter :=
  ScopeFilter.fromConfig CaseTables.ascii ContextManager.docsContext.scope

def mixedResponse : QueryResponse :=
  { textResponse "rust guide" with
    results := [⟨"1", .finite 0, "rust guide", none, none⟩, ⟨"2", .finite 0, "bread", none, none⟩] }

/-- A miss in `docs`, to which the upstream returns one result about `rust` and one that is
not. -/
def queryDocs : List ProxyAction :=
  [actionAt 0 (plainQuery "docs" "q" none), actionAt 1 (.returned 0 (.ok mixedResponse) none)]

def contentsAt (x : Proxy) (k : Key) : Option (List String) :=
  (x.server.app.cache.entries.lookup (k.hash Platform.sample)).map fun e =>
    e.response.results.map SearchResult.content

theorem runKeys_queryDocs {k : Key} (hk : k ∈ withDocs.runKeys queryDocs) : k ∈ [docsKey] := by
  rcases hk with ⟨h, f, hl, -⟩ | ⟨a, ha, hka⟩
  · simp [withDocs, smallServer, Server.launch] at hl
  · simp only [queryDocs, List.mem_cons, List.not_mem_nil, or_false] at ha
    rcases ha with rfl | rfl
    · exact hka
    · simp [actionAt, ProxyEvent.keys, Event.keys] at hka

theorem queryDocs_stores_filtered :
    (run (step F32Arith.exact Platform.sample) withDocs queryDocs).contentsAt docsKey =
      some ["rust guide"] ∧
    (run (step F32Arith.exact Platform.sample) withDocs queryDocs).ScopeIntact F32Arith.exact
      Platform.sample { k | k ∈ [docsKey] } := by
  refine ⟨by decide +kernel, scope_integrity F32Arith.exact Platform.sample { k | k ∈ [docsKey] }
    (launched_launch _ _ _ _) queryDocs ?_ ?_ ?_ ?_ ?_⟩
  · intro k hk
    exact runKeys_queryDocs hk
  · exact collisionFree_of_list [docsKey] (fun k hk => hk) (by decide +kernel)
  · intro k hk l hl hne
    rw [List.mem_singleton.mp hk, List.mem_singleton.mp hl] at hne
    exact absurd rfl hne
  · intro k hk e hl
    cases hl
  · refine ⟨⟨fun f hf => ?_, fun resolved h => ?_⟩, ?_, trivial⟩
    · cases hf
    · cases h
    · refine .of_unheld rfl (by decide +kernel) fun f hf => ?_
      have hclient : ((withDocs.step F32Arith.exact Platform.sample
          (actionAt 0 (plainQuery "docs" "q" none))).stored F32Arith.exact Platform.sample
            (actionAt 1 (.returned 0 (.ok mixedResponse) none))).map Fetch.requester =
          some .client := by decide +kernel
      rw [hf] at hclient
      rw [Option.some.inj hclient]
      rfl

/-- Federation is switched on, and the upstream answers a federated query of `docs` with a
result that has nothing to do with `rust`. -/
def federateDocs : List ProxyAction :=
  [actionAt 0 (.reconfigured ⟨false, false, true⟩ true false),
    actionAt 1 (.federated .http "docs" "q" none none true),
    actionAt 2 (.returned 0 (.ok (textResponse "bread")) none)]

theorem unfiltered_result_stored :
    (run (step F32Arith.exact Platform.sample) withDocs federateDocs).contexts.scopeFilterFor
      "docs" = some docsFilter ∧
    docsFilter.drops = true ∧
    (run (step F32Arith.exact Platform.sample) withDocs federateDocs).contentsAt docsKey =
      some ["bread"] ∧
    ¬ (run (step F32Arith.exact Platform.sample) withDocs federateDocs).ScopeIntact
      F32Arith.exact Platform.sample { k | k ∈ [docsKey] } := by
  have hfilter : (run (step F32Arith.exact Platform.sample) withDocs
      federateDocs).contexts.scopeFilterFor "docs" = some docsFilter := by decide +kernel
  have hcontents : (run (step F32Arith.exact Platform.sample) withDocs
      federateDocs).contentsAt docsKey = some ["bread"] := by decide +kernel
  refine ⟨hfilter, by decide +kernel, hcontents, fun hintact => ?_⟩
  obtain ⟨e, hl, hresults⟩ := Option.map_eq_some_iff.mp hcontents
  obtain ⟨r, hr, hcontent⟩ : ∃ r ∈ e.response.results, r.content = "bread" := by
    rw [← List.mem_map, hresults]
    exact List.mem_cons_self
  have hpasses := hintact docsKey List.mem_cons_self e hl docsFilter hfilter (by decide +kernel)
    r hr
  rcases hpasses with hkeeps | ⟨embed, hembed, -⟩
  · have hdropped : docsFilter.keeps F32Arith.exact CaseTables.ascii none r = false := by
      unfold ScopeFilter.keeps
      rw [hcontent]
      decide +kernel
    rw [show docsFilter.keeps F32Arith.exact CaseTables.ascii none r = true from hkeeps]
      at hdropped
    cases hdropped
  · cases hembed

end Proxy

end Conproxy
