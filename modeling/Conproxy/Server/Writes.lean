import Mathlib.Logic.Relation
import Conproxy.Server.Handlers

/-!
# What a step does to the cache

Everything that a step of the server does to the cache: lookups, and after them at most one call
that writes. What was set when the server was built stays as it is.
-/

namespace Conproxy

open CacheStore Relation

set_option autoImplicit false

/-- The parts of the state that are set when the server is built. -/
def AppState.built (app : AppState) :
    String × (String → List SearchResult → List SearchResult) × Option SemanticCache × Bool :=
  (app.upstreamId, app.scopeFilterFor, app.semanticCache, app.smartEmbedder)

variable (p : Platform)

/-- The cache after some lookups. -/
abbrev Looked : CacheStore → CacheStore → Prop :=
  ReflTransGen fun cache cache' => ∃ look : Lookup, cache' = (look.run p cache).2

/-- A response that fails its check is not stored. -/
def QueryResponse.ifValid {α : Type} (response : QueryResponse) (a : α) : Option α :=
  match response.validate with
  | .ok () => some a
  | .error _ => none

namespace Server

def keyWrite (s : Server) (key : Key) (returned : QueryResponse) : Option Op :=
  let response :=
    { returned with results := s.app.scopeFilterFor key.contextId returned.results }
  response.ifValid (.insertWithContext key.text response s.app.upstreamId key.contextId)

def taskWrite (s : Server) (now : Clock) (outcome : Except String QueryResponse)
    (computed : Option Embedding) : Task → Option Op
  | .leading c upstreams missReason stashed =>
    match c.handler, upstreams.dispatch outcome with
    | .query, .ok returned =>
      let response := s.missResponse c missReason returned
      response.ifValid (.insertByHashWithEmbedding (c.key.hash p) response s.app.upstreamId
        (s.insertEmbedding stashed computed) (some c.key.text))
    | .batch t, .ok returned =>
      let response := s.missResponse c missReason returned
      response.ifValid (batchInsert p t c.key response
        { response with tookMs := c.tookMs now } s.app.upstreamId)
    | _, _ => none
  | .federating c =>
    if c.handler = .federated .http then
      outcome.toOption.map fun response =>
        .insertWithContext c.key.text response s.app.upstreamId c.contextId
    else none
  | .refreshing key => outcome.toOption.bind (s.keyWrite key)
  | .tracking key =>
    outcome.toOption.map fun response => .insert key.text response s.app.upstreamId
  | .warming key => outcome.toOption.bind (s.keyWrite key)
  | .embedding _ _ => none
  | .waiting _ _ => none

def write (s : Server) (a : Action) : Option Op :=
  match a.event with
  | .returned id outcome computed =>
    (s.tasks.lookup id).bind (s.taskWrite p a.now outcome computed)
  | .replicated key response upstreamId applies =>
    if applies then some (.insert key.text response upstreamId) else none
  | .maintenance op => if op.maintains then some op else none
  | _ => none

/-- Lookups, and then the write. -/
structure Does (now : Clock) (scan : Scan) (write : Option Op) (s s' : Server) : Prop where
  built : s'.app.built = s.app.built
  cache : ∃ cache, Looked p s.app.cache cache ∧
    s'.app.cache =
      match write with
      | some op => exec p cache ⟨now, scan, op⟩
      | none => cache

structure Reads (s s' : Server) : Prop where
  built : s'.app.built = s.app.built
  looked : Looked p s.app.cache s'.app.cache

variable {p}

namespace Reads

variable {s s' s'' : Server}

theorem refl (s : Server) : s.Reads p s := ⟨rfl, .refl⟩

theorem trans (h : s.Reads p s') (h' : s'.Reads p s'') : s.Reads p s'' :=
  ⟨h'.built.trans h.built, h.looked.trans h'.looked⟩

theorem of_eq (hbuilt : s'.app.built = s.app.built) (hcache : s'.app.cache = s.app.cache) :
    s.Reads p s' := ⟨hbuilt, hcache ▸ .refl⟩

theorem run (look : Lookup) : s.Reads p (s.setCache (look.run p s.app.cache).2) :=
  ⟨rfl, .single ⟨look, rfl⟩⟩

theorem complete (h : QueryHash) (result : CoalesceResult) : s.Reads p (s.complete h result) := by
  unfold Server.complete
  split
  · exact of_eq rfl rfl
  · exact refl s

theorem read {now : Clock} {look : Lookup} {found : CacheEntry → Source → Server → Server}
    {missing : Server → Server}
    (hfound : ∀ e source (s' : Server), s'.Reads p (found e source s'))
    (hmissing : s.Reads p (missing s)) : s.Reads p (s.read p now look found missing) := by
  cases hl : s.app.cache.entries.lookup (look.hash p s.app.cache) with
  | none =>
    rw [Server.read_of_none hl]
    exact hmissing
  | some e =>
    rw [Server.read_of_lookup hl]
    exact (run look).trans (hfound e _ _)

theorem coalesce (id : Nat) (c : Client) (upstreams : Upstreams) (missReason : MissReason)
    (embedding : Option Embedding) :
    s.Reads p (s.coalesce p id c upstreams missReason embedding) := by
  unfold Server.coalesce
  split
  · exact of_eq rfl rfl
  · exact of_eq rfl rfl

theorem afterMiss (now : Clock) (id : Nat) (c : Client) (missReason : MissReason)
    (embedding : Option Embedding) (allowed : Bool) :
    s.Reads p (s.afterMiss p now id c missReason embedding allowed) := by
  unfold Server.afterMiss
  dsimp only
  split
  · split
    · exact coalesce id c _ missReason embedding
    · exact read (fun _ _ _ => of_eq rfl rfl) (of_eq rfl rfl)
  · exact read (fun _ _ _ => of_eq rfl rfl) (of_eq rfl rfl)

theorem semanticTier (now : Clock) (id : Nat) (c : Client) (missReason : MissReason)
    (allowed : Bool) : s.Reads p (s.semanticTier p now id c missReason allowed) := by
  unfold Server.semanticTier
  split
  · exact of_eq rfl rfl
  · exact afterMiss now id c missReason none allowed

theorem semanticLookup (now : Clock) (id : Nat) (c : Client) (missReason : MissReason)
    (embedded : Option Embedding) (scan : TierScan) (allowed : Bool) :
    s.Reads p (s.semanticLookup p now id c missReason embedded scan allowed) := by
  unfold Server.semanticLookup
  split
  · split
    · have hread {matched : QueryHash} {embedding : Embedding} :
          s.Reads p (s.read p now (.byHash matched) (serve now c .hit) fun s =>
            s.afterMiss p now id c missReason (some embedding) allowed) :=
        read (fun _ _ _ => of_eq rfl rfl) (afterMiss now id c missReason _ allowed)
      split
      · exact hread
      · exact hread
      · exact hread
      · exact afterMiss now id c missReason _ allowed
    · exact afterMiss now id c missReason _ allowed
  · exact afterMiss now id c missReason none allowed

theorem serveStale (now : Clock) (c : Client) (e : CacheEntry) (source : Source) :
    s.Reads p (Server.serveStale now c e source s) := by
  unfold Server.serveStale
  dsimp only
  split
  · exact of_eq rfl rfl
  · exact of_eq rfl rfl

theorem executeQuery (now : Clock) (id : Nat) (c : Client) (agent : Option AgentIdentity)
    (skipCache allowed : Bool) :
    s.Reads p (s.executeQuery p now id c agent skipCache allowed) := by
  unfold Server.executeQuery
  split
  · exact of_eq rfl rfl
  split
  · exact of_eq rfl rfl
  split
  · exact of_eq rfl rfl
  split
  · exact afterMiss now id c _ none allowed
  dsimp only
  split
  · exact read (fun _ _ _ => of_eq rfl rfl) (semanticTier now id c _ allowed)
  · exact read (fun e source _ => serveStale now c e source) (semanticTier now id c _ allowed)
  · exact semanticTier now id c _ allowed
  · exact semanticTier now id c _ allowed
  · exact semanticTier now id c _ allowed

theorem leaderErr (now : Clock) (c : Client) (message : String) :
    s.Reads p (s.leaderErr p now c message) := by
  refine read (fun e source s' => ?_) ?_
  · exact (complete _ _).trans (of_eq rfl rfl)
  · exact (complete _ _).trans (of_eq rfl rfl)

theorem waiterDone (now : Clock) (c : Client) (result : CoalesceResult) :
    s.Reads p (s.waiterDone p now c result) := by
  unfold Server.waiterDone
  split
  · exact of_eq rfl rfl
  · exact read (fun _ _ _ => of_eq rfl rfl) (of_eq rfl rfl)

theorem batchMiss (now : Clock) (id : Nat) (c : Client) (t : Transport) (upstreams : Upstreams)
    (missReason : MissReason) :
    s.Reads p (s.batchMiss p now id c t upstreams missReason) := by
  unfold Server.batchMiss
  split
  · exact coalesce id c upstreams missReason none
  · exact read (fun _ _ _ => of_eq rfl rfl) (of_eq rfl rfl)

theorem batchItem (now : Clock) (id : Nat) (c : Client) (t : Transport)
    (agent : Option AgentIdentity) (upstreams : Upstreams) :
    s.Reads p (s.batchItem p now id c t agent upstreams) := by
  unfold Server.batchItem
  split
  · exact of_eq rfl rfl
  dsimp only
  split
  · exact read (fun _ _ _ => of_eq rfl rfl) (batchMiss now id c t upstreams _)
  · exact read (fun _ _ _ => of_eq rfl rfl) (batchMiss now id c t upstreams _)
  · exact batchMiss now id c t upstreams _
  · exact batchMiss now id c t upstreams _
  · exact batchMiss now id c t upstreams _

theorem batchErr (now : Clock) (c : Client) (t : Transport) (message : String) :
    s.Reads p (s.batchErr p now c t message) := by
  refine read (fun e source s' => ?_) ?_
  · exact (complete _ _).trans (of_eq rfl rfl)
  · exact (complete _ _).trans (of_eq rfl rfl)

theorem batchWaiterDone (now : Clock) (c : Client) (t : Transport) (result : CoalesceResult) :
    s.Reads p (s.batchWaiterDone p now c t result) := by
  unfold Server.batchWaiterDone
  split
  · exact of_eq rfl rfl
  · exact read (fun _ _ _ => of_eq rfl rfl) (of_eq rfl rfl)

theorem handleFederated (now : Clock) (id : Nat) (c : Client) (t : Transport)
    (agent : Option AgentIdentity) (remote : Bool) :
    s.Reads p (s.handleFederated p now id c t agent remote) := by
  unfold Server.handleFederated
  split
  · exact of_eq rfl rfl
  split
  · exact read (fun _ _ _ => of_eq rfl rfl) (of_eq rfl rfl)
  split
  · split
    · exact read (fun _ _ _ => of_eq rfl rfl) (of_eq rfl rfl)
    · exact of_eq rfl rfl
  · exact of_eq rfl rfl

theorem refreshStale (now : Clock) (h : QueryHash) : s.Reads p (s.refreshStale p now h) := by
  unfold Server.refreshStale
  split
  · exact refl s
  split
  · split
    · rename_i key _
      exact (run (.byText key.text)).trans (of_eq rfl rfl)
    · exact refl s
  · exact refl s

theorem warmup (now : Clock) (id : Nat) (key : Key) : s.Reads p (s.warmup p now id key) := by
  unfold Server.warmup
  split
  · exact refl s
  split
  · exact refl s
  · exact of_eq rfl rfl

theorem receive (now : Clock) (c : Client) (result : CoalesceResult) :
    s.Reads p (s.receive p now c result) := by
  unfold Server.receive
  split
  · exact waiterDone now c result
  · exact batchWaiterDone now c _ result
  · exact refl s

theorem share (now : Clock) (c : Client) (response : QueryResponse) (source : Source) :
    s.Reads p (s.share p now c response source) :=
  (complete _ _).trans (of_eq rfl rfl)

end Reads

namespace Does

variable {s s' s'' : Server} {now : Clock} {scan : Scan} {write : Option Op}

theorem of_reads (h : s.Reads p s') : s.Does p now scan none s' := ⟨h.built, _, h.looked, rfl⟩

theorem store (f : Fetch) (op : Op) : s.Does p now scan (some op) (s.store p now scan f op) :=
  ⟨rfl, _, .refl, rfl⟩

theorem keeping (h : s.Does p now scan write s') (hbuilt : s''.app.built = s'.app.built)
    (hcache : s''.app.cache = s'.app.cache) : s.Does p now scan write s'' := by
  obtain ⟨cache, hlooked, hwritten⟩ := h.cache
  exact ⟨hbuilt.trans h.built, cache, hlooked, hcache.trans hwritten⟩

theorem complete (h : s.Does p now scan write s') (hash : QueryHash) (result : CoalesceResult) :
    s.Does p now scan write (s'.complete hash result) := by
  unfold Server.complete
  split
  · exact h.keeping rfl rfl
  · exact h

theorem registerQuery (h : s.Does p now scan write s') (key : Key) :
    s.Does p now scan write (s'.registerQuery p key) := h.keeping rfl rfl

theorem answer (h : s.Does p now scan write s') (c : Client) (source : Source) (reply : Reply) :
    s.Does p now scan write (s'.answer c source reply) := h.keeping rfl rfl

theorem after (h : s.Reads p s') (h' : s'.Does p now scan write s'') :
    s.Does p now scan write s'' := by
  obtain ⟨cache, hlooked, hwritten⟩ := h'.cache
  exact ⟨h'.built.trans h.built, cache, h.looked.trans hlooked, hwritten⟩

variable {c : Client} {missReason : MissReason} {returned : QueryResponse}
  {outcome : Except String QueryResponse} {key : Key}

theorem leaderOk (stashed computed : Option Embedding) :
    s.Does p now scan
      ((s.missResponse c missReason returned).ifValid (.insertByHashWithEmbedding (c.key.hash p)
        (s.missResponse c missReason returned) s.app.upstreamId
        (s.insertEmbedding stashed computed) (some c.key.text)))
      (s.leaderOk p now scan c missReason stashed computed returned) := by
  unfold Server.leaderOk QueryResponse.ifValid
  dsimp only
  cases (s.missResponse c missReason returned).validate with
  | error err => exact of_reads (.share now c _ _)
  | ok => exact (((store _ _).registerQuery c.key).complete _ _).answer c _ _

theorem batchOk (t : Transport) :
    s.Does p now scan
      ((s.missResponse c missReason returned).ifValid (batchInsert p t c.key
        (s.missResponse c missReason returned)
        { s.missResponse c missReason returned with tookMs := c.tookMs now } s.app.upstreamId))
      (s.batchOk p now scan c t missReason returned) := by
  unfold Server.batchOk QueryResponse.ifValid
  dsimp only
  cases (s.missResponse c missReason returned).validate with
  | error err => exact ((of_reads (.refl s)).complete _ _).answer c _ _
  | ok => exact (((store _ _).registerQuery c.key).complete _ _).answer c _ _

theorem federatedDone :
    s.Does p now scan (s.taskWrite p now outcome none (.federating c))
      (s.federatedDone p now scan c outcome) := by
  simp only [Server.federatedDone, taskWrite]
  cases outcome with
  | error message => split <;> exact of_reads (.of_eq rfl rfl)
  | ok response =>
    dsimp only
    split
    · exact (store _ _).answer c _ _
    · exact of_reads (.of_eq rfl rfl)

theorem staleRefreshed :
    s.Does p now scan (outcome.toOption.bind (s.keyWrite key))
      (s.staleRefreshed p now scan key outcome) := by
  unfold Server.staleRefreshed
  cases outcome with
  | error message => exact of_reads (.refl s)
  | ok returned =>
    simp only [Except.toOption, Option.bind_some, keyWrite, QueryResponse.ifValid]
    generalize ({ returned with
      results := s.app.scopeFilterFor key.contextId returned.results } : QueryResponse) = response
    cases response.validate with
    | error err => exact of_reads (.refl s)
    | ok => exact (store _ _).registerQuery key

theorem refreshed :
    s.Does p now scan
      (outcome.toOption.map fun response => .insert key.text response s.app.upstreamId)
      (s.refreshed p now scan key outcome) := by
  unfold Server.refreshed
  cases outcome with
  | error message => exact of_reads (.refl s)
  | ok response => exact store _ _

theorem warmed :
    s.Does p now scan (outcome.toOption.bind (s.keyWrite key))
      (s.warmed p now scan key outcome) := by
  unfold Server.warmed
  cases outcome with
  | error message => exact of_reads (.refl s)
  | ok returned =>
    simp only [Except.toOption, Option.bind_some, keyWrite, QueryResponse.ifValid]
    generalize ({ returned with
      results := s.app.scopeFilterFor key.contextId returned.results } : QueryResponse) = response
    cases response.validate with
    | error err => exact of_reads (.refl s)
    | ok => exact store _ _

theorem resume (task : Task) (computed : Option Embedding) :
    s.Does p now scan (s.taskWrite p now outcome computed task)
      (s.resume p now scan task outcome computed) := by
  cases task with
  | leading c upstreams missReason stashed =>
    simp only [Server.resume, taskWrite]
    cases c.handler with
    | query =>
      cases upstreams.dispatch outcome with
      | ok returned => exact leaderOk stashed computed
      | error message => exact of_reads (.leaderErr now c message)
    | batch t =>
      cases upstreams.dispatch outcome with
      | ok returned => exact batchOk t
      | error message => exact of_reads (.batchErr now c t message)
    | federated t => exact of_reads (.refl s)
  | federating c => exact federatedDone
  | refreshing key => exact staleRefreshed
  | tracking key => exact refreshed
  | warming key => exact warmed
  | embedding c missReason => exact of_reads (.refl s)
  | waiting c receiver => exact of_reads (.refl s)

theorem replicated (response : QueryResponse) (upstreamId : String) (applies : Bool) :
    s.Does p now scan (if applies then some (.insert key.text response upstreamId) else none)
      (s.replicated p now scan key response upstreamId applies) := by
  have hlooks : s.Reads p (s.setCache (s.app.cache.get p key.text).2) := .run (.byText key.text)
  cases applies with
  | true => exact after hlooks (store _ _)
  | false => exact of_reads hlooks

end Does

/-- The summary: a step makes lookups, and then its write. -/
theorem does_step (s : Server) (a : Action) :
    s.Does p a.now a.scan (s.write p a) (s.step p a) := by
  obtain ⟨now, scan, event⟩ := a
  have harrive : s.Reads p s.arrive := .of_eq rfl rfl
  have hfinish (id : Nat) : s.Reads p (s.finish id) := .of_eq rfl rfl
  cases event with
  | query contextId request agent skipCache allowed =>
    exact .of_reads (harrive.trans (.executeQuery now _ _ agent skipCache allowed))
  | batch t contextId request agent upstreams =>
    exact .of_reads (harrive.trans (.batchItem now _ _ t agent upstreams))
  | federated t contextId query topK agent remote =>
    exact .of_reads (harrive.trans (.handleFederated now _ _ t agent remote))
  | embedded id embedding scan allowed =>
    simp only [step, write]
    split
    · exact .of_reads ((hfinish id).trans (.semanticLookup now id _ _ embedding scan allowed))
    · exact .of_reads (.refl s)
  | returned id outcome computed =>
    simp only [step, write]
    cases hl : s.tasks.lookup id with
    | none => exact .of_reads (.refl s)
    | some task =>
      have hresume : s.Does p now scan (s.taskWrite p now outcome computed task)
          ((s.finish id).resume p now scan task outcome computed) :=
        .after (hfinish id) (.resume (s := s.finish id) task computed)
      cases task with
      | embedding c missReason => exact .of_reads (.refl s)
      | waiting c receiver => exact .of_reads (.refl s)
      | _ => exact hresume
  | received id =>
    simp only [step, write]
    split
    · split
      · exact .of_reads ((hfinish id).trans (.receive now _ _))
      · exact .of_reads (.refl s)
    · exact .of_reads (.refl s)
  | refreshStale h => exact .of_reads (.refreshStale now h)
  | warmup contextId query => exact .of_reads (harrive.trans (.warmup now _ _))
  | replicated key response upstreamId applies => exact .replicated response upstreamId applies
  | maintenance op =>
    simp only [step, write]
    split
    · exact ⟨rfl, _, .refl, rfl⟩
    · exact .of_reads (.refl s)
  | dropped id => exact .of_reads (hfinish id)
  | reconfigured upstreams federatedEnabled paused => exact .of_reads (.of_eq rfl rfl)

end Server

end Conproxy
