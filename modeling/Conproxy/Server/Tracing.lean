import Conproxy.Server.Provenance

/-!
# Every step keeps the origin of answers

One lemma for each handler: it keeps `Provenance`, because it answers, broadcasts and stores
only what was fetched under the key of its request.
-/

namespace Conproxy

open CacheStore

set_option autoImplicit false

variable {p : Platform}

namespace Provenance

variable {K : Set Key} {s : Server}

theorem answer_from (hs : Provenance p K s) {c : Client} (hc : c.key ∈ K) {source : Source}
    {reply : Reply} (hsource : source.From p K (c.key.hash p) reply.results)
    (hown : ∀ f, source ≠ .fetched f) : Provenance p K (s.answer c source reply) :=
  hs.answer (.traced hc hsource fun f hf => absurd hf (hown f))

theorem answer_fetched (hs : Provenance p K s) {c : Client} {f : Fetch} {reply : Reply}
    (hf : f.For p K (c.key.hash p) reply.results) (hkey : f.key = c.key)
    (hrequest : f.request = some c.request) :
    Provenance p K (s.answer c (.fetched f) reply) := by
  refine hs.answer (.traced (hkey ▸ hf.known) ⟨f, rfl, hf⟩ ?_)
  intro g hg
  cases hg
  exact ⟨hkey, hrequest⟩

theorem answer_empty (hs : Provenance p K s) {c : Client} {reply : Reply}
    (hreply : reply.results = []) : Provenance p K (s.answer c .nowhere reply) :=
  hs.answer (.empty rfl hreply)

theorem coalesce (hs : Provenance p K s) (id : Nat) {c : Client} (hc : c.key ∈ K)
    (upstreams : Upstreams) (missReason : MissReason) (embedding : Option Embedding) :
    Provenance p K (s.coalesce p id c upstreams missReason embedding) := by
  unfold Server.coalesce RequestCoalescer.getOrInsert
  cases hl : s.app.coalescer.inFlight.lookup (c.key.hash p) with
  | some channel => exact hs.await id ⟨hc, hs.inFlight _ _ hl⟩
  | none =>
    have hnext : Provenance p K { s with app := { s.app with
        coalescer := ⟨s.app.coalescer.inFlight.insert (c.key.hash p) ⟨c.key.hash p, id⟩⟩ } } := by
      refine { hs with inFlight := ?_ }
      intro h channel hl'
      by_cases hh : h = c.key.hash p
      · rw [hh, AList.lookup_insert] at hl'
        cases hl'
        exact hh.symm
      · rw [AList.lookup_insert_ne hh] at hl'
        exact hs.inFlight h channel hl'
    exact hnext.await id hc

theorem serve (hs : Provenance p K s) (now : Clock) {c : Client} (hc : c.key ∈ K)
    (status : CacheStatus) {e : CacheEntry} {source : Source}
    (hsource : source.From p K (c.key.hash p) e.response.results)
    (hown : ∀ f, source ≠ .fetched f) :
    Provenance p K (Server.serve now c status e source s) :=
  hs.answer_from hc hsource hown

theorem refuse (hs : Provenance p K s) (now : Clock) (c : Client)
    (missReason : Option MissReason) (status : Nat) :
    Provenance p K (s.refuse now c missReason status) :=
  hs.answer_empty rfl

theorem readServe (hs : Provenance p K s) (hK : CollisionFree p K) (now : Clock) {c : Client}
    (hc : c.key ∈ K) (status : CacheStatus) {missing : Server → Server}
    (hmissing : Provenance p K (missing s)) :
    Provenance p K
      (s.read p now (.byHash (c.key.hash p)) (Server.serve now c status) missing) :=
  hs.read hK now hc .byHash (fun _ _ _ hs' => hs'.serve now hc status) hmissing

theorem afterMiss (hs : Provenance p K s) (hK : CollisionFree p K) (now : Clock) (id : Nat)
    {c : Client} (hc : c.key ∈ K) (missReason : MissReason) (embedding : Option Embedding)
    (allowed : Bool) :
    Provenance p K (s.afterMiss p now id c missReason embedding allowed) := by
  unfold Server.afterMiss
  dsimp only
  split
  · split
    · exact hs.coalesce id hc s.app.upstreams missReason embedding
    · exact hs.readServe hK now hc .frozen (hs.refuse now c (some .circuitOpen) 503)
  · exact hs.readServe hK now hc .hit (hs.refuse now c (some missReason) 503)

theorem semanticTier (hs : Provenance p K s) (hK : CollisionFree p K) (now : Clock) (id : Nat)
    {c : Client} (hc : c.key ∈ K) (missReason : MissReason) (allowed : Bool) :
    Provenance p K (s.semanticTier p now id c missReason allowed) := by
  unfold Server.semanticTier
  split
  · exact hs.await id hc
  · exact hs.afterMiss hK now id hc missReason none allowed

theorem semanticLookup (hs : Provenance p K s) (hK : CollisionFree p K) (now : Clock) (id : Nat)
    {c : Client} (hc : c.key ∈ K) (missReason : MissReason) (embedded : Option Embedding)
    (scan : TierScan) (allowed : Bool) :
    Provenance p K (s.semanticLookup p now id c missReason embedded scan allowed) := by
  have hmiss (e : Option Embedding) := hs.afterMiss hK now id hc missReason e allowed
  unfold Server.semanticLookup
  split
  · rename_i embedding tier htier
    have hempty : tier.iter scan = [] := by
      have hperm := scan.perm (tier.embeddings.entries.map fun e => (e.1, e.2.2))
      rw [hs.tier tier htier] at hperm
      simpa [SemanticCache.iter, hs.tier tier htier] using hperm
    have hnone : tier.lookup p (tier.iter scan) embedding = none := by
      simp [SemanticCache.lookup, SemanticCache.best, hempty]
    rw [hnone]
    exact hmiss (some embedding)
  · exact hmiss none

theorem executeQuery (hs : Provenance p K s) (hK : CollisionFree p K) (now : Clock) (id : Nat)
    {c : Client} (hc : c.key ∈ K) (agent : Option AgentIdentity) (skipCache allowed : Bool) :
    Provenance p K (s.executeQuery p now id c agent skipCache allowed) := by
  have htier (missReason : MissReason) (s' : Server) (hs' : Provenance p K s') :=
    hs'.semanticTier hK now id hc missReason allowed
  unfold Server.executeQuery
  split
  · exact hs.refuse now c none 503
  split
  · exact hs.refuse now c none 400
  split
  · exact hs.refuse now c none 403
  split
  · exact hs.afterMiss hK now id hc _ none allowed
  dsimp only
  split
  · exact hs.readServe hK now hc .hit (htier .notInCache s hs)
  · refine hs.read hK now hc .byHash ?_ (htier .notInCache s hs)
    intro e source s' hs' hsource hown
    refine Provenance.serve ?_ now hc .stale hsource hown
    split
    · exact hs'.spawn hc
    · exact hs'
  · exact htier .expired s hs
  · exact htier .expired s hs
  · exact htier .notInCache s hs

theorem share (hs : Provenance p K s) (now : Clock) {c : Client} {response : QueryResponse}
    {f : Fetch} (hf : f.For p K (c.key.hash p) response.results) (hkey : f.key = c.key)
    (hrequest : f.request = some c.request) :
    Provenance p K (s.share p now c response (.fetched f)) := by
  refine Provenance.answer_fetched ?_ hf hkey hrequest
  exact hs.complete_ok _ ⟨f, rfl, hf⟩

theorem leaderOk (hs : Provenance p K s) (now : Clock) (scan : Scan) {c : Client}
    (hc : c.key ∈ K) (missReason : MissReason) (stashed computed : Option Embedding)
    (returned : QueryResponse) :
    Provenance p K (s.leaderOk p now scan c missReason stashed computed returned) := by
  have hasks := Fetch.asks_of_request .client c.key (r := c.request) rfl
    (s.missResponse c missReason returned).results
  unfold Server.leaderOk
  dsimp only
  split
  · exact hs.share now ⟨hc, rfl, rfl, hasks⟩ rfl rfl
  · have hstored := hs.store now scan (f := ⟨.client, c.key, some c.request,
      (s.missResponse c missReason returned).results⟩) hc hasks
      (.insertByHashWithEmbedding (s.missResponse c missReason returned) s.app.upstreamId
        (s.insertEmbedding stashed computed) (some c.key.text) rfl)
    exact (hstored.registerQuery hc).share now ⟨hc, rfl, rfl, hasks⟩ rfl rfl

theorem leaderErr (hs : Provenance p K s) (hK : CollisionFree p K) (now : Clock) {c : Client}
    (hc : c.key ∈ K) (message : String) : Provenance p K (s.leaderErr p now c message) := by
  apply hs.read hK now hc .byHash
  · intro e source s' hs' hsource hown
    refine Provenance.serve ?_ now hc .frozen hsource hown
    exact hs'.complete_ok _ hsource
  · refine Provenance.refuse ?_ now c _ 502
    exact hs.complete_error _ message

theorem waiterDone (hs : Provenance p K s) (hK : CollisionFree p K) (now : Clock) {c : Client}
    (hc : c.key ∈ K) {result : CoalesceResult}
    (hresult : ∀ b, result = .ok b → b.source.From p K (c.key.hash p) b.response.results) :
    Provenance p K (s.waiterDone p now c result) := by
  unfold Server.waiterDone
  cases result with
  | ok b => exact hs.answer_from hc (hresult b rfl) (fun f hf => by cases hf)
  | error m => exact hs.readServe hK now hc .frozen (hs.refuse now c (some .upstreamError) 502)

theorem staleRefreshed (hs : Provenance p K s) (now : Clock) (scan : Scan) {key : Key}
    (hk : key ∈ K) (returned : Except String QueryResponse) :
    Provenance p K (s.staleRefreshed p now scan key returned) := by
  unfold Server.staleRefreshed
  split
  · exact hs
  dsimp only
  split
  · exact hs
  · refine Provenance.registerQuery ?_ hk
    exact hs.store now scan hk (Fetch.asks_of_request _ key rfl _)
      (.insertWithContext _ _ _ rfl)

theorem batchLookup_of (t : Transport) (key : Key) : (Server.batchLookup p t key).Of p key := by
  cases t with
  | http => exact .byHash
  | grpc => exact .byText

theorem failItem (hs : Provenance p K s) (c : Client) (message : String) :
    Provenance p K (s.failItem c message) :=
  hs.answer_empty rfl

theorem readItem (hs : Provenance p K s) (hK : CollisionFree p K) (now : Clock) {c : Client}
    (hc : c.key ∈ K) (t : Transport) (status : CacheStatus) {missing : Server → Server}
    (hmissing : Provenance p K (missing s)) :
    Provenance p K
      (s.read p now (Server.batchLookup p t c.key) (Server.serveItem now c status) missing) :=
  hs.read hK now hc (batchLookup_of t c.key)
    (fun _ _ _ hs' hsource hown => hs'.answer_from hc hsource hown) hmissing

theorem batchMiss (hs : Provenance p K s) (hK : CollisionFree p K) (now : Clock) (id : Nat)
    {c : Client} (hc : c.key ∈ K) (t : Transport) (upstreams : Upstreams)
    (missReason : MissReason) :
    Provenance p K (s.batchMiss p now id c t upstreams missReason) := by
  unfold Server.batchMiss
  split
  · exact hs.coalesce id hc upstreams missReason none
  · exact hs.readItem hK now hc t .hit (hs.failItem c (Server.noUpstreamMessage t))

theorem batchItem (hs : Provenance p K s) (hK : CollisionFree p K) (now : Clock) (id : Nat)
    {c : Client} (hc : c.key ∈ K) (t : Transport) (agent : Option AgentIdentity)
    (upstreams : Upstreams) : Provenance p K (s.batchItem p now id c t agent upstreams) := by
  have hmiss (missReason : MissReason) (s' : Server) (hs' : Provenance p K s') :=
    hs'.batchMiss hK now id hc t upstreams missReason
  unfold Server.batchItem
  split
  · exact hs.answer_empty rfl
  dsimp only
  split
  · exact hs.readItem hK now hc t .hit (hmiss .notInCache s hs)
  · exact hs.readItem hK now hc t .stale (hmiss .notInCache s hs)
  · exact hmiss .expired s hs
  · exact hmiss .expired s hs
  · exact hmiss .notInCache s hs

theorem batchInsert_stores (t : Transport) (key : Key) (response timed : QueryResponse)
    (upstreamId : String) (h : timed.results = response.results) :
    (Server.batchInsert p t key response timed upstreamId).Stores p key response.results := by
  cases t with
  | http => exact .insertByHash _ _ _ rfl
  | grpc => exact .insert _ _ h

theorem batchOk (hs : Provenance p K s) (now : Clock) (scan : Scan) {c : Client}
    (hc : c.key ∈ K) (t : Transport) (missReason : MissReason) (returned : QueryResponse) :
    Provenance p K (s.batchOk p now scan c t missReason returned) := by
  have hasks := Fetch.asks_of_request .client c.key (r := c.request) rfl
    (s.missResponse c missReason returned).results
  unfold Server.batchOk
  dsimp only
  refine Provenance.answer_fetched ?_ ⟨hc, rfl, rfl, hasks⟩ rfl rfl
  refine Provenance.complete_ok ?_ _ ⟨_, rfl, hc, rfl, rfl, hasks⟩
  split
  · exact hs
  · refine Provenance.registerQuery ?_ hc
    exact hs.store now scan hc hasks (batchInsert_stores t c.key _ _ _ rfl)

theorem batchErr (hs : Provenance p K s) (hK : CollisionFree p K) (now : Clock) {c : Client}
    (hc : c.key ∈ K) (t : Transport) (message : String) :
    Provenance p K (s.batchErr p now c t message) := by
  apply hs.read hK now hc (batchLookup_of t c.key)
  · intro e source s' hs' hsource hown
    refine Provenance.answer_from ?_ hc hsource hown
    exact hs'.complete_ok _ hsource
  · exact (hs.complete_error _ message).failItem c message

theorem batchWaiterDone (hs : Provenance p K s) (hK : CollisionFree p K) (now : Clock)
    {c : Client} (hc : c.key ∈ K) (t : Transport) {result : CoalesceResult}
    (hresult : ∀ b, result = .ok b → b.source.From p K (c.key.hash p) b.response.results) :
    Provenance p K (s.batchWaiterDone p now c t result) := by
  unfold Server.batchWaiterDone
  cases result with
  | ok b => exact hs.answer_from hc (hresult b rfl) (fun f hf => by cases hf)
  | error m => exact hs.readItem hK now hc t .frozen (hs.failItem c "Upstream request failed")

theorem handleFederated (hs : Provenance p K s) (hK : CollisionFree p K) (now : Clock)
    (id : Nat) {c : Client} (hc : c.key ∈ K) (t : Transport) (agent : Option AgentIdentity)
    (remote : Bool) : Provenance p K (s.handleFederated p now id c t agent remote) := by
  unfold Server.handleFederated
  split
  · exact hs.answer_empty rfl
  split
  · refine hs.read hK now hc .byText ?_ (hs.answer_empty rfl)
    intro e source s' hs' hsource hown
    exact hs'.answer_from hc hsource hown
  split
  · cases t with
    | http =>
      refine hs.read hK now hc .byText ?_ (hs.await id hc)
      intro e source s' hs' hsource hown
      exact hs'.answer_from hc hsource hown
    | grpc => exact hs.await id hc
  · exact hs.answer_empty rfl

theorem federatedDone (hs : Provenance p K s) (now : Clock) (scan : Scan) {c : Client}
    (hc : c.key ∈ K) (returned : Except String QueryResponse) :
    Provenance p K (s.federatedDone p now scan c returned) := by
  unfold Server.federatedDone
  split
  · exact hs.answer_empty rfl
  rename_i response
  have hasks := Fetch.asks_of_request .federated c.key (r := c.request) rfl response.results
  dsimp only
  refine Provenance.answer_fetched ?_ ⟨hc, rfl, rfl, hasks⟩ rfl rfl
  split
  · exact hs.store now scan hc hasks (.insertWithContext _ _ _ rfl)
  · exact hs

theorem refreshStale (hs : Provenance p K s) (now : Clock) (h : QueryHash) :
    Provenance p K (s.refreshStale p now h) := by
  unfold Server.refreshStale
  split
  · exact hs
  rename_i w hw
  split
  · split
    · rename_i key hl
      have hk : key ∈ K := hs.registered w hw h key hl
      refine Provenance.spawn ?_ hk
      refine { hs.get hk with registered := ?_ }
      intro w' hw' h' k hl'
      cases hw'
      exact hs.registered w hw h' k hl'
    · exact hs
  · exact hs

theorem refreshed (hs : Provenance p K s) (now : Clock) (scan : Scan) {key : Key}
    (hk : key ∈ K) (returned : Except String QueryResponse) :
    Provenance p K (s.refreshed p now scan key returned) := by
  unfold Server.refreshed
  split
  · exact hs
  · exact hs.store now scan hk (fun h => absurd rfl h) (.insert _ _ rfl)

theorem warmup (hs : Provenance p K s) (now : Clock) (id : Nat) {key : Key} (hk : key ∈ K) :
    Provenance p K (s.warmup p now id key) := by
  unfold Server.warmup
  split
  · exact hs
  split
  · exact hs
  · exact hs.await id hk

theorem warmed (hs : Provenance p K s) (now : Clock) (scan : Scan) {key : Key} (hk : key ∈ K)
    (returned : Except String QueryResponse) :
    Provenance p K (s.warmed p now scan key returned) := by
  unfold Server.warmed
  split
  · exact hs
  dsimp only
  split
  · exact hs
  · exact hs.store now scan hk (Fetch.asks_of_request _ key rfl _)
      (.insertWithContext _ _ _ rfl)

theorem replicated (hs : Provenance p K s) (now : Clock) (scan : Scan) {key : Key}
    (hk : key ∈ K) (response : QueryResponse) (upstreamId : String) (applies : Bool) :
    Provenance p K (s.replicated p now scan key response upstreamId applies) := by
  unfold Server.replicated
  dsimp only
  split
  · exact (hs.get hk).store now scan hk (fun _ r hr => by cases hr) (.insert _ _ rfl)
  · exact hs.get hk

theorem maintenance (hs : Provenance p K s) (call : Call) (hop : call.op.maintains = true) :
    Provenance p K (s.setCache (exec p s.app.cache call)) := by
  have hforgets := exec_forgets (p := p) s.app.cache call (Op.mappedText_of_maintains hop)
  refine hs.setCache ?_ fun x m hx => Or.inl (hforgets x m hx)
  intro h e' hl
  rcases exec_content s.app.cache call hl with ⟨i, hi, -⟩ | ⟨-, hold⟩
  · rw [Op.insertions_of_maintains hop] at hi
    cases hi
  · exact hold

theorem resume (hs : Provenance p K s) (hK : CollisionFree p K) (now : Clock) (scan : Scan)
    {task : Task} (ht : task.Known p K) (outcome : Except String QueryResponse)
    (computed : Option Embedding) : Provenance p K (s.resume p now scan task outcome computed) := by
  unfold Server.resume
  split
  · split
    · exact hs.leaderOk now scan ht _ _ _ _
    · exact hs.leaderErr hK now ht _
    · exact hs.batchOk now scan ht _ _ _
    · exact hs.batchErr hK now ht _ _
    · exact hs
  · exact hs.federatedDone now scan ht outcome
  · exact hs.staleRefreshed now scan ht outcome
  · exact hs.refreshed now scan ht outcome
  · exact hs.warmed now scan ht outcome
  · exact hs
  · exact hs

theorem receive (hs : Provenance p K s) (hK : CollisionFree p K) (now : Clock) {c : Client}
    (hc : c.key ∈ K) {result : CoalesceResult}
    (hresult : ∀ b, result = .ok b → b.source.From p K (c.key.hash p) b.response.results) :
    Provenance p K (s.receive p now c result) := by
  unfold Server.receive
  split
  · exact hs.waiterDone hK now hc hresult
  · exact hs.batchWaiterDone hK now hc _ hresult
  · exact hs

theorem step (hK : CollisionFree p K) (s : Server) (a : Action)
    (ha : ∀ k ∈ a.event.keys, k ∈ K) (hs : Provenance p K s) :
    Provenance p K (s.step p a) := by
  rcases a with ⟨now, scan, event⟩
  cases event with
  | query contextId request agent skipCache allowed =>
    exact hs.arrive.executeQuery hK now _ (ha _ List.mem_cons_self) agent skipCache allowed
  | batch t contextId request agent upstreams =>
    exact hs.arrive.batchItem hK now _ (ha _ List.mem_cons_self) t agent upstreams
  | federated t contextId query topK agent remote =>
    exact hs.arrive.handleFederated hK now _ (ha _ List.mem_cons_self) t agent remote
  | embedded id embedding scan allowed =>
    simp only [Server.step]
    split
    · rename_i c missReason hl
      exact (hs.finish id).semanticLookup hK now id (hs.tasks id _ hl) missReason embedding scan
        allowed
    · exact hs
  | returned id outcome computed =>
    simp only [Server.step]
    split
    · exact hs
    · exact hs
    · rename_i task _ _ hl
      exact (hs.finish id).resume hK now scan (hs.tasks id task hl) outcome computed
    · exact hs
  | received id =>
    simp only [Server.step]
    split
    · rename_i c receiver hl
      obtain ⟨hc, hhash⟩ := hs.tasks id _ hl
      split
      · rename_i result hsent
        apply (hs.finish id).receive hK now hc
        intro b hb
        rw [← hhash]
        exact hs.sent receiver b (hb ▸ hsent)
      · exact hs
    · exact hs
  | refreshStale h => exact hs.refreshStale now h
  | warmup contextId query => exact hs.arrive.warmup now _ (ha _ List.mem_cons_self)
  | replicated key response upstreamId applies =>
    exact hs.replicated now scan (ha _ List.mem_cons_self) response upstreamId applies
  | maintenance op =>
    simp only [Server.step]
    split
    · rename_i hop
      exact hs.maintenance ⟨now, scan, op⟩ hop
    · exact hs
  | dropped id => exact hs.finish id
  | reconfigured upstreams federatedEnabled paused => exact { hs with }

end Provenance

end Conproxy
