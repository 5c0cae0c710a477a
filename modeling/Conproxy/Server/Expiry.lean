import Conproxy.Server.Isolation

/-!
# Expired entries

The first lookups of a request classify an entry before they serve it. The fallbacks (circuit
open, upstream error, failed leader, no upstream) and the federated handler serve whatever the
cache holds. Runs in which no fallback meets an expired entry serve no expired entry.
-/

namespace Conproxy

open CacheStore Machine

set_option autoImplicit false

variable (p : Platform)

/-- The read of `execute_query` when it may not go to the upstream. -/
def Server.fallbackLookup (s : Server) (key : Key) (allowed : Bool) : Option Lookup :=
  if s.app.upstreams.any && allowed then none else some (.byHash (key.hash p))

/-- The read of a batch item. A gRPC item classifies the entry of its hash, but reads by
text. -/
def Server.batchRead (s : Server) (now : Clock) (t : Transport) (upstreams : Upstreams)
    (key : Key) : Option Lookup :=
  match t, s.app.cache.checkFreshnessByHash p now (key.hash p) with
  | .grpc, some .fresh | .grpc, some .stale => some (.byText key.text)
  | t, _ => if upstreams.any then none else some (Server.batchLookup p t key)

def Client.errorLookup (c : Client) : Option Lookup :=
  match c.handler with
  | .query => some (.byHash (c.key.hash p))
  | .batch t => some (Server.batchLookup p t c.key)
  | .federated _ => none

/-- The lookup of a step whose entry is served without being classified. -/
def Server.uncheckedLookup (s : Server) (a : Action) : Option Lookup :=
  match a.event with
  | .query contextId request agent skipCache allowed =>
    match request.validate with
    | .error _ => none
    | .ok () =>
      if s.app.paused || Server.deniedBy agent contextId then none
      else if !skipCache && (s.app.semanticCache.isSome && s.app.smartEmbedder) then none
      else s.fallbackLookup p ⟨contextId, request.query⟩ allowed
  | .batch t contextId request agent upstreams =>
    if t = .http ∧ Server.deniedBy agent contextId then none
    else s.batchRead p a.now t upstreams ⟨contextId, request.query⟩
  | .federated t contextId query _ agent remote =>
    if t = .http ∧ Server.deniedBy agent contextId then none
    else if s.app.federatedEnabled = false then some (.byText (Key.text ⟨contextId, query⟩))
    else if remote && (s.app.upstreams.pool || s.app.upstreams.single) then
      match t with
      | .http => some (.byText (Key.text ⟨contextId, query⟩))
      | .grpc => none
    else none
  | .embedded id _ _ allowed =>
    match s.tasks.lookup id with
    | some (.embedding c _) => s.fallbackLookup p c.key allowed
    | _ => none
  | .returned id outcome _ =>
    match s.tasks.lookup id with
    | some (.leading c upstreams _ _) =>
      match upstreams.dispatch outcome with
      | .error _ => c.errorLookup p
      | .ok _ => none
    | _ => none
  | .received id =>
    match s.tasks.lookup id with
    | some (.waiting c receiver) =>
      match s.sent.lookup receiver with
      | some (.error _) => c.errorLookup p
      | _ => none
    | _ => none
  | _ => none

def Server.freshnessAt (s : Server) (now : Clock) (look : Lookup) : Option Freshness :=
  s.app.cache.checkFreshnessByHash p now (look.hash p s.app.cache)

/-- A step does not read an expired entry without classifying it. -/
def FallbackUsable (s : Server) (a : Action) : Prop :=
  (s.uncheckedLookup p a).bind (s.freshnessAt p a.now) ≠ some .expired

instance (s : Server) (a : Action) : Decidable (FallbackUsable p s a) :=
  inferInstanceAs (Decidable (_ ≠ _))

variable {p}

theorem FallbackUsable.of_lookup {s : Server} {a : Action} (h : FallbackUsable p s a)
    {look : Lookup} (hl : s.uncheckedLookup p a = some look) :
    s.freshnessAt p a.now look ≠ some .expired := by
  simpa [FallbackUsable, hl] using h

structure Unexpired (s : Server) : Prop where
  sent : ∀ channel b, s.sent.lookup channel = some (.ok b) → b.source.freshness ≠ some .expired
  answers : ∀ a ∈ s.answers, a.source.freshness ≠ some .expired

namespace Unexpired

variable {s : Server}

theorem answer (hs : Unexpired s) (c : Client) {source : Source} (reply : Reply)
    (hsource : source.freshness ≠ some .expired) : Unexpired (s.answer c source reply) :=
  { hs with
    answers := by
      intro a hmem
      rcases List.mem_cons.mp hmem with rfl | hmem
      · exact hsource
      · exact hs.answers a hmem }

theorem answer_nowhere (hs : Unexpired s) (c : Client) (reply : Reply) :
    Unexpired (s.answer c .nowhere reply) :=
  hs.answer c reply (by simp [Source.freshness])

theorem answer_fetched (hs : Unexpired s) (c : Client) (f : Fetch) (reply : Reply) :
    Unexpired (s.answer c (.fetched f) reply) :=
  hs.answer c reply (by simp [Source.freshness])

theorem complete (hs : Unexpired s) (h : QueryHash) {result : CoalesceResult}
    (hresult : ∀ b, result = .ok b → b.source.freshness ≠ some .expired) :
    Unexpired (s.complete h result) := by
  unfold Server.complete
  cases s.app.coalescer.inFlight.lookup h with
  | none => exact hs
  | some channel =>
    refine { hs with sent := ?_ }
    intro channel' b hl
    by_cases hc : channel' = channel
    · rw [hc, AList.lookup_insert] at hl
      exact hresult b (Option.some.inj hl)
    · rw [AList.lookup_insert_ne hc] at hl
      exact hs.sent channel' b hl

theorem complete_ok (hs : Unexpired s) (h : QueryHash) {b : Broadcast}
    (hsource : b.source.freshness ≠ some .expired) : Unexpired (s.complete h (.ok b)) := by
  apply hs.complete h
  intro b' hb
  cases hb
  exact hsource

theorem complete_error (hs : Unexpired s) (h : QueryHash) (message : String) :
    Unexpired (s.complete h (.error message)) := by
  apply hs.complete h
  intro b hb
  cases hb

theorem congr {s' : Server} (hs : Unexpired s) (hsent : s'.sent = s.sent)
    (hanswers : s'.answers = s.answers) : Unexpired s' :=
  ⟨by rw [hsent]; exact hs.sent, by rw [hanswers]; exact hs.answers⟩

theorem read (hs : Unexpired s) {now : Clock} {look : Lookup}
    (hfresh : s.freshnessAt p now look ≠ some .expired)
    {found : CacheEntry → Source → Server → Server} {missing : Server → Server}
    (hfound : ∀ e source s', Unexpired s' → source.freshness ≠ some .expired →
      Unexpired (found e source s'))
    (hmissing : s.freshnessAt p now look = none → Unexpired (missing s)) :
    Unexpired (s.read p now look found missing) := by
  cases hl : s.app.cache.entries.lookup (look.hash p s.app.cache) with
  | none =>
    rw [Server.read_of_none hl]
    exact hmissing (by simp [Server.freshnessAt, checkFreshnessByHash, hl])
  | some e =>
    rw [Server.read_of_lookup hl]
    exact hfound e _ _ (hs.congr rfl rfl) hfresh

/-! ## The handlers -/

theorem coalesce (hs : Unexpired s) (id : Nat) (c : Client) (upstreams : Upstreams)
    (missReason : MissReason) (embedding : Option Embedding) :
    Unexpired (s.coalesce p id c upstreams missReason embedding) := by
  unfold Server.coalesce
  split <;> exact hs.congr rfl rfl

theorem refuse (hs : Unexpired s) (now : Clock) (c : Client) (missReason : Option MissReason)
    (status : Nat) : Unexpired (s.refuse now c missReason status) :=
  hs.answer_nowhere c _

theorem readServe (hs : Unexpired s) {now : Clock} {look : Lookup}
    (hfresh : s.freshnessAt p now look ≠ some .expired) (c : Client) (status : CacheStatus)
    {missing : Server → Server}
    (hmissing : s.freshnessAt p now look = none → Unexpired (missing s)) :
    Unexpired (s.read p now look (Server.serve now c status) missing) :=
  hs.read hfresh (fun _ _ _ hs' => hs'.answer c _) hmissing

theorem afterMiss (hs : Unexpired s) (now : Clock) (id : Nat) (c : Client)
    (missReason : MissReason) (embedding : Option Embedding) (allowed : Bool)
    (hfresh : ∀ look, s.fallbackLookup p c.key allowed = some look →
      s.freshnessAt p now look ≠ some .expired) :
    Unexpired (s.afterMiss p now id c missReason embedding allowed) := by
  have hlook (h : (s.app.upstreams.any && allowed) = false) :
      s.freshnessAt p now (.byHash (c.key.hash p)) ≠ some .expired :=
    hfresh _ (by simp [Server.fallbackLookup, h])
  unfold Server.afterMiss
  dsimp only
  split
  · split
    · exact hs.coalesce id c s.app.upstreams missReason embedding
    · rename_i hallowed
      exact hs.readServe (hlook (by simp [hallowed])) c .frozen fun _ =>
        hs.refuse now c (some .circuitOpen) 503
  · rename_i hany
    exact hs.readServe (hlook (by simp [hany])) c .hit fun _ =>
      hs.refuse now c (some missReason) 503

theorem semanticTier (hs : Unexpired s) (now : Clock) (id : Nat) (c : Client)
    (missReason : MissReason) (allowed : Bool)
    (hfresh : (s.app.semanticCache.isSome && s.app.smartEmbedder) = false →
      ∀ look, s.fallbackLookup p c.key allowed = some look →
        s.freshnessAt p now look ≠ some .expired) :
    Unexpired (s.semanticTier p now id c missReason allowed) := by
  unfold Server.semanticTier
  split
  · exact hs.congr rfl rfl
  · rename_i htier
    exact hs.afterMiss now id c missReason none allowed (hfresh (by simpa using htier))

theorem semanticLookup (hs : Unexpired s) (now : Clock) (id : Nat) (c : Client)
    (missReason : MissReason) (embedded : Option Embedding) (scan : TierScan) (allowed : Bool)
    (hfresh : ∀ look, s.fallbackLookup p c.key allowed = some look →
      s.freshnessAt p now look ≠ some .expired) :
    Unexpired (s.semanticLookup p now id c missReason embedded scan allowed) := by
  have hmiss (e : Option Embedding) := hs.afterMiss now id c missReason e allowed hfresh
  unfold Server.semanticLookup
  split
  · rename_i embedding _ _
    split
    · rename_i matched _
      have hserve (f : Freshness) (hf : f ≠ .expired)
          (hmatch : s.app.cache.checkFreshnessByHash p now matched = some f) :
          Unexpired (s.read p now (.byHash matched) (Server.serve now c .hit) fun s =>
            s.afterMiss p now id c missReason (some embedding) allowed) := by
        refine hs.readServe ?_ c .hit fun _ => hmiss (some embedding)
        intro h
        exact hf (Option.some.inj (hmatch.symm.trans h))
      split
      · exact hserve .fresh (by decide) ‹_›
      · exact hserve .stale (by decide) ‹_›
      · exact hserve .frozen (by decide) ‹_›
      · exact hmiss _
    · exact hmiss _
  · exact hmiss none

theorem executeQuery (hs : Unexpired s) (now : Clock) (id : Nat) (c : Client)
    (agent : Option AgentIdentity) (skipCache allowed : Bool)
    (hfresh : s.app.paused = false → c.request.validate = .ok () →
      Server.deniedBy agent c.contextId = false →
      (skipCache = false → (s.app.semanticCache.isSome && s.app.smartEmbedder) = false) →
      ∀ look, s.fallbackLookup p c.key allowed = some look →
        s.freshnessAt p now look ≠ some .expired) :
    Unexpired (s.executeQuery p now id c agent skipCache allowed) := by
  unfold Server.executeQuery
  split
  · exact hs.refuse now c none 503
  rename_i hpaused
  split
  · exact hs.refuse now c none 400
  rename_i hvalid
  split
  · exact hs.refuse now c none 403
  rename_i hdenied
  replace hfresh := hfresh (by simpa using hpaused) hvalid (by simpa using hdenied)
  split
  · rename_i hskip
    exact hs.afterMiss now id c _ none allowed (hfresh (by simp [hskip]))
  have htier (missReason : MissReason) := hs.semanticTier (p := p) now id c missReason allowed
    fun h => hfresh fun _ => h
  have hat : s.freshnessAt p now (.byHash (c.key.hash p)) =
      s.app.cache.checkFreshnessByHash p now (c.key.hash p) := rfl
  dsimp only
  split
  · rename_i hcheck
    exact hs.readServe (by simp [hat, hcheck]) c .hit (fun _ => htier .notInCache)
  · rename_i hcheck
    refine hs.read (by simp [hat, hcheck]) ?_ (fun _ => htier .notInCache)
    intro e source s' hs' hsource
    refine Unexpired.answer ?_ c _ hsource
    split
    · exact hs'.congr rfl rfl
    · exact hs'
  · exact htier .expired
  · exact htier .expired
  · exact htier .notInCache

theorem share (hs : Unexpired s) (now : Clock) (c : Client) (response : QueryResponse)
    (f : Fetch) : Unexpired (s.share p now c response (.fetched f)) := by
  refine Unexpired.answer_fetched ?_ c f _
  exact hs.complete_ok _ (by simp [Source.freshness])

theorem leaderOk (hs : Unexpired s) (now : Clock) (scan : Scan) (c : Client)
    (missReason : MissReason) (stashed computed : Option Embedding) (returned : QueryResponse) :
    Unexpired (s.leaderOk p now scan c missReason stashed computed returned) := by
  unfold Server.leaderOk
  dsimp only
  split
  · exact hs.share now c _ _
  · refine Unexpired.share ?_ now c _ _
    exact hs.congr rfl rfl

theorem leaderErr (hs : Unexpired s) (now : Clock) (c : Client) (message : String)
    (hfresh : s.freshnessAt p now (.byHash (c.key.hash p)) ≠ some .expired) :
    Unexpired (s.leaderErr p now c message) := by
  apply hs.read hfresh
  · intro e source s' hs' hsource
    refine Unexpired.answer ?_ c _ hsource
    exact hs'.complete_ok _ hsource
  · intro _
    refine Unexpired.refuse ?_ now c _ 502
    exact hs.complete_error _ message

theorem waiterDone (hs : Unexpired s) (now : Clock) (c : Client) {result : CoalesceResult}
    (hok : ∀ b, result = .ok b → b.source.freshness ≠ some .expired)
    (hfresh : ∀ m, result = .error m →
      s.freshnessAt p now (.byHash (c.key.hash p)) ≠ some .expired) :
    Unexpired (s.waiterDone p now c result) := by
  unfold Server.waiterDone
  cases result with
  | ok b => exact hs.answer c _ (hok b rfl)
  | error m =>
    exact hs.readServe (hfresh m rfl) c .frozen fun _ =>
      hs.refuse now c (some .upstreamError) 502

theorem staleRefreshed (hs : Unexpired s) (now : Clock) (scan : Scan) (key : Key)
    (returned : Except String QueryResponse) :
    Unexpired (s.staleRefreshed p now scan key returned) := by
  unfold Server.staleRefreshed
  split
  · exact hs
  dsimp only
  split
  · exact hs
  · exact hs.congr rfl rfl

/-! ## Batch items and federated requests -/

theorem failItem (hs : Unexpired s) (c : Client) (message : String) :
    Unexpired (s.failItem c message) :=
  hs.answer_nowhere c _

theorem readItem (hs : Unexpired s) {now : Clock} {look : Lookup}
    (hfresh : s.freshnessAt p now look ≠ some .expired) (c : Client) (status : CacheStatus)
    {missing : Server → Server}
    (hmissing : s.freshnessAt p now look = none → Unexpired (missing s)) :
    Unexpired (s.read p now look (Server.serveItem now c status) missing) :=
  hs.read hfresh (fun _ _ _ hs' => hs'.answer c _) hmissing

theorem batchMiss (hs : Unexpired s) (now : Clock) (id : Nat) (c : Client) (t : Transport)
    (upstreams : Upstreams) (missReason : MissReason)
    (hfresh : upstreams.any = false →
      s.freshnessAt p now (Server.batchLookup p t c.key) ≠ some .expired) :
    Unexpired (s.batchMiss p now id c t upstreams missReason) := by
  unfold Server.batchMiss
  split
  · exact hs.coalesce id c upstreams missReason none
  · rename_i hany
    exact hs.readItem (hfresh (by simpa using hany)) c .hit fun _ =>
      hs.failItem c (Server.noUpstreamMessage t)

theorem batchRead_fresh {now : Clock} {t : Transport} {upstreams : Upstreams} {key : Key}
    {f : Freshness}
    (hcheck : s.app.cache.checkFreshnessByHash p now (key.hash p) = some f)
    (hf : f = .fresh ∨ f = .stale)
    (hfresh : ∀ look, s.batchRead p now t upstreams key = some look →
      s.freshnessAt p now look ≠ some .expired) :
    s.freshnessAt p now (Server.batchLookup p t key) ≠ some .expired := by
  cases t with
  | http =>
    have hat : s.freshnessAt p now (Server.batchLookup p .http key) = some f := hcheck
    rw [hat]
    rcases hf with rfl | rfl <;> simp
  | grpc =>
    apply hfresh _
    rcases hf with rfl | rfl <;> simp [Server.batchRead, Server.batchLookup, hcheck]

theorem batchItem (hs : Unexpired s) (now : Clock) (id : Nat) (c : Client) (t : Transport)
    (agent : Option AgentIdentity) (upstreams : Upstreams)
    (hfresh : ¬ (t = .http ∧ Server.deniedBy agent c.contextId = true) →
      ∀ look, s.batchRead p now t upstreams c.key = some look →
        s.freshnessAt p now look ≠ some .expired) :
    Unexpired (s.batchItem p now id c t agent upstreams) := by
  unfold Server.batchItem
  split
  · exact hs.answer_nowhere c _
  rename_i hdenied
  replace hfresh := hfresh hdenied
  have hmiss (missReason : MissReason) :
      Unexpired (s.batchMiss p now id c t upstreams missReason) := by
    apply hs.batchMiss now id c t upstreams missReason
    intro hany
    apply hfresh _
    unfold Server.batchRead
    split <;> simp [Server.batchLookup, hany]
  dsimp only
  split
  · rename_i hcheck
    exact hs.readItem (batchRead_fresh hcheck (Or.inl rfl) hfresh) c .hit
      fun _ => hmiss .notInCache
  · rename_i hcheck
    exact hs.readItem (batchRead_fresh hcheck (Or.inr rfl) hfresh) c .stale
      fun _ => hmiss .notInCache
  · exact hmiss .expired
  · exact hmiss .expired
  · exact hmiss .notInCache

theorem batchOk (hs : Unexpired s) (now : Clock) (scan : Scan) (c : Client) (t : Transport)
    (missReason : MissReason) (returned : QueryResponse) :
    Unexpired (s.batchOk p now scan c t missReason returned) := by
  unfold Server.batchOk
  dsimp only
  refine Unexpired.answer_fetched ?_ c _ _
  refine Unexpired.complete_ok ?_ _ (by simp [Source.freshness])
  split
  · exact hs
  · exact hs.congr rfl rfl

theorem batchErr (hs : Unexpired s) (now : Clock) (c : Client) (t : Transport)
    (message : String)
    (hfresh : s.freshnessAt p now (Server.batchLookup p t c.key) ≠ some .expired) :
    Unexpired (s.batchErr p now c t message) := by
  apply hs.read hfresh
  · intro e source s' hs' hsource
    refine Unexpired.answer ?_ c _ hsource
    exact hs'.complete_ok _ hsource
  · intro _
    exact (hs.complete_error _ message).failItem c message

theorem batchWaiterDone (hs : Unexpired s) (now : Clock) (c : Client) (t : Transport)
    {result : CoalesceResult}
    (hok : ∀ b, result = .ok b → b.source.freshness ≠ some .expired)
    (hfresh : ∀ m, result = .error m →
      s.freshnessAt p now (Server.batchLookup p t c.key) ≠ some .expired) :
    Unexpired (s.batchWaiterDone p now c t result) := by
  unfold Server.batchWaiterDone
  cases result with
  | ok b => exact hs.answer c _ (hok b rfl)
  | error m =>
    exact hs.readItem (hfresh m rfl) c .frozen fun _ =>
      hs.failItem c "Upstream request failed"

theorem handleFederated (hs : Unexpired s) (now : Clock) (id : Nat) (c : Client)
    (t : Transport) (agent : Option AgentIdentity) (remote : Bool)
    (hfresh : ¬ (t = .http ∧ Server.deniedBy agent c.contextId = true) →
      (s.app.federatedEnabled = false ∨
        (remote && (s.app.upstreams.pool || s.app.upstreams.single)) = true ∧ t = .http) →
      s.freshnessAt p now (.byText c.key.text) ≠ some .expired) :
    Unexpired (s.handleFederated p now id c t agent remote) := by
  unfold Server.handleFederated
  split
  · exact hs.answer_nowhere c _
  rename_i hdenied
  replace hfresh := hfresh hdenied
  split
  · rename_i hoff
    apply hs.read (hfresh (Or.inl hoff))
    · intro e source s' hs' hsource
      exact hs'.answer c _ hsource
    · intro _
      exact hs.answer_nowhere c _
  split
  · rename_i hremote
    cases t with
    | http =>
      apply hs.read (hfresh (Or.inr ⟨hremote, rfl⟩))
      · intro e source s' hs' hsource
        exact hs'.answer c _ hsource
      · intro _
        exact hs.congr rfl rfl
    | grpc => exact hs.congr rfl rfl
  · exact hs.answer_nowhere c _

theorem federatedDone (hs : Unexpired s) (now : Clock) (scan : Scan) (c : Client)
    (returned : Except String QueryResponse) :
    Unexpired (s.federatedDone p now scan c returned) := by
  unfold Server.federatedDone
  split
  · exact hs.answer_nowhere c _
  dsimp only
  refine Unexpired.answer_fetched ?_ c _ _
  split
  · exact hs.congr rfl rfl
  · exact hs

theorem refreshStale (hs : Unexpired s) (now : Clock) (h : QueryHash) :
    Unexpired (s.refreshStale p now h) := by
  unfold Server.refreshStale
  split
  · exact hs
  split
  · split
    · exact hs.congr rfl rfl
    · exact hs
  · exact hs

theorem refreshed (hs : Unexpired s) (now : Clock) (scan : Scan) (key : Key)
    (returned : Except String QueryResponse) :
    Unexpired (s.refreshed p now scan key returned) := by
  unfold Server.refreshed
  split
  · exact hs
  · exact hs.congr rfl rfl

theorem warmup (hs : Unexpired s) (now : Clock) (id : Nat) (key : Key) :
    Unexpired (s.warmup p now id key) := by
  unfold Server.warmup
  split
  · exact hs
  split
  · exact hs
  · exact hs.congr rfl rfl

theorem warmed (hs : Unexpired s) (now : Clock) (scan : Scan) (key : Key)
    (returned : Except String QueryResponse) :
    Unexpired (s.warmed p now scan key returned) := by
  unfold Server.warmed
  split
  · exact hs
  dsimp only
  split
  · exact hs
  · exact hs.congr rfl rfl

theorem replicated (hs : Unexpired s) (now : Clock) (scan : Scan) (key : Key)
    (response : QueryResponse) (upstreamId : String) (applies : Bool) :
    Unexpired (s.replicated p now scan key response upstreamId applies) := by
  unfold Server.replicated
  dsimp only
  split <;> exact hs.congr rfl rfl

/-! ## Steps -/

theorem resume (hs : Unexpired s) (now : Clock) (scan : Scan) (task : Task)
    (outcome : Except String QueryResponse) (computed : Option Embedding)
    (hfresh : ∀ c upstreams missReason embedding m look,
      task = .leading c upstreams missReason embedding →
      upstreams.dispatch outcome = .error m → c.errorLookup p = some look →
      s.freshnessAt p now look ≠ some .expired) :
    Unexpired (s.resume p now scan task outcome computed) := by
  unfold Server.resume
  split
  · rename_i c upstreams missReason embedding
    have herr (m : String) (hm : upstreams.dispatch outcome = .error m) (look : Lookup)
        (hlook : c.errorLookup p = some look) :=
      hfresh c upstreams missReason embedding m look rfl hm hlook
    split
    · exact hs.leaderOk now scan c _ _ _ _
    · rename_i m hhandler hm
      exact hs.leaderErr now c m (herr m hm _ (by simp [Client.errorLookup, hhandler]))
    · exact hs.batchOk now scan c _ _ _
    · rename_i t m hhandler hm
      exact hs.batchErr now c t m (herr m hm _ (by simp [Client.errorLookup, hhandler]))
    · exact hs
  · exact hs.federatedDone now scan _ outcome
  · exact hs.staleRefreshed now scan _ outcome
  · exact hs.refreshed now scan _ outcome
  · exact hs.warmed now scan _ outcome
  · exact hs
  · exact hs

theorem receive (hs : Unexpired s) (now : Clock) (c : Client) {result : CoalesceResult}
    (hok : ∀ b, result = .ok b → b.source.freshness ≠ some .expired)
    (hfresh : ∀ m look, result = .error m → c.errorLookup p = some look →
      s.freshnessAt p now look ≠ some .expired) :
    Unexpired (s.receive p now c result) := by
  unfold Server.receive
  split
  · rename_i hhandler
    exact hs.waiterDone now c hok fun m hm =>
      hfresh m _ hm (by simp [Client.errorLookup, hhandler])
  · rename_i t hhandler
    exact hs.batchWaiterDone now c t hok fun m hm =>
      hfresh m _ hm (by simp [Client.errorLookup, hhandler])
  · exact hs

theorem step (s : Server) (a : Action) (hfallback : FallbackUsable p s a) (hs : Unexpired s) :
    Unexpired (s.step p a) := by
  have hlook (look : Lookup) (hl : s.uncheckedLookup p a = some look) :=
    hfallback.of_lookup hl
  rcases a with ⟨now, scan, event⟩
  have harrive : Unexpired s.arrive := hs.congr rfl rfl
  have hfinish (id : Nat) : Unexpired (s.finish id) := hs.congr rfl rfl
  cases event with
  | query contextId request agent skipCache allowed =>
    apply harrive.executeQuery now _ _ agent skipCache allowed
    intro hpaused hvalid hdenied htier look hl
    apply hlook look
    have hvalid' : request.validate = .ok () := hvalid
    have hpaused' : s.app.paused = false := hpaused
    have hdenied' : Server.deniedBy agent contextId = false := hdenied
    have hskip : (!skipCache && (s.app.semanticCache.isSome && s.app.smartEmbedder)) = false := by
      cases skipCache with
      | true => rfl
      | false => exact htier rfl
    simp only [Server.uncheckedLookup, hvalid', hpaused', hdenied', hskip]
    exact hl
  | batch t contextId request agent upstreams =>
    apply harrive.batchItem now _ _ t agent upstreams
    intro hdenied look hl
    apply hlook look
    simp only [Server.uncheckedLookup, if_neg hdenied]
    exact hl
  | federated t contextId query topK agent remote =>
    apply harrive.handleFederated now _ _ t agent remote
    intro hdenied hreads
    apply hlook _
    simp only [Server.uncheckedLookup, if_neg hdenied]
    by_cases hoff : s.app.federatedEnabled = false
    · exact if_pos hoff
    · obtain ⟨hremote, rfl⟩ := hreads.resolve_left hoff
      rw [if_neg hoff]
      exact if_pos hremote
  | embedded id embedding scan allowed =>
    simp only [Server.step]
    split
    · rename_i c missReason hl
      refine (hfinish id).semanticLookup now id c missReason embedding
        scan allowed ?_
      intro look hlook'
      apply hlook look
      simp only [Server.uncheckedLookup, hl]
      exact hlook'
    · exact hs
  | returned id outcome computed =>
    simp only [Server.step]
    split
    · exact hs
    · exact hs
    · rename_i task _ _ hl
      apply (hfinish id).resume now scan task outcome computed
      intro c upstreams missReason embedding m look htask hm hlook'
      exact hlook look (by simpa only [Server.uncheckedLookup, hl, htask, hm] using hlook')
    · exact hs
  | received id =>
    simp only [Server.step]
    split
    · rename_i c receiver hl
      split
      · rename_i result hsent
        apply (hfinish id).receive now c
        · intro b hb
          exact hs.sent receiver b (hb ▸ hsent)
        · intro m look hm hlook'
          exact hlook look (by simpa only [Server.uncheckedLookup, hl, hsent, hm] using hlook')
      · exact hs
    · exact hs
  | refreshStale h => exact hs.refreshStale now h
  | warmup contextId query => exact harrive.warmup now _ _
  | replicated key response upstreamId applies =>
    exact hs.replicated now scan key response upstreamId applies
  | maintenance op =>
    simp only [Server.step]
    split
    · exact hs.congr rfl rfl
    · exact hs
  | dropped id => exact hs.congr rfl rfl
  | reconfigured upstreams federatedEnabled paused => exact hs.congr rfl rfl

end Unexpired

/-- No request is answered from an expired entry, in every run whose fallbacks read none. -/
theorem no_expired_answer {s : Server} (hanswers : s.answers = []) (hsent : s.sent = ∅)
    (as : List Action) (has : AllSteps (Server.step p) (FallbackUsable p) s as) :
    ∀ a ∈ (run (Server.step p) s as).answers, a.source.freshness ≠ some .expired := by
  have hstart : Unexpired s := by
    constructor
    · simp [hsent]
    · simp [hanswers]
  exact (run_invariant Unexpired.step hstart has).answers

def missThenError (later : Nat) : List Action :=
  [actionAt 0 (plainQuery "a" "q" none),
    actionAt 1 (.returned 0 (.ok (textResponse "x")) none),
    actionAt later (plainQuery "a" "q" none),
    actionAt (later + 1) (.returned 1 (.error "unavailable") none)]

theorem frozen_answer_after_error :
    AllSteps (Server.step Platform.sample) (FallbackUsable Platform.sample) smallServer
        (missThenError 3600000000000) ∧
      ∀ a ∈ (run (Server.step Platform.sample) smallServer (missThenError 3600000000000)).answers,
        a.source.freshness ≠ some .expired := by
  have hsteps : AllSteps (Server.step Platform.sample) (FallbackUsable Platform.sample) smallServer
      (missThenError 3600000000000) := by
    decide +kernel
  exact ⟨hsteps, no_expired_answer rfl rfl _ hsteps⟩

/-- Twenty-five hours later it is expired, and it is served all the same. -/
theorem expired_answer_after_error :
    ((run (Server.step Platform.sample) smallServer (missThenError 90000000000000)).answers.map
      fun a => (a.client.handler, a.source.cached, a.source.freshness, a.reply.results.length)) =
      [(.query, true, some .expired, 1), (.query, false, none, 1)] := by
  decide +kernel

end Conproxy
