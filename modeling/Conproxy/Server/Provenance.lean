import Conproxy.Cache.Contents
import Conproxy.Server.Handlers

/-!
# Where answers come from

Every response of the server was fetched under the key of the request that it answers. This
holds of the entries of the cache, of the broadcasts of leaders and of the answers, in every
run in which blake3 has no collision among the keys.
-/

namespace Conproxy

open CacheStore

set_option autoImplicit false

variable {p : Platform}

def Event.keys : Event → List Key
  | .query contextId request _ _ _ => [⟨contextId, request.query⟩]
  | .batch _ contextId request _ _ => [⟨contextId, request.query⟩]
  | .federated _ contextId text _ _ _ => [⟨contextId, text⟩]
  | .warmup contextId text => [⟨contextId, text⟩]
  | .replicated key _ _ _ => [key]
  | _ => []

/-- The texts that are hashed for a set of keys: as they are, and normalized. -/
def keyTexts (p : Platform) (K : Set Key) : Set String :=
  { t | ∃ k ∈ K, t = k.text ∨ t = normalizeQuery p.tables k.text }

def CollisionFree (p : Platform) (K : Set Key) : Prop :=
  Set.InjOn (fun t => p.blake3 (utf8 t)) (keyTexts p K)

namespace CollisionFree

variable {K : Set Key} {k l : Key}

theorem normalized (hK : CollisionFree p K) (hk : k ∈ K) (hl : l ∈ K)
    (h : k.hash p = l.hash p) :
    normalizeQuery p.tables k.text = normalizeQuery p.tables l.text :=
  hK ⟨k, hk, Or.inr rfl⟩ ⟨l, hl, Or.inr rfl⟩ h

theorem exact (hK : CollisionFree p K) (hk : k ∈ K) (hl : l ∈ K)
    (h : hashQueryExact p k.text = hashQueryExact p l.text) : k.text = l.text :=
  hK ⟨k, hk, Or.inl rfl⟩ ⟨l, hl, Or.inl rfl⟩ h

end CollisionFree

/-- What a fetch asks its upstream is the query of its key. The refresh worker sends the text
that was registered with it. -/
def Fetch.Asks (f : Fetch) : Prop :=
  f.requester ≠ .refreshWorker → ∀ r, f.request = some r → r.query = f.key.query

theorem Fetch.asks_of_request (requester : Requester) (key : Key) {r : QueryRequest}
    (hr : r.query = key.query) (results : List SearchResult) :
    Fetch.Asks ⟨requester, key, some r, results⟩ := by
  intro _ r' h
  cases h
  exact hr

/-- A fetch for a known key with the given hash, which kept the given results. -/
structure Fetch.For (p : Platform) (K : Set Key) (h : QueryHash) (results : List SearchResult)
    (f : Fetch) : Prop where
  known : f.key ∈ K
  hash : f.key.hash p = h
  results : f.results = results
  asks : f.Asks

def Source.From (p : Platform) (K : Set Key) (h : QueryHash) (results : List SearchResult)
    (source : Source) : Prop :=
  ∃ f, source.fetch = some f ∧ f.For p K h results

/-- An answer without results, or one whose results were fetched under the client's key. What
the client's own task fetched was fetched with the client's own request. -/
inductive Answer.Traced (p : Platform) (K : Set Key) (a : Answer) : Prop where
  | empty (hsource : a.source = .nowhere) (hresults : a.reply.results = [])
  | traced (hknown : a.client.key ∈ K)
      (hsource : a.source.From p K (a.client.key.hash p) a.reply.results)
      (hown : ∀ f, a.source = .fetched f → f.key = a.client.key ∧ f.request = some a.client.request)

def Task.Known (p : Platform) (K : Set Key) : Task → Prop
  | .embedding c _ | .leading c _ _ _ | .federating c => c.key ∈ K
  | .waiting c receiver => c.key ∈ K ∧ receiver.hash = c.key.hash p
  | .refreshing key | .tracking key | .warming key => key ∈ K

structure Provenance (p : Platform) (K : Set Key) (s : Server) : Prop where
  entries : ∀ h e, s.app.cache.entries.lookup h = some e →
    ∃ f, s.origins.lookup h = some f ∧ f.For p K h e.response.results
  mappings : ∀ x m, s.app.cache.exactToNormalized.lookup x = some m →
    ∃ k ∈ K, x = hashQueryExact p k.text ∧ m = k.hash p
  tier : ∀ t, s.app.semanticCache = some t → t.embeddings = ∅
  registered : ∀ w, s.app.refreshWorker = some w → ∀ h k, w.queryMap.lookup h = some k → k ∈ K
  inFlight : ∀ h channel, s.app.coalescer.inFlight.lookup h = some channel → channel.hash = h
  sent : ∀ channel b, s.sent.lookup channel = some (.ok b) →
    b.source.From p K channel.hash b.response.results
  tasks : ∀ id task, s.tasks.lookup id = some task → task.Known p K
  answers : ∀ a ∈ s.answers, a.Traced p K

namespace Provenance

variable {K : Set Key} {s : Server}

theorem answer (hs : Provenance p K s) {c : Client} {source : Source} {reply : Reply}
    (ha : Answer.Traced p K ⟨c, source, reply⟩) : Provenance p K (s.answer c source reply) :=
  { hs with
    answers := by
      intro a hmem
      rcases List.mem_cons.mp hmem with rfl | hmem
      · exact ha
      · exact hs.answers a hmem }

theorem await (hs : Provenance p K s) (id : Nat) {task : Task} (ht : task.Known p K) :
    Provenance p K (s.await id task) :=
  { hs with
    tasks := by
      intro id' task' hl
      by_cases hid : id' = id
      · subst hid
        rw [Server.await, AList.lookup_insert] at hl
        cases hl
        exact ht
      · rw [Server.await, AList.lookup_insert_ne hid] at hl
        exact hs.tasks id' task' hl }

theorem arrive (hs : Provenance p K s) : Provenance p K s.arrive := { hs with }

theorem spawn (hs : Provenance p K s) {task : Task} (ht : task.Known p K) :
    Provenance p K (s.spawn task) :=
  { hs.await s.nextTask ht with }

theorem finish (hs : Provenance p K s) (id : Nat) : Provenance p K (s.finish id) :=
  { hs with
    tasks := by
      intro id' task' hl
      by_cases hid : id' = id
      · rw [hid, Server.finish, AList.lookup_erase] at hl
        cases hl
      · rw [Server.finish, AList.lookup_erase_ne hid] at hl
        exact hs.tasks id' task' hl }

theorem complete (hs : Provenance p K s) (h : QueryHash) {result : CoalesceResult}
    (hresult : ∀ b, result = .ok b → b.source.From p K h b.response.results) :
    Provenance p K (s.complete h result) := by
  unfold Server.complete
  cases hl : s.app.coalescer.inFlight.lookup h with
  | none => exact hs
  | some channel =>
    have hch := hs.inFlight h channel hl
    exact { hs with
      inFlight := by
        intro h' channel' hl'
        by_cases hh : h' = h
        · rw [hh, AList.lookup_erase] at hl'
          cases hl'
        · rw [AList.lookup_erase_ne hh] at hl'
          exact hs.inFlight h' channel' hl'
      sent := by
        intro channel' b hl'
        by_cases hc : channel' = channel
        · subst hc
          rw [AList.lookup_insert] at hl'
          rw [hch]
          exact hresult b (Option.some.inj hl')
        · rw [AList.lookup_insert_ne hc] at hl'
          exact hs.sent channel' b hl' }

theorem complete_ok (hs : Provenance p K s) (h : QueryHash) {b : Broadcast}
    (hsource : b.source.From p K h b.response.results) :
    Provenance p K (s.complete h (.ok b)) := by
  apply hs.complete h
  intro b' hb
  cases hb
  exact hsource

theorem complete_error (hs : Provenance p K s) (h : QueryHash) (message : String) :
    Provenance p K (s.complete h (.error message)) := by
  apply hs.complete h
  intro b hb
  cases hb

theorem registerQuery (hs : Provenance p K s) {key : Key} (hk : key ∈ K) :
    Provenance p K (s.registerQuery p key) :=
  { hs with
    registered := by
      intro w hw h k hl
      obtain ⟨w', hw', rfl⟩ := Option.map_eq_some_iff.mp hw
      by_cases hh : h = key.hash p
      · rw [hh, RefreshWorker.registerQuery, AList.lookup_insert] at hl
        cases hl
        exact hk
      · rw [RefreshWorker.registerQuery, AList.lookup_insert_ne hh] at hl
        exact hs.registered w' hw' h k hl }

theorem setCache (hs : Provenance p K s) {cache : CacheStore}
    (hkept : Retains s.app.cache.entries cache.entries)
    (hmaps : ∀ x m, cache.exactToNormalized.lookup x = some m →
      s.app.cache.exactToNormalized.lookup x = some m ∨
        ∃ k ∈ K, x = hashQueryExact p k.text ∧ m = k.hash p) :
    Provenance p K (s.setCache cache) :=
  { hs with
    entries := by
      intro h e' hl
      obtain ⟨e, hold, hsame⟩ := hkept h e' hl
      rw [hsame.response]
      exact hs.entries h e hold
    mappings := by
      intro x m hx
      rcases hmaps x m hx with hold | hnew
      · exact hs.mappings x m hold
      · exact hnew }

theorem get (hs : Provenance p K s) {key : Key} (hk : key ∈ K) :
    Provenance p K (s.setCache (s.app.cache.get p key.text).2) := by
  apply hs.setCache (shrunk_getWithHitType (p := p) s.app.cache key.text).core.retains
  intro x m hx
  exact (mapsOnly_getWithHitType s.app.cache key.text x m hx).imp id fun h => ⟨key, hk, h⟩

end Provenance

inductive Op.Stores (p : Platform) (key : Key) (results : List SearchResult) : Op → Prop where
  | insert (r : QueryResponse) (upstreamId : String) (hr : r.results = results) :
      Stores p key results (.insert key.text r upstreamId)
  | insertWithContext (r : QueryResponse) (upstreamId contextId : String)
      (hr : r.results = results) :
      Stores p key results (.insertWithContext key.text r upstreamId contextId)
  | insertByHash (r : QueryResponse) (upstreamId : String) (queryKey : Option String)
      (hr : r.results = results) :
      Stores p key results (.insertByHash (key.hash p) r upstreamId queryKey)
  | insertByHashWithEmbedding (r : QueryResponse) (upstreamId : String)
      (embedding : Option Embedding) (queryKey : Option String) (hr : r.results = results) :
      Stores p key results
        (.insertByHashWithEmbedding (key.hash p) r upstreamId embedding queryKey)

namespace Op.Stores

variable {key : Key} {results : List SearchResult} {op : Op}

theorem inserts (h : op.Stores p key results) (s : CacheStore) (now : Clock) (scan : Scan) :
    ∃ i, insertions p s ⟨now, scan, op⟩ = [i] ∧ i.hash = key.hash p ∧
      i.entry.response.results = results := by
  cases h with
  | insert _ _ hr | insertWithContext _ _ _ hr | insertByHash _ _ _ hr
  | insertByHashWithEmbedding _ _ _ _ hr => exact ⟨_, rfl, rfl, hr⟩

theorem maps (h : op.Stores p key results) (s : CacheStore) (now : Clock) (scan : Scan) :
    MapsOnly p key.text s (exec p s ⟨now, scan, op⟩) := by
  cases h with
  | insert | insertWithContext => exact exec_mapsOnly s _ rfl
  | insertByHash | insertByHashWithEmbedding => exact .of_forgets (exec_forgets s _ rfl)

end Op.Stores

theorem Op.insertions_of_maintains {call : Call} (hop : call.op.maintains = true)
    (s : CacheStore) : insertions p s call = [] := by
  rcases call with ⟨now, scan, op⟩
  cases op with
  | insert | insertWithContext | insertByHash | insertByHashWithEmbedding | warmup
  | restoreFromPersistence | get | getWithHitType => cases hop
  | _ => rfl

theorem Op.mappedText_of_maintains {op : Op} (hop : op.maintains = true) :
    op.mappedText = none := by
  cases op with
  | insert | insertWithContext | insertByHash | insertByHashWithEmbedding | warmup
  | restoreFromPersistence | get | getWithHitType => cases hop
  | _ => rfl

namespace Provenance

variable {K : Set Key} {s : Server}

theorem store (hs : Provenance p K s) (now : Clock) (scan : Scan) {f : Fetch} {op : Op}
    (hk : f.key ∈ K) (hf : f.Asks) (hop : op.Stores p f.key f.results) :
    Provenance p K (s.store p now scan f op) :=
  { hs with
    entries := by
      intro h e' hl
      obtain ⟨i, his, hhash, hresults⟩ := hop.inserts s.app.cache now scan
      rcases exec_content s.app.cache ⟨now, scan, op⟩ hl with
        ⟨j, hj, hh, hsame⟩ | ⟨hne, e, hold, hsame⟩
      · obtain rfl : j = i := List.mem_singleton.mp (his ▸ hj)
        obtain rfl : h = f.key.hash p := hh.trans hhash
        refine ⟨f, AList.lookup_insert _, hk, rfl, ?_, hf⟩
        rw [hsame.response, hresults]
      · have hh : h ≠ f.key.hash p := by
          rw [← hhash]
          exact hne i (by simp [his])
        obtain ⟨g, hg, hfor⟩ := hs.entries h e hold
        rw [hsame.response]
        exact ⟨g, (AList.lookup_insert_ne hh).trans hg, hfor⟩
    mappings := by
      intro x m hx
      rcases hop.maps s.app.cache now scan x m hx with hold | hnew
      · exact hs.mappings x m hold
      · exact ⟨f.key, hk, hnew⟩ }

end Provenance

inductive Lookup.Of (p : Platform) (key : Key) : Lookup → Prop where
  | byHash : Of p key (.byHash (key.hash p))
  | byText : Of p key (.byText key.text)

namespace Provenance

variable {K : Set Key} {s : Server}

theorem foundAt (hs : Provenance p K s) (hK : CollisionFree p K) {key : Key} (hk : key ∈ K) :
    s.app.cache.foundAt p key.text = key.hash p := by
  unfold CacheStore.foundAt
  split
  · rfl
  · split
    · rename_i mapped hmap
      obtain ⟨l, hl, hx, hm⟩ := hs.mappings _ _ hmap
      have htext : key.text = l.text := hK.exact hk hl hx
      have hhash : l.hash p = key.hash p := by
        unfold Key.hash
        rw [htext]
      split
      · rw [hm, hhash]
      · rfl
    · rfl

/-- A lookup of a known key finds a response that was fetched under it. -/
theorem read (hs : Provenance p K s) (hK : CollisionFree p K) (now : Clock) {key : Key}
    (hk : key ∈ K) {look : Lookup} (hlook : look.Of p key)
    {found : CacheEntry → Source → Server → Server} {missing : Server → Server}
    (hfound : ∀ e source s', Provenance p K s' →
      source.From p K (key.hash p) e.response.results → (∀ f, source ≠ .fetched f) →
      Provenance p K (found e source s'))
    (hmissing : Provenance p K (missing s)) :
    Provenance p K (s.read p now look found missing) := by
  have hhash : look.hash p s.app.cache = key.hash p := by
    cases hlook with
    | byHash => rfl
    | byText => exact hs.foundAt hK hk
  have hnext : Provenance p K (s.setCache (look.run p s.app.cache).2) := by
    cases hlook with
    | byHash =>
      exact hs.setCache (shrunk_getByHash (p := p) s.app.cache _).core.retains
        fun x m hx => Or.inl (forgets_getByHash s.app.cache _ x m hx)
    | byText => exact hs.get hk
  cases hl : s.app.cache.entries.lookup (look.hash p s.app.cache) with
  | none =>
    rw [Server.read_of_none hl]
    exact hmissing
  | some e =>
    rw [Server.read_of_lookup hl]
    refine hfound e _ _ hnext ?_ (fun f hf => by cases hf)
    obtain ⟨f, horigin, hfor⟩ := hs.entries _ e hl
    rw [← hhash]
    exact ⟨f, horigin, hfor⟩

end Provenance

end Conproxy
