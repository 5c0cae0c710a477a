import Conproxy.Cache.Contents
import Conproxy.Server.Isolation

/-!
# Background refreshes

The two workers of `refresh.rs` from the stale hash to the entry that replaces it. Neither knows
the query of an entry: one sends the text that was registered for the hash, the other the text
that the entry records. What they send is the text of the key, and the context of the new
entry is the one of every plain insertion.
-/

namespace Conproxy

open CacheStore

set_option autoImplicit false

inductive Registration where
  | register (query : String)
  | unregister (query : String)
deriving DecidableEq

section Workers

variable (p : Platform)

/-- `register_query` and `unregister_query` on the map from hashes to texts. -/
def Registration.apply (queryMap : Table String) : Registration → Table String
  | .register query => queryMap.insert (hashQuery p query) query
  | .unregister query => queryMap.erase (hashQuery p query)

/-- `RefreshWorker`, which knows only the cache, and `QueryTrackingRefreshWorker` after some
registrations. -/
inductive BackgroundWorker where
  | refreshWorker
  | queryTracking (registrations : List Registration)
deriving DecidableEq

namespace BackgroundWorker

/-- The request for a stale hash, if the worker makes one. -/
def request (cache : CacheStore) (h : QueryHash) : BackgroundWorker → Option QueryRequest
  | .refreshWorker =>
    (cache.getByHash h).1.bind fun entry =>
      entry.queryText.map fun text =>
        ⟨text, some (max entry.response.results.length 10), none, none, none⟩
  | .queryTracking registrations =>
    ((registrations.foldl (Registration.apply p) ∅).lookup h).map textRequest

/-- The upstream's answer goes into the cache as it is. -/
def store (scan : Scan) (now : Clock) (h : QueryHash) (request : QueryRequest)
    (response : QueryResponse) (upstreamId : String) (cache : CacheStore) :
    BackgroundWorker → CacheStore
  | .refreshWorker => exec p cache ⟨now, scan, .insertByHash h response upstreamId
      (some request.query)⟩
  | .queryTracking _ => exec p cache ⟨now, scan, .insert request.query response upstreamId⟩

end BackgroundWorker

end Workers

/-- A refresh of the key's entry asked the upstream what a miss of the key asks, stored the
valid answer, and kept the context of the entry. -/
structure RefreshesKey (key : Key) (request : QueryRequest) (response : QueryResponse)
    (entry : CacheEntry) : Prop where
  asks : request.query = key.query
  answer : entry.response = response
  valid : response.validate = .ok ()
  context : entry.contextId = key.contextId

variable {p : Platform}

theorem refreshed_cache (s : Server) (now : Clock) (scan : Scan) (key : Key)
    (response : QueryResponse) (registrations : List Registration) (h : QueryHash) :
    (s.refreshed p now scan key (.ok response)).app.cache =
      (BackgroundWorker.queryTracking registrations).store p scan now h (textRequest key.text)
        response s.app.upstreamId s.app.cache := rfl

/-- A registered text is found under its own hash only. -/
theorem hash_of_registered {registrations : List Registration} {h : QueryHash} {text : String}
    (hl : (registrations.foldl (Registration.apply p) ∅).lookup h = some text) :
    hashQuery p text = h := by
  have hinv : ∀ (registrations : List Registration) (queryMap : Table String),
      (∀ h text, queryMap.lookup h = some text → hashQuery p text = h) →
      ∀ h text, (registrations.foldl (Registration.apply p) queryMap).lookup h = some text →
        hashQuery p text = h := by
    intro registrations
    induction registrations with
    | nil => exact fun _ hmap => hmap
    | cons r rest ih =>
      intro queryMap hmap
      refine ih _ fun h text hl => ?_
      cases r with
      | register query =>
        by_cases hh : h = hashQuery p query
        · subst hh
          rw [Registration.apply, AList.lookup_insert] at hl
          rw [← Option.some.inj hl]
        · rw [Registration.apply, AList.lookup_insert_ne hh] at hl
          exact hmap h text hl
      | unregister query =>
        by_cases hh : h = hashQuery p query
        · subst hh
          simp [Registration.apply] at hl
        · rw [Registration.apply, AList.lookup_erase_ne hh] at hl
          exact hmap h text hl
  exact hinv registrations ∅ (by simp) h text hl

/-- A text that hashes to a key is not the query of the key, unless blake3 takes the two for
one. -/
theorem ne_query_of_hash {key : Key} {text : String}
    (hfree : hashQuery p key.query = key.hash p →
      normalizeQuery p.tables key.query = normalizeQuery p.tables key.text)
    (htext : hashQuery p text = key.hash p) : text ≠ key.query := by
  rintro rfl
  exact normalizeQuery_contextQuery_ne_self p.tables key.contextId key.query (hfree htext)

theorem request_refreshWorker {cache : CacheStore} {h : QueryHash} {request : QueryRequest}
    (hsent : BackgroundWorker.refreshWorker.request p cache h = some request) :
    ∃ entry, cache.entries.lookup h = some entry ∧ entry.queryText = some request.query := by
  obtain ⟨entry, hl, hrequest⟩ := Option.bind_eq_some_iff.1 hsent
  obtain ⟨text, htext, rfl⟩ := Option.map_eq_some_iff.1 hrequest
  rw [getByHash_fst] at hl
  exact ⟨entry, hl, htext⟩

theorem hash_request_queryTracking {registrations : List Registration} {cache : CacheStore}
    {h : QueryHash} {request : QueryRequest}
    (hsent : (BackgroundWorker.queryTracking registrations).request p cache h = some request) :
    hashQuery p request.query = h := by
  obtain ⟨text, hl, rfl⟩ := Option.map_eq_some_iff.1 hsent
  exact hash_of_registered hl

theorem stored_of_insertion {cache : CacheStore} (call : Call) {i : Insertion} {h : QueryHash}
    {entry : CacheEntry} (hone : insertions p cache call = [i]) (hhash : i.hash = h)
    (hl : (exec p cache call).entries.lookup h = some entry) : SameContent i.entry entry := by
  rcases exec_content cache call hl with ⟨j, hj, -, hsame⟩ | ⟨hnone, -⟩
  · rw [hone, List.mem_singleton] at hj
    exact hj ▸ hsame
  · exact absurd hhash.symm (hnone i (hone ▸ List.mem_singleton.2 rfl))

theorem stored_entry {worker : BackgroundWorker} {scan : Scan} {now : Clock} {h : QueryHash}
    {request : QueryRequest} {response : QueryResponse} {upstreamId : String}
    {cache later : CacheStore} {entry : CacheEntry}
    (hsent : worker.request p cache h = some request)
    (hstored : (worker.store p scan now h request response upstreamId later).entries.lookup h =
      some entry) : entry.response = response ∧ entry.contextId = "default" := by
  cases worker with
  | refreshWorker =>
    have hsame := stored_of_insertion
      ⟨now, scan, .insertByHash h response upstreamId (some request.query)⟩ rfl rfl hstored
    rw [hsame]
    exact ⟨rfl, rfl⟩
  | queryTracking registrations =>
    have hsame := stored_of_insertion ⟨now, scan, .insert request.query response upstreamId⟩
      rfl (hash_request_queryTracking hsent) hstored
    rw [hsame]
    exact ⟨rfl, rfl⟩

/-- The entry records the bare query, although its key is that of the context. -/
def RecordsQuery (p : Platform) (cache : CacheStore) (key : Key) : Prop :=
  ∃ entry, cache.entries.lookup (key.hash p) = some entry ∧ entry.queryText = some key.query

theorem not_recordsQuery {cache : CacheStore} {key : Key}
    (hfree : hashQuery p key.query = key.hash p →
      normalizeQuery p.tables key.query = normalizeQuery p.tables key.text)
    (hkeyed : ∀ entry, cache.entries.lookup (key.hash p) = some entry →
      ∀ text ∈ entry.queryText, hashQuery p text = key.hash p) :
    ¬ RecordsQuery p cache key := by
  rintro ⟨entry, hl, hquery⟩
  exact ne_query_of_hash hfree (hkeyed entry hl key.query hquery) rfl

theorem refresh_preserves_iff (p : Platform) (worker : BackgroundWorker) (key : Key)
    (cache later : CacheStore) (scan : Scan) (now : Clock) (request : QueryRequest)
    (response : QueryResponse) (upstreamId : String) (entry : CacheEntry)
    (hfree : hashQuery p key.query = key.hash p →
      normalizeQuery p.tables key.query = normalizeQuery p.tables key.text)
    (hsent : worker.request p cache (key.hash p) = some request)
    (hstored : (worker.store p scan now (key.hash p) request response upstreamId
      later).entries.lookup (key.hash p) = some entry) :
    RefreshesKey key request response entry ↔
      worker = .refreshWorker ∧ RecordsQuery p cache key ∧ response.validate = .ok () ∧
        key.contextId = "default" := by
  obtain ⟨hanswer, hcontext⟩ := stored_entry hsent hstored
  cases worker with
  | refreshWorker =>
    obtain ⟨old, hold, htext⟩ := request_refreshWorker hsent
    constructor
    · intro h
      refine ⟨rfl, ⟨old, hold, ?_⟩, h.valid, ?_⟩
      · rw [htext, h.asks]
      · rw [← h.context, hcontext]
    · rintro ⟨-, ⟨old', hold', hquery⟩, hvalid, hdefault⟩
      refine ⟨?_, hanswer, hvalid, hcontext.trans hdefault.symm⟩
      rw [hold] at hold'
      rw [← Option.some.inj hold', htext] at hquery
      exact Option.some.inj hquery
  | queryTracking registrations =>
    refine iff_of_false ?_ (by simp)
    intro h
    exact ne_query_of_hash hfree (hash_request_queryTracking hsent) h.asks

/-- The entry that a refresh of the key `a`, `q` leaves. -/
def refreshedEntry : CacheEntry :=
  newEntry Platform.sample ⟨0, 0⟩ (textResponse "x") "u" (some "ctx:a:q") "default"

def emptyCache : CacheStore := CacheStore.new 60000000000 60000000000 4

def trackingWorker : BackgroundWorker := .queryTracking [.register "ctx:a:q"]

theorem key_text_not_refreshed :
    ¬ RefreshesKey ⟨"a", "q"⟩ (textRequest "ctx:a:q") (textResponse "x") refreshedEntry := by
  intro h
  have hstored : (trackingWorker.store Platform.sample Scan.stored ⟨0, 0⟩
      (Key.hash Platform.sample ⟨"a", "q"⟩) (textRequest "ctx:a:q") (textResponse "x") "u"
      emptyCache).entries.lookup (Key.hash Platform.sample ⟨"a", "q"⟩) = some refreshedEntry := rfl
  have hiff := refresh_preserves_iff Platform.sample trackingWorker ⟨"a", "q"⟩ emptyCache
    emptyCache Scan.stored ⟨0, 0⟩ (textRequest "ctx:a:q") (textResponse "x") "u" refreshedEntry
    (by decide +kernel) (by decide +kernel) hstored
  exact absurd (hiff.1 h).1 (by decide)

/-- The worker asks the upstream for the text of the key. -/
theorem refresh_asks_key_text :
    ¬ ∀ (p : Platform) (worker : BackgroundWorker) (key : Key) (cache later : CacheStore)
      (scan : Scan) (now : Clock) (request : QueryRequest) (response : QueryResponse)
      (upstreamId : String) (entry : CacheEntry),
      worker.request p cache (key.hash p) = some request →
      (worker.store p scan now (key.hash p) request response upstreamId later).entries.lookup
        (key.hash p) = some entry →
      RefreshesKey key request response entry := by
  intro h
  have hrefreshes := h Platform.sample trackingWorker ⟨"a", "q"⟩ emptyCache emptyCache
    Scan.stored ⟨0, 0⟩ (textRequest "ctx:a:q") (textResponse "x") "u" refreshedEntry
    (by decide +kernel) rfl
  exact absurd hrefreshes.asks (by decide)

end Conproxy
