import Conproxy.Server.State

/-!
# The query pipeline

`execute_query` of `query_core.rs`, cut at its awaits. A leader's steps after the upstream has
answered (scope filter, embedding, insert, broadcast) touch the shared state only at the end,
so they are one step.
-/

namespace Conproxy

open CacheStore

set_option autoImplicit false

variable (p : Platform)

/-- The hash under which `get` finds the entry of a text: the exact mapping goes first. -/
def CacheStore.foundAt (s : CacheStore) (query : String) : QueryHash :=
  if s.normalizedMatching = false then hashQuery p query
  else
    match s.exactToNormalized.lookup (hashQueryExact p query) with
    | some mapped => if mapped ∈ s.entries then mapped else hashQuery p query
    | none => hashQuery p query

/-- A read of the store: `get_by_hash`, or `get` with the text of a key. -/
inductive Lookup where
  | byHash (h : QueryHash)
  | byText (text : String)

namespace Lookup

def run (cache : CacheStore) : Lookup → Option CacheEntry × CacheStore
  | .byHash h => cache.getByHash h
  | .byText text => cache.get p text

def hash (cache : CacheStore) : Lookup → QueryHash
  | .byHash h => h
  | .byText text => cache.foundAt p text

end Lookup

variable {p}

theorem CacheStore.getByHash_fst (s : CacheStore) (h : QueryHash) :
    (s.getByHash h).1 = s.entries.lookup h := by
  cases hl : s.entries.lookup h with
  | none => rw [getByHash_of_none hl]
  | some e => rw [getByHash_of_lookup hl]

/-- What `get` finds under a hash, and that it changes nothing if it finds nothing. -/
def CacheStore.Finds (s : CacheStore) (found : Option CacheEntry × CacheStore) (h : QueryHash) :
    Prop :=
  found.1 = s.entries.lookup h ∧ (s.entries.lookup h = none → found.2 = s)

theorem CacheStore.get_of_unmapped (s : CacheStore) (query : String)
    (hn : s.normalizedMatching = true) (hm : s.getMapped (hashQueryExact p query) = (none, s)) :
    s.Finds (s.get p query) (hashQuery p query) := by
  simp only [Finds, CacheStore.get, getWithHitType, hn, Bool.true_eq_false, if_false, hm]
  cases hl : s.entries.lookup (hashQuery p query) with
  | none => simp [getByHash_of_none hl]
  | some e => simp [getByHash_of_lookup hl]

theorem CacheStore.get_finds (s : CacheStore) (query : String) :
    s.Finds (s.get p query) (s.foundAt p query) := by
  cases hn : s.normalizedMatching with
  | false =>
    have hat : s.foundAt p query = hashQuery p query := by simp [CacheStore.foundAt, hn]
    rw [hat]
    simp only [Finds, CacheStore.get, getWithHitType, hn, if_true]
    cases hl : s.entries.lookup (hashQuery p query) with
    | none => simp [getByHash_of_none hl]
    | some e => simp [getByHash_of_lookup hl]
  | true =>
    cases hmap : s.exactToNormalized.lookup (hashQueryExact p query) with
    | none =>
      have hat : s.foundAt p query = hashQuery p query := by
        simp [CacheStore.foundAt, hn, hmap]
      rw [hat]
      exact get_of_unmapped s query hn (by simp only [getMapped, hmap])
    | some mapped =>
      by_cases hmem : mapped ∈ s.entries
      · have hat : s.foundAt p query = mapped := by simp [CacheStore.foundAt, hn, hmap, hmem]
        obtain ⟨e, hl⟩ := WeightedTable.lookup_of_mem s.entries hmem
        rw [hat]
        simp [Finds, CacheStore.get, getWithHitType, hn, getMapped, hmap,
          getByHash_of_lookup hl, hl]
      · have hat : s.foundAt p query = hashQuery p query := by
          simp [CacheStore.foundAt, hn, hmap, hmem]
        rw [hat]
        apply get_of_unmapped s query hn
        simp only [getMapped, hmap, getByHash_of_none (AList.lookup_eq_none.mpr hmem)]

theorem Lookup.finds (cache : CacheStore) (look : Lookup) :
    cache.Finds (look.run p cache) (look.hash p cache) := by
  cases look with
  | byHash h =>
    refine ⟨getByHash_fst cache h, ?_⟩
    intro hl
    exact congrArg Prod.snd (getByHash_of_none hl)
  | byText text => exact get_finds cache text

variable (p)

structure TierScan where
  order : List (QueryHash × Embedding) → List (QueryHash × Embedding)
  perm : ∀ l, (order l).Perm l

def TierScan.stored : TierScan := ⟨id, List.Perm.refl⟩

def SemanticCache.iter (t : SemanticCache) (scan : TierScan) : List (QueryHash × Embedding) :=
  scan.order (t.embeddings.entries.map fun e => (e.1, e.2.2))

namespace Server

def read (s : Server) (now : Clock) (look : Lookup)
    (found : CacheEntry → Source → Server → Server) (missing : Server → Server) : Server :=
  match look.run p s.app.cache with
  | (some e, cache) =>
    found e (s.entrySource p now (look.hash p s.app.cache)) (s.setCache cache)
  | (none, cache) => missing (s.setCache cache)

section Read

variable {p} {s : Server} {now : Clock} {look : Lookup}
  {found : CacheEntry → Source → Server → Server} {missing : Server → Server}

theorem read_of_lookup {e : CacheEntry}
    (hl : s.app.cache.entries.lookup (look.hash p s.app.cache) = some e) :
    s.read p now look found missing =
      found e (s.entrySource p now (look.hash p s.app.cache))
        (s.setCache (look.run p s.app.cache).2) := by
  have hfst := (look.finds (p := p) s.app.cache).1
  rw [hl] at hfst
  unfold read
  rcases hr : look.run p s.app.cache with ⟨_ | e', cache⟩
  · rw [hr] at hfst
    cases hfst
  · rw [hr] at hfst
    cases hfst
    rfl

theorem read_of_none (hl : s.app.cache.entries.lookup (look.hash p s.app.cache) = none) :
    s.read p now look found missing = missing s := by
  obtain ⟨hfst, hsnd⟩ := look.finds (p := p) s.app.cache
  replace hfst := hfst.trans hl
  replace hsnd := hsnd hl
  unfold read
  rcases hr : look.run p s.app.cache with ⟨_ | e, cache⟩
  · rw [hr] at hsnd
    obtain rfl : cache = s.app.cache := hsnd
    rfl
  · rw [hr] at hfst
    cases hfst

end Read

def serve (now : Clock) (c : Client) (status : CacheStatus) (e : CacheEntry) (source : Source)
    (s : Server) : Server :=
  s.answer c source (.result (.cached e status (c.tookMs now)) 200)

def refuse (s : Server) (now : Clock) (c : Client) (missReason : Option MissReason)
    (status : Nat) : Server :=
  s.answer c .nowhere (.result (.fresh (emptyMissResponse (c.tookMs now) missReason)) status)

/-- `coalescer.get_or_insert`: lead the key or wait for its leader. -/
def coalesce (s : Server) (id : Nat) (c : Client) (upstreams : Upstreams)
    (missReason : MissReason) (embedding : Option Embedding) : Server :=
  match s.app.coalescer.getOrInsert (c.key.hash p) id with
  | (.leader, coalescer) =>
    ({ s with app := { s.app with coalescer := coalescer } }).await id
      (.leading c upstreams missReason embedding)
  | (.waiter receiver, _) => s.await id (.waiting c receiver)

/-- The part after both cache tiers. `allowed` is the circuit breaker's decision. -/
def afterMiss (s : Server) (now : Clock) (id : Nat) (c : Client) (missReason : MissReason)
    (embedding : Option Embedding) (allowed : Bool) : Server :=
  let look := Lookup.byHash (c.key.hash p)
  if s.app.upstreams.any then
    if allowed then s.coalesce p id c s.app.upstreams missReason embedding
    else
      s.read p now look (serve now c .frozen) fun s => s.refuse now c (some .circuitOpen) 503
  else s.read p now look (serve now c .hit) fun s => s.refuse now c (some missReason) 503

def semanticTier (s : Server) (now : Clock) (id : Nat) (c : Client) (missReason : MissReason)
    (allowed : Bool) : Server :=
  if s.app.semanticCache.isSome && s.app.smartEmbedder then
    s.await id (.embedding c missReason)
  else s.afterMiss p now id c missReason none allowed

/-- The semantic lookup, once the embedding of the key text has arrived or failed. -/
def semanticLookup (s : Server) (now : Clock) (id : Nat) (c : Client) (missReason : MissReason)
    (embedded : Option Embedding) (scan : TierScan) (allowed : Bool) : Server :=
  match embedded, s.app.semanticCache with
  | some embedding, some tier =>
    match tier.lookup p (tier.iter scan) embedding with
    | some matched =>
      match s.app.cache.checkFreshnessByHash p now matched with
      | some .fresh | some .stale | some .frozen =>
        s.read p now (.byHash matched) (serve now c .hit) fun s =>
          s.afterMiss p now id c missReason (some embedding) allowed
      | _ => s.afterMiss p now id c missReason (some embedding) allowed
    | none => s.afterMiss p now id c missReason (some embedding) allowed
  | _, _ => s.afterMiss p now id c missReason none allowed

def deniedBy (agent : Option AgentIdentity) (contextId : String) : Bool :=
  match agent with
  | some a => !a.canAccessContext contextId
  | none => false

/-- A stale entry is served at once and refreshed in the background, which needs the single
upstream. -/
def serveStale (now : Clock) (c : Client) (e : CacheEntry) (source : Source) (s : Server) :
    Server :=
  let s := if s.app.upstreams.single then s.spawn (.refreshing c.key) else s
  serve now c .stale e source s

/-- `execute_query` up to its first await. -/
def executeQuery (s : Server) (now : Clock) (id : Nat) (c : Client) (agent : Option AgentIdentity)
    (skipCache allowed : Bool) : Server :=
  if s.app.paused then s.refuse now c none 503
  else
    match c.request.validate with
    | .error _ => s.refuse now c none 400
    | .ok () =>
      if deniedBy agent c.contextId then s.refuse now c none 403
      else if skipCache then s.afterMiss p now id c .notInCache none allowed
      else
        let look := Lookup.byHash (c.key.hash p)
        match s.app.cache.checkFreshnessByHash p now (c.key.hash p) with
        | some .fresh =>
          s.read p now look (serve now c .hit) fun s =>
            s.semanticTier p now id c .notInCache allowed
        | some .stale =>
          s.read p now look (serveStale now c) fun s =>
            s.semanticTier p now id c .notInCache allowed
        | some .expired | some .frozen => s.semanticTier p now id c .expired allowed
        | none => s.semanticTier p now id c .notInCache allowed

/-- The response of a miss: filtered by the scope of the context and marked as a miss. -/
def missResponse (s : Server) (c : Client) (missReason : MissReason) (response : QueryResponse) :
    QueryResponse :=
  { response with
    results := s.app.scopeFilterFor c.contextId response.results
    cacheStatus := .miss
    missReason := some missReason }

def insertEmbedding (s : Server) (stashed computed : Option Embedding) : Option Embedding :=
  match stashed with
  | some e => some e
  | none => if s.app.semanticCache.isSome && s.app.smartEmbedder then computed else none

def share (s : Server) (now : Clock) (c : Client) (response : QueryResponse) (source : Source) :
    Server :=
  let response := { response with tookMs := c.tookMs now }
  (s.complete (c.key.hash p) (.ok ⟨response, source⟩)).answer c source
    (.result (.sharedFresh response (c.tookMs now)) 200)

/-- The leader of `execute_query` after a successful dispatch. Only a valid response is
stored. -/
def leaderOk (s : Server) (now : Clock) (scan : Scan) (c : Client) (missReason : MissReason)
    (stashed computed : Option Embedding) (returned : QueryResponse) : Server :=
  let response := s.missResponse c missReason returned
  let f : Fetch := ⟨.client, c.key, some c.request, response.results⟩
  match response.validate with
  | .error _ => s.share p now c response (.fetched f)
  | .ok () =>
    let s := s.store p now scan f
      (.insertByHashWithEmbedding (c.key.hash p) response s.app.upstreamId
        (s.insertEmbedding stashed computed) (some c.key.text))
    (s.registerQuery p c.key).share p now c response (.fetched f)

def frozenBroadcast (now : Clock) (c : Client) (e : CacheEntry) : QueryResponse :=
  ⟨e.response.results, .frozen, c.tookMs now, e.response.generatedAt, e.response.missReason⟩

def leaderErr (s : Server) (now : Clock) (c : Client) (message : String) : Server :=
  s.read p now (.byHash (c.key.hash p))
    (fun e source s =>
      serve now c .frozen e source
        (s.complete (c.key.hash p) (.ok ⟨frozenBroadcast now c e, source⟩)))
    fun s => (s.complete (c.key.hash p) (.error message)).refuse now c (some .upstreamError) 502

def waiterDone (s : Server) (now : Clock) (c : Client) (result : CoalesceResult) : Server :=
  match result with
  | .ok b =>
    s.answer c (.shared b.source) (.result (.sharedFresh b.response (c.tookMs now)) 200)
  | .error _ =>
    s.read p now (.byHash (c.key.hash p)) (serve now c .frozen) fun s =>
      s.refuse now c (some .upstreamError) 502

/-- The background refresh of a stale entry. A failed or invalid answer changes nothing. -/
def staleRefreshed (s : Server) (now : Clock) (scan : Scan) (key : Key)
    (returned : Except String QueryResponse) : Server :=
  match returned with
  | .error _ => s
  | .ok response =>
    let response :=
      { response with results := s.app.scopeFilterFor key.contextId response.results }
    match response.validate with
    | .error _ => s
    | .ok () =>
      (s.store p now scan ⟨.staleRefresh, key, some (textRequest key.query), response.results⟩
        (.insertWithContext key.text response s.app.upstreamId key.contextId)).registerQuery p key

end Server

end Conproxy
