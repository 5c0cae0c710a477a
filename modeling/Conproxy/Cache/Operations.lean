import Conproxy.Cache.Eviction

/-!
# The operations of the cache store

Lookup, insertion, TTL extension, removal, bulk eviction and persistence, as `cache.rs` has
them. An operation reads the clocks once, at its start.
-/

namespace Conproxy.CacheStore

set_option autoImplicit false

variable (p : Platform)

def setPerUpstreamLimit (s : CacheStore) (limit : Option Nat) : CacheStore :=
  { s with perUpstreamLimit := limit }

def setMaxEntries (s : CacheStore) (maxEntries : Nat) : Except String CacheStore :=
  if maxEntries = 0 then .error "cache.max_entries must be > 0"
  else .ok { s with maxEntries := maxEntries }

def withNormalizedMatching (s : CacheStore) (enabled : Bool) : CacheStore :=
  { s with normalizedMatching := enabled }

def withCdcSender (s : CacheStore) (sender : EventSender) : CacheStore :=
  { s with cdcSender := some sender }

def withSemanticCache (s : CacheStore) (semantic : SemanticCache) : CacheStore :=
  { s with semantic := some semantic }

def setMaxFrozenDuration (s : CacheStore) (d : Duration) : CacheStore :=
  { s with maxFrozenDuration := d }

def setMaxMemoryBytes (s : CacheStore) (bytes : Nat) : CacheStore :=
  { s with maxMemoryBytes := bytes }

def setFreshDuration (s : CacheStore) (d : Duration) : CacheStore := { s with freshDuration := d }

def setStaleDuration (s : CacheStore) (d : Duration) : CacheStore := { s with staleDuration := d }

def setPersistence (s : CacheStore) (t : PersistentCache) : CacheStore :=
  { s with persistence := some t }

/-- `jittered_ttl`: whole seconds are added to the base. -/
def jitteredTtl (s : CacheStore) (base : Duration) (h : QueryHash) : Duration :=
  if s.ttlJitterPercent ≤ 0 then base
  else base + p.jitterSecs s.ttlJitterPercent base h * 1000000000

def age (now : Clock) (e : CacheEntry) : Duration := now.instant - e.cachedAt

def freshnessOf (s : CacheStore) (now : Clock) (h : QueryHash) (e : CacheEntry) : Freshness :=
  let jitteredFresh := s.jitteredTtl p s.freshDuration h
  if age now e < jitteredFresh then .fresh
  else if age now e < jitteredFresh + s.staleDuration then .stale
  else if age now e < s.maxFrozenDuration then .frozen
  else .expired

def checkFreshnessByHash (s : CacheStore) (now : Clock) (h : QueryHash) : Option Freshness :=
  (s.entries.lookup h).map (s.freshnessOf p now h)

def getByHash (s : CacheStore) (h : QueryHash) : Option CacheEntry × CacheStore :=
  match s.entries.lookup h with
  | some e => (some e, s.bumpFreq h e)
  | none => (none, s)

def countExactHit (s : CacheStore) : CacheStore := { s with exactHits := s.exactHits + 1 }

/-- A normalized hit stores the exact mapping for the next lookup. -/
def countNormalizedHit (s : CacheStore) (exact normalized : QueryHash) : CacheStore :=
  { s with
    exactToNormalized := s.exactToNormalized.insert exact normalized
    normalizedHits := s.normalizedHits + 1 }

inductive CacheHitType where
  | exact
  | normalized
deriving DecidableEq

def getMapped (s : CacheStore) (exact : QueryHash) : Option CacheEntry × CacheStore :=
  match s.exactToNormalized.lookup exact with
  | some mapped => s.getByHash mapped
  | none => (none, s)

/-- `get_with_hit_type`: direct lookup, or the exact mapping first and the normalized hash
second. -/
def getWithHitType (s : CacheStore) (query : String) :
    Option (CacheEntry × CacheHitType) × CacheStore :=
  let normalized := hashQuery p query
  if s.normalizedMatching = false then
    match s.getByHash normalized with
    | (some e, s') => (some (e, .exact), s'.countExactHit)
    | (none, s') => (none, s')
  else
    let exact := hashQueryExact p query
    match s.getMapped exact with
    | (some e, s') => (some (e, .exact), s'.countExactHit)
    | (none, s') =>
      match s'.getByHash normalized with
      | (some e, s'') => (some (e, .normalized), s''.countNormalizedHit exact normalized)
      | (none, s'') => (none, s'')

/-- `get`, with `get_two_tier` when normalized matching is on. -/
def get (s : CacheStore) (query : String) : Option CacheEntry × CacheStore :=
  let found := s.getWithHitType p query
  (found.1.map Prod.fst, found.2)

def corrupted (e : CacheEntry) : Bool :=
  match e.contentHash with
  | some stored => stored != CacheEntry.computeContentHash p e.response
  | none => false

/-- `get_verified`: an entry that fails the integrity check is evicted. -/
def getVerified (s : CacheStore) (query : String) : Option CacheEntry × CacheStore :=
  let h := hashQuery p query
  match s.entries.lookup h with
  | some e =>
    if corrupted p e then
      (none, (s.trackedRemove p h).2.updateStats fun st =>
        { st with integrityFailures := st.integrityFailures + 1 })
    else (some e, s.bumpFreq h e)
  | none => (none, s)

def countForUpstream (s : CacheStore) (upstreamId : String) : Nat :=
  (s.entries.entries.filter fun e => e.2.upstreamId = upstreamId).length

def removeAll : List QueryHash → CacheStore → List CacheEntry × CacheStore
  | [], s => ([], s)
  | h :: rest, s =>
    match s.trackedRemove p h with
    | (some old, s') => let done := removeAll rest s'; (old :: done.1, done.2)
    | (none, s') => removeAll rest s'

variable {p} in
theorem removeAll_snd (hashes : List QueryHash) (s : CacheStore) :
    (removeAll p hashes s).2 = hashes.foldl (fun s h => (s.trackedRemove p h).2) s := by
  induction hashes generalizing s with
  | nil => rfl
  | cons h rest ih =>
    rw [List.foldl_cons, ← ih, removeAll]
    rcases s.trackedRemove p h with ⟨_ | old, s'⟩
    · rfl
    · rfl

variable {p} in
theorem removeAll_invariant (Inv : CacheStore → Prop) {hashes : List QueryHash}
    (hstep : ∀ s, Inv s → ∀ h ∈ hashes, Inv (s.trackedRemove p h).2) {s : CacheStore}
    (hs : Inv s) : Inv (removeAll p hashes s).2 := by
  rw [removeAll_snd]
  exact List.foldlRecOn hashes _ hs hstep

def publishRemoves (now : Clock) : List String → CacheStore → CacheStore
  | [], s => s
  | q :: rest, s => publishRemoves now rest (s.publish now .remove (.remove q))

def upstreamHashes (s : CacheStore) (scan : Scan) (now : Clock) (upstreamId : String) :
    List QueryHash :=
  let own := (s.iter scan).filter fun e => e.2.upstreamId = upstreamId
  ((own.map fun e => (e.1, age now e.2)).insertionSort fun a b => b.2 ≤ a.2).map Prod.fst

/-- `evict_from_upstream_inner`: the removed texts are broadcast so that peers follow. -/
def evictFromUpstream (s : CacheStore) (scan : Scan) (now : Clock) (upstreamId : String)
    (count : Nat) : Nat × CacheStore :=
  if count = 0 then (0, s)
  else
    let removed := removeAll p ((s.upstreamHashes scan now upstreamId).take count) s
    let published :=
      publishRemoves now
        (if s.cdcSender.isSome then removed.1.filterMap CacheEntry.queryText else []) removed.2
    let evicted := removed.1.length
    (evicted,
      if 0 < evicted then
        published.updateStats fun st =>
          { st with oldest := st.oldest + evicted, total := st.total + evicted }
      else published)

def enforcePerUpstreamLimit (s : CacheStore) (scan : Scan) (now : Clock) (upstreamId : String)
    (maxEntries : Nat) : Nat × CacheStore :=
  let current := s.countForUpstream upstreamId
  if current ≤ maxEntries then (0, s)
  else s.evictFromUpstream p scan now upstreamId (current - maxEntries)

/-- The check before an insertion: a full upstream loses its oldest entry. -/
def makeRoomForUpstream (s : CacheStore) (scan : Scan) (now : Clock) (upstreamId : String) :
    CacheStore :=
  match s.perUpstreamLimit with
  | some limit =>
    if limit ≤ s.countForUpstream upstreamId then
      (s.evictFromUpstream p scan now upstreamId 1).2.updateStats fun st =>
        { st with perUpstream := st.perUpstream + 1 }
    else s
  | none => s

def persistEntry (s : CacheStore) (now : Clock) (h : QueryHash) (e : CacheEntry) : CacheStore :=
  { s with
    persistence := s.persistence.map fun t =>
      t.storeEntry p h
        { query := e.queryText.getD ""
          upstreamId := e.upstreamId
          response := .ofResponse e.response
          cachedAtMs := now.nowMs
          extendedCount := e.extendedCount
          contentHash := e.contentHash.getD 0 } }

def unpersistEntry (s : CacheStore) (h : QueryHash) : CacheStore :=
  { s with persistence := s.persistence.map fun t => t.removeEntry h }

def newEntry (now : Clock) (response : QueryResponse) (upstreamId : String)
    (queryText : Option String) (contextId : String) : CacheEntry where
  freq := 0
  cachedAt := now.instant
  cachedAtWall := some now.wall
  contentHash := some (CacheEntry.computeContentHash p response)
  response := response
  upstreamId := upstreamId
  extendedCount := 0
  schema := SchemaFingerprint.default
  queryText := queryText
  contextId := contextId

/-- `tracked_insert`, then admission to the queues if the key is new. -/
def storeEntry (s : CacheStore) (h : QueryHash) (e : CacheEntry) : CacheStore :=
  let isNew := decide (h ∉ s.entries)
  let stored := s.trackedInsert p h e
  if isNew then stored.s3fifoAdmit p h else stored

def rememberExact (s : CacheStore) (query : String) (h : QueryHash) : CacheStore :=
  if s.normalizedMatching then
    { s with exactToNormalized := s.exactToNormalized.insert (hashQueryExact p query) h }
  else s

/-- `insert_impl`. The exact mapping is written between the map and the queues. -/
def insertImpl (s : CacheStore) (scan : Scan) (now : Clock) (query : String)
    (response : QueryResponse) (upstreamId contextId : String) : CacheStore :=
  let h := hashQuery p query
  let s := s.makeRoomForUpstream p scan now upstreamId
  let isNew := decide (h ∉ s.entries)
  let payload := if s.cdcSender.isSome then p.toVec response else none
  let entry := newEntry p now response upstreamId (some query) contextId
  let s := s.persistEntry p now h entry
  let s := (s.trackedInsert p h entry).rememberExact p query h
  let s := if isNew then s.s3fifoAdmit p h else s
  match payload with
  | some bytes => s.publish now .insert (.insert query bytes upstreamId)
  | none => s

def insert (s : CacheStore) (scan : Scan) (now : Clock) (query : String)
    (response : QueryResponse) (upstreamId : String) : CacheStore :=
  s.insertImpl p scan now query response upstreamId "default"

def insertWithContext (s : CacheStore) (scan : Scan) (now : Clock) (query : String)
    (response : QueryResponse) (upstreamId contextId : String) : CacheStore :=
  s.insertImpl p scan now query response upstreamId contextId

/-- `insert_by_hash`: no exact mapping, and an event only when the key text is known. -/
def insertByHash (s : CacheStore) (scan : Scan) (now : Clock) (h : QueryHash)
    (response : QueryResponse) (upstreamId : String) (queryKey : Option String) : CacheStore :=
  let s := s.makeRoomForUpstream p scan now upstreamId
  let payload := if s.cdcSender.isSome && queryKey.isSome then p.toVec response else none
  let entry := newEntry p now response upstreamId queryKey "default"
  let s := s.persistEntry p now h entry
  let s := s.storeEntry p h entry
  match payload, queryKey with
  | some bytes, some key => s.publish now .insert (.insert key bytes upstreamId)
  | _, _ => s

def insertByHashWithEmbedding (s : CacheStore) (scan : Scan) (now : Clock) (h : QueryHash)
    (response : QueryResponse) (upstreamId : String) (embedding : Option Embedding)
    (queryKey : Option String) : CacheStore :=
  let s := s.insertByHash p scan now h response upstreamId queryKey
  match embedding with
  | some e => { s with semantic := s.semantic.map fun t => t.insert h e }
  | none => s

/-- `warmup`: invalid responses are skipped, and a full cache ends the loop. -/
def warmup (now : Clock) (upstreamId : String) :
    List (String × QueryResponse) → Nat → CacheStore → Nat × CacheStore
  | [], inserted, s => (inserted, s)
  | (query, response) :: rest, inserted, s =>
    match response.validate with
    | .error _ => warmup now upstreamId rest inserted s
    | .ok () =>
      if s.maxEntries ≤ s.len then (inserted, s)
      else
        warmup now upstreamId rest (inserted + 1)
          (s.storeEntry p (hashQuery p query)
            (newEntry p now response upstreamId (some query) "default"))

def extendedEntry (now : Clock) (old : CacheEntry) : CacheEntry :=
  { old with freq := 1, cachedAt := now.instant, extendedCount := old.extendedCount + 1 }

def extendTtl (s : CacheStore) (now : Clock) (query : String) : CacheStore :=
  let h := hashQuery p query
  match s.entries.lookup h with
  | some old => s.trackedInsert p h (extendedEntry now old)
  | none => s

def remove (s : CacheStore) (now : Clock) (query : String) : CacheStore :=
  let h := hashQuery p query
  let s := (s.trackedRemove p h).2
  let s := { s with exactToNormalized := s.exactToNormalized.erase (hashQueryExact p query) }
  (s.unpersistEntry h).publish now .remove (.remove query)

/-- The memory part of `clear` and of a fingerprint change. -/
def dropAll (s : CacheStore) : CacheStore :=
  { s with
    entries := ∅
    exactToNormalized := ∅
    totalMemoryBytes := s.totalMemoryBytes.reset
    s3fifo := s.s3fifo.clear }

def clear (s : CacheStore) (now : Clock) : CacheStore :=
  let s := s.dropAll
  let s := { s with persistence := s.persistence.map PersistentCache.clearEntries }
  s.publish now .remove (.remove "")

/-- The first phase of `evict_smart`: expired entries go until the target is reached. -/
def evictExpired (target : Nat) : List QueryHash → Nat → CacheStore → Nat × CacheStore
  | [], evicted, s => (evicted, s)
  | h :: rest, evicted, s =>
    if target ≤ evicted then (evicted, s)
    else
      match s.trackedRemove p h with
      | (some _, s') => evictExpired target rest (evicted + 1) s'
      | (none, s') => evictExpired target rest evicted s'

def evictRounds : Nat → Nat → CacheStore → Nat × CacheStore
  | 0, evicted, s => (evicted, s)
  | rounds + 1, evicted, s =>
    if s.s3fifo.small = [] ∧ s.s3fifo.main = [] then (evicted, s)
    else
      match s.s3fifoEvictOne p with
      | (some _, s') => evictRounds rounds (evicted + 1) s'
      | (none, s') => evictRounds rounds evicted s'

def evictSmart (s : CacheStore) (scan : Scan) (now : Clock) (target : Nat) : CacheStore :=
  let totalTtl := s.freshDuration + s.staleDuration
  let expired := ((s.iter scan).filter fun e => totalTtl < age now e.2).map Prod.fst
  let first := evictExpired p target expired 0 s
  let second :=
    if first.1 < target then evictRounds p (target - first.1) 0 first.2 else (0, first.2)
  let evicted := first.1 + second.1
  if 0 < evicted then
    second.2.updateStats fun st =>
      { st with expired := st.expired + first.1, total := st.total + evicted }
  else second.2

def evictTrulyExpired (s : CacheStore) (scan : Scan) (now : Clock) : Nat × CacheStore :=
  let hashes := ((s.iter scan).filter fun e => s.maxFrozenDuration < age now e.2).map Prod.fst
  let removed := removeAll p hashes s
  let count := removed.1.length
  (count,
    if 0 < count then
      removed.2.updateStats fun st =>
        { st with expired := st.expired + count, total := st.total + count }
    else removed.2)

/-- The wall-clock time `secs` seconds ago; the epoch where the subtraction overflows. -/
def wallThreshold (now : Clock) (secs : Nat) : Int :=
  if (now.wall / 1000000000 : Int) - secs < -(2 ^ 63) then 0
  else (now.wall : Int) - secs * 1000000000

structure EvictCriteria where
  contextId : Option String
  queryTextPrefix : Option String
  olderThanSecs : Option Nat
  maxEntries : Option Nat
deriving DecidableEq

def EvictCriteria.matches (c : EvictCriteria) (now : Clock) (e : CacheEntry) : Bool :=
  (match c.contextId with
    | some cid => e.contextId == cid
    | none => true) &&
  (match c.queryTextPrefix with
    | some pre =>
      match e.queryText with
      | some text =>
        (p.tables.toLowercase pre.toList).isPrefixOf (p.tables.toLowercase text.toList)
      | none => false
    | none => true) &&
  (match c.olderThanSecs with
    | some secs =>
      match e.cachedAtWall with
      | some wall => (wall : Int) ≤ wallThreshold now secs
      | none => false
    | none => true)

def matchingHashes (s : CacheStore) (scan : Scan) (now : Clock) (c : EvictCriteria) :
    List QueryHash :=
  let hits := ((s.iter scan).filter fun e => c.matches p now e.2).map Prod.fst
  match c.maxEntries with
  | some max => hits.take max
  | none => hits

/-- `evict_filter`: one event for the whole batch, whose key is its count. -/
def evictFilter (s : CacheStore) (scan : Scan) (now : Clock) (c : EvictCriteria) :
    Nat × CacheStore :=
  let removed := removeAll p (s.matchingHashes p scan now c) s
  let count := removed.1.length
  (count,
    if 0 < count then
      (removed.2.updateStats fun st => { st with total := st.total + count }).publish now .remove
        (.remove ("bulk:" ++ toString count))
    else removed.2)

def removeCorrupted (s : CacheStore) (scan : Scan) : Nat × CacheStore :=
  let hashes := ((s.iter scan).filter fun e => corrupted p e.2).map Prod.fst
  let removed := removeAll p hashes s
  (removed.1.length, removed.2)

/-- The first eight bytes of the digest, little-endian. -/
def computeConfigFingerprint (upstreamUrl : Option String) (scopeSeeds : List String) : Nat :=
  let url := (upstreamUrl.map utf8).getD []
  (p.blake3 (url ++ [0] ++ scopeSeeds.flatMap fun seed => utf8 seed ++ [0])).toNat % 2 ^ 64

def updateConfigFingerprint (s : CacheStore) (upstreamUrl : Option String)
    (scopeSeeds : List String) : Bool × CacheStore :=
  let fresh := computeConfigFingerprint p upstreamUrl scopeSeeds
  let old := s.configFingerprint
  let s := { s with configFingerprint := fresh }
  if old ≠ 0 ∧ old ≠ fresh then (true, s.dropAll) else (false, s)

def restoredEntry (now : Clock) (e : PersistedEntry) : CacheEntry where
  freq := 0
  cachedAt := now.instant
  cachedAtWall := some (e.cachedAtMs * 1000000)
  contentHash := some e.contentHash
  response := e.response.toResponse
  upstreamId := e.upstreamId
  extendedCount := e.extendedCount
  schema := SchemaFingerprint.default
  queryText := if e.query = "" then none else some e.query
  contextId := "default"

/-- The loop of `restore_from_persistence`; a restored key is admitted even if it is
resident. -/
def restoreHashes (now : Clock) (t : PersistentCache) :
    List QueryHash → Nat → CacheStore → Nat × CacheStore
  | [], restored, s => (restored, s)
  | h :: rest, restored, s =>
    if s.maxEntries ≤ s.len then (restored, s)
    else
      match t.loadEntry p h with
      | some e =>
        restoreHashes now t rest (restored + 1)
          ((s.trackedInsert p h (restoredEntry now e)).s3fifoAdmit p h)
      | none => restoreHashes now t rest restored s

def restoreFromPersistence (s : CacheStore) (now : Clock) : Nat × CacheStore :=
  match s.persistence with
  | some t => restoreHashes p now t t.allEntryHashes 0 s
  | none => (0, s)

def flushEntries (now : Clock) : List (QueryHash × CacheEntry) → CacheStore → CacheStore
  | [], s => s
  | (h, e) :: rest, s => flushEntries now rest (s.persistEntry p now h e)

def flushToPersistence (s : CacheStore) (scan : Scan) (now : Clock) : CacheStore :=
  flushEntries p now (s.iter scan) s

end Conproxy.CacheStore
