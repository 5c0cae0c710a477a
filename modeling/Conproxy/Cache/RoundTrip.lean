import Conproxy.Cache.Persisted

/-!
# The stored form of an entry

What `persist_entry` and `flush_to_persistence` write for an entry, and what a restore makes of
it. The stored form has no place for the upstreams of single results, for the reason of a miss
and for the context; its time is the time of the write; an empty text and a missing text are the
same to it, and a missing content hash is stored as zeros.
-/

namespace Conproxy

open Relation CacheStore

set_option autoImplicit false

/-- What is written for an entry. -/
def storedForm (now : Clock) (e : CacheEntry) : PersistedEntry where
  query := e.queryText.getD ""
  upstreamId := e.upstreamId
  response := .ofResponse e.response
  cachedAtMs := now.nowMs
  extendedCount := e.extendedCount
  contentHash := e.contentHash.getD 0

/-- The second entry is the first one come back. -/
structure SameEntry (p : Platform) (e r : CacheEntry) : Prop where
  response : r.response = e.response
  upstreamId : r.upstreamId = e.upstreamId
  contextId : r.contextId = e.contextId
  queryText : r.queryText = e.queryText
  extendedCount : r.extendedCount = e.extendedCount
  cachedAtWall : r.cachedAtWall = e.cachedAtWall
  verifies : corrupted p e = false → corrupted p r = false

/-- What `serde_json` does with a record of strings, numbers and byte arrays: it is always
written, and if it is read back, nothing but the results has changed. A score that is not finite
is written as `null` and not read back, and a metadata value `null` is read back as none. -/
structure CodedAsJson (p : Platform) (r : PersistedEntry) : Prop where
  written : ∃ bytes, p.encodeEntry r = some bytes
  read : ∀ bytes d, p.encodeEntry r = some bytes → p.decodeEntry bytes = some d →
    d = { r with response := { r.response with results := d.response.results } }

/-- The entry has nothing that its stored form loses. -/
structure Survives (p : Platform) (now : Clock) (e : CacheEntry) : Prop where
  coding : (p.encodeEntry (storedForm now e)).bind p.decodeEntry = some (storedForm now e)
  results : ∀ r ∈ e.response.results, r.upstreamId = none
  missReason : e.response.missReason = none
  contextId : e.contextId = "default"
  queryText : e.queryText ≠ some ""
  cachedAtWall : e.cachedAtWall = some (now.nowMs * 1000000)
  contentHash : e.contentHash = none → CacheEntry.computeContentHash p e.response = 0

variable {p : Platform}

theorem statusOfText_statusText (status : CacheStatus) :
    statusOfText (statusText status) = status := by
  cases status <;> rfl

theorem toResult_ofResult {r : SearchResult} (hr : r.upstreamId = none) :
    (PersistedResult.ofResult r).toResult = r := by
  cases r
  cases hr
  rfl

theorem toResult_injective : Function.Injective PersistedResult.toResult := by
  rintro ⟨id, content, score, metadata⟩ ⟨id', content', score', metadata'⟩ heq
  cases heq
  rfl

theorem toResponse_ofResponse {response : QueryResponse}
    (hresults : ∀ r ∈ response.results, r.upstreamId = none)
    (hmiss : response.missReason = none) :
    (PersistedResponse.ofResponse response).toResponse = response := by
  rcases response with ⟨results, status, took, generated, miss⟩
  cases hmiss
  have hmap : (results.map PersistedResult.ofResult).map PersistedResult.toResult = results := by
    rw [List.map_map]
    exact (List.map_congr_left fun r hr => toResult_ofResult (hresults r hr)).trans
      (List.map_id results)
  simp only [PersistedResponse.ofResponse, PersistedResponse.toResponse, hmap,
    statusOfText_statusText]

theorem restored_text {text : Option String} (htext : text ≠ some "") :
    (if text.getD "" = "" then none else some (text.getD "")) = text := by
  cases text with
  | none => rfl
  | some t =>
    have ht : t ≠ "" := by
      rintro rfl
      exact htext rfl
    simp [ht]

theorem sameEntry_of_survives {now restoredAt : Clock} {e : CacheEntry} (he : Survives p now e) :
    SameEntry p e (restoredEntry restoredAt (storedForm now e)) where
  response := toResponse_ofResponse he.results he.missReason
  upstreamId := rfl
  contextId := he.contextId.symm
  queryText := restored_text he.queryText
  extendedCount := rfl
  cachedAtWall := he.cachedAtWall.symm
  verifies := by
    intro hok
    have hresponse : (storedForm now e).response.toResponse = e.response :=
      toResponse_ofResponse he.results he.missReason
    change ((storedForm now e).contentHash !=
      CacheEntry.computeContentHash p (storedForm now e).response.toResponse) = false
    rw [hresponse]
    cases hhash : e.contentHash with
    | none => simp [storedForm, hhash, he.contentHash hhash]
    | some stored =>
      simp only [corrupted, hhash] at hok
      simpa only [storedForm, hhash, Option.getD_some] using hok

/-- Whatever is read back, an entry that comes back whole has nothing to lose. -/
theorem survives_of_sameEntry {now restoredAt : Clock} {e : CacheEntry} {d : PersistedEntry}
    (hread : (p.encodeEntry (storedForm now e)).bind p.decodeEntry = some d)
    (hd : d = { storedForm now e with
      response := { (storedForm now e).response with results := d.response.results } })
    (hsame : SameEntry p e (restoredEntry restoredAt d)) : Survives p now e := by
  have hresults : d.response.results.map PersistedResult.toResult = e.response.results :=
    congrArg QueryResponse.results hsame.response
  have hnone : ∀ r ∈ e.response.results, r.upstreamId = none := by
    intro r hr
    rw [← hresults, List.mem_map] at hr
    obtain ⟨x, -, rfl⟩ := hr
    rfl
  have hmiss : e.response.missReason = none :=
    (congrArg QueryResponse.missReason hsame.response).symm
  have hstored : d = storedForm now e := by
    have hform : d.response.results = (storedForm now e).response.results := by
      apply toResult_injective.list_map
      rw [hresults]
      exact (congrArg QueryResponse.results (toResponse_ofResponse hnone hmiss)).symm
    rw [hd, hform]
  subst hstored
  refine ⟨hread, hnone, hmiss, hsame.contextId.symm, fun hq => ?_, hsame.cachedAtWall.symm,
    fun hhash => ?_⟩
  · have htext := hsame.queryText
    simp [restoredEntry, storedForm, hq] at htext
  · have hok := hsame.verifies (by simp [corrupted, hhash])
    simp only [corrupted, restoredEntry, storedForm, hhash, Option.getD_none,
      bne_eq_false_iff_eq] at hok
    rw [hok]
    exact congrArg (CacheEntry.computeContentHash p) hsame.response.symm

/-- A store that takes so many more entries without an eviction. -/
structure Spacious (n : Nat) (s : CacheStore) : Prop where
  count : s.len + n ≤ s.maxEntries
  slots : s.core.slots.length + n ≤ s.s3fifo.capacity
  memory : s.maxMemoryBytes = 0

theorem settings_recordAdmission (s : CacheStore) (g : Bool) (n : Evicted) :
    (s.recordAdmission g n).maxEntries = s.maxEntries ∧
      (s.recordAdmission g n).maxMemoryBytes = s.maxMemoryBytes := by
  unfold recordAdmission
  split <;> exact ⟨rfl, rfl⟩

theorem Spacious.restore {n : Nat} {s : CacheStore} (hs : Spacious (n + 1) s) (h : QueryHash)
    (e : CacheEntry) :
    Spacious n ((s.trackedInsert p h e).s3fifoAdmit p h) ∧
      ((s.trackedInsert p h e).s3fifoAdmit p h).entries = s.entries.insert h e := by
  have hslots := hs.slots
  have hpushed := (s.s3fifo.push_slots h).length_eq
  have hcap := s.s3fifo.push_capacity h
  rw [List.length_cons] at hpushed
  rw [Core.slots, core_queues] at hslots
  have hfits : ¬ (s.trackedInsert p h e).NeedsRoom h := by
    refine not_needsRoom hs.memory ?_
    change s.s3fifo.slots.length < s.s3fifo.capacity
    omega
  rw [s3fifoAdmit_of_fits hfits]
  generalize hstored : ({ s.trackedInsert p h e with
    s3fifo := (s.trackedInsert p h e).s3fifo.push h } : CacheStore) = stored
  have hcore : stored.core = ⟨s.entries.insert h e, s.s3fifo.push h,
      (s.trackedInsert p h e).totalMemoryBytes⟩ := by
    rw [← hstored]
    rfl
  have hmax : stored.maxEntries = s.maxEntries := by rw [← hstored]; rfl
  have hmem : stored.maxMemoryBytes = s.maxMemoryBytes := by rw [← hstored]; rfl
  have hsettings := settings_recordAdmission stored
    (decide (h ∈ (s.trackedInsert p h e).s3fifo.ghostSet)) ⟨0, 0⟩
  have hrecord := core_recordAdmission stored
    (decide (h ∈ (s.trackedInsert p h e).s3fifo.ghostSet)) ⟨0, 0⟩
  generalize stored.recordAdmission (decide (h ∈ (s.trackedInsert p h e).s3fifo.ghostSet))
    ⟨0, 0⟩ = s' at hsettings hrecord ⊢
  rw [hcore] at hrecord
  have hentries : s'.entries = s.entries.insert h e := congrArg Core.entries hrecord
  have hqueues : s'.s3fifo = s.s3fifo.push h := congrArg Core.queues hrecord
  have hlen := WeightedTable.length_keys_insert_le s.entries (k := h) (v := e)
  have hcount := hs.count
  refine ⟨⟨?_, ?_, hsettings.2.trans (hmem.trans hs.memory)⟩, hentries⟩
  · rw [len] at hcount ⊢
    rw [hsettings.1, hmax, hentries]
    omega
  · rw [Core.slots, core_queues, hqueues]
    omega

/-- With room for everything on the list, a restore leaves what it has loaded under each hash of
the list, and the rest as it was. -/
theorem lookup_restoreHashes {now : Clock} {t : PersistentCache} {hs : List QueryHash}
    {s : CacheStore} (hroom : Spacious hs.length s) (restored : Nat) {h : QueryHash}
    {d : Option PersistedEntry} (hd : t.loadEntry p h = d)
    (hlookup : h ∈ hs ∨ s.entries.lookup h = d.map (restoredEntry now))
    (hnone : d = none → s.entries.lookup h = none) :
    (restoreHashes p now t hs restored s).2.entries.lookup h = d.map (restoredEntry now) := by
  induction hs generalizing restored s with
  | nil => exact hlookup.resolve_left (by simp)
  | cons k rest ih =>
    have hcount := hroom.count
    have hlt : ¬ s.maxEntries ≤ s.len := by
      rw [List.length_cons] at hcount
      omega
    rw [restoreHashes, if_neg hlt]
    cases hload : t.loadEntry p k with
    | none =>
      have hroom' : Spacious rest.length s :=
        ⟨by rw [List.length_cons] at hcount; omega,
          by have hslots := hroom.slots; rw [List.length_cons] at hslots; omega, hroom.memory⟩
      refine ih hroom' restored ?_ hnone
      rcases hlookup with hmem | hlookup
      · rcases List.mem_cons.mp hmem with rfl | hmem
        · rw [hload] at hd
          subst hd
          exact Or.inr (hnone rfl)
        · exact Or.inl hmem
      · exact Or.inr hlookup
    | some loaded =>
      obtain ⟨hroom', hentries⟩ := hroom.restore (p := p) k (restoredEntry now loaded)
      refine ih hroom' (restored + 1) ?_ ?_
      · by_cases hk : h = k
        · subst hk
          rw [hload] at hd
          subst hd
          exact Or.inr (by rw [hentries, AList.lookup_insert]; rfl)
        · rcases hlookup with hmem | hlookup
          · exact Or.inl ((List.mem_cons.mp hmem).resolve_left hk)
          · exact Or.inr (by rw [hentries, AList.lookup_insert_ne hk]; exact hlookup)
      · rintro rfl
        have hk : h ≠ k := by
          rintro rfl
          rw [hload] at hd
          cases hd
        rw [hentries, AList.lookup_insert_ne hk]
        exact hnone rfl

theorem mem_allEntryHashes {t : PersistentCache} {h : QueryHash}
    (hmem : hashBytes h ∈ t.entries) : h ∈ t.allEntryHashes := by
  refine List.mem_map.mpr ⟨hashBytes h, List.mem_filter.mpr ⟨?_, by simp⟩, hashOfBytes_hashBytes h⟩
  exact (List.perm_insertionSort _ _).mem_iff.mpr hmem

theorem length_allEntryHashes_le (t : PersistentCache) :
    t.allEntryHashes.length ≤ t.entries.keys.length := by
  rw [PersistentCache.allEntryHashes, List.length_map]
  refine (List.length_filter_le _ _).trans ?_
  rw [List.length_insertionSort]

/-- A new process with room for the whole disk finds under each hash what can be read there. -/
theorem lookup_restored {s : CacheStore} {t : PersistentCache} (ht : s.persistence = some t)
    (freshDuration staleDuration : Duration) {maxEntries : Nat} (ttlJitterPercent : ℚ)
    (hroom : t.entries.keys.length ≤ maxEntries) (now : Clock) (h : QueryHash) :
    ((s.restarted freshDuration staleDuration maxEntries ttlJitterPercent).restoreFromPersistence
      p now).2.entries.lookup h = (t.loadEntry p h).map (restoredEntry now) := by
  have hlen := (length_allEntryHashes_le t).trans hroom
  have hnew : Spacious t.allEntryHashes.length
      (s.restarted freshDuration staleDuration maxEntries ttlJitterPercent) := by
    refine ⟨?_, ?_, rfl⟩
    · exact (Nat.zero_add _).trans_le hlen
    · have hcap := S3FifoState.new_capacity maxEntries
      change 0 + t.allEntryHashes.length ≤ (S3FifoState.new maxEntries).capacity
      omega
  have hpersistence : (s.restarted freshDuration staleDuration maxEntries
      ttlJitterPercent).persistence = some t := ht
  simp only [restoreFromPersistence, hpersistence]
  refine lookup_restoreHashes hnew 0 rfl ?_ fun _ => rfl
  cases hload : t.loadEntry p h with
  | none => exact Or.inr rfl
  | some d =>
    obtain ⟨bytes, hbytes, -⟩ := Option.bind_eq_some_iff.mp hload
    exact Or.inl (mem_allEntryHashes (WeightedTable.mem_of_lookup _ hbytes))

theorem loadEntry_storeEntry {t : PersistentCache} {h : QueryHash} {r : PersistedEntry}
    {bytes : List UInt8} (hr : p.encodeEntry r = some bytes) :
    (t.storeEntry p h r).loadEntry p h = (p.encodeEntry r).bind p.decodeEntry := by
  simp [PersistentCache.storeEntry, PersistentCache.loadEntry, hr]

theorem loadEntry_storeEntry_of_ne (t : PersistentCache) {h k : QueryHash} (hne : h ≠ k)
    (r : PersistedEntry) : (t.storeEntry p k r).loadEntry p h = t.loadEntry p h := by
  have hkeys : hashBytes h ≠ hashBytes k := fun heq => hne (hashBytes_injective heq)
  unfold PersistentCache.storeEntry
  split
  · simp only [PersistentCache.loadEntry, AList.lookup_insert_ne hkeys]
  · rfl

theorem length_storeEntry_le (t : PersistentCache) (h : QueryHash) (r : PersistedEntry) :
    (t.storeEntry p h r).entries.keys.length ≤ t.entries.keys.length + 1 := by
  unfold PersistentCache.storeEntry
  split
  · exact WeightedTable.length_keys_insert_le t.entries
  · exact Nat.le_succ _

/-- What a flush leaves on disk: the records of the entries that it has written, and under other
hashes what was there. -/
theorem flushEntries_disk (now : Clock) (es : List (QueryHash × CacheEntry)) {s : CacheStore}
    {t : PersistentCache} (ht : s.persistence = some t) (hnodup : (es.map Prod.fst).Nodup) :
    ∃ t', (flushEntries p now es s).persistence = some t' ∧
      t'.entries.keys.length ≤ t.entries.keys.length + es.length ∧
      (∀ h ∉ es.map Prod.fst, t'.loadEntry p h = t.loadEntry p h) ∧
      ∀ h e, (h, e) ∈ es → (∃ bytes, p.encodeEntry (storedForm now e) = some bytes) →
        t'.loadEntry p h = (p.encodeEntry (storedForm now e)).bind p.decodeEntry := by
  induction es generalizing s t with
  | nil => exact ⟨t, ht, Nat.le_refl _, fun _ _ => rfl, fun _ _ hmem => by cases hmem⟩
  | cons x rest ih =>
    rw [List.map_cons, List.nodup_cons] at hnodup
    have hstored : (s.persistEntry p now x.1 x.2).persistence =
        some (t.storeEntry p x.1 (storedForm now x.2)) := by
      simp only [persistEntry, ht, Option.map_some]
      rfl
    obtain ⟨t', ht', hlen, hothers, hwritten⟩ := ih hstored hnodup.2
    have hstep := length_storeEntry_le (p := p) t x.1 (storedForm now x.2)
    refine ⟨t', ht', ?_, fun h hh => ?_, fun h e hmem hbytes => ?_⟩
    · rw [List.length_cons]
      omega
    · rw [List.map_cons, List.mem_cons, not_or] at hh
      rw [hothers h hh.2, loadEntry_storeEntry_of_ne t hh.1]
    · rcases List.mem_cons.mp hmem with rfl | hmem
      · obtain ⟨bytes, hbytes⟩ := hbytes
        rw [hothers h hnodup.1, loadEntry_storeEntry hbytes]
      · exact hwritten h e hmem hbytes

/-- After a restart the entry is there under its hash, as it was. -/
def ComesBack (p : Platform) (disk : CacheStore) (freshDuration staleDuration : Duration)
    (maxEntries : Nat) (ttlJitterPercent : ℚ) (restoredAt : Clock) (h : QueryHash)
    (e : CacheEntry) : Prop :=
  ∃ r, ((disk.restarted freshDuration staleDuration maxEntries
    ttlJitterPercent).restoreFromPersistence p restoredAt).2.entries.lookup h = some r ∧
    SameEntry p e r

theorem comesBack_iff {disk : CacheStore} {t : PersistentCache} (ht : disk.persistence = some t)
    (freshDuration staleDuration : Duration) {maxEntries : Nat} (ttlJitterPercent : ℚ)
    (hroom : t.entries.keys.length ≤ maxEntries) (now restoredAt : Clock) {h : QueryHash}
    {e : CacheEntry} (hcoded : CodedAsJson p (storedForm now e))
    (hload : t.loadEntry p h = (p.encodeEntry (storedForm now e)).bind p.decodeEntry) :
    ComesBack p disk freshDuration staleDuration maxEntries ttlJitterPercent restoredAt h e ↔
      Survives p now e := by
  rw [ComesBack, lookup_restored ht freshDuration staleDuration ttlJitterPercent hroom, hload]
  constructor
  · rintro ⟨r, hr, hsame⟩
    obtain ⟨d, hread, rfl⟩ := Option.map_eq_some_iff.mp hr
    obtain ⟨bytes, hbytes, hdecode⟩ := Option.bind_eq_some_iff.mp hread
    exact survives_of_sameEntry hread (hcoded.read bytes d hbytes hdecode) hsame
  · intro he
    exact ⟨_, by rw [he.coding]; rfl, sameEntry_of_survives he⟩

/-- Written by `persist_entry` or by a flush, an entry comes back exactly when it has nothing
that the stored form loses. -/
theorem persistence_round_trip_iff (p : Platform) (s : CacheStore) (t : PersistentCache)
    (ht : s.persistence = some t) (now restoredAt : Clock) (h : QueryHash) (e : CacheEntry)
    (hcoded : CodedAsJson p (storedForm now e)) (freshDuration staleDuration : Duration)
    (maxEntries : Nat) (ttlJitterPercent : ℚ) :
    (t.entries.keys.length + 1 ≤ maxEntries →
      (ComesBack p (s.persistEntry p now h e) freshDuration staleDuration maxEntries
        ttlJitterPercent restoredAt h e ↔ Survives p now e)) ∧
    (∀ scan, s.entries.lookup h = some e → t.entries.keys.length + s.len ≤ maxEntries →
      (ComesBack p (s.flushToPersistence p scan now) freshDuration staleDuration maxEntries
        ttlJitterPercent restoredAt h e ↔ Survives p now e)) := by
  constructor
  · intro hroom
    have hstored : (s.persistEntry p now h e).persistence =
        some (t.storeEntry p h (storedForm now e)) := by
      simp only [persistEntry, ht, Option.map_some]
      rfl
    obtain ⟨bytes, hbytes⟩ := hcoded.written
    exact comesBack_iff hstored freshDuration staleDuration ttlJitterPercent
      ((length_storeEntry_le t h _).trans hroom) now restoredAt hcoded
      (loadEntry_storeEntry hbytes)
  · intro scan hl hroom
    obtain ⟨t', ht', hlen, -, hwritten⟩ := flushEntries_disk (p := p) now (s.iter scan) ht
      (nodup_iter s scan)
    have hiter : (s.iter scan).length = s.len := by
      rw [iter, (scan.perm _).length_eq, List.length_map]
      exact (List.length_map _).symm
    refine comesBack_iff ht' freshDuration staleDuration ttlJitterPercent ?_ now restoredAt
      hcoded (hwritten h e (mem_iter_iff.mpr hl) hcoded.written)
    rw [hiter] at hlen
    exact hlen.trans hroom

def emptyDisk : CacheStore := (withJitter 1 1 4 0).setPersistence ⟨∅⟩

def entryQ (contextId : String) : CacheEntry :=
  newEntry (Platform.disk storedQ) ⟨0, 0⟩ (textResponse "a") "u" (some "q") contextId

theorem storedForm_entryQ (contextId : String) :
    storedForm ⟨0, 0⟩ (entryQ contextId) = storedQ := rfl

theorem encode_storedQ :
    (Platform.disk storedQ).encodeEntry storedQ = some (utf8 (storedJson storedQ).toText) := rfl

theorem decode_storedQ (bytes : List UInt8)
    (hbytes : (Platform.disk storedQ).encodeEntry storedQ = some bytes) :
    (Platform.disk storedQ).decodeEntry bytes = some storedQ :=
  if_pos hbytes.symm

theorem coded_entryQ (contextId : String) :
    CodedAsJson (Platform.disk storedQ) (storedForm ⟨0, 0⟩ (entryQ contextId)) := by
  rw [storedForm_entryQ]
  refine ⟨⟨_, encode_storedQ⟩, fun bytes d hbytes hd => ?_⟩
  rw [decode_storedQ bytes hbytes] at hd
  cases hd
  rfl

theorem default_entry_comes_back :
    ComesBack (Platform.disk storedQ)
      (emptyDisk.persistEntry (Platform.disk storedQ) ⟨0, 0⟩ 1 (entryQ "default")) 1 1 4 0 ⟨1, 1⟩ 1
      (entryQ "default") := by
  have hround := (persistence_round_trip_iff (Platform.disk storedQ) emptyDisk ⟨∅⟩ rfl ⟨0, 0⟩
    ⟨1, 1⟩ 1 (entryQ "default") (coded_entryQ "default") 1 1 4 0).1 (by decide)
  refine hround.mpr ⟨?_, ?_, rfl, rfl, by decide, rfl, fun hnone => ?_⟩
  · rw [storedForm_entryQ, encode_storedQ]
    exact decode_storedQ _ encode_storedQ
  · intro r hr
    obtain rfl := List.mem_singleton.mp hr
    rfl
  · cases hnone

/-- An entry of the context `c` comes back in the default context. -/
theorem context_lost_on_restart :
    ¬ ComesBack (Platform.disk storedQ)
      (emptyDisk.persistEntry (Platform.disk storedQ) ⟨0, 0⟩ 1 (entryQ "c")) 1 1 4 0 ⟨1, 1⟩ 1
      (entryQ "c") := by
  intro hback
  have hstored : (emptyDisk.persistEntry (Platform.disk storedQ) ⟨0, 0⟩ 1
      (entryQ "c")).persistence = some ((⟨∅⟩ : PersistentCache).storeEntry (Platform.disk storedQ)
        1 (storedForm ⟨0, 0⟩ (entryQ "c"))) := rfl
  have hsurvives := (comesBack_iff hstored 1 1 0
    ((length_storeEntry_le _ _ _).trans (by decide)) ⟨0, 0⟩ ⟨1, 1⟩ (coded_entryQ "c")
    (loadEntry_storeEntry encode_storedQ)).mp hback
  have hcontext := hsurvives.contextId
  revert hcontext
  decide

end Conproxy
