import Conproxy.Cache.RoundTrip
import Conproxy.Cache.Requests

/-!
# Integrity over restarts

`verify_integrity` of `cache.rs`, `remove_corrupted`, and the cycle of `cleanup.rs`. A restore
takes the digest of a record as it is and checks nothing, so the digests of the entries in memory
are as good as the records on disk, and those are written from the entries in memory. The invariant
goes around both.
-/

namespace Conproxy

open Relation CacheStore Machine

set_option autoImplicit false

structure IntegrityReport where
  total : Nat
  valid : Nat
  invalid : Nat
  missingHash : Nat
deriving DecidableEq

/-- The metrics that a cleanup cycle records. -/
structure CleanupMetrics where
  evictions : UInt64
  integrityFailures : UInt64
deriving DecidableEq

/-- So many calls of `record_eviction`. -/
def CleanupMetrics.recordEvictions (m : CleanupMetrics) (n : Nat) : CleanupMetrics :=
  { m with evictions := m.evictions + UInt64.ofNat n }

/-- So many calls of `record_integrity_failure`. -/
def CleanupMetrics.recordIntegrityFailures (m : CleanupMetrics) (n : Nat) : CleanupMetrics :=
  { m with integrityFailures := m.integrityFailures + UInt64.ofNat n }

section Operations

variable (p : Platform)

def IntegrityReport.count (r : IntegrityReport) (e : CacheEntry) : IntegrityReport :=
  match e.contentHash with
  | some storedHash =>
    if storedHash = CacheEntry.computeContentHash p e.response then { r with valid := r.valid + 1 }
    else { r with invalid := r.invalid + 1 }
  | none => { r with missingHash := r.missingHash + 1 }

def CacheStore.verifyIntegrity (s : CacheStore) (scan : Scan) : IntegrityReport :=
  ((s.iter scan).map Prod.snd).foldl (IntegrityReport.count p) ⟨s.len, 0, 0, 0⟩

/-- A cycle of the cleanup worker. -/
def CacheStore.cleanup (s : CacheStore) (checkIntegrity : Bool) (scan integrityScan : Scan)
    (now : Clock) (metrics : Option CleanupMetrics) : CacheStore × Option CleanupMetrics :=
  let evicted := s.evictTrulyExpired p scan now
  let metrics := metrics.map fun m => m.recordEvictions evicted.1
  if checkIntegrity then
    let report := evicted.2.verifyIntegrity p integrityScan
    (evicted.2, metrics.map fun m => m.recordIntegrityFailures report.invalid)
  else (evicted.2, metrics)

/-- A call, or a new process over the disk of the old one. -/
inductive LifeEvent where
  | call (c : Call)
  | restart (freshDuration staleDuration : Duration) (maxEntries : Nat) (ttlJitterPercent : ℚ)

def live (s : CacheStore) : LifeEvent → CacheStore
  | .call c => exec p s c
  | .restart freshDuration staleDuration maxEntries ttlJitterPercent =>
    s.restarted freshDuration staleDuration maxEntries ttlJitterPercent

/-- A record of the response with its digest is read back, if at all, with the same response and the
same digest. `serde_json` reads a metadata value `null` as a missing one, and another digest
belongs to that. -/
def ReadsBack (response : QueryResponse) : Prop :=
  ∀ (r : PersistedEntry) (bytes : List UInt8) (d : PersistedEntry),
    r.response = .ofResponse response → r.contentHash = CacheEntry.computeContentHash p response →
    p.encodeEntry r = some bytes → p.decodeEntry bytes = some d →
      d.response = r.response ∧ d.contentHash = r.contentHash

structure GenuineEntry (e : CacheEntry) : Prop where
  hash : e.contentHash = some (CacheEntry.computeContentHash p e.response)
  readsBack : ReadsBack p e.response

structure GenuineRecord (d : PersistedEntry) : Prop where
  hash : d.contentHash = CacheEntry.computeContentHash p d.response.toResponse
  readsBack : ReadsBack p d.response.toResponse

def GenuineTable (t : PersistentCache) : Prop :=
  ∀ h d, t.loadEntry p h = some d → GenuineRecord p d

structure Genuine (s : CacheStore) : Prop where
  memory : ∀ h e, s.entries.lookup h = some e → GenuineEntry p e
  disk : ∀ t ∈ s.persistence, GenuineTable p t

/-- The responses that a call is given. -/
def Op.responses : Op → List QueryResponse
  | .insert _ response _ | .insertWithContext _ response _ _ | .insertByHash _ response _ _
  | .insertByHashWithEmbedding _ response _ _ _ => [response]
  | .warmup entries _ => entries.map Prod.snd
  | _ => []

/-- The call is given nothing that the coding loses. -/
structure Faithful (call : Call) : Prop where
  responses : ∀ response ∈ call.op.responses, ReadsBack p response
  disk : ∀ t, call.op = .setPersistence t → GenuineTable p t

def LifeEvent.Faithful : LifeEvent → Prop
  | .call c => Conproxy.Faithful p c
  | .restart .. => True

end Operations

variable {p : Platform}

theorem computeContentHash_toResponse (response : QueryResponse) :
    CacheEntry.computeContentHash p (PersistedResponse.ofResponse response).toResponse =
      CacheEntry.computeContentHash p response := by
  have hbytes : ((response.results.map PersistedResult.ofResult).map
      PersistedResult.toResult).flatMap (CacheEntry.resultBytes p) =
        response.results.flatMap (CacheEntry.resultBytes p) := by
    rw [List.flatMap_map, List.flatMap_map]
    rfl
  have hlength : ((response.results.map PersistedResult.ofResult).map
      PersistedResult.toResult).length = response.results.length := by
    rw [List.length_map, List.length_map]
  unfold CacheEntry.computeContentHash PersistedResponse.ofResponse PersistedResponse.toResponse
  dsimp only
  rw [hbytes, hlength]

theorem ofResponse_toResponse (response : QueryResponse) :
    PersistedResponse.ofResponse (PersistedResponse.ofResponse response).toResponse =
      .ofResponse response := by
  have hresults : ((response.results.map PersistedResult.ofResult).map
      PersistedResult.toResult).map PersistedResult.ofResult =
        response.results.map PersistedResult.ofResult := by
    rw [List.map_map, List.map_map]
    rfl
  unfold PersistedResponse.ofResponse PersistedResponse.toResponse
  dsimp only
  rw [hresults, statusOfText_statusText]

theorem ReadsBack.toResponse {response : QueryResponse} (h : ReadsBack p response) :
    ReadsBack p (PersistedResponse.ofResponse response).toResponse := by
  intro r bytes d hr hhash
  rw [ofResponse_toResponse] at hr
  rw [computeContentHash_toResponse] at hhash
  exact h r bytes d hr hhash

theorem ReadsBack.newEntry {response : QueryResponse} (h : ReadsBack p response) (now : Clock)
    (upstreamId : String) (queryText : Option String) (contextId : String) :
    GenuineEntry p (newEntry p now response upstreamId queryText contextId) := ⟨rfl, h⟩

theorem GenuineRecord.restored {d : PersistedEntry} (h : GenuineRecord p d) (now : Clock) :
    GenuineEntry p (restoredEntry now d) := ⟨congrArg some h.hash, h.readsBack⟩

theorem GenuineEntry.same {e e' : CacheEntry} (h : GenuineEntry p e) (hsame : SameContent e e') :
    GenuineEntry p e' := by
  rw [hsame]
  exact ⟨h.hash, h.readsBack⟩

theorem GenuineEntry.read {e : CacheEntry} (h : GenuineEntry p e) {now : Clock}
    {bytes : List UInt8} {d : PersistedEntry}
    (hwritten : p.encodeEntry (storedForm now e) = some bytes)
    (hread : p.decodeEntry bytes = some d) : GenuineRecord p d := by
  have hhash : (storedForm now e).contentHash = CacheEntry.computeContentHash p e.response := by
    unfold storedForm
    dsimp only
    rw [h.hash]
    rfl
  obtain ⟨hresponse, hsame⟩ := h.readsBack _ _ _ rfl hhash hwritten hread
  have hstored : d.response = .ofResponse e.response := hresponse
  constructor
  · rw [hsame, hhash, hstored, computeContentHash_toResponse]
  · rw [hstored]
    exact h.readsBack.toResponse

theorem GenuineEntry.not_corrupted {e : CacheEntry} (h : GenuineEntry p e) :
    corrupted p e = false := by
  unfold corrupted
  rw [h.hash]
  exact bne_self_eq_false _

namespace GenuineTable

variable {t : PersistentCache}

theorem empty : GenuineTable p ⟨∅⟩ := by
  intro h d hload
  cases hload

theorem clearEntries : GenuineTable p t.clearEntries := empty

theorem removeEntry (ht : GenuineTable p t) (h : QueryHash) : GenuineTable p (t.removeEntry h) := by
  intro k d hload
  refine ht k d ?_
  unfold PersistentCache.loadEntry PersistentCache.removeEntry at hload
  by_cases hk : hashBytes k = hashBytes h
  · dsimp only at hload
    rw [hk, AList.lookup_erase] at hload
    cases hload
  · dsimp only at hload
    rwa [AList.lookup_erase_ne hk] at hload

theorem storeEntry (ht : GenuineTable p t) {e : CacheEntry} (he : GenuineEntry p e) (now : Clock)
    (h : QueryHash) : GenuineTable p (t.storeEntry p h (storedForm now e)) := by
  intro k d hload
  cases hwritten : p.encodeEntry (storedForm now e) with
  | none =>
    have hkept : t.storeEntry p h (storedForm now e) = t := by
      unfold PersistentCache.storeEntry
      rw [hwritten]
    rw [hkept] at hload
    exact ht k d hload
  | some bytes =>
    by_cases hk : k = h
    · subst hk
      rw [loadEntry_storeEntry hwritten, hwritten] at hload
      exact he.read hwritten hload
    · rw [loadEntry_storeEntry_of_ne t hk] at hload
      exact ht k d hload

end GenuineTable

/-- A disk that was written to by `persist_entry`. -/
theorem genuine_disk_stored {s s' : CacheStore} {e : CacheEntry} {now : Clock} {h : QueryHash}
    (hs' : s'.persistence = s.persistence.map fun t => t.storeEntry p h (storedForm now e))
    (he : GenuineEntry p e) (hdisk : ∀ t ∈ s.persistence, GenuineTable p t) :
    ∀ t ∈ s'.persistence, GenuineTable p t := by
  intro t' ht'
  rw [hs'] at ht'
  obtain ⟨t, ht, rfl⟩ := Option.map_eq_some_iff.mp ht'
  exact (hdisk t ht).storeEntry he now h

theorem persistence_of_frame {s s' : CacheStore} (h : s'.frame = s.frame) :
    s'.persistence = s.persistence :=
  show s'.frame.persistence = s.frame.persistence by rw [h]

theorem persistence_makeRoomForUpstream (s : CacheStore) (scan : Scan) (now : Clock)
    (upstreamId : String) :
    (s.makeRoomForUpstream p scan now upstreamId).persistence = s.persistence :=
  (pruned_makeRoomForUpstream (R := fun _ => True) s scan now upstreamId
    fun _ _ => trivial).persistence_eq

theorem persistence_admitted (s : CacheStore) (h : QueryHash) (isNew : Bool) :
    (if isNew then s.s3fifoAdmit p h else s).persistence = s.persistence := by
  split
  · exact persistence_of_frame (frame_s3fifoAdmit s h)
  · rfl

theorem persistence_rememberExact (s : CacheStore) (query : String) (h : QueryHash) :
    (s.rememberExact p query h).persistence = s.persistence := by
  unfold rememberExact
  split <;> rfl

theorem persistence_storeEntry (s : CacheStore) (h : QueryHash) (e : CacheEntry) :
    (s.storeEntry p h e).persistence = s.persistence :=
  persistence_admitted (s.trackedInsert p h e) h _

theorem persistence_insertImpl (s : CacheStore) (scan : Scan) (now : Clock) (query : String)
    (response : QueryResponse) (upstreamId contextId : String) :
    (s.insertImpl p scan now query response upstreamId contextId).persistence =
      s.persistence.map fun t => t.storeEntry p (hashQuery p query)
        (storedForm now (newEntry p now response upstreamId (some query) contextId)) := by
  have hroom := persistence_makeRoomForUpstream (p := p) s scan now upstreamId
  simp only [insertImpl]
  generalize s.makeRoomForUpstream p scan now upstreamId = room at hroom ⊢
  generalize newEntry p now response upstreamId (some query) contextId = entry
  have hadmitted (stored : CacheStore) (isNew : Bool) :=
    persistence_admitted (p := p) (stored.rememberExact p query (hashQuery p query))
      (hashQuery p query) isNew
  have hstored : (room.persistEntry p now (hashQuery p query) entry).persistence =
      s.persistence.map fun t => t.storeEntry p (hashQuery p query) (storedForm now entry) := by
    rw [← hroom]
    rfl
  split
  · exact (hadmitted _ _).trans ((persistence_rememberExact _ _ _).trans hstored)
  · exact (hadmitted _ _).trans ((persistence_rememberExact _ _ _).trans hstored)

theorem persistence_insertByHash (s : CacheStore) (scan : Scan) (now : Clock) (h : QueryHash)
    (response : QueryResponse) (upstreamId : String) (queryKey : Option String) :
    (s.insertByHash p scan now h response upstreamId queryKey).persistence =
      s.persistence.map fun t => t.storeEntry p h
        (storedForm now (newEntry p now response upstreamId queryKey "default")) := by
  have hroom := persistence_makeRoomForUpstream (p := p) s scan now upstreamId
  simp only [insertByHash]
  generalize s.makeRoomForUpstream p scan now upstreamId = room at hroom ⊢
  generalize newEntry p now response upstreamId queryKey "default" = entry
  have hstored : (room.persistEntry p now h entry).persistence =
      s.persistence.map fun t => t.storeEntry p h (storedForm now entry) := by
    rw [← hroom]
    rfl
  split
  · exact (persistence_storeEntry _ h entry).trans hstored
  · exact (persistence_storeEntry _ h entry).trans hstored

theorem persistence_warmup (now : Clock) (upstreamId : String)
    (items : List (String × QueryResponse)) (inserted : Nat) (s : CacheStore) :
    (warmup p now upstreamId items inserted s).2.persistence = s.persistence := by
  induction items generalizing inserted s with
  | nil => rfl
  | cons item rest ih =>
    obtain ⟨query, response⟩ := item
    unfold warmup
    cases response.validate with
    | error => exact ih inserted s
    | ok =>
      dsimp only
      split
      · rfl
      · exact (ih _ _).trans (persistence_storeEntry s _ _)

theorem persistence_restoreHashes (now : Clock) (t : PersistentCache) (hs : List QueryHash)
    (restored : Nat) (s : CacheStore) :
    (restoreHashes p now t hs restored s).2.persistence = s.persistence := by
  induction hs generalizing restored s with
  | nil => rfl
  | cons h rest ih =>
    unfold restoreHashes
    split
    · rfl
    · cases t.loadEntry p h with
      | none => exact ih restored s
      | some e =>
        exact (ih _ _).trans (persistence_admitted (s.trackedInsert p h _) h true)

/-- What a warmup inserts comes from its responses. -/
theorem mem_warmupInsertions {now : Clock} {upstreamId : String}
    {items : List (String × QueryResponse)} {s : CacheStore} {i : Insertion}
    (hi : i ∈ warmupInsertions p now upstreamId items s) :
    ∃ item ∈ items, i.entry = newEntry p now item.2 upstreamId (some item.1) "default" := by
  induction items generalizing s with
  | nil => cases hi
  | cons item rest ih =>
    obtain ⟨query, response⟩ := item
    unfold warmupInsertions at hi
    cases hv : response.validate with
    | error =>
      rw [hv] at hi
      obtain ⟨item, hmem, heq⟩ := ih hi
      exact ⟨item, List.mem_cons_of_mem _ hmem, heq⟩
    | ok =>
      rw [hv] at hi
      dsimp only at hi
      split at hi
      · cases hi
      · rcases List.mem_cons.mp hi with rfl | hi
        · exact ⟨_, List.mem_cons_self, rfl⟩
        · obtain ⟨item, hmem, heq⟩ := ih hi
          exact ⟨item, List.mem_cons_of_mem _ hmem, heq⟩

theorem mem_restoreInsertions {now : Clock} {t : PersistentCache} {hs : List QueryHash}
    {s : CacheStore} {i : Insertion} (hi : i ∈ restoreInsertions p now t hs s) :
    ∃ d, t.loadEntry p i.hash = some d ∧ i.entry = restoredEntry now d := by
  induction hs generalizing s with
  | nil => cases hi
  | cons h rest ih =>
    unfold restoreInsertions at hi
    split at hi
    · cases hi
    · cases hload : t.loadEntry p h with
      | none =>
        rw [hload] at hi
        exact ih hi
      | some d =>
        rw [hload] at hi
        rcases List.mem_cons.mp hi with rfl | hi
        · exact ⟨d, hload, rfl⟩
        · exact ih hi

theorem Genuine.insertions {s : CacheStore} (hs : Genuine p s) {call : Call}
    (hcall : Faithful p call) : ∀ i ∈ insertions p s call, GenuineEntry p i.entry := by
  intro i hi
  obtain ⟨now, scan, op⟩ := call
  cases op with
  | insert query response upstreamId | insertWithContext query response upstreamId contextId
  | insertByHash h response upstreamId queryKey
  | insertByHashWithEmbedding h response upstreamId embedding queryKey =>
    obtain rfl := List.mem_singleton.mp hi
    exact (hcall.responses response List.mem_cons_self).newEntry _ _ _ _
  | warmup entries upstreamId =>
    obtain ⟨item, hmem, heq⟩ := mem_warmupInsertions hi
    rw [heq]
    exact (hcall.responses item.2 (List.mem_map_of_mem hmem)).newEntry _ _ _ _
  | restoreFromPersistence =>
    unfold Conproxy.insertions at hi
    dsimp only at hi
    cases ht : s.persistence with
    | none =>
      rw [ht] at hi
      cases hi
    | some t =>
      rw [ht] at hi
      obtain ⟨d, hload, heq⟩ := mem_restoreInsertions hi
      rw [heq]
      exact (hs.disk t ht i.hash d hload).restored now
  | _ => cases hi

theorem Genuine.memory_exec {s : CacheStore} (hs : Genuine p s) {call : Call}
    (hcall : Faithful p call) (h : QueryHash) (e' : CacheEntry)
    (hl : (exec p s call).entries.lookup h = some e') : GenuineEntry p e' := by
  rcases exec_content s call hl with ⟨i, hi, -, hsame⟩ | ⟨-, e, hold, hsame⟩
  · exact (hs.insertions hcall i hi).same hsame
  · exact (hs.memory h e hold).same hsame

theorem genuine_disk_flushEntries {now : Clock} {es : List (QueryHash × CacheEntry)}
    (hes : ∀ x ∈ es, GenuineEntry p x.2) {s : CacheStore}
    (hdisk : ∀ t ∈ s.persistence, GenuineTable p t) :
    ∀ t ∈ (flushEntries p now es s).persistence, GenuineTable p t := by
  induction es generalizing s with
  | nil => exact hdisk
  | cons x rest ih =>
    refine ih (fun y hy => hes y (List.mem_cons_of_mem _ hy)) ?_
    exact genuine_disk_stored rfl (hes x List.mem_cons_self) hdisk

theorem Genuine.disk_stores {s : CacheStore} (hs : Genuine p s) {call : Call}
    (hcall : Faithful p call) (hop : call.op.stores = true) :
    ∀ t ∈ (exec p s call).persistence, GenuineTable p t := by
  obtain ⟨now, scan, op⟩ := call
  cases op with
  | insert query response upstreamId =>
    have he := (hcall.responses response List.mem_cons_self).newEntry now upstreamId (some query)
      "default"
    exact genuine_disk_stored (persistence_insertImpl s scan now query _ _ _) he hs.disk
  | insertWithContext query response upstreamId contextId =>
    have he := (hcall.responses response List.mem_cons_self).newEntry now upstreamId (some query)
      contextId
    exact genuine_disk_stored (persistence_insertImpl s scan now query _ _ _) he hs.disk
  | insertByHash h response upstreamId queryKey =>
    have he := (hcall.responses response List.mem_cons_self).newEntry now upstreamId queryKey
      "default"
    exact genuine_disk_stored (persistence_insertByHash s scan now h _ _ _) he hs.disk
  | insertByHashWithEmbedding h response upstreamId embedding queryKey =>
    have he := (hcall.responses response List.mem_cons_self).newEntry now upstreamId queryKey
      "default"
    have hstored := persistence_insertByHash (p := p) s scan now h response upstreamId queryKey
    cases embedding with
    | some v => exact genuine_disk_stored hstored he hs.disk
    | none => exact genuine_disk_stored hstored he hs.disk
  | warmup entries upstreamId =>
    have hkept : (exec p s ⟨now, scan, .warmup entries upstreamId⟩).persistence =
        s.persistence := persistence_warmup now upstreamId entries 0 s
    rw [hkept]
    exact hs.disk
  | restoreFromPersistence =>
    have hkept : (exec p s ⟨now, scan, .restoreFromPersistence⟩).persistence =
        s.persistence := by
      simp only [exec, restoreFromPersistence]
      split
      · exact persistence_restoreHashes now _ _ 0 s
      · rfl
    rw [hkept]
    exact hs.disk
  | _ => cases hop

theorem Genuine.disk_exec {s : CacheStore} (hs : Genuine p s) {call : Call}
    (hcall : Faithful p call) : ∀ t ∈ (exec p s call).persistence, GenuineTable p t := by
  have heffect := exec_effect (p := p) s call
  have hstores := hs.disk_stores hcall
  generalize exec p s call = s' at heffect hstores ⊢
  cases heffect with
  | prunes h =>
    rw [h.persistence_eq]
    exact hs.disk
  | maps _ h =>
    intro t ht
    exact hs.disk t (h.persistence_eq ▸ ht)
  | stores hop => exact hstores hop
  | @removes query =>
    intro t' ht'
    have hkept := (pruned_trackedRemove (p := p) (R := fun _ => True) s
      (h := hashQuery p query) trivial).persistence_eq
    obtain ⟨t, ht, rfl⟩ := Option.map_eq_some_iff.mp ht'
    exact (hs.disk t (hkept ▸ ht)).removeEntry _
  | clears =>
    intro t' ht'
    obtain ⟨t, -, rfl⟩ := Option.map_eq_some_iff.mp ht'
    exact .clearEntries
  | drops => exact hs.disk
  | flushes =>
    refine genuine_disk_flushEntries (fun x hx => ?_) hs.disk
    exact hs.memory x.1 x.2 (mem_iter_iff.mp hx)
  | configures _ _ _ _ hset =>
    rcases hset with hset | ⟨t, hop, hset⟩
    · rw [hset]
      exact hs.disk
    · intro t' ht'
      rw [hset] at ht'
      cases ht'
      exact hcall.disk t hop

theorem Genuine.live {s : CacheStore} (hs : Genuine p s) {event : LifeEvent}
    (hevent : event.Faithful p) : Genuine p (live p s event) := by
  cases event with
  | call c => exact ⟨hs.memory_exec hevent, hs.disk_exec hevent⟩
  | restart =>
    constructor
    · intro h e hl
      cases hl
    · exact hs.disk

/-- The entry has a digest, and it is the one of its response. -/
def verified (p : Platform) (e : CacheEntry) : Bool := e.contentHash.isSome && !corrupted p e

theorem count_eq (r : IntegrityReport) (e : CacheEntry) :
    r.count p e = ⟨r.total, r.valid + (verified p e).toNat, r.invalid + (corrupted p e).toNat,
      r.missingHash + e.contentHash.isNone.toNat⟩ := by
  unfold IntegrityReport.count verified corrupted
  cases e.contentHash with
  | none => rfl
  | some storedHash =>
    dsimp only
    split
    · rename_i heq
      rw [heq, bne_self_eq_false]
      rfl
    · rename_i hne
      rw [bne_iff_ne.mpr hne]
      rfl

theorem foldl_count (r : IntegrityReport) (es : List CacheEntry) :
    es.foldl (IntegrityReport.count p) r =
      ⟨r.total, r.valid + es.countP (verified p), r.invalid + es.countP (corrupted p),
        r.missingHash + es.countP fun e => e.contentHash.isNone⟩ := by
  induction es generalizing r with
  | nil => rfl
  | cons e rest ih =>
    have hcons (test : CacheEntry → Bool) (n : Nat) :
        n + (test e).toNat + rest.countP test = n + (e :: rest).countP test := by
      rw [List.countP_cons]
      cases test e with
      | true => exact Nat.add_right_comm n 1 _
      | false => rfl
    rw [List.foldl_cons, ih, count_eq]
    dsimp only
    rw [hcons, hcons, hcons fun e => e.contentHash.isNone]

theorem verifyIntegrity_of_perm {s : CacheStore} (scan : Scan)
    {entries : List (QueryHash × CacheEntry)} (hperm : (s.iter scan).Perm entries) :
    s.verifyIntegrity p scan =
      ⟨s.len, (entries.map Prod.snd).countP (verified p),
        (entries.map Prod.snd).countP (corrupted p),
        (entries.map Prod.snd).countP fun e => e.contentHash.isNone⟩ := by
  have hvalues := hperm.map Prod.snd
  unfold verifyIntegrity
  rw [foldl_count, hvalues.countP_eq, hvalues.countP_eq, hvalues.countP_eq, Nat.zero_add,
    Nat.zero_add, Nat.zero_add]

theorem length_iter (s : CacheStore) (scan : Scan) : (s.iter scan).length = s.len := by
  rw [iter, (scan.perm _).length_eq, List.length_map]
  exact (List.length_map _).symm

theorem perm_iter {s : CacheStore} {scan : Scan} {entries : List (QueryHash × CacheEntry)}
    (hnodup : entries.Nodup) (hmem : ∀ h e, (h, e) ∈ entries ↔ s.entries.lookup h = some e) :
    (s.iter scan).Perm entries := by
  refine (List.perm_ext_iff_of_nodup (nodup_iter s scan).of_map hnodup).mpr ?_
  intro x
  exact mem_iter_iff.trans (hmem x.1 x.2).symm

theorem lookup_removeAll (hashes : List QueryHash) (s : CacheStore) (h : QueryHash) :
    (removeAll p hashes s).2.entries.lookup h =
      if h ∈ hashes then none else s.entries.lookup h := by
  induction hashes generalizing s with
  | nil => rfl
  | cons k rest ih =>
    rw [removeAll_snd, List.foldl_cons, ← removeAll_snd, ih]
    by_cases hk : h = k
    · subst hk
      have hgone : h ∉ (s.trackedRemove p h).2.entries := by
        rw [mem_trackedRemove]
        exact fun hmem => hmem.2 rfl
      rw [AList.lookup_eq_none.mpr hgone, ite_self, if_pos List.mem_cons_self]
    · rw [lookup_trackedRemove s hk]
      simp only [List.mem_cons, hk, false_or]

/-- The keys that `remove_corrupted` collects. -/
def corruptedHashes (p : Platform) (s : CacheStore) (scan : Scan) : List QueryHash :=
  ((s.iter scan).filter fun e => corrupted p e.2).map Prod.fst

theorem mem_corruptedHashes {s : CacheStore} {scan : Scan} {h : QueryHash} :
    h ∈ corruptedHashes p s scan ↔ ∃ e, s.entries.lookup h = some e ∧ corrupted p e = true := by
  constructor
  · intro hmem
    obtain ⟨x, hx, rfl⟩ := List.mem_map.mp hmem
    obtain ⟨hin, hcorrupted⟩ := List.mem_filter.mp hx
    exact ⟨x.2, mem_iter_iff.mp hin, hcorrupted⟩
  · rintro ⟨e, hl, hcorrupted⟩
    exact List.mem_map.mpr ⟨(h, e), List.mem_filter.mpr ⟨mem_iter_iff.mpr hl, hcorrupted⟩, rfl⟩

theorem nodup_corruptedHashes (s : CacheStore) (scan : Scan) :
    (corruptedHashes p s scan).Nodup :=
  (nodup_iter s scan).sublist ((List.filter_sublist).map Prod.fst)

theorem mem_of_mem_corruptedHashes {s : CacheStore} {scan : Scan} :
    ∀ h ∈ corruptedHashes p s scan, h ∈ s.entries := by
  intro h hmem
  obtain ⟨e, hl, -⟩ := mem_corruptedHashes.mp hmem
  exact WeightedTable.mem_of_lookup _ hl

theorem lookup_removeCorrupted (s : CacheStore) (scan : Scan) (h : QueryHash) (e : CacheEntry) :
    (s.removeCorrupted p scan).2.entries.lookup h = some e ↔
      s.entries.lookup h = some e ∧ corrupted p e = false := by
  have hlookup := lookup_removeAll (p := p) (corruptedHashes p s scan) s h
  change (removeAll p (corruptedHashes p s scan) s).2.entries.lookup h = some e ↔ _
  rw [hlookup]
  by_cases hmem : h ∈ corruptedHashes p s scan
  · obtain ⟨e', hl, hcorrupted⟩ := mem_corruptedHashes.mp hmem
    rw [if_pos hmem, hl]
    refine iff_of_false nofun ?_
    rintro ⟨heq, hok⟩
    cases heq
    rw [hok] at hcorrupted
    cases hcorrupted
  · rw [if_neg hmem]
    refine ⟨fun hl => ⟨hl, ?_⟩, fun h => h.1⟩
    cases hcorrupted : corrupted p e with
    | false => rfl
    | true => exact absurd (mem_corruptedHashes.mpr ⟨e, hl, hcorrupted⟩) hmem

/-- `remove_corrupted` removes exactly what `verify_integrity` calls invalid, and all of it,
whatever the orders of the two scans. -/
structure RemovesCorrupted (p : Platform) (s : CacheStore) (removed : Nat) (s' : CacheStore) :
    Prop where
  kept : ∀ h e, s'.entries.lookup h = some e ↔
    s.entries.lookup h = some e ∧ corrupted p e = false
  counted : ∀ scan, removed = (s.verifyIntegrity p scan).invalid
  reported : ∀ scan scan', s'.verifyIntegrity p scan' =
    { s.verifyIntegrity p scan with total := s.len - removed, invalid := 0 }
  len : s'.len + removed = s.len

theorem corrupted_removed (p : Platform) (s : CacheStore) (scan : Scan) :
    RemovesCorrupted p s (s.removeCorrupted p scan).1 (s.removeCorrupted p scan).2 := by
  have hnodup := nodup_corruptedHashes (p := p) s scan
  have hremoved : (s.removeCorrupted p scan).1 = (corruptedHashes p s scan).length :=
    length_removeAll hnodup s mem_of_mem_corruptedHashes
  have hlen : (s.removeCorrupted p scan).2.len + (s.removeCorrupted p scan).1 = s.len := by
    rw [hremoved]
    exact len_removeAll hnodup mem_of_mem_corruptedHashes
  have hperm (scan' : Scan) : (s.iter scan').Perm (s.iter scan) :=
    perm_iter (nodup_iter s scan).of_map fun h e => mem_iter_iff
  have hafter (scan' : Scan) : ((s.removeCorrupted p scan).2.iter scan').Perm
      ((s.iter scan).filter fun e => !corrupted p e.2) := by
    refine perm_iter ((nodup_iter s scan).of_map.filter _) fun h e => ?_
    rw [lookup_removeCorrupted, List.mem_filter, mem_iter_iff, Bool.not_eq_true']
  have hcounted (scan' : Scan) : (s.verifyIntegrity p scan').invalid =
      (corruptedHashes p s scan).length := by
    rw [verifyIntegrity_of_perm scan' (hperm scan')]
    dsimp only
    rw [List.countP_map, List.countP_eq_length_filter, corruptedHashes, List.length_map]
    rfl
  have hkept (test : CacheEntry → Bool) (htest : ∀ e, test e = true → corrupted p e = false) :
      (((s.iter scan).filter fun e => !corrupted p e.2).map Prod.snd).countP test =
        ((s.iter scan).map Prod.snd).countP test := by
    rw [List.countP_map, List.countP_map, List.countP_filter]
    refine List.countP_congr fun x _ => ?_
    constructor
    · intro h
      exact (Bool.and_eq_true_iff.mp h).1
    · intro h
      exact Bool.and_eq_true_iff.mpr ⟨h, by rw [htest x.2 h]; rfl⟩
  have hnone : (((s.iter scan).filter fun e => !corrupted p e.2).map Prod.snd).countP
      (corrupted p) = 0 := by
    rw [List.countP_eq_zero]
    intro e he
    obtain ⟨x, hx, rfl⟩ := List.mem_map.mp he
    have hok := (List.mem_filter.mp hx).2
    rw [Bool.not_eq_true'] at hok
    rw [hok]
    exact Bool.false_ne_true
  refine ⟨lookup_removeCorrupted s scan, fun scan' => hremoved.trans (hcounted scan').symm, ?_,
    hlen⟩
  intro scan₁ scan₂
  rw [verifyIntegrity_of_perm scan₂ (hafter scan₂), verifyIntegrity_of_perm scan₁ (hperm scan₁),
    hnone, hkept (verified p), hkept fun e => e.contentHash.isNone, ← hlen, Nat.add_sub_cancel]
  · intro e he
    unfold corrupted
    rw [Option.isNone_iff_eq_none.mp he]
  · intro e he
    unfold verified at he
    rw [Bool.and_eq_true, Bool.not_eq_true'] at he
    exact he.2

namespace Genuine

variable {s : CacheStore}

theorem mem_iter (hs : Genuine p s) {scan : Scan} {e : CacheEntry}
    (he : e ∈ (s.iter scan).map Prod.snd) : GenuineEntry p e := by
  obtain ⟨x, hx, rfl⟩ := List.mem_map.mp he
  exact hs.memory x.1 x.2 (mem_iter_iff.mp hx)

theorem report (hs : Genuine p s) (scan : Scan) :
    s.verifyIntegrity p scan = ⟨s.len, s.len, 0, 0⟩ := by
  have hvalid : ((s.iter scan).map Prod.snd).countP (verified p) = s.len := by
    rw [← length_iter s scan, ← List.length_map (f := Prod.snd), List.countP_eq_length]
    intro e he
    have hgenuine := hs.mem_iter he
    unfold verified
    rw [hgenuine.not_corrupted, hgenuine.hash]
    rfl
  have hinvalid : ((s.iter scan).map Prod.snd).countP (corrupted p) = 0 := by
    rw [List.countP_eq_zero]
    intro e he
    rw [(hs.mem_iter he).not_corrupted]
    exact Bool.false_ne_true
  have hmissing : ((s.iter scan).map Prod.snd).countP (fun e => e.contentHash.isNone) = 0 := by
    rw [List.countP_eq_zero]
    intro e he
    rw [(hs.mem_iter he).hash]
    exact Bool.false_ne_true
  rw [verifyIntegrity_of_perm scan (List.Perm.refl _), hvalid, hinvalid, hmissing]

theorem removeCorrupted (hs : Genuine p s) (scan : Scan) : s.removeCorrupted p scan = (0, s) := by
  have hnone : (s.iter scan).filter (fun e => corrupted p e.2) = [] := by
    rw [List.filter_eq_nil_iff]
    intro x hx
    rw [(hs.memory x.1 x.2 (mem_iter_iff.mp hx)).not_corrupted]
    exact Bool.false_ne_true
  unfold CacheStore.removeCorrupted
  rw [hnone]
  rfl

theorem getVerified (hs : Genuine p s) {query : String} {e : CacheEntry}
    (hl : s.entries.lookup (hashQuery p query) = some e) :
    (s.getVerified p query).1 = some e := by
  have hok := (hs.memory _ e hl).not_corrupted
  unfold CacheStore.getVerified
  dsimp only
  rw [hl]
  dsimp only
  rw [hok]
  rfl

end Genuine

theorem len_evictTrulyExpired (s : CacheStore) (scan : Scan) (now : Clock) :
    (s.evictTrulyExpired p scan now).2.len + (s.evictTrulyExpired p scan now).1 = s.len := by
  have hnodup := nodup_overdueHashes s scan now
  have hmem : ∀ h ∈ s.overdueHashes scan now, h ∈ s.entries := by
    intro h hh
    obtain ⟨e, hl, -⟩ := mem_overdueHashes.mp hh
    exact WeightedTable.mem_of_lookup _ hl
  have hcount : (s.evictTrulyExpired p scan now).1 = (s.overdueHashes scan now).length :=
    length_removeAll hnodup s hmem
  rw [hcount, len, entries_evictTrulyExpired]
  exact len_removeAll hnodup hmem

/-- A cycle keeps what is genuine, and then it counts its evictions and no failure. -/
theorem Genuine.cleanup {s : CacheStore} (hs : Genuine p s) (checkIntegrity : Bool)
    (scan integrityScan : Scan) (now : Clock) (metrics : Option CleanupMetrics) :
    (s.cleanup p checkIntegrity scan integrityScan now metrics).2 = metrics.map fun m =>
      m.recordEvictions
        (s.len - (s.cleanup p checkIntegrity scan integrityScan now metrics).1.len) := by
  have hevicts : LifeEvent.Faithful p (.call ⟨now, scan, .evictTrulyExpired⟩) := ⟨nofun, nofun⟩
  have hkept : Genuine p (s.evictTrulyExpired p scan now).2 := hs.live hevicts
  have hreport := hkept.report integrityScan
  have hlen := len_evictTrulyExpired (p := p) s scan now
  have hcount : s.len - (s.evictTrulyExpired p scan now).2.len =
      (s.evictTrulyExpired p scan now).1 := by omega
  unfold CacheStore.cleanup
  dsimp only
  cases checkIntegrity with
  | true =>
    rw [if_pos rfl, hreport]
    dsimp only
    rw [hcount]
    cases metrics with
    | none => rfl
    | some m => exact congrArg some (congrArg (CleanupMetrics.mk _) (UInt64.add_zero _))
  | false =>
    rw [if_neg Bool.false_ne_true]
    dsimp only
    rw [hcount]

/-- No check of the integrity finds anything. -/
structure Upheld (p : Platform) (s : CacheStore) : Prop where
  served : ∀ query e, s.entries.lookup (hashQuery p query) = some e →
    (s.getVerified p query).1 = some e
  report : ∀ scan, s.verifyIntegrity p scan = ⟨s.len, s.len, 0, 0⟩
  removed : ∀ scan, s.removeCorrupted p scan = (0, s)
  cleaned : ∀ checkIntegrity scan integrityScan now metrics,
    (s.cleanup p checkIntegrity scan integrityScan now metrics).2 = metrics.map fun m =>
      m.recordEvictions
        (s.len - (s.cleanup p checkIntegrity scan integrityScan now metrics).1.len)

/-- However often the store is flushed, restarted and restored between its other calls: where the
coding gives back what it was given, no entry is ever corrupted. -/
theorem integrity_upheld (p : Platform) (freshDuration staleDuration : Duration) (maxEntries : Nat)
    (ttlJitterPercent : ℚ) (events : List LifeEvent)
    (hfaithful : ∀ event ∈ events, event.Faithful p) :
    Upheld p (run (live p)
      (withJitter freshDuration staleDuration maxEntries ttlJitterPercent) events) := by
  have hnew : Genuine p (withJitter freshDuration staleDuration maxEntries ttlJitterPercent) := by
    constructor
    · intro h e hl
      cases hl
    · intro t ht
      cases ht
  have hsteps : AllSteps (live p) (fun _ event => event.Faithful p)
      (withJitter freshDuration staleDuration maxEntries ttlJitterPercent) events :=
    allSteps_of_forall (fun event hevent _ => hfaithful event hevent) _
  have hgenuine : Genuine p (run (live p) _ events) :=
    run_invariant (fun _ _ hevent hs => hs.live hevent) hnew hsteps
  exact ⟨fun _ _ => hgenuine.getVerified, hgenuine.report, hgenuine.removeCorrupted,
    hgenuine.cleanup⟩

/-- The record of `q` is read back as it was written. -/
theorem readsBack_textResponse : ReadsBack (Platform.disk storedQ) (textResponse "a") := by
  intro r bytes d hresponse hhash _ hread
  have hd : d = storedQ := by
    by_cases hbytes : some bytes = encodeStored storedQ
    · exact (Option.some.inj ((if_pos hbytes).symm.trans hread)).symm
    · cases (if_neg hbytes).symm.trans hread
  subst hd
  exact ⟨hresponse.symm, hhash.symm⟩

/-- Inserted, written through, restarted and restored. -/
def restoredLife : List LifeEvent :=
  [.call (callNow (.setPersistence ⟨∅⟩)), .call (callNow (.insert "q" (textResponse "a") "u")),
    .restart 1 1 4 0, .call (callNow .restoreFromPersistence)]

theorem restored_entry_upheld :
    (run (live (Platform.disk storedQ)) (withJitter 1 1 4 0) restoredLife).len = 1 ∧
      Upheld (Platform.disk storedQ)
        (run (live (Platform.disk storedQ)) (withJitter 1 1 4 0) restoredLife) := by
  refine ⟨by decide +kernel, integrity_upheld (Platform.disk storedQ) 1 1 4 0 restoredLife ?_⟩
  simp only [restoredLife, List.forall_mem_cons]
  refine ⟨⟨nofun, ?_⟩, ⟨?_, nofun⟩, trivial, ⟨nofun, nofun⟩, nofun⟩
  · intro t ht
    cases ht
    exact .empty
  · intro response hresponse
    obtain rfl := List.mem_singleton.mp hresponse
    exact readsBack_textResponse

end Conproxy
