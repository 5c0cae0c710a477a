import Conproxy.Cache.Scans

/-!
# Calls and runs of the cache store

A call is an operation of `CacheStore` with the clocks it reads and the order in which it
iterates over the map. `exec` is what the call does. `exec_steps` breaks every call into
primitive changes of the core: shrinking steps and insertions, in the order of the source.
-/

namespace Conproxy

open Relation CacheStore

set_option autoImplicit false

inductive Op where
  | get (query : String)
  | getWithHitType (query : String)
  | getByHash (h : QueryHash)
  | getVerified (query : String)
  | insert (query : String) (response : QueryResponse) (upstreamId : String)
  | insertWithContext (query : String) (response : QueryResponse) (upstreamId contextId : String)
  | insertByHash (h : QueryHash) (response : QueryResponse) (upstreamId : String)
      (queryKey : Option String)
  | insertByHashWithEmbedding (h : QueryHash) (response : QueryResponse) (upstreamId : String)
      (embedding : Option Embedding) (queryKey : Option String)
  | warmup (entries : List (String × QueryResponse)) (upstreamId : String)
  | restoreFromPersistence
  | flushToPersistence
  | extendTtl (query : String)
  | remove (query : String)
  | clear
  | evictSmart (targetCount : Nat)
  | evictTrulyExpired
  | evictFilter (criteria : EvictCriteria)
  | evictFromUpstream (upstreamId : String) (count : Nat)
  | enforcePerUpstreamLimit (upstreamId : String) (maxEntries : Nat)
  | enforceMemoryLimit
  | removeCorrupted
  | updateConfigFingerprint (upstreamUrl : Option String) (scopeSeeds : List String)
  | setMaxEntries (maxEntries : Nat)
  | setMaxMemoryBytes (bytes : Nat)
  | setPerUpstreamLimit (limit : Option Nat)
  | setMaxFrozenDuration (d : Duration)
  | setFreshDuration (d : Duration)
  | setStaleDuration (d : Duration)
  | setPersistence (t : PersistentCache)
  | withNormalizedMatching (enabled : Bool)
  | withCdcSender (sender : EventSender)
  | withSemanticCache (semantic : SemanticCache)

def Op.memoryLimit : Op → Option Nat
  | .setMaxMemoryBytes bytes => some bytes
  | _ => none

structure Call where
  now : Clock
  scan : Scan
  op : Op

def callNow (op : Op) : Call := ⟨⟨0, 0⟩, Scan.stored, op⟩

variable (p : Platform)

/-- The store after a call. A rejected `set_max_entries` leaves it as it was. -/
def exec (s : CacheStore) (call : Call) : CacheStore :=
  match call.op with
  | .get query => (s.get p query).2
  | .getWithHitType query => (s.getWithHitType p query).2
  | .getByHash h => (s.getByHash h).2
  | .getVerified query => (s.getVerified p query).2
  | .insert query response upstreamId =>
    s.insert p call.scan call.now query response upstreamId
  | .insertWithContext query response upstreamId contextId =>
    s.insertWithContext p call.scan call.now query response upstreamId contextId
  | .insertByHash h response upstreamId queryKey =>
    s.insertByHash p call.scan call.now h response upstreamId queryKey
  | .insertByHashWithEmbedding h response upstreamId embedding queryKey =>
    s.insertByHashWithEmbedding p call.scan call.now h response upstreamId embedding queryKey
  | .warmup entries upstreamId => (warmup p call.now upstreamId entries 0 s).2
  | .restoreFromPersistence => (s.restoreFromPersistence p call.now).2
  | .flushToPersistence => s.flushToPersistence p call.scan call.now
  | .extendTtl query => s.extendTtl p call.now query
  | .remove query => s.remove p call.now query
  | .clear => s.clear call.now
  | .evictSmart targetCount => s.evictSmart p call.scan call.now targetCount
  | .evictTrulyExpired => (s.evictTrulyExpired p call.scan call.now).2
  | .evictFilter criteria => (s.evictFilter p call.scan call.now criteria).2
  | .evictFromUpstream upstreamId count =>
    (s.evictFromUpstream p call.scan call.now upstreamId count).2
  | .enforcePerUpstreamLimit upstreamId maxEntries =>
    (s.enforcePerUpstreamLimit p call.scan call.now upstreamId maxEntries).2
  | .enforceMemoryLimit => (s.enforceMemoryLimit p).2
  | .removeCorrupted => (s.removeCorrupted p call.scan).2
  | .updateConfigFingerprint upstreamUrl scopeSeeds =>
    (s.updateConfigFingerprint p upstreamUrl scopeSeeds).2
  | .setMaxEntries maxEntries =>
    match s.setMaxEntries maxEntries with
    | .ok s' => s'
    | .error _ => s
  | .setMaxMemoryBytes bytes => s.setMaxMemoryBytes bytes
  | .setPerUpstreamLimit limit => s.setPerUpstreamLimit limit
  | .setMaxFrozenDuration d => s.setMaxFrozenDuration d
  | .setFreshDuration d => s.setFreshDuration d
  | .setStaleDuration d => s.setStaleDuration d
  | .setPersistence t => s.setPersistence t
  | .withNormalizedMatching enabled => s.withNormalizedMatching enabled
  | .withCdcSender sender => s.withCdcSender sender
  | .withSemanticCache semantic => s.withSemanticCache semantic

/-! ## Calls that store nothing -/

structure Shrunk (s s' : CacheStore) : Prop where
  core : Shrinks p s.core s'.core
  limit : s'.maxMemoryBytes = s.maxMemoryBytes

variable {p}

namespace Shrunk

theorem of_core_eq {s s' : CacheStore} (h : s'.core = s.core)
    (hlimit : s'.maxMemoryBytes = s.maxMemoryBytes) : Shrunk p s s' :=
  ⟨h ▸ .refl, hlimit⟩

theorem refl (s : CacheStore) : Shrunk p s s := of_core_eq rfl rfl

theorem trans {s s' s'' : CacheStore} (h : Shrunk p s s') (h' : Shrunk p s' s'') :
    Shrunk p s s'' :=
  ⟨h.core.trans h'.core, h'.limit.trans h.limit⟩

theorem of_evicts {s s' : CacheStore} (h : Evicts p s.core s'.core) (hframe : s'.frame = s.frame) :
    Shrunk p s s' :=
  ⟨h.shrinks, maxMemoryBytes_of_frame hframe⟩

end Shrunk

theorem shrunk_trackedRemove (s : CacheStore) (h : QueryHash) :
    Shrunk p s (s.trackedRemove p h).2 :=
  ⟨trackedRemove_shrinks s h, maxMemoryBytes_of_frame (frame_trackedRemove s h)⟩

theorem shrunk_bumpFreq {s : CacheStore} {h : QueryHash} {e : CacheEntry}
    (hl : s.entries.lookup h = some e) : Shrunk p s (s.bumpFreq h e) :=
  ⟨.single (.touch hl rfl), rfl⟩

theorem shrunk_getByHash (s : CacheStore) (h : QueryHash) : Shrunk p s (s.getByHash h).2 := by
  unfold getByHash
  cases hl : s.entries.lookup h with
  | some e => exact shrunk_bumpFreq hl
  | none => exact .refl s

theorem shrunk_countExactHit (s : CacheStore) : Shrunk p s s.countExactHit := .of_core_eq rfl rfl

theorem shrunk_countNormalizedHit (s : CacheStore) (exact normalized : QueryHash) :
    Shrunk p s (s.countNormalizedHit exact normalized) := .of_core_eq rfl rfl

theorem shrunk_getMapped (s : CacheStore) (exact : QueryHash) :
    Shrunk p s (s.getMapped exact).2 := by
  unfold getMapped
  split
  · exact shrunk_getByHash s _
  · exact .refl s

theorem shrunk_getWithHitType (s : CacheStore) (query : String) :
    Shrunk p s (s.getWithHitType p query).2 := by
  have hnorm (s' : CacheStore) := shrunk_getByHash (p := p) s' (hashQuery p query)
  simp only [getWithHitType]
  split
  · have h := hnorm s
    rcases hr : s.getByHash (hashQuery p query) with ⟨_ | e, s'⟩
    · rw [hr] at h
      exact h
    · rw [hr] at h
      exact h.trans (shrunk_countExactHit s')
  · have htier := shrunk_getMapped (p := p) s (hashQueryExact p query)
    rcases hr : s.getMapped (hashQueryExact p query) with ⟨_ | e, s'⟩
    · rw [hr] at htier
      have h := htier.trans (hnorm s')
      rcases hr' : s'.getByHash (hashQuery p query) with ⟨_ | e, s''⟩
      · rw [hr'] at h
        simpa only [hr'] using h
      · rw [hr'] at h
        simpa only [hr'] using h.trans (shrunk_countNormalizedHit s'' _ _)
    · rw [hr] at htier
      exact htier.trans (shrunk_countExactHit s')

theorem shrunk_getVerified (s : CacheStore) (query : String) :
    Shrunk p s (s.getVerified p query).2 := by
  simp only [getVerified]
  cases hl : s.entries.lookup (hashQuery p query) with
  | some e =>
    dsimp only
    split
    · exact (shrunk_trackedRemove s _).trans (.of_core_eq rfl rfl)
    · exact shrunk_bumpFreq hl
  | none => exact .refl s

theorem shrunk_removeAll (hs : List QueryHash) (s : CacheStore) :
    Shrunk p s (removeAll p hs s).2 :=
  removeAll_invariant (Shrunk p s) (fun t ht h _ => ht.trans (shrunk_trackedRemove t h)) (.refl s)

theorem shrunk_publishRemoves (now : Clock) (qs : List String) (s : CacheStore) :
    Shrunk p s (publishRemoves now qs s) := by
  induction qs generalizing s with
  | nil => exact .refl s
  | cons q rest ih =>
    have hstep : Shrunk p s (s.publish now .remove (.remove q)) := .of_core_eq rfl rfl
    exact hstep.trans (ih _)

theorem shrunk_updateStats (s : CacheStore) (f : EvictionStats → EvictionStats) :
    Shrunk p s (s.updateStats f) := .of_core_eq rfl rfl

theorem shrunk_publish (s : CacheStore) (now : Clock) (t : CdcEventType) (b : CdcEventBuilder) :
    Shrunk p s (s.publish now t b) := .of_core_eq rfl rfl

theorem shrunk_evictFromUpstream (s : CacheStore) (scan : Scan) (now : Clock)
    (upstreamId : String) (count : Nat) :
    Shrunk p s (s.evictFromUpstream p scan now upstreamId count).2 := by
  unfold evictFromUpstream
  split
  · exact .refl s
  · have h (qs : List String) :=
      (shrunk_removeAll (p := p) ((s.upstreamHashes scan now upstreamId).take count) s).trans
        (shrunk_publishRemoves now qs _)
    dsimp only
    split
    · exact (h _).trans (shrunk_updateStats _ _)
    · exact h _

theorem shrunk_enforcePerUpstreamLimit (s : CacheStore) (scan : Scan) (now : Clock)
    (upstreamId : String) (maxEntries : Nat) :
    Shrunk p s (s.enforcePerUpstreamLimit p scan now upstreamId maxEntries).2 := by
  unfold enforcePerUpstreamLimit
  dsimp only
  split
  · exact .refl s
  · exact shrunk_evictFromUpstream s scan now upstreamId _

theorem shrunk_makeRoomForUpstream (s : CacheStore) (scan : Scan) (now : Clock)
    (upstreamId : String) : Shrunk p s (s.makeRoomForUpstream p scan now upstreamId) := by
  unfold makeRoomForUpstream
  split
  · split
    · exact (shrunk_evictFromUpstream s scan now upstreamId 1).trans (shrunk_updateStats _ _)
    · exact .refl s
  · exact .refl s

theorem replaceBytes_self (bytes : Counter) (n : Nat) : replaceBytes bytes n n = bytes := by
  simp [replaceBytes, Counter.fetchAdd]

theorem shrunk_extendTtl (s : CacheStore) (now : Clock) (query : String) :
    Shrunk p s (s.extendTtl p now query) := by
  simp only [extendTtl]
  cases hl : s.entries.lookup (hashQuery p query) with
  | some old =>
    have hcore : (s.trackedInsert p (hashQuery p query) (extendedEntry now old)).core =
        { s.core with
          entries := s.entries.insert (hashQuery p query) (extendedEntry now old) } := by
      simp only [core, trackedInsert, hl]
      rw [show (extendedEntry now old).approximateSize p = old.approximateSize p from rfl,
        replaceBytes_self]
    refine ⟨?_, rfl⟩
    rw [hcore]
    exact .single (.touch hl rfl)
  | none => exact .refl s

theorem shrunk_remove (s : CacheStore) (now : Clock) (query : String) :
    Shrunk p s (s.remove p now query) :=
  (shrunk_trackedRemove s (hashQuery p query)).trans (.of_core_eq rfl rfl)

theorem shrunk_dropAll (s : CacheStore) : Shrunk p s s.dropAll := ⟨.single .clear, rfl⟩

theorem shrunk_clear (s : CacheStore) (now : Clock) : Shrunk p s (s.clear now) :=
  (shrunk_dropAll s).trans (.of_core_eq rfl rfl)

theorem shrunk_evictExpired (target : Nat) (hs : List QueryHash) (evicted : Nat)
    (s : CacheStore) : Shrunk p s (evictExpired p target hs evicted s).2 := by
  induction hs generalizing evicted s with
  | nil => exact .refl s
  | cons h rest ih =>
    unfold evictExpired
    split
    · exact .refl s
    · have hstep := shrunk_trackedRemove (p := p) s h
      rcases hr : s.trackedRemove p h with ⟨_ | old, s'⟩
      · rw [hr] at hstep
        exact hstep.trans (ih _ s')
      · rw [hr] at hstep
        exact hstep.trans (ih _ s')

theorem shrunk_evictRounds (rounds evicted : Nat) (s : CacheStore) :
    Shrunk p s (evictRounds p rounds evicted s).2 := by
  induction rounds generalizing evicted s with
  | zero => exact .refl s
  | succ rounds ih =>
    unfold evictRounds
    split
    · exact .refl s
    · have hspec := evictSmallThenMain_spec (p := p) s
      have hstep := Shrunk.of_evicts hspec.chain hspec.frame
      rw [s3fifoEvictOne]
      rcases hr : s.evictSmallThenMain p with ⟨_ | source, s'⟩
      · rw [hr] at hstep
        exact hstep.trans (ih _ s')
      · rw [hr] at hstep
        exact hstep.trans (ih _ s')

theorem shrunk_evictSmart (s : CacheStore) (scan : Scan) (now : Clock) (target : Nat) :
    Shrunk p s (s.evictSmart p scan now target) := by
  unfold evictSmart
  dsimp only
  generalize List.map Prod.fst (List.filter _ (s.iter scan)) = expired
  have hfirst := shrunk_evictExpired (p := p) target expired 0 s
  generalize evictExpired p target expired 0 s = first at hfirst ⊢
  have hsecond : Shrunk p s (if first.1 < target then
      evictRounds p (target - first.1) 0 first.2 else (0, first.2)).2 := by
    split
    · exact hfirst.trans (shrunk_evictRounds _ _ _)
    · exact hfirst
  generalize (if first.1 < target then
    evictRounds p (target - first.1) 0 first.2 else (0, first.2)) = second at hsecond ⊢
  split
  · exact hsecond.trans (shrunk_updateStats _ _)
  · exact hsecond

theorem shrunk_evictTrulyExpired (s : CacheStore) (scan : Scan) (now : Clock) :
    Shrunk p s (s.evictTrulyExpired p scan now).2 := by
  unfold evictTrulyExpired
  dsimp only
  split
  · exact (shrunk_removeAll _ s).trans (shrunk_updateStats _ _)
  · exact shrunk_removeAll _ s

theorem shrunk_evictFilter (s : CacheStore) (scan : Scan) (now : Clock) (c : EvictCriteria) :
    Shrunk p s (s.evictFilter p scan now c).2 := by
  unfold evictFilter
  dsimp only
  split
  · exact (shrunk_removeAll _ s).trans
      ((shrunk_updateStats _ _).trans (shrunk_publish _ now .remove _))
  · exact shrunk_removeAll _ s

theorem shrunk_removeCorrupted (s : CacheStore) (scan : Scan) :
    Shrunk p s (s.removeCorrupted p scan).2 := shrunk_removeAll _ s

theorem shrunk_updateConfigFingerprint (s : CacheStore) (upstreamUrl : Option String)
    (scopeSeeds : List String) :
    Shrunk p s (s.updateConfigFingerprint p upstreamUrl scopeSeeds).2 := by
  unfold updateConfigFingerprint
  dsimp only
  split
  · exact ⟨.single .clear, rfl⟩
  · exact .of_core_eq rfl rfl

theorem shrunk_enforceMemoryLimit (s : CacheStore) : Shrunk p s (s.enforceMemoryLimit p).2 := by
  unfold enforceMemoryLimit
  split
  · exact .refl s
  · obtain ⟨hchain, hframe⟩ := evictWhile_chain (p := p) (overMemory s.maxMemoryBytes)
      (s.len + 1) ⟨0, 0⟩ s
    have h := Shrunk.of_evicts hchain hframe
    dsimp only
    split
    · exact h.trans (shrunk_updateStats _ _)
    · exact h

theorem shrunk_flushEntries (now : Clock) (es : List (QueryHash × CacheEntry)) (s : CacheStore) :
    Shrunk p s (flushEntries p now es s) := by
  induction es generalizing s with
  | nil => exact .refl s
  | cons e rest ih =>
    have hstep : Shrunk p s (s.persistEntry p now e.1 e.2) := .of_core_eq rfl rfl
    exact hstep.trans (ih _)

variable (p)

/-- One `tracked_insert` of a new entry: the store that receives it, and whether the key is
admitted even when it is resident. -/
structure Insertion where
  store : CacheStore
  hash : QueryHash
  entry : CacheEntry
  forced : Bool

def Insertion.admits (i : Insertion) : Bool := i.forced || decide (i.hash ∉ i.store.entries)

def warmupInsertions (now : Clock) (upstreamId : String) :
    List (String × QueryResponse) → CacheStore → List Insertion
  | [], _ => []
  | (query, response) :: rest, s =>
    match response.validate with
    | .error _ => warmupInsertions now upstreamId rest s
    | .ok () =>
      if s.maxEntries ≤ s.len then []
      else
        let entry := newEntry p now response upstreamId (some query) "default"
        ⟨s, hashQuery p query, entry, false⟩ ::
          warmupInsertions now upstreamId rest (s.storeEntry p (hashQuery p query) entry)

def restoreInsertions (now : Clock) (t : PersistentCache) :
    List QueryHash → CacheStore → List Insertion
  | [], _ => []
  | h :: rest, s =>
    if s.maxEntries ≤ s.len then []
    else
      match t.loadEntry p h with
      | some e =>
        ⟨s, h, restoredEntry now e, true⟩ ::
          restoreInsertions now t rest
            ((s.trackedInsert p h (restoredEntry now e)).s3fifoAdmit p h)
      | none => restoreInsertions now t rest s

/-- The insertion of a single-entry call: the upstream has been given room before it. -/
def singleInsertion (s : CacheStore) (scan : Scan) (now : Clock) (h : QueryHash)
    (response : QueryResponse) (upstreamId : String) (queryText : Option String)
    (contextId : String) : Insertion :=
  ⟨s.makeRoomForUpstream p scan now upstreamId, h,
    newEntry p now response upstreamId queryText contextId, false⟩

def insertions (s : CacheStore) (call : Call) : List Insertion :=
  match call.op with
  | .insert query response upstreamId =>
    [singleInsertion p s call.scan call.now (hashQuery p query) response upstreamId (some query)
      "default"]
  | .insertWithContext query response upstreamId contextId =>
    [singleInsertion p s call.scan call.now (hashQuery p query) response upstreamId (some query)
      contextId]
  | .insertByHash h response upstreamId queryKey =>
    [singleInsertion p s call.scan call.now h response upstreamId queryKey "default"]
  | .insertByHashWithEmbedding h response upstreamId _ queryKey =>
    [singleInsertion p s call.scan call.now h response upstreamId queryKey "default"]
  | .warmup entries upstreamId => warmupInsertions p call.now upstreamId entries s
  | .restoreFromPersistence =>
    match s.persistence with
    | some t => restoreInsertions p call.now t t.allEntryHashes s
    | none => []
  | _ => []

/-! ## Every call is a chain of shrinking steps and insertions -/

/-- The store after an insertion. What the call does between the map and the queues, and after
them, leaves the core alone. -/
structure Inserted (i : Insertion) (s' : CacheStore) : Prop where
  cold : i.entry.freq = 0
  stored : ∃ stored : CacheStore, stored.core = (i.store.trackedInsert p i.hash i.entry).core ∧
    stored.maxMemoryBytes = i.store.maxMemoryBytes ∧
    s'.core = (if i.admits then stored.s3fifoAdmit p i.hash else stored).core
  limit : s'.maxMemoryBytes = i.store.maxMemoryBytes

inductive Steps : CacheStore → List Insertion → CacheStore → Prop where
  | done {s s' : CacheStore} (h : Shrunk p s s') : Steps s [] s'
  | insert {s s₁ s' : CacheStore} {i : Insertion} {is : List Insertion}
      (hbefore : Shrunk p s i.store) (hins : Inserted p i s₁) (hrest : Steps s₁ is s') :
      Steps s (i :: is) s'

variable {p}

theorem Steps.invariant (Inv : CacheStore → Prop) (ok : Insertion → Prop)
    (hshrink : ∀ s s', Shrunk p s s' → Inv s → Inv s')
    (hinsert : ∀ i s', Inserted p i s' → ok i → Inv i.store → Inv s')
    {s s' : CacheStore} {is : List Insertion} (h : Steps p s is s') (hok : ∀ i ∈ is, ok i)
    (hs : Inv s) : Inv s' := by
  induction h with
  | done h => exact hshrink _ _ h hs
  | insert hbefore hins _ ih =>
    have hstore := hshrink _ _ hbefore hs
    have hnext := hinsert _ _ hins (hok _ (by simp)) hstore
    exact ih (fun i hi => hok i (by simp [hi])) hnext

theorem Inserted.cases {i : Insertion} {s' : CacheStore} (h : Inserted p i s') :
    (i.forced = false ∧ i.hash ∈ i.store.entries ∧
      s'.core = (i.store.trackedInsert p i.hash i.entry).core) ∨
    ((i.forced = true ∨ i.hash ∉ i.store.entries) ∧ ∃ stored : CacheStore,
      stored.core = (i.store.trackedInsert p i.hash i.entry).core ∧
      stored.maxMemoryBytes = i.store.maxMemoryBytes ∧
      s'.core = (stored.s3fifoAdmit p i.hash).core) := by
  obtain ⟨stored, hstored, hlimit, hcore⟩ := h.stored
  cases hadm : i.admits with
  | true =>
    rw [hadm, if_pos rfl] at hcore
    refine Or.inr ⟨?_, stored, hstored, hlimit, hcore⟩
    simpa [Insertion.admits] using hadm
  | false =>
    rw [hadm, if_neg (by simp), hstored] at hcore
    simp only [Insertion.admits, Bool.or_eq_false_iff, decide_eq_false_iff_not, not_not] at hadm
    exact Or.inl ⟨hadm.1, hadm.2, hcore⟩

theorem frame_s3fifoAdmit (s : CacheStore) (h : QueryHash) :
    (s.s3fifoAdmit p h).frame = s.frame := by
  have hfit := (evictWhile_chain (p := p) overCapacity
    ((s.s3fifo.push h).slots.length + 1) ⟨0, 0⟩ { s with s3fifo := s.s3fifo.push h }).2
  simp only [s3fifoAdmit, frame_recordAdmission]
  split
  · exact ((evictWhile_chain _ _ _ _).2).trans hfit
  · exact hfit

theorem inserted_of_stored {s stored : CacheStore} {h : QueryHash} {e : CacheEntry}
    (he : e.freq = 0) (hcore : stored.core = (s.trackedInsert p h e).core)
    (hlimit : stored.maxMemoryBytes = s.maxMemoryBytes) :
    Inserted p ⟨s, h, e, false⟩
      (if decide (h ∉ s.entries) then stored.s3fifoAdmit p h else stored) where
  cold := he
  stored := ⟨stored, hcore, hlimit, by simp [Insertion.admits]⟩
  limit := by
    split
    · exact (maxMemoryBytes_of_frame (frame_s3fifoAdmit _ h)).trans hlimit
    · exact hlimit

theorem inserted_storeEntry (s : CacheStore) (h : QueryHash) {e : CacheEntry} (he : e.freq = 0) :
    Inserted p ⟨s, h, e, false⟩ (s.storeEntry p h e) :=
  inserted_of_stored he rfl rfl

theorem inserted_restore (s : CacheStore) (h : QueryHash) {e : CacheEntry} (he : e.freq = 0) :
    Inserted p ⟨s, h, e, true⟩ ((s.trackedInsert p h e).s3fifoAdmit p h) where
  cold := he
  stored := ⟨s.trackedInsert p h e, rfl, rfl, by simp [Insertion.admits]⟩
  limit := maxMemoryBytes_of_frame (frame_s3fifoAdmit _ h)

theorem warmup_steps (now : Clock) (upstreamId : String) (items : List (String × QueryResponse))
    (inserted : Nat) (s : CacheStore) :
    Steps p s (warmupInsertions p now upstreamId items s)
      (warmup p now upstreamId items inserted s).2 := by
  induction items generalizing inserted s with
  | nil => exact .done (.refl s)
  | cons item rest ih =>
    rcases item with ⟨query, response⟩
    unfold warmup warmupInsertions
    cases response.validate with
    | error => exact ih inserted s
    | ok =>
      dsimp only
      split
      · exact .done (.refl s)
      · exact .insert (.refl s) (inserted_storeEntry s _ rfl) (ih _ _)

theorem restore_steps (now : Clock) (t : PersistentCache) (hs : List QueryHash) (restored : Nat)
    (s : CacheStore) :
    Steps p s (restoreInsertions p now t hs s) (restoreHashes p now t hs restored s).2 := by
  induction hs generalizing restored s with
  | nil => exact .done (.refl s)
  | cons h rest ih =>
    unfold restoreHashes restoreInsertions
    split
    · exact .done (.refl s)
    · cases t.loadEntry p h with
      | some e => exact .insert (.refl s) (inserted_restore s h rfl) (ih _ _)
      | none => exact ih restored s

theorem single_steps (s : CacheStore) (scan : Scan) (now : Clock) (h : QueryHash)
    (response : QueryResponse) (upstreamId : String) (queryText : Option String)
    (contextId : String) {s' : CacheStore}
    (hins : Inserted p
      (singleInsertion p s scan now h response upstreamId queryText contextId) s') :
    Steps p s [singleInsertion p s scan now h response upstreamId queryText contextId] s' :=
  .insert (shrunk_makeRoomForUpstream s scan now upstreamId) hins (.done (.refl s'))

theorem Inserted.publish {i : Insertion} {s' : CacheStore} (h : Inserted p i s') (now : Clock)
    (t : CdcEventType) (b : CdcEventBuilder) : Inserted p i (s'.publish now t b) :=
  ⟨h.cold, h.stored, h.limit⟩

theorem rememberExact_maxMemoryBytes (s : CacheStore) (query : String) (h : QueryHash) :
    (s.rememberExact p query h).maxMemoryBytes = s.maxMemoryBytes := by
  unfold rememberExact
  split <;> rfl

theorem inserted_insertImpl (s : CacheStore) (scan : Scan) (now : Clock) (query : String)
    (response : QueryResponse) (upstreamId contextId : String) :
    Inserted p (singleInsertion p s scan now (hashQuery p query) response upstreamId (some query)
      contextId) (s.insertImpl p scan now query response upstreamId contextId) := by
  simp only [insertImpl, singleInsertion]
  generalize s.makeRoomForUpstream p scan now upstreamId = room
  generalize hentry : newEntry p now response upstreamId (some query) contextId = entry
  have hbody := inserted_of_stored (p := p) (s := room) (h := hashQuery p query) (e := entry)
    (by rw [← hentry]; rfl)
    (core_rememberExact p ((room.persistEntry p now (hashQuery p query) entry).trackedInsert p
      (hashQuery p query) entry) query (hashQuery p query))
    (rememberExact_maxMemoryBytes _ query _)
  split
  · exact hbody.publish _ _ _
  · exact hbody

theorem inserted_insertByHash (s : CacheStore) (scan : Scan) (now : Clock) (h : QueryHash)
    (response : QueryResponse) (upstreamId : String) (queryKey : Option String) :
    Inserted p (singleInsertion p s scan now h response upstreamId queryKey "default")
      (s.insertByHash p scan now h response upstreamId queryKey) := by
  simp only [insertByHash, singleInsertion]
  generalize s.makeRoomForUpstream p scan now upstreamId = room
  generalize hentry : newEntry p now response upstreamId queryKey "default" = entry
  have hbody : Inserted p ⟨room, h, entry, false⟩
      ((room.persistEntry p now h entry).storeEntry p h entry) := by
    have hins := inserted_storeEntry (p := p) (room.persistEntry p now h entry) h
      (e := entry) (by rw [← hentry]; rfl)
    exact ⟨hins.cold, hins.stored, hins.limit⟩
  split
  · exact hbody.publish _ _ _
  · exact hbody

theorem exec_steps (s : CacheStore) (call : Call) (hop : ∀ n, call.op ≠ .setMaxMemoryBytes n) :
    Steps p s (insertions p s call) (exec p s call) := by
  rcases call with ⟨now, scan, op⟩
  cases op with
  | get query => exact .done (shrunk_getWithHitType s query)
  | getWithHitType query => exact .done (shrunk_getWithHitType s query)
  | getByHash h => exact .done (shrunk_getByHash s h)
  | getVerified query => exact .done (shrunk_getVerified s query)
  | insert query response upstreamId =>
    exact single_steps s scan now _ _ _ _ _ (inserted_insertImpl s scan now query _ _ _)
  | insertWithContext query response upstreamId contextId =>
    exact single_steps s scan now _ _ _ _ _ (inserted_insertImpl s scan now query _ _ _)
  | insertByHash h response upstreamId queryKey =>
    exact single_steps s scan now _ _ _ _ _ (inserted_insertByHash s scan now h _ _ _)
  | insertByHashWithEmbedding h response upstreamId embedding queryKey =>
    apply single_steps s scan now _ _ _ _ _
    have hins := inserted_insertByHash (p := p) s scan now h response upstreamId queryKey
    cases embedding with
    | some e => exact ⟨hins.cold, hins.stored, hins.limit⟩
    | none => exact hins
  | warmup entries upstreamId => exact warmup_steps now upstreamId entries 0 s
  | restoreFromPersistence =>
    simp only [exec, insertions, restoreFromPersistence]
    cases s.persistence with
    | some t => exact restore_steps now t _ 0 s
    | none => exact .done (.refl s)
  | flushToPersistence => exact .done (shrunk_flushEntries now _ s)
  | extendTtl query => exact .done (shrunk_extendTtl s now query)
  | remove query => exact .done (shrunk_remove s now query)
  | clear => exact .done (shrunk_clear s now)
  | evictSmart targetCount => exact .done (shrunk_evictSmart s scan now targetCount)
  | evictTrulyExpired => exact .done (shrunk_evictTrulyExpired s scan now)
  | evictFilter criteria => exact .done (shrunk_evictFilter s scan now criteria)
  | evictFromUpstream upstreamId count =>
    exact .done (shrunk_evictFromUpstream s scan now upstreamId count)
  | enforcePerUpstreamLimit upstreamId maxEntries =>
    exact .done (shrunk_enforcePerUpstreamLimit s scan now upstreamId maxEntries)
  | enforceMemoryLimit => exact .done (shrunk_enforceMemoryLimit s)
  | removeCorrupted => exact .done (shrunk_removeCorrupted s scan)
  | updateConfigFingerprint upstreamUrl scopeSeeds =>
    exact .done (shrunk_updateConfigFingerprint s upstreamUrl scopeSeeds)
  | setMaxEntries maxEntries =>
    refine .done ?_
    by_cases hzero : maxEntries = 0
    · simp only [exec, setMaxEntries, hzero, if_true]
      exact .refl s
    · simp only [exec, setMaxEntries, hzero, if_false]
      exact .of_core_eq rfl rfl
  | setMaxMemoryBytes bytes => exact absurd rfl (hop bytes)
  | setPerUpstreamLimit | setMaxFrozenDuration | setFreshDuration | setStaleDuration
  | setPersistence | withNormalizedMatching | withCdcSender | withSemanticCache =>
    exact .done (.of_core_eq rfl rfl)

end Conproxy
