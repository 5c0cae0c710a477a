import Conproxy.Cache.Contents

/-!
# Stores that evict alike

Eviction reads the queues, the counters of the entries and their sizes. Two stores that agree on
these evict the same keys, whatever their exact mappings are and whatever time the response of
an entry took. An insertion by hash and an insertion by text therefore leave the same keys.
-/

namespace Conproxy

open CacheStore

set_option autoImplicit false

/-- The entry under a key, with another time for the response stored under `h`. -/
def retimed (h : QueryHash) (ms : Nat) (k : QueryHash) (e : CacheEntry) : CacheEntry :=
  if k = h then { e with response := { e.response with tookMs := ms } } else e

/-- The second core holds the same but for the time of one response. -/
structure Core.Twin (h : QueryHash) (ms : Nat) (c c' : Core) : Prop where
  keys : c'.entries.keys = c.entries.keys
  lookup : ∀ k, c'.entries.lookup k = (c.entries.lookup k).map (retimed h ms k)
  queues : c'.queues = c.queues
  bytes : c'.bytes = c.bytes

variable {p : Platform} {h : QueryHash} {ms : Nat}

theorem freq_retimed (k : QueryHash) (e : CacheEntry) : (retimed h ms k e).freq = e.freq := by
  unfold retimed
  split <;> rfl

theorem approximateSize_retimed (k : QueryHash) (e : CacheEntry) :
    (retimed h ms k e).approximateSize p = e.approximateSize p := by
  unfold retimed
  split <;> rfl

theorem retimed_withFreq (k : QueryHash) (e : CacheEntry) (n : Nat) :
    retimed h ms k (withFreq e n) = withFreq (retimed h ms k e) n := by
  unfold retimed
  split <;> rfl

namespace Core.Twin

variable {c c' : Core}

theorem insert (hc : c.Twin h ms c') (k : QueryHash) (e : CacheEntry) :
    ({ c with entries := c.entries.insert k e } : Core).Twin h ms
      { c' with entries := c'.entries.insert k (retimed h ms k e) } where
  keys := by
    simp only [AList.keys_insert, hc.keys]
  lookup := by
    intro i
    by_cases hi : i = k
    · subst hi
      simp only [AList.lookup_insert, Option.map_some]
    · simp only [AList.lookup_insert_ne hi]
      exact hc.lookup i
  queues := hc.queues
  bytes := hc.bytes

theorem erase (hc : c.Twin h ms c') (k : QueryHash) (bytes : Counter) :
    ({ c with entries := c.entries.erase k, bytes := bytes } : Core).Twin h ms
      { c' with entries := c'.entries.erase k, bytes := bytes } where
  keys := by
    simp only [AList.keys_erase, hc.keys]
  lookup := by
    intro i
    by_cases hi : i = k
    · subst hi
      simp only [AList.lookup_erase, Option.map_none]
    · simp only [AList.lookup_erase_ne hi]
      exact hc.lookup i
  queues := hc.queues
  bytes := rfl

theorem mapQueues (hc : c.Twin h ms c') (f : S3FifoState → S3FifoState) :
    ({ c with queues := f c.queues } : Core).Twin h ms { c' with queues := f c'.queues } :=
  ⟨hc.keys, hc.lookup, congrArg f hc.queues, hc.bytes⟩

end Core.Twin

/-- Two stores after the same scan. -/
def ScanTwin (h : QueryHash) (ms : Nat) {α : Type} (r r' : α × CacheStore) : Prop :=
  r'.1 = r.1 ∧ r.2.core.Twin h ms r'.2.core

section Scans

variable {s s' : CacheStore} (hs : s.core.Twin h ms s'.core)
include hs

theorem twin_readAndResetFreq (k : QueryHash) :
    ScanTwin h ms (s.readAndResetFreq k) (s'.readAndResetFreq k) := by
  have hl' : s'.entries.lookup k = (s.entries.lookup k).map (retimed h ms k) := hs.lookup k
  unfold readAndResetFreq
  cases hl : s.entries.lookup k with
  | none =>
    rw [hl] at hl'
    rw [hl']
    exact ⟨rfl, hs⟩
  | some e =>
    rw [hl] at hl'
    rw [hl']
    refine ⟨freq_retimed k e, ?_⟩
    dsimp only [Option.map_some]
    rw [← retimed_withFreq]
    exact hs.insert k (withFreq e 0)

theorem twin_trackedRemove (k : QueryHash) :
    (s'.trackedRemove p k).1 = (s.trackedRemove p k).1.map (retimed h ms k) ∧
      (s.trackedRemove p k).2.core.Twin h ms (s'.trackedRemove p k).2.core := by
  have hl' : s'.entries.lookup k = (s.entries.lookup k).map (retimed h ms k) := hs.lookup k
  have hbytes : s'.totalMemoryBytes = s.totalMemoryBytes := hs.bytes
  unfold trackedRemove
  cases hl : s.entries.lookup k with
  | none =>
    rw [hl] at hl'
    rw [hl']
    exact ⟨rfl, hs⟩
  | some e =>
    rw [hl] at hl'
    rw [hl']
    refine ⟨rfl, ?_⟩
    dsimp only [Option.map_some]
    rw [approximateSize_retimed, hbytes]
    exact hs.erase k _

omit hs in
theorem twin_evictFromSmallLoop (attempts promotions : Nat) {s s' : CacheStore}
    (hs : s.core.Twin h ms s'.core) :
    ScanTwin h ms (evictFromSmallLoop p attempts promotions s)
      (evictFromSmallLoop p attempts promotions s') := by
  induction attempts generalizing promotions s s' with
  | zero =>
    refine ⟨rfl, ?_⟩
    simp only [evictFromSmallLoop, core_recordPromotions]
    exact hs
  | succ attempts ih =>
    have hq : s'.s3fifo.small = s.s3fifo.small := congrArg S3FifoState.small hs.queues
    unfold evictFromSmallLoop
    rw [hq]
    split
    · exact ⟨rfl, hs⟩
    · rename_i k rest _
      have hpop : ({ s with s3fifo := { s.s3fifo with small := rest } } : CacheStore).core.Twin
          h ms ({ s' with s3fifo := { s'.s3fifo with small := rest } } : CacheStore).core :=
        hs.mapQueues fun q => { q with small := rest }
      obtain ⟨hfreq, hread⟩ := twin_readAndResetFreq hpop k
      dsimp only
      rw [hfreq]
      split
      · obtain ⟨hremoved, hrest⟩ := twin_trackedRemove (p := p) hread k
        have hghost := hrest.mapQueues fun q => q.addGhost k
        split
        · rename_i hsome
          rw [hremoved, hsome]
          refine ⟨rfl, ?_⟩
          change Core.Twin h ms (recordPromotions _ _).core (recordPromotions _ _).core
          rw [core_recordPromotions, core_recordPromotions]
          exact hghost
        · rename_i hnone
          rw [hremoved, hnone]
          exact ih promotions hghost
      · exact ih (promotions + 1) (hread.mapQueues fun q => { q with main := q.main ++ [k] })

omit hs in
theorem twin_evictFromMainLoop (attempts : Nat) {s s' : CacheStore}
    (hs : s.core.Twin h ms s'.core) :
    ScanTwin h ms (evictFromMainLoop p attempts s) (evictFromMainLoop p attempts s') := by
  induction attempts generalizing s s' with
  | zero => exact ⟨rfl, hs⟩
  | succ attempts ih =>
    have hq : s'.s3fifo.main = s.s3fifo.main := congrArg S3FifoState.main hs.queues
    unfold evictFromMainLoop
    rw [hq]
    split
    · exact ⟨rfl, hs⟩
    · rename_i k rest _
      have hpop : ({ s with s3fifo := { s.s3fifo with main := rest } } : CacheStore).core.Twin
          h ms ({ s' with s3fifo := { s'.s3fifo with main := rest } } : CacheStore).core :=
        hs.mapQueues fun q => { q with main := rest }
      obtain ⟨hfreq, hread⟩ := twin_readAndResetFreq hpop k
      dsimp only
      rw [hfreq]
      split
      · obtain ⟨hremoved, hrest⟩ := twin_trackedRemove (p := p) hread k
        split
        · rename_i hsome
          rw [hremoved, hsome]
          exact ⟨rfl, hrest⟩
        · rename_i hnone
          rw [hremoved, hnone]
          exact ih hrest
      · exact ih (hread.mapQueues fun q => { q with main := q.main ++ [k] })

theorem twin_evictSmallThenMain :
    ScanTwin h ms (s.evictSmallThenMain p) (s'.evictSmallThenMain p) := by
  have hsmall : s'.s3fifo.small = s.s3fifo.small := congrArg S3FifoState.small hs.queues
  have hfirst : ScanTwin h ms (s.s3fifoEvictFromSmall p) (s'.s3fifoEvictFromSmall p) := by
    unfold s3fifoEvictFromSmall
    rw [hsmall]
    exact twin_evictFromSmallLoop _ 0 hs
  rw [evictSmallThenMain_eq, evictSmallThenMain_eq]
  rcases hr : s.s3fifoEvictFromSmall p with ⟨source, t⟩
  rcases hr' : s'.s3fifoEvictFromSmall p with ⟨source', t'⟩
  rw [hr, hr'] at hfirst
  obtain ⟨hsource, ht⟩ := hfirst
  dsimp only at hsource ht
  subst hsource
  cases source' with
  | some source => exact ⟨rfl, ht⟩
  | none =>
    have hmain : t'.s3fifo.main = t.s3fifo.main := congrArg S3FifoState.main ht.queues
    dsimp only
    unfold s3fifoEvictFromMain
    rw [hmain]
    exact twin_evictFromMainLoop _ ht

omit hs in
theorem twin_evictWhile {exceeds : CacheStore → Bool}
    (hexceeds : ∀ s s' : CacheStore, s.core.Twin h ms s'.core → exceeds s' = exceeds s)
    (fuel : Nat) (n : Evicted) {s s' : CacheStore} (hs : s.core.Twin h ms s'.core) :
    ScanTwin h ms (evictWhile exceeds (evictSmallThenMain p) fuel n s)
      (evictWhile exceeds (evictSmallThenMain p) fuel n s') := by
  induction fuel generalizing n s s' with
  | zero => exact ⟨rfl, hs⟩
  | succ fuel ih =>
    have hstep := twin_evictSmallThenMain (p := p) hs
    unfold evictWhile
    rw [hexceeds s s' hs]
    split
    · rcases hr : s.evictSmallThenMain p with ⟨source, t⟩
      rcases hr' : s'.evictSmallThenMain p with ⟨source', t'⟩
      rw [hr, hr'] at hstep
      obtain ⟨hsource, ht⟩ := hstep
      dsimp only at hsource ht
      subst hsource
      cases source' with
      | some source => exact ih _ ht
      | none => exact ⟨rfl, ht⟩
    · exact ⟨rfl, hs⟩

theorem twin_evictToCapacity (n : Evicted) :
    ScanTwin h ms (evictToCapacity p n s) (evictToCapacity p n s') := by
  have hslots : s'.s3fifo.slots = s.s3fifo.slots := congrArg S3FifoState.slots hs.queues
  unfold evictToCapacity
  rw [hslots]
  refine twin_evictWhile ?_ _ n hs
  intro t t' ht
  have hq : t'.s3fifo = t.s3fifo := ht.queues
  simp only [overCapacity, hq]

theorem twin_evictToMemory (limit : Nat) (n : Evicted) :
    ScanTwin h ms (evictToMemory p limit n s) (evictToMemory p limit n s') := by
  have hlen : s'.len = s.len := congrArg List.length hs.keys
  unfold evictToMemory
  rw [hlen]
  refine twin_evictWhile ?_ _ n hs
  intro t t' ht
  have hbytes : t'.totalMemoryBytes = t.totalMemoryBytes := ht.bytes
  simp only [overMemory, hbytes]

theorem twin_s3fifoAdmit (hlimit : s'.maxMemoryBytes = s.maxMemoryBytes) (k : QueryHash) :
    (s.s3fifoAdmit p k).core.Twin h ms (s'.s3fifoAdmit p k).core := by
  have hpush : ({ s with s3fifo := s.s3fifo.push k } : CacheStore).core.Twin h ms
      ({ s' with s3fifo := s'.s3fifo.push k } : CacheStore).core :=
    hs.mapQueues fun q => q.push k
  have hfit := twin_evictToCapacity (p := p) hpush ⟨0, 0⟩
  unfold s3fifoAdmit
  simp only [core_recordAdmission]
  generalize evictToCapacity p ⟨0, 0⟩ { s with s3fifo := s.s3fifo.push k } = fitted at hfit ⊢
  generalize evictToCapacity p ⟨0, 0⟩ { s' with s3fifo := s'.s3fifo.push k } = fitted' at hfit ⊢
  rw [hlimit]
  split
  · rw [hfit.1]
    exact (twin_evictToMemory hfit.2 _ _).2
  · exact hfit.2

end Scans

theorem newEntry_timed (now : Clock) (response : QueryResponse) (upstreamId : String)
    (queryText : Option String) (contextId : String) :
    newEntry p now { response with tookMs := ms } upstreamId queryText contextId =
      retimed h ms h (newEntry p now response upstreamId queryText contextId) := by
  unfold retimed
  rw [if_pos rfl]
  rfl

theorem twin_trackedInsert (s : CacheStore) (e : CacheEntry) :
    (s.trackedInsert p h e).core.Twin h ms (s.trackedInsert p h (retimed h ms h e)).core where
  keys := by
    simp only [trackedInsert, core, AList.keys_insert]
  lookup := by
    intro k
    simp only [trackedInsert, core]
    by_cases hk : k = h
    · subst hk
      simp only [AList.lookup_insert, Option.map_some]
    · have hid : retimed h ms k = id := funext fun _ => if_neg hk
      simp only [AList.lookup_insert_ne hk, hid, Option.map_id, id]
  queues := rfl
  bytes := by
    simp only [trackedInsert, core, approximateSize_retimed]

theorem Inserted.twin {s s' : CacheStore} {store : CacheStore} {e : CacheEntry} {forced : Bool}
    (hs : Inserted p ⟨store, h, e, forced⟩ s)
    (hs' : Inserted p ⟨store, h, retimed h ms h e, forced⟩ s') : s.core.Twin h ms s'.core := by
  obtain ⟨stored, hcore, hlimit, hstored⟩ := hs.stored
  obtain ⟨stored', hcore', hlimit', hstored'⟩ := hs'.stored
  have htwin : stored.core.Twin h ms stored'.core := by
    rw [hcore, hcore']
    exact twin_trackedInsert store e
  have hadmits : Insertion.admits ⟨store, h, retimed h ms h e, forced⟩ =
      Insertion.admits ⟨store, h, e, forced⟩ := rfl
  rw [hstored, hstored', hadmits]
  cases Insertion.admits ⟨store, h, e, forced⟩ with
  | true => exact twin_s3fifoAdmit htwin (hlimit'.trans hlimit.symm) h
  | false => exact htwin

/-- The keys of a store, with the response and the context tag of each. -/
def CacheStore.contents (s : CacheStore) (k : QueryHash) : Option (QueryResponse × String) :=
  (s.entries.lookup k).map fun e => (e.response, e.contextId)

theorem contents_of_twin {s s' : CacheStore} (hs : s.core.Twin h ms s'.core) (k : QueryHash) :
    s'.contents k = (s.contents k).map fun found =>
      (if k = h then { found.1 with tookMs := ms } else found.1, found.2) := by
  have hl : s'.entries.lookup k = (s.entries.lookup k).map (retimed h ms k) := hs.lookup k
  unfold contents
  rw [hl, Option.map_map, Option.map_map]
  congr 1
  funext e
  simp only [Function.comp_apply, retimed]
  split <;> rfl

/-- An insertion by text leaves the contents that the insertion by hash leaves exactly if the
responses took the same time or the new entry is not kept. -/
theorem contents_insert_eq_iff (s : CacheStore) (scan : Scan) (now : Clock) (text : String)
    (response : QueryResponse) (upstreamId : String) (ms : Nat) :
    (s.insertByHash p scan now (hashQuery p text) response upstreamId (some text)).contents =
        (s.insert p scan now text { response with tookMs := ms } upstreamId).contents ↔
      response.tookMs = ms ∨ hashQuery p text ∉
        (s.insertByHash p scan now (hashQuery p text) response upstreamId (some text)).entries := by
  have hhash := inserted_insertByHash (p := p) s scan now (hashQuery p text) response upstreamId
    (some text)
  have htext := inserted_insertImpl (p := p) s scan now text { response with tookMs := ms }
    upstreamId "default"
  simp only [singleInsertion] at hhash htext
  rw [newEntry_timed] at htext
  have htwin := hhash.twin htext
  have hresponse : ∀ e, (s.insertByHash p scan now (hashQuery p text) response upstreamId
      (some text)).entries.lookup (hashQuery p text) = some e → e.response = response := by
    intro e hl
    rcases hhash.content hl with ⟨-, hsame⟩ | ⟨hne, -⟩
    · exact hsame.response
    · exact absurd rfl hne
  generalize s.insertByHash p scan now (hashQuery p text) response upstreamId (some text) = s₁
    at htwin hresponse
  constructor
  · intro heq
    by_cases hmem : hashQuery p text ∈ s₁.entries
    · obtain ⟨e, hl⟩ := WeightedTable.lookup_of_mem s₁.entries hmem
      have hsame := (congrFun heq (hashQuery p text)).trans (contents_of_twin htwin _)
      simp only [contents, hl, Option.map_some, if_true, Option.some.injEq, Prod.mk.injEq,
        and_true] at hsame
      rw [← hresponse e hl, hsame]
      exact .inl rfl
    · exact .inr hmem
  · intro hor
    funext k
    refine Eq.trans ?_ (contents_of_twin htwin k).symm
    cases hl : s₁.entries.lookup k with
    | none => simp only [contents, hl, Option.map_none]
    | some e =>
      simp only [contents, hl, Option.map_some]
      split
      · rename_i hk
        subst hk
        obtain htook | hnot := hor
        · rw [hresponse e hl, ← htook]
        · exact absurd (WeightedTable.mem_of_lookup _ hl) hnot
      · rfl

end Conproxy
