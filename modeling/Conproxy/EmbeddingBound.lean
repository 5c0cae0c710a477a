import Conproxy.Lib.Trace
import Conproxy.SmartEmbedder

/-!
# How far the embedding cache grows

Whether the cache stays within its limit and one batch, after every call and at every moment of
a call.
-/

namespace Conproxy

open Chunks Machine WeightedTable

set_option autoImplicit false

namespace SmartEmbedder

variable (m : SmartEmbedder)

def stored (storedAt : Nat → Nat) (cache : EmbeddingCache) (t : (Nat × String) × Embedding) :
    EmbeddingCache :=
  m.remember cache (storedAt t.1.1) t.1.2 t.2

/-- The caches that an eviction goes through. -/
def evicting (scan : AgeScan) (cache : EmbeddingCache) : List EmbeddingCache :=
  if cache.keys.length ≤ m.config.cacheMaxEntries then []
  else trace (fun (cache : EmbeddingCache) key => cache.erase key) cache (m.oldest scan cache)

/-- The caches that the loop over the chunks goes through. -/
def computing (c : BatchCall) : List Chunk → Nat → EmbeddingCache → List EmbeddingCache
  | [], _, _ => []
  | chunk :: rest, j, cache =>
    match c.answers j with
    | .error _ => []
    | .ok computed =>
      let placed := run (m.stored c.storedAt) cache (chunk.zip computed)
      trace (m.stored c.storedAt) cache (chunk.zip computed) ++
        if computed.length ≤ chunk.length then
          m.evicting (c.scans j) placed ++
            computing c rest (j + 1) (m.maybeEvict (c.scans j) placed)
        else []

def embedMoments (cache : EmbeddingCache) (c : EmbedCall) : List EmbeddingCache :=
  match m.cached cache c.now c.text with
  | some _ => []
  | none =>
    match c.answer with
    | .ok vector =>
      if 0 < m.config.cacheMaxEntries then
        m.evicting c.scan cache ++
          [m.remember (m.maybeEvict c.scan cache) c.storedAt c.text vector]
      else []
    | .error _ => []

def batchMoments (cache : EmbeddingCache) (c : BatchCall) : List EmbeddingCache :=
  match c.load with
  | .error _ => []
  | .ok () => m.computing c (m.batches cache c) 0 cache

/-- The caches that a call goes through, each after one insertion or removal. -/
def moments (cache : EmbeddingCache) : EmbedderCall → List EmbeddingCache
  | .embed c => m.embedMoments cache c
  | .batch c => m.batchMoments cache c

/-- At no moment of a call are there more entries. -/
def HoldsAtMost (n : Nat) (cache : EmbeddingCache) (call : EmbedderCall) : Prop :=
  ∀ held ∈ m.moments cache call, held.keys.length ≤ n

variable {m : SmartEmbedder} {cache : EmbeddingCache}

theorem place_cache (storedAt : Nat → Nat) (chunk : Chunk) (computed : List Embedding)
    (cache : EmbeddingCache) (results : List (Option Embedding)) :
    (m.place storedAt chunk computed cache results).1 =
      run (m.stored storedAt) cache (chunk.zip computed) := by
  induction chunk generalizing computed cache results with
  | nil => cases computed <;> rfl
  | cons t rest ih =>
    cases computed with
    | nil => rfl
    | cons vector computed => exact ih computed _ _

theorem getLastD_append {α : Type} (l l' : List α) (a : α) :
    (l ++ l').getLastD a = l'.getLastD (l.getLastD a) := by
  induction l generalizing a with
  | nil => rfl
  | cons b rest ih =>
    rw [List.cons_append, List.getLastD_cons, List.getLastD_cons]
    exact ih b

theorem getLastD_evicting (scan : AgeScan) (cache : EmbeddingCache) :
    (m.evicting scan cache).getLastD cache = m.maybeEvict scan cache := by
  unfold evicting maybeEvict
  split
  · rfl
  · rw [getLastD_trace]
    exact run_eq_foldl _ _ _

theorem getLastD_computing (c : BatchCall) (chunks : List Chunk) (j : Nat)
    (cache : EmbeddingCache) (results : List (Option Embedding)) :
    (m.computing c chunks j cache).getLastD cache =
      (m.computeChunks c chunks j cache results).1 := by
  induction chunks generalizing j cache results with
  | nil => rfl
  | cons chunk rest ih =>
    unfold computing computeChunks
    cases c.answers j with
    | error e => rfl
    | ok computed =>
      dsimp only
      rw [getLastD_append, getLastD_trace]
      by_cases hlength : computed.length ≤ chunk.length
      · rw [if_pos hlength, place_of_fits hlength, getLastD_append, getLastD_evicting, place_cache]
        exact ih _ _ _
      · rw [if_neg hlength, place_of_not_fits hlength, place_cache]
        rfl

/-- A call leaves the cache as it is in its last moment. -/
theorem getLastD_moments (cache : EmbeddingCache) (call : EmbedderCall) :
    (m.moments cache call).getLastD cache = m.step cache call := by
  cases call with
  | embed c =>
    show (m.embedMoments cache c).getLastD cache = (m.embed cache c).1
    unfold embedMoments embed
    cases m.cached cache c.now c.text with
    | some vector => rfl
    | none =>
      cases c.answer with
      | error e => rfl
      | ok vector =>
        dsimp only
        split
        · exact List.getLastD_concat
        · rfl
  | batch c =>
    show (m.batchMoments cache c).getLastD cache = (m.embedBatch cache c).1
    unfold batchMoments
    cases hload : c.load with
    | error e =>
      unfold embedBatch
      rw [hload]
      cases c.texts.isEmpty <;> rfl
    | ok _ =>
      rw [embedBatch_of_load hload]
      exact getLastD_computing c _ 0 cache _

theorem length_step_of_holdsAtMost {n : Nat} {call : EmbedderCall}
    (h : m.HoldsAtMost n cache call) (hcache : cache.keys.length ≤ n) :
    (m.step cache call).keys.length ≤ n := by
  rw [← getLastD_moments]
  cases hmoments : m.moments cache call with
  | nil => exact hcache
  | cons held rest =>
    apply h
    rw [hmoments, List.getLastD_cons]
    exact List.getLastD_mem_cons

/-! ## Growth -/

theorem length_remember_le (cache : EmbeddingCache) (storedAt : Nat) (text : String)
    (vector : Embedding) :
    (m.remember cache storedAt text vector).keys.length ≤ cache.keys.length + 1 := by
  unfold remember
  split
  · exact length_keys_insert_le cache
  · exact Nat.le_succ _

theorem length_le_of_mem_storing {storedAt : Nat → Nat} {chunk : Chunk} {computed : List Embedding}
    {held : EmbeddingCache}
    (h : held ∈ trace (m.stored storedAt) cache (chunk.zip computed)) :
    held.keys.length ≤ cache.keys.length + chunk.length := by
  have hone (cache : EmbeddingCache) (t : (Nat × String) × Embedding) :
      (m.stored storedAt cache t).keys.length ≤ cache.keys.length + 1 :=
    length_remember_le _ _ _ _
  have hsize := le_add_length_of_mem_trace (fun cache => cache.keys.length) hone h
  have hzip : (chunk.zip computed).length ≤ chunk.length := by
    rw [List.length_zip]
    exact Nat.min_le_left _ _
  exact hsize.trans (Nat.add_le_add_left hzip _)

theorem length_place_le (storedAt : Nat → Nat) (chunk : Chunk) (computed : List Embedding)
    (cache : EmbeddingCache) (results : List (Option Embedding)) :
    (m.place storedAt chunk computed cache results).1.keys.length ≤
      cache.keys.length + chunk.length := by
  rw [place_cache]
  by_cases hzip : chunk.zip computed = []
  · rw [hzip]
    exact Nat.le_add_right _ _
  · exact length_le_of_mem_storing (run_mem_trace hzip cache)

theorem length_le_of_mem_evicting {scan : AgeScan} {held : EmbeddingCache}
    (h : held ∈ m.evicting scan cache) : held.keys.length ≤ cache.keys.length := by
  unfold evicting at h
  split at h
  · cases h
  · have herase (held : EmbeddingCache) (key : UInt64)
        (hheld : held.keys.length ≤ cache.keys.length) :
        (held.erase key).keys.length ≤ cache.keys.length := by
      rw [AList.keys_erase]
      exact List.length_erase_le.trans hheld
    exact trace_preserves herase (Nat.le_refl _) h

theorem length_maybeEvict_le (scan : AgeScan)
    (h : cache.keys.length ≤ m.config.cacheMaxEntries + 1 + m.config.cacheMaxEntries / 10) :
    (m.maybeEvict scan cache).keys.length ≤ m.config.cacheMaxEntries + 1 := by
  by_cases hfull : m.config.cacheMaxEntries < cache.keys.length
  · have hevicted := length_maybeEvict scan hfull
    omega
  · rw [maybeEvict_of_le _ (Nat.not_lt.1 hfull)]
    omega

theorem length_remember_maybeEvict_le (htenth : 1 ≤ m.config.cacheMaxEntries / 10)
    (scan : AgeScan) (storedAt : Nat) (text : String) (vector : Embedding)
    (hcache : cache.keys.length ≤ m.config.cacheMaxEntries + 1) :
    (m.remember (m.maybeEvict scan cache) storedAt text vector).keys.length ≤
      m.config.cacheMaxEntries + 1 := by
  have hstored := length_remember_le (m := m) (m.maybeEvict scan cache) storedAt text vector
  by_cases hfull : m.config.cacheMaxEntries < cache.keys.length
  · have hevicted := length_maybeEvict scan hfull
    omega
  · rw [maybeEvict_of_le _ (Nat.not_lt.1 hfull)] at hstored ⊢
    omega

/-- A chunk no longer than a tenth of the limit leaves at most one entry too many. -/
theorem length_computeChunks_le {c : BatchCall} {chunks : List Chunk} {j : Nat}
    {results : List (Option Embedding)}
    (hchunks : ∀ chunk ∈ chunks, chunk.length ≤ m.config.cacheMaxEntries / 10)
    (hfits : FitsFrom c chunks j) (hcache : cache.keys.length ≤ m.config.cacheMaxEntries + 1) :
    (m.computeChunks c chunks j cache results).1.keys.length ≤
      m.config.cacheMaxEntries + 1 := by
  induction chunks generalizing j cache results with
  | nil => exact hcache
  | cons chunk rest ih =>
    unfold computeChunks
    cases hanswer : c.answers j with
    | error e => exact hcache
    | ok computed =>
      obtain ⟨hle, hrest⟩ := hfits computed hanswer
      dsimp only
      rw [place_of_fits hle]
      apply ih (fun chunk h => hchunks chunk (List.mem_cons_of_mem _ h)) hrest
      have hplaced := length_place_le (m := m) c.storedAt chunk computed cache results
      have hchunk := hchunks chunk List.mem_cons_self
      apply length_maybeEvict_le
      omega

/-- Before its eviction a chunk is held besides. -/
theorem length_le_of_mem_computing {c : BatchCall} {chunks : List Chunk} {size j : Nat}
    (hchunks : ∀ chunk ∈ chunks, chunk.length ≤ size)
    (htenth : size ≤ m.config.cacheMaxEntries / 10) (hfits : FitsFrom c chunks j)
    (hcache : cache.keys.length ≤ m.config.cacheMaxEntries + 1) {held : EmbeddingCache}
    (h : held ∈ m.computing c chunks j cache) :
    held.keys.length ≤ m.config.cacheMaxEntries + size + 1 := by
  induction chunks generalizing j cache with
  | nil => cases h
  | cons chunk rest ih =>
    unfold computing at h
    cases hanswer : c.answers j with
    | error e =>
      rw [hanswer] at h
      cases h
    | ok computed =>
      obtain ⟨hle, hrest⟩ := hfits computed hanswer
      have hchunk := hchunks chunk List.mem_cons_self
      rw [hanswer] at h
      dsimp only at h
      rw [if_pos hle, ← place_cache _ _ _ _ [], List.mem_append, List.mem_append] at h
      have hplaced := length_place_le (m := m) c.storedAt chunk computed cache []
      rcases h with hstoring | hevicting | hlater
      · have hstored := length_le_of_mem_storing hstoring
        omega
      · have hevicted := length_le_of_mem_evicting hevicting
        omega
      · apply ih (fun chunk h => hchunks chunk (List.mem_cons_of_mem _ h)) hrest _ hlater
        apply length_maybeEvict_le
        omega

theorem length_embed_le (htenth : 1 ≤ m.config.cacheMaxEntries / 10) (c : EmbedCall)
    (hcache : cache.keys.length ≤ m.config.cacheMaxEntries + 1) :
    (m.embed cache c).1.keys.length ≤ m.config.cacheMaxEntries + 1 := by
  unfold embed
  split
  · exact hcache
  · split
    · split
      · exact length_remember_maybeEvict_le htenth _ _ _ _ hcache
      · exact hcache
    · exact hcache

theorem length_step_le (htenth : m.batchSize ≤ m.config.cacheMaxEntries / 10)
    (call : EmbedderCall) (hfits : m.Fits cache call)
    (hcache : cache.keys.length ≤ m.config.cacheMaxEntries + 1) :
    (m.step cache call).keys.length ≤ m.config.cacheMaxEntries + 1 := by
  have hone : 1 ≤ m.batchSize := Nat.le_max_right _ _
  cases call with
  | embed c => exact length_embed_le (hone.trans htenth) c hcache
  | batch c =>
    show (m.embedBatch cache c).1.keys.length ≤ m.config.cacheMaxEntries + 1
    unfold embedBatch
    split
    · exact hcache
    · cases hload : c.load with
      | error e => exact hcache
      | ok _ =>
        refine length_computeChunks_le ?_ (hfits hload) hcache
        intro chunk hchunk
        exact (length_le_of_mem_chunks hchunk).trans htenth

theorem holdsAtMost_of_le (htenth : m.batchSize ≤ m.config.cacheMaxEntries / 10)
    (call : EmbedderCall) (hfits : m.Fits cache call)
    (hcache : cache.keys.length ≤ m.config.cacheMaxEntries + 1) :
    m.HoldsAtMost (m.config.cacheMaxEntries + m.batchSize + 1) cache call := by
  have hone : 1 ≤ m.batchSize := Nat.le_max_right _ _
  intro held hheld
  cases call with
  | embed c =>
    change held ∈ m.embedMoments cache c at hheld
    unfold embedMoments at hheld
    split at hheld
    · cases hheld
    · split at hheld
      · split at hheld
        · rcases List.mem_append.1 hheld with hevicting | hlast
          · have hevicted := length_le_of_mem_evicting hevicting
            omega
          · obtain rfl := List.mem_singleton.1 hlast
            have hstored := length_remember_maybeEvict_le (hone.trans htenth) c.scan c.storedAt
              c.text ‹Embedding› hcache
            omega
        · cases hheld
      · cases hheld
  | batch c =>
    change held ∈ m.batchMoments cache c at hheld
    unfold batchMoments at hheld
    cases hload : c.load with
    | error e =>
      rw [hload] at hheld
      cases hheld
    | ok _ =>
      rw [hload] at hheld
      exact length_le_of_mem_computing (fun chunk hchunk => length_le_of_mem_chunks hchunk) htenth
        (hfits hload) hcache hheld

/-! ## Batches of new texts -/

theorem cached_of_notMem {text : String} (h : m.cacheKey text ∉ cache) (now : Nat) :
    m.cached cache now text = none := by
  unfold cached
  rw [AList.lookup_eq_none.2 h]

theorem toCompute_of_new {c : BatchCall} (h : ∀ text ∈ c.texts, m.cacheKey text ∉ cache) :
    (m.toCompute cache c).map Prod.snd = c.texts := by
  have hall : m.toCompute cache c = c.texts.zipIdx.map fun t => (t.2, t.1) := by
    unfold toCompute
    rw [← List.filterMap_eq_map']
    apply List.filterMap_congr
    intro t ht
    have htext : t.1 ∈ c.texts := List.mem_of_getElem? (List.mk_mem_zipIdx_iff_getElem?.1 ht)
    rw [cached_of_notMem (h t.1 htext)]
  rw [hall, List.map_map]
  exact List.zipIdx_map_fst 0 c.texts

theorem length_remember_new (hmax : 0 < m.config.cacheMaxEntries) {text : String}
    (h : m.cacheKey text ∉ cache) (storedAt : Nat) (vector : Embedding) :
    (m.remember cache storedAt text vector).keys.length = cache.keys.length + 1 := by
  rw [remember, if_pos hmax, AList.keys_insert, List.length_cons,
    List.erase_of_not_mem (mt AList.mem_keys.2 h)]

/-- New texts with different keys are all new entries. -/
theorem length_place_new (hmax : 0 < m.config.cacheMaxEntries) {storedAt : Nat → Nat}
    {chunk : Chunk} {computed : List Embedding} {results : List (Option Embedding)}
    (hlength : computed.length = chunk.length)
    (hnodup : (chunk.map fun t => m.cacheKey t.2).Nodup)
    (hnew : ∀ t ∈ chunk, m.cacheKey t.2 ∉ cache) :
    (m.place storedAt chunk computed cache results).1.keys.length =
      cache.keys.length + chunk.length := by
  induction chunk generalizing computed cache results with
  | nil =>
    obtain rfl := List.length_eq_zero_iff.1 hlength
    rfl
  | cons t rest ih =>
    cases computed with
    | nil => cases hlength
    | cons vector computed =>
      rw [List.map_cons, List.nodup_cons] at hnodup
      have hstored := length_remember_new hmax (hnew t List.mem_cons_self) (storedAt t.1) vector
      have hrest : ∀ t' ∈ rest, m.cacheKey t'.2 ∉ m.remember cache (storedAt t.1) t.2 vector := by
        intro t' ht'
        rw [remember, if_pos hmax, AList.mem_insert, not_or]
        refine ⟨?_, hnew t' (List.mem_cons_of_mem _ ht')⟩
        intro heq
        apply hnodup.1
        rw [← heq]
        exact List.mem_map.2 ⟨t', ht', rfl⟩
      have hrec : (m.place storedAt rest computed (m.remember cache (storedAt t.1) t.2 vector)
          (results.set t.1 (some vector))).1.keys.length =
            (m.remember cache (storedAt t.1) t.2 vector).keys.length + rest.length :=
        ih (Nat.succ.inj hlength) hnodup.2 hrest
      rw [hstored] at hrec
      rw [List.length_cons]
      unfold place
      omega

theorem step_of_one_chunk {c : BatchCall} {chunk : Chunk} {computed : List Embedding}
    (hload : c.load = .ok ()) (hbatches : m.batches cache c = [chunk])
    (hanswer : c.answers 0 = .ok computed) (hfits : computed.length ≤ chunk.length) :
    m.Fits cache (.batch c) ∧
      m.step cache (.batch c) = m.maybeEvict (c.scans 0)
        (m.place c.storedAt chunk computed cache (m.found cache c)).1 := by
  constructor
  · intro _
    rw [hbatches]
    intro computed' hcomputed
    obtain rfl : computed = computed' := Except.ok.inj (hanswer.symm.trans hcomputed)
    exact ⟨hfits, trivial⟩
  · show (m.embedBatch cache c).1 = _
    rw [embedBatch_of_load hload, hbatches]
    unfold computeChunks
    rw [hanswer]
    dsimp only
    rw [place_of_fits hfits]
    rfl

theorem place_mem_moments {c : BatchCall} {chunk : Chunk} {computed : List Embedding}
    (hload : c.load = .ok ()) (hbatches : m.batches cache c = [chunk])
    (hanswer : c.answers 0 = .ok computed) (hne : chunk.zip computed ≠ [])
    (results : List (Option Embedding)) :
    (m.place c.storedAt chunk computed cache results).1 ∈ m.moments cache (.batch c) := by
  show _ ∈ m.batchMoments cache c
  unfold batchMoments
  rw [hload, hbatches, place_cache]
  dsimp only
  unfold computing
  rw [hanswer]
  exact List.mem_append_left _ (run_mem_trace hne cache)

theorem lt_length_maybeEvict (scan : AgeScan) {placed : EmbeddingCache}
    (h : cache.keys.length + m.config.cacheMaxEntries / 10 + 1 ≤ placed.keys.length) :
    cache.keys.length < (m.maybeEvict scan placed).keys.length := by
  by_cases hfull : m.config.cacheMaxEntries < placed.keys.length
  · have hevicted := length_maybeEvict scan hfull
    omega
  · rw [maybeEvict_of_le _ (Nat.not_lt.1 hfull)]
    omega

/-- One chunk of new texts is held besides what the cache held, until the eviction. -/
theorem exists_placed (hmax : 0 < m.config.cacheMaxEntries) {texts : List String}
    (htexts : texts ≠ []) (hbatch : texts.length ≤ m.batchSize)
    (hnodup : (texts.map m.cacheKey).Nodup) (hnew : ∀ text ∈ texts, m.cacheKey text ∉ cache) :
    ∃ placed : EmbeddingCache, placed.keys.length = cache.keys.length + texts.length ∧
      placed ∈ m.moments cache (.batch (answeredBatch texts)) ∧
      m.Fits cache (.batch (answeredBatch texts)) ∧
      m.step cache (.batch (answeredBatch texts)) = m.maybeEvict AgeScan.listed placed := by
  have hsnd : (m.toCompute cache (answeredBatch texts)).map Prod.snd = texts :=
    toCompute_of_new hnew
  have hlength : (m.toCompute cache (answeredBatch texts)).length = texts.length := by
    rw [← hsnd, List.length_map, hsnd]
  have hpos : 0 < texts.length := List.length_pos_iff.2 htexts
  have hne : m.toCompute cache (answeredBatch texts) ≠ [] := by
    apply List.length_pos_iff.1
    omega
  have hanswer : (texts.map fun _ => ([] : Embedding)).length =
      (m.toCompute cache (answeredBatch texts)).length := by
    rw [List.length_map, hlength]
  have hzip : (m.toCompute cache (answeredBatch texts)).zip
      (texts.map fun _ => ([] : Embedding)) ≠ [] := by
    apply List.length_pos_iff.1
    rw [List.length_zip]
    omega
  have hkeys : ((m.toCompute cache (answeredBatch texts)).map fun t => m.cacheKey t.2).Nodup := by
    rw [← hsnd, List.map_map] at hnodup
    exact hnodup
  have hplaced : (m.place (fun _ => 0) (m.toCompute cache (answeredBatch texts))
      (texts.map fun _ => []) cache (m.found cache (answeredBatch texts))).1.keys.length =
        cache.keys.length + (m.toCompute cache (answeredBatch texts)).length :=
    length_place_new hmax hanswer hkeys
      fun t ht => hnew t.2 (hsnd ▸ List.mem_map_of_mem ht)
  have hbatches : m.batches cache (answeredBatch texts) =
      [m.toCompute cache (answeredBatch texts)] :=
    chunks_of_length_le hne (hlength.trans_le hbatch)
  obtain ⟨hfits, hstep⟩ := step_of_one_chunk (c := answeredBatch texts) rfl hbatches rfl
    hanswer.le
  refine ⟨_, hplaced.trans (by rw [hlength]), ?_, hfits, hstep⟩
  exact place_mem_moments (c := answeredBatch texts) rfl hbatches rfl hzip _

theorem length_step_answeredBatch (hmax : 0 < m.config.cacheMaxEntries) {texts : List String}
    (hbatch : texts.length ≤ m.batchSize)
    (htenth : texts.length = m.config.cacheMaxEntries / 10 + 1)
    (hnodup : (texts.map m.cacheKey).Nodup) (hnew : ∀ text ∈ texts, m.cacheKey text ∉ cache) :
    m.Fits cache (.batch (answeredBatch texts)) ∧
      cache.keys.length < (m.step cache (.batch (answeredBatch texts))).keys.length := by
  have htexts : texts ≠ [] := by
    apply List.length_pos_iff.1
    omega
  obtain ⟨placed, hplaced, -, hfits, hstep⟩ := exists_placed hmax htexts hbatch hnodup hnew
  refine ⟨hfits, ?_⟩
  rw [hstep]
  apply lt_length_maybeEvict
  omega

/-- Of many texts with different keys some are not in the cache. -/
theorem exists_new_texts {texts : List String} (hnodup : (texts.map m.cacheKey).Nodup)
    (cache : EmbeddingCache) {n : Nat} (hn : n + cache.keys.length ≤ texts.length) :
    ∃ fresh : List String, fresh.length = n ∧ (fresh.map m.cacheKey).Nodup ∧
      ∀ text ∈ fresh, m.cacheKey text ∉ cache := by
  have hheld : (texts.filter fun text => decide (m.cacheKey text ∈ cache)).length ≤
      cache.keys.length := by
    have hkeys : ((texts.filter fun text => decide (m.cacheKey text ∈ cache)).map
        m.cacheKey).Nodup :=
      hnodup.sublist (List.filter_sublist.map _)
    rw [← List.length_map m.cacheKey]
    apply (List.subperm_of_subset hkeys ?_).length_le
    intro key hkey
    obtain ⟨text, htext, rfl⟩ := List.mem_map.1 hkey
    exact AList.mem_keys.1 (of_decide_eq_true (List.mem_filter.1 htext).2)
  have hsplit := List.length_eq_length_filter_add (l := texts)
    fun text => decide (m.cacheKey text ∈ cache)
  have hsub := List.take_sublist n (texts.filter fun text => !decide (m.cacheKey text ∈ cache))
  refine ⟨_, ?_, hnodup.sublist ((hsub.trans List.filter_sublist).map _), ?_⟩
  · rw [List.length_take]
    omega
  · intro text htext
    simpa using (List.mem_filter.1 (hsub.subset htext)).2

theorem exists_run_of_length (hmax : 0 < m.config.cacheMaxEntries)
    (hbatch : m.config.cacheMaxEntries / 10 < m.batchSize) {texts : List String}
    (hnodup : (texts.map m.cacheKey).Nodup) {size : Nat}
    (hsize : size + m.config.cacheMaxEntries / 10 ≤ texts.length) :
    ∃ calls, AllSteps m.step m.Fits ∅ calls ∧ size ≤ (run m.step ∅ calls).keys.length := by
  induction size with
  | zero => exact ⟨[], trivial, Nat.zero_le _⟩
  | succ size ih =>
    obtain ⟨calls, hcalls, hreached⟩ := ih (by omega)
    by_cases hdone : size + 1 ≤ (run m.step ∅ calls).keys.length
    · exact ⟨calls, hcalls, hdone⟩
    · have hroom : m.config.cacheMaxEntries / 10 + 1 + (run m.step ∅ calls).keys.length ≤
          texts.length := by
        omega
      obtain ⟨fresh, hlength, hfresh, hnew⟩ := exists_new_texts hnodup _ hroom
      obtain ⟨hfits, hgrows⟩ := length_step_answeredBatch hmax (by omega) hlength hfresh hnew
      refine ⟨calls ++ [.batch (answeredBatch fresh)], ?_, ?_⟩
      · exact (allSteps_append _ _ _).2 ⟨hcalls, hfits, trivial⟩
      · rw [run_append]
        exact hreached.trans_lt hgrows

def answeredEmbed (text : String) : EmbedderCall := .embed ⟨text, 0, .ok [], AgeScan.listed, 0⟩

theorem length_step_answeredEmbed (hmax : 0 < m.config.cacheMaxEntries) {text : String}
    (hnew : m.cacheKey text ∉ cache) (hroom : cache.keys.length ≤ m.config.cacheMaxEntries) :
    (m.step cache (answeredEmbed text)).keys.length = cache.keys.length + 1 := by
  show (m.embed cache ⟨text, 0, .ok [], AgeScan.listed, 0⟩).1.keys.length = _
  unfold embed
  rw [cached_of_notMem hnew]
  dsimp only
  rw [if_pos hmax, maybeEvict_of_le _ hroom]
  exact length_remember_new hmax hnew 0 []

theorem exists_run_of_embeds (hmax : 0 < m.config.cacheMaxEntries) {texts : List String}
    (hnodup : (texts.map m.cacheKey).Nodup) {n : Nat} (hn : n ≤ m.config.cacheMaxEntries + 1)
    (htexts : n ≤ texts.length) :
    ∃ calls, AllSteps m.step m.Fits ∅ calls ∧ (run m.step ∅ calls).keys.length = n := by
  induction n with
  | zero => exact ⟨[], trivial, rfl⟩
  | succ n ih =>
    obtain ⟨calls, hcalls, hreached⟩ := ih (by omega) (by omega)
    have hleft : 1 + (run m.step ∅ calls).keys.length ≤ texts.length := by omega
    obtain ⟨fresh, hlength, -, hnew⟩ := exists_new_texts hnodup _ hleft
    obtain ⟨text, rfl⟩ := List.length_eq_one_iff.1 hlength
    have hgrown := length_step_answeredEmbed hmax (hnew text List.mem_cons_self) (by omega)
    refine ⟨calls ++ [answeredEmbed text], ?_, ?_⟩
    · exact (allSteps_append _ _ _).2 ⟨hcalls, trivial, trivial⟩
    · rw [run_append, ← hreached]
      exact hgrown

theorem length_run_of_holdsAtMost {n : Nat} {calls : List EmbedderCall}
    (h : AllSteps m.step (m.HoldsAtMost n) ∅ calls) : (run m.step ∅ calls).keys.length ≤ n := by
  have hempty : (∅ : EmbeddingCache).keys.length ≤ n := Nat.zero_le n
  have hstep (cache : EmbeddingCache) (call : EmbedderCall) (hcall : m.HoldsAtMost n cache call)
      (hcache : cache.keys.length ≤ n) : (m.step cache call).keys.length ≤ n :=
    length_step_of_holdsAtMost hcall hcache
  exact run_invariant hstep hempty h

theorem exists_run_of_moments (hmax : 0 < m.config.cacheMaxEntries) {texts : List String}
    (hnodup : (texts.map m.cacheKey).Nodup)
    (hlength : m.config.cacheMaxEntries + m.batchSize + 1 ≤ texts.length) :
    ∃ calls, AllSteps m.step m.Fits ∅ calls ∧
      ¬ AllSteps m.step (m.HoldsAtMost (m.config.cacheMaxEntries + m.batchSize)) ∅ calls := by
  have hone : 1 ≤ m.batchSize := Nat.le_max_right _ _
  obtain ⟨calls, hcalls, hreached⟩ := exists_run_of_embeds hmax hnodup (Nat.le_refl _) (by omega)
  have hleft : m.batchSize + (run m.step ∅ calls).keys.length ≤ texts.length := by omega
  obtain ⟨fresh, hfresh, hkeys, hnew⟩ := exists_new_texts hnodup _ hleft
  have hne : fresh ≠ [] := by
    apply List.length_pos_iff.1
    omega
  obtain ⟨placed, hplaced, hmoment, hfits, -⟩ := exists_placed hmax hne hfresh.le hkeys hnew
  refine ⟨calls ++ [.batch (answeredBatch fresh)], ?_, ?_⟩
  · exact (allSteps_append _ _ _).2 ⟨hcalls, hfits, trivial⟩
  · intro hheld
    have hlast := ((allSteps_append _ _ _).1 hheld).2.1 placed hmoment
    omega

/-- After every call the cache stays within the limit and one batch, in every run whose answers
have no more vectors than texts, exactly if a chunk is no larger than a tenth of the limit. Then
it holds one entry more at most inside of a call, and some run does. -/
theorem cache_bounded_iff (m : SmartEmbedder) (hmax : 0 < m.config.cacheMaxEntries)
    {texts : List String} (hnodup : (texts.map m.cacheKey).Nodup)
    (hlength : m.config.cacheMaxEntries + m.batchSize + 2 + m.config.cacheMaxEntries / 10 ≤
      texts.length) :
    ((∀ calls, AllSteps m.step m.Fits ∅ calls →
        (run m.step ∅ calls).keys.length ≤ m.config.cacheMaxEntries + m.batchSize) ↔
      m.batchSize ≤ m.config.cacheMaxEntries / 10) ∧
    ((∀ calls, AllSteps m.step m.Fits ∅ calls →
        AllSteps m.step (m.HoldsAtMost (m.config.cacheMaxEntries + m.batchSize + 1)) ∅ calls) ↔
      m.batchSize ≤ m.config.cacheMaxEntries / 10) ∧
    ∃ calls, AllSteps m.step m.Fits ∅ calls ∧
      ¬ AllSteps m.step (m.HoldsAtMost (m.config.cacheMaxEntries + m.batchSize)) ∅ calls := by
  have hone : 1 ≤ m.batchSize := Nat.le_max_right _ _
  have hempty : (∅ : EmbeddingCache).keys.length ≤ m.config.cacheMaxEntries + 1 :=
    Nat.zero_le _
  have hgrows (size : Nat) (hsize : size + m.config.cacheMaxEntries / 10 ≤ texts.length)
      (hlarge : ¬ m.batchSize ≤ m.config.cacheMaxEntries / 10) :
      ∃ calls, AllSteps m.step m.Fits ∅ calls ∧ size ≤ (run m.step ∅ calls).keys.length :=
    exists_run_of_length hmax (Nat.not_le.1 hlarge) hnodup hsize
  have hstep (htenth : m.batchSize ≤ m.config.cacheMaxEntries / 10) (cache : EmbeddingCache)
      (call : EmbedderCall) (hfits : m.Fits cache call)
      (hcache : cache.keys.length ≤ m.config.cacheMaxEntries + 1) :
      (m.step cache call).keys.length ≤ m.config.cacheMaxEntries + 1 :=
    length_step_le htenth call hfits hcache
  have hheld (htenth : m.batchSize ≤ m.config.cacheMaxEntries / 10) (cache : EmbeddingCache)
      (call : EmbedderCall) (hfits : m.Fits cache call)
      (hcache : cache.keys.length ≤ m.config.cacheMaxEntries + 1) :
      m.HoldsAtMost (m.config.cacheMaxEntries + m.batchSize + 1) cache call :=
    holdsAtMost_of_le htenth call hfits hcache
  refine ⟨⟨?_, ?_⟩, ⟨?_, ?_⟩, ?_⟩
  · intro hbounded
    by_contra hlarge
    obtain ⟨calls, hcalls, hreached⟩ :=
      hgrows (m.config.cacheMaxEntries + m.batchSize + 1) (by omega) hlarge
    have hle := hbounded calls hcalls
    omega
  · intro htenth calls hcalls
    have hrun : (run m.step ∅ calls).keys.length ≤ m.config.cacheMaxEntries + 1 :=
      run_invariant (hstep htenth) hempty hcalls
    omega
  · intro hbounded
    by_contra hlarge
    obtain ⟨calls, hcalls, hreached⟩ :=
      hgrows (m.config.cacheMaxEntries + m.batchSize + 2) (by omega) hlarge
    have hle := length_run_of_holdsAtMost (hbounded calls hcalls)
    omega
  · intro htenth calls hcalls
    exact allSteps_of_invariant (hstep htenth) (hheld htenth) hempty hcalls
  · exact exists_run_of_moments hmax hnodup (by omega)

def letters : List String := ["a", "b", "c", "d", "e", "f", "g", "h", "i", "j", "k", "l", "m", "n"]

theorem nodup_letters : (letters.map (firstLetters 10 1).cacheKey).Nodup := by decide +kernel

theorem cache_bounded_letters :
    (run (firstLetters 10 1).step ∅ (letters.map answeredEmbed)).keys.length ≤ 10 + 1 := by
  have hfits : AllSteps (firstLetters 10 1).step (firstLetters 10 1).Fits ∅
      (letters.map answeredEmbed) := by
    apply allSteps_of_forall
    intro call hcall cache
    obtain ⟨text, -, rfl⟩ := List.mem_map.1 hcall
    trivial
  exact (cache_bounded_iff (firstLetters 10 1) (by decide) nodup_letters (by decide)).1.2
    (by decide) _ hfits

/-- A tenth of a small limit is nothing. -/
theorem cache_not_bounded :
    ¬ (run (firstLetters 1 1).step ∅ (["a", "b", "c"].map answeredEmbed)).keys.length ≤ 1 + 1 := by
  decide +kernel

end SmartEmbedder

end Conproxy
