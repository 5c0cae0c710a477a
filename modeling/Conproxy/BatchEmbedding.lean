import Mathlib.Data.Set.Function
import Conproxy.SmartEmbedder

/-!
# A batch against its texts one by one

A provider gives every text one vector, and `embed_batch` should return what `embed` returns for
each text. It does, whatever the cache holds by then, and it panics exactly if the provider
answers a chunk with too many vectors.
-/

namespace Conproxy

open Chunks Machine

set_option autoImplicit false

def EmbedderCall.texts : EmbedderCall → List String
  | .embed c => [c.text]
  | .batch c => c.texts

namespace SmartEmbedder

variable (m : SmartEmbedder) (v : String → Embedding)

/-- The vectors of a chunk, one for every text. -/
def vectorsOf (chunk : Chunk) : List Embedding := chunk.map fun t => v t.2

/-- Whatever the provider answers, it gives a text its vector. -/
def Truthful (cache : EmbeddingCache) : EmbedderCall → Prop
  | .embed c => ∀ vector, c.answer = .ok vector → vector = v c.text
  | .batch c => ∀ (j : Nat) (chunk : Chunk) (computed : List Embedding),
      (m.batches cache c)[j]? = some chunk → c.answers j = .ok computed →
        computed = vectorsOf v chunk

/-- The provider is there and answers every chunk. -/
structure Answered (cache : EmbeddingCache) (c : BatchCall) : Prop where
  load : c.load = .ok ()
  answers : ∀ (j : Nat) (chunk : Chunk), (m.batches cache c)[j]? = some chunk →
    c.answers j = .ok (vectorsOf v chunk)

/-- The loop over the chunks gets an answer with another number of vectors than texts. -/
def MiscountFrom (c : BatchCall) : List Chunk → Nat → Prop
  | [], _ => False
  | chunk :: rest, j =>
    ∃ computed, c.answers j = .ok computed ∧
      (computed.length ≠ chunk.length ∨ MiscountFrom c rest (j + 1))

def Miscount (cache : EmbeddingCache) (c : BatchCall) : Prop :=
  c.load = .ok () ∧ MiscountFrom c (m.batches cache c) 0

/-- A batch agrees with its texts one by one, and an answer with another number of vectors is an
error. -/
structure AgreesWithEmbed (cache : EmbeddingCache) (c : BatchCall) : Prop where
  same : m.Answered v cache c → ∃ vectors, (m.embedBatch cache c).2 = .ok vectors ∧
    vectors.length = c.texts.length ∧
      ∀ (i : Nat) (vector : Embedding), vectors[i]? = some vector →
        ∀ single : EmbedCall, c.texts[i]? = some single.text →
          single.answer = .ok (v single.text) → (m.embed cache single).2 = .ok vector
  miscounted : m.Miscount cache c → ∃ message, (m.embedBatch cache c).2 = .err message

/-- The cache holds the right vectors of some texts. -/
def Holds (T : Set String) (cache : EmbeddingCache) : Prop :=
  ∀ text ∈ T, ∀ e, cache.lookup (m.cacheKey text) = some e → e.vector = v text

variable {m : SmartEmbedder} {v : String → Embedding} {T : Set String} {cache : EmbeddingCache}

theorem Holds.cached (h : m.Holds v T cache) {text : String} (htext : text ∈ T) {now : Nat}
    {vector : Embedding} (hcached : m.cached cache now text = some vector) :
    vector = v text := by
  unfold SmartEmbedder.cached at hcached
  cases hl : cache.lookup (m.cacheKey text) with
  | none =>
    rw [hl] at hcached
    cases hcached
  | some e =>
    rw [hl] at hcached
    dsimp only at hcached
    split at hcached
    · cases hcached
      exact h text htext e hl
    · cases hcached

theorem Holds.remember (hkeys : Set.InjOn m.cacheKey T) (h : m.Holds v T cache) {text : String}
    (htext : text ∈ T) (storedAt : Nat) :
    m.Holds v T (m.remember cache storedAt text (v text)) := by
  unfold SmartEmbedder.remember
  split
  · intro other hother e he
    by_cases hsame : m.cacheKey other = m.cacheKey text
    · obtain rfl := hkeys hother htext hsame
      rw [AList.lookup_insert] at he
      cases he
      rfl
    · rw [AList.lookup_insert_ne hsame] at he
      exact h other hother e he
  · exact h

theorem Holds.maybeEvict (h : m.Holds v T cache) (scan : AgeScan) :
    m.Holds v T (m.maybeEvict scan cache) := by
  unfold SmartEmbedder.maybeEvict
  split
  · exact h
  · intro text htext e he
    have hlookup : ((m.oldest scan cache).foldl (fun (cache : EmbeddingCache) key =>
        cache.erase key) cache).lookup (m.cacheKey text) =
          if m.cacheKey text ∈ m.oldest scan cache then none
          else cache.lookup (m.cacheKey text) :=
      WeightedTable.lookup_foldl_erase cache _ _
    rw [hlookup] at he
    split at he
    · cases he
    · exact h text htext e he

theorem Holds.place (hkeys : Set.InjOn m.cacheKey T) {chunk : Chunk}
    (hchunk : ∀ t ∈ chunk, t.2 ∈ T) (h : m.Holds v T cache) (storedAt : Nat → Nat)
    (results : List (Option Embedding)) :
    m.Holds v T (m.place storedAt chunk (vectorsOf v chunk) cache results).1 := by
  induction chunk generalizing cache results with
  | nil => exact h
  | cons t rest ih =>
    apply ih (fun t' ht' => hchunk t' (List.mem_cons_of_mem _ ht'))
    exact h.remember hkeys (hchunk t List.mem_cons_self) (storedAt t.1)

theorem Holds.computeChunks (hkeys : Set.InjOn m.cacheKey T) {c : BatchCall}
    {chunks : List Chunk} (hchunks : ∀ chunk ∈ chunks, ∀ t ∈ chunk, t.2 ∈ T) {j : Nat}
    (htruthful : ∀ (i : Nat) (chunk : Chunk) (computed : List Embedding),
      chunks[i]? = some chunk → c.answers (j + i) = .ok computed → computed = vectorsOf v chunk)
    (h : m.Holds v T cache) (results : List (Option Embedding)) :
    m.Holds v T (m.computeChunks c chunks j cache results).1 := by
  induction chunks generalizing j cache results with
  | nil => exact h
  | cons chunk rest ih =>
    unfold SmartEmbedder.computeChunks
    cases hanswer : c.answers j with
    | error e => exact h
    | ok computed =>
      obtain rfl := htruthful 0 chunk computed rfl hanswer
      have hlength : (vectorsOf v chunk).length ≤ chunk.length := (List.length_map _).le
      dsimp only
      rw [place_of_fits hlength]
      apply ih (fun chunk' h' => hchunks chunk' (List.mem_cons_of_mem _ h'))
      · intro i chunk' computed' hi hanswer'
        refine htruthful (i + 1) chunk' computed' hi ?_
        rw [← hanswer', Nat.add_right_comm, Nat.add_assoc]
      · exact (h.place hkeys (hchunks chunk List.mem_cons_self) _ _).maybeEvict _

theorem texts_toCompute {c : BatchCall} (hc : ∀ text ∈ c.texts, text ∈ T) {t : Nat × String}
    (ht : t ∈ m.toCompute cache c) : t.2 ∈ T := by
  obtain ⟨s, hs, hsome⟩ := List.mem_filterMap.1 ht
  split at hsome
  · cases hsome
  · cases hsome
    exact hc s.1 (List.mem_of_getElem? (List.mk_mem_zipIdx_iff_getElem?.1 hs))

theorem batchSize_pos : 0 < m.batchSize := Nat.lt_of_lt_of_le Nat.zero_lt_one (Nat.le_max_right _ _)

theorem flatten_batches (cache : EmbeddingCache) (c : BatchCall) :
    (m.batches cache c).flatten = m.toCompute cache c :=
  flatten_chunks m.batchSize_pos _

theorem texts_batches {c : BatchCall} (hc : ∀ text ∈ c.texts, text ∈ T) :
    ∀ chunk ∈ m.batches cache c, ∀ t ∈ chunk, t.2 ∈ T := by
  intro chunk hchunk t ht
  apply texts_toCompute hc
  rw [← flatten_batches]
  exact List.mem_flatten.2 ⟨chunk, hchunk, ht⟩

/-- A truthful provider leaves the right vectors in the cache. -/
theorem Holds.step (hkeys : Set.InjOn m.cacheKey T) {call : EmbedderCall}
    (htexts : ∀ text ∈ call.texts, text ∈ T) (htruthful : m.Truthful v cache call)
    (h : m.Holds v T cache) : m.Holds v T (m.step cache call) := by
  cases call with
  | embed c =>
    show m.Holds v T (m.embed cache c).1
    unfold SmartEmbedder.embed
    split
    · exact h
    · split
      · rename_i vector hanswer
        obtain rfl := htruthful vector hanswer
        split
        · exact (h.maybeEvict _).remember hkeys (htexts c.text List.mem_cons_self) _
        · exact h
      · exact h
  | batch c =>
    show m.Holds v T (m.embedBatch cache c).1
    unfold SmartEmbedder.embedBatch
    split
    · exact h
    · split
      · exact h
      · refine h.computeChunks hkeys (texts_batches htexts) ?_ _
        intro i chunk computed hi hanswer
        rw [Nat.zero_add] at hanswer
        exact htruthful i chunk computed hi hanswer

theorem holds_run (hkeys : Set.InjOn m.cacheKey T) {calls : List EmbedderCall}
    (htexts : ∀ call ∈ calls, ∀ text ∈ call.texts, text ∈ T)
    (htruthful : AllSteps m.step (m.Truthful v) ∅ calls) :
    m.Holds v T (run m.step ∅ calls) := by
  have hall : AllSteps m.step
      (fun _ call => ∀ text ∈ call.texts, text ∈ T) ∅ calls :=
    allSteps_of_forall (fun call hcall _ => htexts call hcall) _
  have hstep (cache : EmbeddingCache) (call : EmbedderCall)
      (hok : m.Truthful v cache call ∧ ∀ text ∈ call.texts, text ∈ T)
      (hcache : m.Holds v T cache) : m.Holds v T (m.step cache call) :=
    hcache.step hkeys hok.2 hok.1
  have hempty : m.Holds v T ∅ := by
    intro text _ e he
    cases he
  exact run_invariant hstep hempty (allSteps_and htruthful hall)

theorem mem_toCompute {c : BatchCall} {t : Nat × String} :
    t ∈ m.toCompute cache c ↔
      c.texts[t.1]? = some t.2 ∧ m.cached cache (c.now t.1) t.2 = none := by
  unfold toCompute
  rw [List.mem_filterMap]
  constructor
  · rintro ⟨s, hs, hsome⟩
    cases hcached : m.cached cache (c.now s.2) s.1 with
    | some vector =>
      rw [hcached] at hsome
      cases hsome
    | none =>
      rw [hcached] at hsome
      cases hsome
      exact ⟨List.mk_mem_zipIdx_iff_getElem?.1 hs, hcached⟩
  · rintro ⟨htext, hcached⟩
    refine ⟨(t.2, t.1), List.mk_mem_zipIdx_iff_getElem?.2 htext, ?_⟩
    rw [hcached]

theorem getElem?_found (c : BatchCall) (i : Nat) :
    (m.found cache c)[i]? = (c.texts[i]?).map fun text => m.cached cache (c.now i) text := by
  rw [found, List.getElem?_map, List.getElem?_zipIdx, Option.map_map, Nat.zero_add]
  rfl

/-- The computed vectors fill what the cache did not hold. -/
theorem scatter_found (h : m.Holds v T cache) {c : BatchCall} (hc : ∀ text ∈ c.texts, text ∈ T) :
    scatter ((m.toCompute cache c).map fun t => (t.1, v t.2)) (m.found cache c) =
      (c.texts.map v).map some := by
  apply List.ext_getElem?
  intro i
  have hlength : (m.found cache c).length = c.texts.length := by
    rw [found, List.length_map, List.length_zipIdx]
  rw [List.map_map, List.getElem?_map]
  cases htext : c.texts[i]? with
  | none =>
    apply List.getElem?_eq_none
    rw [length_scatter, hlength]
    exact List.getElem?_eq_none_iff.1 htext
  | some text =>
    apply getElem?_scatter
    · intro value hvalue hi
      obtain ⟨t, ht, rfl⟩ := List.mem_map.1 hvalue
      have hsame : some text = some t.2 := by
        rw [← htext, ← hi]
        exact (mem_toCompute.1 ht).1
      exact congrArg v (Option.some.inj hsame).symm
    · cases hcached : m.cached cache (c.now i) text with
      | some vector =>
        refine .inr ?_
        rw [getElem?_found, htext, Option.map_some, hcached,
          h.cached (hc text (List.mem_of_getElem? htext)) hcached]
      | none =>
        refine .inl ⟨List.mem_map.2 ⟨(i, v text), ?_, rfl⟩, ?_⟩
        · exact List.mem_map.2 ⟨(i, text), mem_toCompute.2 ⟨htext, hcached⟩, rfl⟩
        · rw [hlength]
          exact (List.getElem?_eq_some_iff.1 htext).1

theorem collect_map_some (vectors : List Embedding) :
    collect (vectors.map some) = .ok vectors := by
  have hnone : (vectors.map some).findIdx? Option.isNone = none := by
    rw [List.findIdx?_eq_none_iff]
    intro result hresult
    obtain ⟨vector, -, rfl⟩ := List.mem_map.1 hresult
    rfl
  have hsome : (vectors.map some).reduceOption = vectors := by
    change (vectors.map some).filterMap id = vectors
    rw [List.filterMap_map]
    exact List.filterMap_some
  unfold collect
  rw [hnone, hsome]

/-- Every chunk goes to the places that its texts came from. -/
theorem computeChunks_answered {c : BatchCall} {chunks : List Chunk} {j : Nat}
    (hanswers : ∀ (i : Nat) (chunk : Chunk), chunks[i]? = some chunk →
      c.answers (j + i) = .ok (vectorsOf v chunk))
    (cache : EmbeddingCache) (results : List (Option Embedding)) :
    (m.computeChunks c chunks j cache results).2 =
      collect (scatter (chunks.flatten.map fun t => (t.1, v t.2)) results) := by
  induction chunks generalizing j cache results with
  | nil => rfl
  | cons chunk rest ih =>
    have hanswer : c.answers j = .ok (vectorsOf v chunk) := hanswers 0 chunk rfl
    have hlength : (vectorsOf v chunk).length ≤ chunk.length := (List.length_map _).le
    have hzip : (chunk.map Prod.fst).zip (vectorsOf v chunk) =
        chunk.map fun t => (t.1, v t.2) := List.zip_map'
    unfold computeChunks
    rw [hanswer]
    dsimp only
    rw [place_of_fits hlength, hzip, List.flatten_cons, List.map_append, scatter_append]
    apply ih
    intro i chunk' hi
    rw [Nat.add_right_comm]
    exact hanswers (i + 1) chunk' hi

theorem embedBatch_answered (h : m.Holds v T cache) {c : BatchCall}
    (hc : ∀ text ∈ c.texts, text ∈ T) (hanswered : m.Answered v cache c) :
    (m.embedBatch cache c).2 = .ok (c.texts.map v) := by
  have hanswers : ∀ (i : Nat) (chunk : Chunk), (m.batches cache c)[i]? = some chunk →
      c.answers (0 + i) = .ok (vectorsOf v chunk) := by
    intro i chunk hi
    rw [Nat.zero_add]
    exact hanswered.answers i chunk hi
  rw [embedBatch_of_load hanswered.load, computeChunks_answered hanswers, flatten_batches,
    scatter_found h hc, collect_map_some]

theorem embed_answered (h : m.Holds v T cache) {single : EmbedCall} (htext : single.text ∈ T)
    (hanswer : single.answer = .ok (v single.text)) :
    (m.embed cache single).2 = .ok (v single.text) := by
  unfold embed
  cases hcached : m.cached cache single.now single.text with
  | some vector => exact congrArg Except.ok (h.cached htext hcached)
  | none =>
    rw [hanswer]
    dsimp only
    split <;> rfl

/-- Too many vectors are a panic. -/
theorem computeChunks_of_not_fits {c : BatchCall} {chunks : List Chunk} {j : Nat}
    (h : ¬ FitsFrom c chunks j) (cache : EmbeddingCache) (results : List (Option Embedding)) :
    (m.computeChunks c chunks j cache results).2 = .panicked ∧ MiscountFrom c chunks j := by
  induction chunks generalizing j cache results with
  | nil => exact absurd trivial h
  | cons chunk rest ih =>
    unfold computeChunks
    cases hanswer : c.answers j with
    | error e =>
      refine absurd ?_ h
      intro computed hcomputed
      cases hanswer.symm.trans hcomputed
    | ok computed =>
      dsimp only
      by_cases hlength : computed.length ≤ chunk.length
      · have hrest : ¬ FitsFrom c rest (j + 1) := by
          intro hfits
          apply h
          intro computed' hcomputed
          obtain rfl : computed = computed' := Except.ok.inj (hanswer.symm.trans hcomputed)
          exact ⟨hlength, hfits⟩
        rw [place_of_fits hlength]
        obtain ⟨hpanicked, hmiscount⟩ := ih hrest _ _
        exact ⟨hpanicked, computed, hanswer, .inr hmiscount⟩
      · rw [place_of_not_fits hlength]
        exact ⟨rfl, computed, hanswer, .inl fun heq => hlength heq.le⟩

theorem notMem_zip {i : Nat} {indices : List Nat} (h : i ∉ indices) (computed : List Embedding) :
    i ∉ (indices.zip computed).map Prod.fst := by
  intro hi
  obtain ⟨value, hvalue, rfl⟩ := List.mem_map.1 hi
  exact h (List.of_mem_zip hvalue).1

/-- A place that stays empty is an error. -/
theorem computeChunks_of_hole {c : BatchCall} {chunks : List Chunk} {j i : Nat}
    (hfits : FitsFrom c chunks j) (hi : i ∉ chunks.flatten.map Prod.fst) {cache : EmbeddingCache}
    {results : List (Option Embedding)} (hhole : results[i]? = some none) :
    ∃ message, (m.computeChunks c chunks j cache results).2 = .err message := by
  induction chunks generalizing j cache results with
  | nil =>
    show ∃ message, collect results = .err message
    unfold collect
    cases hfind : results.findIdx? Option.isNone with
    | some k => exact ⟨_, rfl⟩
    | none =>
      have hsome := List.findIdx?_eq_none_iff.1 hfind none (List.mem_of_getElem? hhole)
      cases hsome
  | cons chunk rest ih =>
    rw [List.flatten_cons, List.map_append, List.mem_append, not_or] at hi
    unfold computeChunks
    cases hanswer : c.answers j with
    | error e => exact ⟨e, rfl⟩
    | ok computed =>
      obtain ⟨hlength, hrest⟩ := hfits computed hanswer
      dsimp only
      rw [place_of_fits hlength]
      apply ih hrest hi.2
      rw [getElem?_scatter_of_notMem (notMem_zip hi.1 computed)]
      exact hhole

theorem notMem_zip_of_lt {chunk : Chunk} {computed : List Embedding}
    (hnodup : (chunk.map Prod.fst).Nodup) (hlt : computed.length < chunk.length) :
    chunk[computed.length].1 ∉ ((chunk.map Prod.fst).zip computed).map Prod.fst := by
  intro hmem
  obtain ⟨k, hk, heq⟩ := List.getElem_of_mem hmem
  rw [List.length_map, List.length_zip, List.length_map] at hk
  have hkchunk : k < (chunk.map Prod.fst).length := by
    rw [List.length_map]
    omega
  have hlast : computed.length < (chunk.map Prod.fst).length := by
    rw [List.length_map]
    exact hlt
  have hsame : (chunk.map Prod.fst)[k] = (chunk.map Prod.fst)[computed.length] := by
    rw [List.getElem_map, List.getElem_zip] at heq
    exact heq.trans (List.getElem_map _).symm
  have hindex : k = computed.length := (hnodup.getElem_inj_iff).1 hsame
  omega

/-- Fewer vectors than texts, and nowhere more, are an error. -/
theorem computeChunks_of_miscount {c : BatchCall} {chunks : List Chunk} {j : Nat}
    (hfits : FitsFrom c chunks j) (hmiscount : MiscountFrom c chunks j)
    (hnodup : (chunks.flatten.map Prod.fst).Nodup) {cache : EmbeddingCache}
    {results : List (Option Embedding)}
    (hholes : ∀ t ∈ chunks.flatten, results[t.1]? = some none) :
    ∃ message, (m.computeChunks c chunks j cache results).2 = .err message := by
  induction chunks generalizing j cache results with
  | nil => exact absurd hmiscount id
  | cons chunk rest ih =>
    obtain ⟨computed, hanswer, hwrong⟩ := hmiscount
    obtain ⟨hlength, hrest⟩ := hfits computed hanswer
    rw [List.flatten_cons, List.map_append, List.nodup_append] at hnodup
    obtain ⟨hchunk, hnodupRest, hdisjoint⟩ := hnodup
    have hout {t : Nat × String} (ht : t ∈ chunk) : t.1 ∉ rest.flatten.map Prod.fst := by
      intro hin
      exact hdisjoint t.1 (List.mem_map_of_mem ht) t.1 hin rfl
    unfold computeChunks
    rw [hanswer]
    dsimp only
    rw [place_of_fits hlength]
    by_cases hshort : computed.length < chunk.length
    · apply computeChunks_of_hole hrest (hout (List.getElem_mem hshort))
      rw [getElem?_scatter_of_notMem (notMem_zip_of_lt hchunk hshort)]
      exact hholes _ (List.mem_flatten.2 ⟨chunk, List.mem_cons_self, List.getElem_mem hshort⟩)
    · have hmiscountRest : MiscountFrom c rest (j + 1) :=
        hwrong.resolve_left fun hne => hne (by omega)
      apply ih hrest hmiscountRest hnodupRest
      intro t ht
      have hnot : t.1 ∉ chunk.map Prod.fst := by
        intro hin
        exact hdisjoint t.1 hin t.1 (List.mem_map_of_mem ht) rfl
      rw [getElem?_scatter_of_notMem (notMem_zip hnot computed)]
      apply hholes
      rw [List.flatten_cons]
      exact List.mem_append_right _ ht

theorem nodup_toCompute (cache : EmbeddingCache) (c : BatchCall) :
    ((m.toCompute cache c).map Prod.fst).Nodup := by
  have hindices : (c.texts.zipIdx.map Prod.snd).Nodup := List.nodup_zipIdx_map_snd _
  unfold toCompute List.Nodup
  rw [List.pairwise_map]
  unfold List.Nodup at hindices
  rw [List.pairwise_map] at hindices
  apply hindices.filterMap
  intro s s' hne t ht t' ht'
  split at ht
  · cases ht
  · cases ht
    split at ht'
    · cases ht'
    · cases ht'
      exact hne

theorem embedBatch_of_fits {c : BatchCall} (hfits : m.BatchFits cache c)
    (hmiscount : m.Miscount cache c) : ∃ message, (m.embedBatch cache c).2 = .err message := by
  rw [embedBatch_of_load hmiscount.1]
  refine computeChunks_of_miscount (hfits hmiscount.1) hmiscount.2 ?_ ?_
  · rw [flatten_batches]
    exact nodup_toCompute cache c
  · rw [flatten_batches]
    intro t ht
    obtain ⟨htext, hcached⟩ := mem_toCompute.1 ht
    rw [getElem?_found, htext, Option.map_some, hcached]

theorem embedBatch_of_not_fits {c : BatchCall} (h : ¬ m.BatchFits cache c) :
    (m.embedBatch cache c).2 = .panicked ∧ m.Miscount cache c := by
  obtain ⟨hload, hnot⟩ := Classical.not_imp.1 h
  obtain ⟨hpanicked, hmiscount⟩ := computeChunks_of_not_fits (m := m) hnot cache
    (m.found cache c)
  rw [embedBatch_of_load hload]
  exact ⟨hpanicked, hload, hmiscount⟩

/-- After any calls a batch agrees with its texts one by one, exactly if no answer has more vectors
than its chunk has texts. -/
theorem embedBatch_agrees_iff (m : SmartEmbedder) (v : String → Embedding) {T : Set String}
    (hkeys : Set.InjOn m.cacheKey T) {calls : List EmbedderCall}
    (hcalls : ∀ call ∈ calls, ∀ text ∈ call.texts, text ∈ T)
    (htruthful : AllSteps m.step (m.Truthful v) ∅ calls) {c : BatchCall}
    (hc : ∀ text ∈ c.texts, text ∈ T) :
    m.AgreesWithEmbed v (run m.step ∅ calls) c ↔ m.BatchFits (run m.step ∅ calls) c := by
  have hholds : m.Holds v T (run m.step ∅ calls) := holds_run hkeys hcalls htruthful
  constructor
  · intro hagrees
    by_contra hfits
    obtain ⟨hpanicked, hmiscount⟩ := embedBatch_of_not_fits hfits
    obtain ⟨message, herr⟩ := hagrees.miscounted hmiscount
    cases hpanicked.symm.trans herr
  · intro hfits
    constructor
    · intro hanswered
      refine ⟨c.texts.map v, embedBatch_answered hholds hc hanswered, List.length_map _, ?_⟩
      intro i vector hvector single htext hanswer
      rw [List.getElem?_map, htext] at hvector
      cases hvector
      exact embed_answered hholds (hc _ (List.mem_of_getElem? htext)) hanswer
    · exact embedBatch_of_fits hfits

/-- The vector of "a", and the one of everything else. -/
def twoVectors (text : String) : Embedding :=
  if text = "a" then [.finite 1] else [.finite 2]

/-- With "a" in the cache, the provider is asked for "b" only. -/
def secondLetter : BatchCall :=
  { answeredBatch ["a", "b", "a"] with answers := fun _ => .ok [twoVectors "b"] }

def firstLetter : EmbedderCall := .embed ⟨"a", 0, .ok (twoVectors "a"), AgeScan.listed, 0⟩

theorem embedBatch_agrees_letters :
    (firstLetters 10 2).AgreesWithEmbed twoVectors (run (firstLetters 10 2).step ∅ [firstLetter])
      secondLetter := by
  have hbatches : (firstLetters 10 2).batches (run (firstLetters 10 2).step ∅ [firstLetter])
      secondLetter = [[(1, "b")]] := by
    decide +kernel
  have hkeys : Set.InjOn (firstLetters 10 2).cacheKey {"a", "b"} := by
    have hne : (firstLetters 10 2).cacheKey "a" ≠ (firstLetters 10 2).cacheKey "b" := by
      decide +kernel
    rintro x (rfl | rfl) y (rfl | rfl) hxy
    · rfl
    · exact absurd hxy hne
    · exact absurd hxy.symm hne
    · rfl
  have htexts : ∀ call ∈ [firstLetter], ∀ text ∈ call.texts,
      text ∈ ({"a", "b"} : Set String) := by
    intro call hcall text htext
    obtain rfl := List.mem_singleton.1 hcall
    obtain rfl := List.mem_singleton.1 htext
    exact .inl rfl
  have htruthful : AllSteps (firstLetters 10 2).step ((firstLetters 10 2).Truthful twoVectors) ∅
      [firstLetter] := by
    refine ⟨?_, trivial⟩
    intro vector hvector
    exact (Except.ok.inj hvector).symm
  have hbatchTexts : ∀ text ∈ secondLetter.texts, text ∈ ({"a", "b"} : Set String) := by
    intro text htext
    simpa [secondLetter, answeredBatch, or_comm] using htext
  refine (embedBatch_agrees_iff (firstLetters 10 2) twoVectors hkeys htexts htruthful
    hbatchTexts).2 ?_
  intro _
  rw [hbatches]
  intro computed hcomputed
  obtain rfl := Except.ok.inj hcomputed
  exact ⟨by decide, trivial⟩

/-- Two vectors for one text. -/
def doubled : BatchCall := { answeredBatch ["a"] with answers := fun _ => .ok [[], []] }

theorem embedBatch_panics :
    (firstLetters 10 2).Miscount ∅ doubled ∧
      ((firstLetters 10 2).embedBatch ∅ doubled).2 = .panicked := by
  have hbatches : (firstLetters 10 2).batches ∅ doubled = [[(0, "a")]] := by decide +kernel
  refine ⟨⟨rfl, ?_⟩, by decide +kernel⟩
  rw [hbatches]
  exact ⟨[[], []], rfl, .inl (by decide)⟩

end SmartEmbedder

end Conproxy
