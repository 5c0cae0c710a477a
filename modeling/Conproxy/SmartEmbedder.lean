import Conproxy.Lib.Chunks
import Conproxy.Lib.Machine
import Conproxy.Lib.WeightedTable
import Conproxy.Types

/-!
# The smart embedder

`embed`, `embed_batch` and `maybe_evict` of `smart_embedder.rs`, one call after the other, so that
no call finds another one in flight. The provider, the clock and the order in which `DashMap` is
iterated come from outside.
-/

namespace Conproxy

open Chunks Machine WeightedTable

set_option autoImplicit false

structure EmbedderConfig where
  provider : String
  modelName : String
  cacheMaxEntries : Nat
  cacheTtl : Duration
  maxBatchSize : Nat
deriving DecidableEq

structure CachedEmbedding where
  vector : Embedding
  createdAt : Nat

abbrev EmbeddingCache := AList fun _ : UInt64 => CachedEmbedding

/-- The order in which `maybe_evict` iterates the cache. -/
structure AgeScan where
  order : List (UInt64 × Nat) → List (UInt64 × Nat)
  perm : ∀ l, (order l).Perm l

/-- What does not change: the configuration and the hash of provider, model and text. -/
structure SmartEmbedder where
  config : EmbedderConfig
  hash : String → String → String → UInt64

structure EmbedCall where
  text : String
  now : Nat
  answer : Except String Embedding
  scan : AgeScan
  storedAt : Nat

/-- A call of `embed_batch`. The clock is read once for every text and once for every vector, and
the provider answers once for every chunk. -/
structure BatchCall where
  texts : List String
  load : Except String Unit
  now : Nat → Nat
  answers : Nat → Except String (List Embedding)
  storedAt : Nat → Nat
  scans : Nat → AgeScan

inductive BatchOutcome where
  | ok (vectors : List Embedding)
  | err (message : String)
  | panicked
deriving DecidableEq

/-- The texts to compute, with their indices. -/
abbrev Chunk := List (Nat × String)

namespace SmartEmbedder

variable (m : SmartEmbedder)

def cacheKey (text : String) : UInt64 := m.hash m.config.provider m.config.modelName text

/-- The vector of a text, unless it is missing or too old. -/
def cached (cache : EmbeddingCache) (now : Nat) (text : String) : Option Embedding :=
  match cache.lookup (m.cacheKey text) with
  | some e => if now - e.createdAt < m.config.cacheTtl then some e.vector else none
  | none => none

def remember (cache : EmbeddingCache) (storedAt : Nat) (text : String) (vector : Embedding) :
    EmbeddingCache :=
  if 0 < m.config.cacheMaxEntries then cache.insert (m.cacheKey text) ⟨vector, storedAt⟩
  else cache

/-- The keys of the oldest tenth of the limit. -/
def oldest (scan : AgeScan) (cache : EmbeddingCache) : List UInt64 :=
  let entries := scan.order (cache.entries.map fun e => (e.1, e.2.createdAt))
  ((entries.mergeSort fun a b => a.2 ≤ b.2).take (m.config.cacheMaxEntries / 10)).map Prod.fst

def maybeEvict (scan : AgeScan) (cache : EmbeddingCache) : EmbeddingCache :=
  if cache.keys.length ≤ m.config.cacheMaxEntries then cache
  else (m.oldest scan cache).foldl (fun cache key => cache.erase key) cache

def embed (cache : EmbeddingCache) (c : EmbedCall) : EmbeddingCache × Except String Embedding :=
  match m.cached cache c.now c.text with
  | some vector => (cache, .ok vector)
  | none =>
    match c.answer with
    | .ok vector =>
      if 0 < m.config.cacheMaxEntries then
        (m.remember (m.maybeEvict c.scan cache) c.storedAt c.text vector, .ok vector)
      else (cache, .ok vector)
    | .error e => (cache, .error e)

def found (cache : EmbeddingCache) (c : BatchCall) : List (Option Embedding) :=
  c.texts.zipIdx.map fun t => m.cached cache (c.now t.2) t.1

def toCompute (cache : EmbeddingCache) (c : BatchCall) : Chunk :=
  c.texts.zipIdx.filterMap fun t =>
    match m.cached cache (c.now t.2) t.1 with
    | some _ => none
    | none => some (t.2, t.1)

/-- The vectors of one chunk go into the cache and into the results. A vector without a text is an
index out of bounds, and there are no results. -/
def place (storedAt : Nat → Nat) : Chunk → List Embedding → EmbeddingCache →
    List (Option Embedding) → EmbeddingCache × Option (List (Option Embedding))
  | _, [], cache, results => (cache, some results)
  | [], _ :: _, cache, _ => (cache, none)
  | (i, text) :: chunk, vector :: computed, cache, results =>
    place storedAt chunk computed (m.remember cache (storedAt i) text vector)
      (results.set i (some vector))

def collect (results : List (Option Embedding)) : BatchOutcome :=
  match results.findIdx? Option.isNone with
  | some i => .err ("Missing embedding for text at index " ++ toString i)
  | none => .ok results.reduceOption

/-- The loop over the chunks, the first one with number `j`. -/
def computeChunks (c : BatchCall) : List Chunk → Nat → EmbeddingCache →
    List (Option Embedding) → EmbeddingCache × BatchOutcome
  | [], _, cache, results => (cache, collect results)
  | chunk :: rest, j, cache, results =>
    match c.answers j with
    | .error e => (cache, .err e)
    | .ok computed =>
      match m.place c.storedAt chunk computed cache results with
      | (cache, none) => (cache, .panicked)
      | (cache, some results) =>
        computeChunks c rest (j + 1) (m.maybeEvict (c.scans j) cache) results

def batchSize : Nat := max m.config.maxBatchSize 1

/-- The chunks that a batch asks the provider for. -/
def batches (cache : EmbeddingCache) (c : BatchCall) : List Chunk :=
  chunks m.batchSize (m.toCompute cache c)

def embedBatch (cache : EmbeddingCache) (c : BatchCall) : EmbeddingCache × BatchOutcome :=
  if c.texts.isEmpty then (cache, .ok [])
  else
    match c.load with
    | .error e => (cache, .err e)
    | .ok () => m.computeChunks c (m.batches cache c) 0 cache (m.found cache c)

end SmartEmbedder

inductive EmbedderCall where
  | embed (c : EmbedCall)
  | batch (c : BatchCall)

namespace SmartEmbedder

variable (m : SmartEmbedder)

def step (cache : EmbeddingCache) : EmbedderCall → EmbeddingCache
  | .embed c => (m.embed cache c).1
  | .batch c => (m.embedBatch cache c).1

/-- No answer that the loop over the chunks gets has more vectors than the chunk has texts. -/
def FitsFrom (c : BatchCall) : List Chunk → Nat → Prop
  | [], _ => True
  | chunk :: rest, j =>
    ∀ computed, c.answers j = .ok computed →
      computed.length ≤ chunk.length ∧ FitsFrom c rest (j + 1)

def BatchFits (cache : EmbeddingCache) (c : BatchCall) : Prop :=
  c.load = .ok () → FitsFrom c (m.batches cache c) 0

def Fits (cache : EmbeddingCache) : EmbedderCall → Prop
  | .embed _ => True
  | .batch c => m.BatchFits cache c

variable {m : SmartEmbedder} {cache : EmbeddingCache}

theorem oldest_spec (scan : AgeScan) (cache : EmbeddingCache) :
    (m.oldest scan cache).Nodup ∧ (∀ key ∈ m.oldest scan cache, key ∈ cache) ∧
      (m.oldest scan cache).length =
        min (m.config.cacheMaxEntries / 10) cache.keys.length := by
  have hperm : ((scan.order (cache.entries.map fun e => (e.1, e.2.createdAt))).mergeSort
      fun a b => a.2 ≤ b.2).Perm (cache.entries.map fun e => (e.1, e.2.createdAt)) :=
    (List.mergeSort_perm _ _).trans (scan.perm _)
  have hkeys : (cache.entries.map fun e => (e.1, e.2.createdAt)).map Prod.fst = cache.keys := by
    rw [List.map_map]
    rfl
  have hpermKeys := hperm.map Prod.fst
  rw [hkeys] at hpermKeys
  have hsub : (m.oldest scan cache).Sublist
      (((scan.order (cache.entries.map fun e => (e.1, e.2.createdAt))).mergeSort
        fun a b => a.2 ≤ b.2).map Prod.fst) :=
    (List.take_sublist _ _).map Prod.fst
  refine ⟨(hpermKeys.nodup_iff.2 cache.keys_nodup).sublist hsub, ?_, ?_⟩
  · intro key hkey
    exact AList.mem_keys.2 (hpermKeys.mem_iff.1 (hsub.subset hkey))
  · have hlength := hpermKeys.length_eq
    rw [List.length_map] at hlength
    rw [oldest, List.length_map, List.length_take, hlength]

theorem length_maybeEvict (scan : AgeScan) (h : m.config.cacheMaxEntries < cache.keys.length) :
    (m.maybeEvict scan cache).keys.length + m.config.cacheMaxEntries / 10 =
      cache.keys.length := by
  obtain ⟨hnodup, hmem, hlength⟩ := oldest_spec (m := m) scan cache
  have herased : ((m.oldest scan cache).foldl (fun (cache : EmbeddingCache) key =>
      cache.erase key) cache).keys.length + (m.oldest scan cache).length = cache.keys.length :=
    length_keys_foldl_erase cache hnodup hmem
  have htenth : m.config.cacheMaxEntries / 10 ≤ m.config.cacheMaxEntries := Nat.div_le_self _ _
  rw [maybeEvict, if_neg (Nat.not_le.2 h)]
  omega

theorem maybeEvict_of_le (scan : AgeScan) (h : cache.keys.length ≤ m.config.cacheMaxEntries) :
    m.maybeEvict scan cache = cache := if_pos h

theorem place_results (storedAt : Nat → Nat) (chunk : Chunk) (computed : List Embedding)
    (cache : EmbeddingCache) (results : List (Option Embedding)) :
    (m.place storedAt chunk computed cache results).2 =
      if computed.length ≤ chunk.length then
        some (scatter ((chunk.map Prod.fst).zip computed) results)
      else none := by
  induction chunk generalizing computed cache results with
  | nil => cases computed <;> rfl
  | cons t rest ih =>
    cases computed with
    | nil => rfl
    | cons vector computed =>
      have hrest := ih computed (m.remember cache (storedAt t.1) t.2 vector)
        (results.set t.1 (some vector))
      simp only [List.length_cons, Nat.add_le_add_iff_right]
      exact hrest

theorem place_of_fits {storedAt : Nat → Nat} {chunk : Chunk} {computed : List Embedding}
    {results : List (Option Embedding)} (h : computed.length ≤ chunk.length) :
    m.place storedAt chunk computed cache results =
      ((m.place storedAt chunk computed cache results).1,
        some (scatter ((chunk.map Prod.fst).zip computed) results)) := by
  have hresults := place_results (m := m) storedAt chunk computed cache results
  rw [if_pos h] at hresults
  exact Prod.ext rfl hresults

theorem place_of_not_fits {storedAt : Nat → Nat} {chunk : Chunk} {computed : List Embedding}
    {results : List (Option Embedding)} (h : ¬ computed.length ≤ chunk.length) :
    m.place storedAt chunk computed cache results =
      ((m.place storedAt chunk computed cache results).1, none) := by
  have hresults := place_results (m := m) storedAt chunk computed cache results
  rw [if_neg h] at hresults
  exact Prod.ext rfl hresults

theorem embedBatch_of_load {c : BatchCall} (hload : c.load = .ok ()) :
    m.embedBatch cache c =
      m.computeChunks c (m.batches cache c) 0 cache (m.found cache c) := by
  unfold embedBatch
  rw [hload]
  split
  · rename_i hempty
    unfold batches toCompute found
    rw [List.isEmpty_iff.1 hempty]
    rfl
  · rfl

def AgeScan.listed : AgeScan := ⟨id, fun _ => .refl _⟩

def answeredBatch (texts : List String) : BatchCall where
  texts := texts
  load := .ok ()
  now _ := 0
  answers _ := .ok (texts.map fun _ => [])
  storedAt _ := 0
  scans _ := AgeScan.listed

/-- Keys are the first characters. -/
def firstLetters (maxEntries maxBatch : Nat) : SmartEmbedder where
  config := ⟨"onnx", "mini", maxEntries, 3600, maxBatch⟩
  hash _ _ text := (text.toList.map Char.toNat).headD 0 |>.toUInt64

end SmartEmbedder

end Conproxy
