import Mathlib.Data.List.Infix
import Mathlib.Data.List.Dedup
import Conproxy.Lib.Sorting
import Conproxy.Semantic

/-!
# Scope filtering

`ScopeFilter` of `scope.rs`: phrases, their similarity to the content of a result, and the
three modes. The arithmetic on `f32` is a parameter: no result depends on how it rounds.
-/

namespace Conproxy

set_option autoImplicit false

/-- Rounded `f32` arithmetic. `cosine` is the value of two vectors of one length. -/
structure F32Arith where
  ofNat : Nat → F32
  add : F32 → F32 → F32
  sub : F32 → F32 → F32
  mul : F32 → F32 → F32
  div : F32 → F32 → F32
  cosine : Embedding → Embedding → F32

/-- Arithmetic without rounding, for concrete runs on numbers that need none. -/
def F32Arith.exact : F32Arith where
  ofNat n := .finite n
  add a b := lift (· + ·) a b
  sub a b := lift (· - ·) a b
  mul a b := lift (· * ·) a b
  div a b := lift (· / ·) a b
  cosine _ _ := .finite 1
where
  lift (op : ℚ → ℚ → ℚ) : F32 → F32 → F32
    | .finite a, .finite b => .finite (op a b)
    | _, _ => .nan

namespace F32

/-- `f32::max`: a `NaN` loses against any number. -/
def max (a b : F32) : F32 :=
  if a = .nan then b else if b = .nan then a else if lt a b then b else a

theorem pairwise_mergeSort {α : Type} (score : α → F32) {l : List α}
    (h : ∀ a ∈ l, ∃ q, score a = .finite q) :
    (l.mergeSort fun a b => !lt (score a) (score b)).Pairwise fun a b =>
      ¬ lt (score a) (score b) := by
  have hge {q r : ℚ} : (!lt (.finite q) (.finite r)) = true ↔ r ≤ q := by simp [lt]
  have hsorted : (l.mergeSort fun a b => !lt (score a) (score b)).Pairwise fun a b =>
      (!lt (score a) (score b)) = true := by
    refine Sorting.pairwise_mergeSort (p := fun a => ∃ q, score a = .finite q) ?_ ?_ h
    · rintro a b c ⟨q, hq⟩ ⟨r, hr⟩ ⟨s, hs⟩ hab hbc
      rw [hq, hr, hge] at hab
      rw [hr, hs, hge] at hbc
      rw [hq, hs, hge]
      exact hbc.trans hab
    · rintro a b ⟨q, hq⟩ ⟨r, hr⟩
      rw [Bool.or_eq_true, hq, hr, hge, hge]
      exact le_total r q
  apply hsorted.imp
  intro a b hab
  simpa using hab

end F32

inductive FilterMode where
  | filter
  | rerank
  | boost
deriving DecidableEq

/-- An unknown mode filters. -/
def FilterMode.ofText (u : CaseTables) (text : String) : FilterMode :=
  let lower := String.ofList (u.toLowercase text.toList)
  if lower = "rerank" then .rerank else if lower = "boost" then .boost else .filter

structure WeightedPhrase where
  text : String
  weight : F32
  minSimilarity : Option F32
deriving DecidableEq

structure ProxyScopeConfig where
  weightedPhrases : List WeightedPhrase
  seeds : List String
  mode : Option String
  minSeedSimilarity : Option F32
  seedWeight : Option F32
  queryPrefix : Option String
  lexicalWeight : Option F32
  embedBand : Option (F32 × F32)
deriving DecidableEq

namespace ProxyScopeConfig

def none : ProxyScopeConfig := ⟨[], [], .none, .none, .none, .none, .none, .none⟩

def effectivePhrases (c : ProxyScopeConfig) : List WeightedPhrase :=
  if c.weightedPhrases.isEmpty then
    (c.seeds.filter fun seed => seed ≠ "").map fun seed => ⟨seed, F32.one, .none⟩
  else c.weightedPhrases

end ProxyScopeConfig

structure PhraseEntry where
  textLower : List Char
  wordSet : List (List Char)
  weight : F32
  minSimilarity : Option F32
deriving DecidableEq

structure ScopeFilter where
  phrases : List PhraseEntry
  phraseTexts : List String
  mode : FilterMode
  minSimilarity : F32
  scopeWeight : F32
  lexicalWeight : F32
  embedBand : F32 × F32
  phraseEmbeddings : Option (List Embedding)
deriving DecidableEq

/-- The distinct words of a text. -/
def splitWhitespace (cs : List Char) : List (List Char) :=
  ((cs.splitOnP isWhitespace).filter fun word => word ≠ []).dedup

structure ScopeSignals where
  bestSim : F32
  bestWeighted : F32
  any : Bool

namespace ScopeFilter

variable (A : F32Arith) (u : CaseTables)

def phraseEntry (phrase : WeightedPhrase) : PhraseEntry :=
  let textLower := u.toLowercase phrase.text.toList
  { textLower := textLower
    wordSet := splitWhitespace textLower
    weight :=
      if phrase.weight.isFinite && F32.ge phrase.weight F32.zero then phrase.weight else F32.one
    minSimilarity := phrase.minSimilarity }

def fromConfig (c : ProxyScopeConfig) : ScopeFilter where
  phrases := c.effectivePhrases.map (phraseEntry u)
  phraseTexts := c.effectivePhrases.map WeightedPhrase.text
  mode := (c.mode.map (FilterMode.ofText u)).getD .filter
  minSimilarity := c.minSeedSimilarity.getD (.finite (1 / 4))
  scopeWeight := c.seedWeight.getD (.finite (3 / 10))
  lexicalWeight := c.lexicalWeight.getD (.finite (1 / 2))
  embedBand := c.embedBand.getD (.finite (1 / 10), .finite (55 / 100))
  phraseEmbeddings := none

def isEnabled (f : ScopeFilter) : Bool := !f.phrases.isEmpty

def withPhraseEmbeddings (f : ScopeFilter) (embeddings : List Embedding) : ScopeFilter :=
  if embeddings.length = f.phrases.length then { f with phraseEmbeddings := some embeddings }
  else f

/-- The share of the phrase's words that the content has, with a bonus for the whole text. -/
def lexicalSim (phrase : PhraseEntry) (contentLower : List Char)
    (contentWords : List (List Char)) : F32 :=
  if phrase.wordSet.isEmpty || contentWords.isEmpty then F32.zero
  else
    let shared := (phrase.wordSet.filter fun word => contentWords.contains word).length
    let ratio := A.div (A.ofNat shared) (A.ofNat phrase.wordSet.length)
    let bonus := if phrase.textLower <:+: contentLower then .finite (3 / 10) else F32.zero
    (A.add ratio bonus).clampUnit

def cosineSimilarity (a b : Embedding) : F32 :=
  if a.length ≠ b.length || a.isEmpty then F32.zero else A.cosine a b

def hybridSim (f : ScopeFilter) (index : Nat) (lexical : F32) (contentEmb : Option Embedding) :
    F32 :=
  match f.phraseEmbeddings, contentEmb with
  | some phraseEmbs, some contentEmb =>
    match phraseEmbs[index]? with
    | some phraseEmb =>
      if F32.ge lexical f.embedBand.2 || F32.lt lexical f.embedBand.1 then lexical
      else
        let semantic := (cosineSimilarity A contentEmb phraseEmb).clampUnit
        let lw := f.lexicalWeight.clampUnit
        (A.add (A.mul lw lexical) (A.mul (A.sub F32.one lw) semantic)).clampUnit
    | none => lexical
  | _, _ => lexical

/-- One phrase of the loop in `signals_for_emb`. -/
def signalStep (f : ScopeFilter) (contentLower : List Char) (contentWords : List (List Char))
    (contentEmb : Option Embedding) (s : ScopeSignals) (phrase : PhraseEntry × Nat) :
    ScopeSignals :=
  let lexical := lexicalSim A phrase.1 contentLower contentWords
  let sim := hybridSim A f phrase.2 lexical contentEmb
  if F32.lt sim (phrase.1.minSimilarity.getD f.minSimilarity) then s
  else
    { bestSim := F32.max s.bestSim sim
      bestWeighted := F32.max s.bestWeighted (A.mul sim phrase.1.weight)
      any := true }

def signalsForEmb (f : ScopeFilter) (content : String) (contentEmb : Option Embedding) :
    ScopeSignals :=
  if f.phrases.isEmpty then ⟨F32.one, F32.one, true⟩
  else
    let contentLower := u.toLowercase content.toList
    f.phrases.zipIdx.foldl
      (signalStep A f contentLower (splitWhitespace contentLower) contentEmb)
      ⟨F32.zero, F32.zero, false⟩

/-- The decision of filter mode on one result. -/
def keeps (f : ScopeFilter) (contentEmb : Option Embedding) (r : SearchResult) : Bool :=
  let s := f.signalsForEmb A u r.content contentEmb
  s.any && F32.ge s.bestSim f.minSimilarity

def applyFilter (f : ScopeFilter) (embeddings : Nat → Option Embedding)
    (results : List SearchResult) : List SearchResult :=
  (results.zipIdx.filter fun r => f.keeps A u (embeddings r.2) r.1).map Prod.fst

def maxWeight (f : ScopeFilter) : F32 :=
  F32.max ((f.phrases.map PhraseEntry.weight).foldl F32.max F32.one) F32.one

def scopeSignal (f : ScopeFilter) (s : ScopeSignals) : F32 :=
  (A.div s.bestWeighted f.maxWeight).clampUnit

def rerankScore (f : ScopeFilter) (embedding : Option Embedding) (r : SearchResult) : F32 :=
  let s := f.signalsForEmb A u r.content embedding
  let w := f.scopeWeight.clampUnit
  A.add (A.mul (A.sub F32.one w) r.score)
    (A.mul w (if s.any then f.scopeSignal A s else F32.zero))

/-- Best blended score first; scores that do not compare keep their order. -/
def applyRerank (f : ScopeFilter) (embeddings : Nat → Option Embedding)
    (results : List SearchResult) : List SearchResult :=
  let scored := results.zipIdx.map fun r =>
    { r.1 with score := f.rerankScore A u (embeddings r.2) r.1 }
  scored.mergeSort fun a b => !F32.lt a.score b.score

def applyBoost (f : ScopeFilter) (embeddings : Nat → Option Embedding)
    (results : List SearchResult) : List SearchResult :=
  let w := f.scopeWeight.clampUnit
  results.zipIdx.map fun r =>
    let s := f.signalsForEmb A u r.1.content (embeddings r.2)
    if s.any && F32.ge s.bestSim f.minSimilarity then
      { r.1 with
        score := A.mul r.1.score (A.add F32.one (A.mul w (f.scopeSignal A s))) }
    else r.1

def filterResultsHybrid (f : ScopeFilter) (embeddings : Nat → Option Embedding)
    (results : List SearchResult) : List SearchResult :=
  if f.isEnabled then
    match f.mode with
    | .filter => f.applyFilter A u embeddings results
    | .rerank => f.applyRerank A u embeddings results
    | .boost => f.applyBoost A u embeddings results
  else results

def filterResults (f : ScopeFilter) (results : List SearchResult) : List SearchResult :=
  f.filterResultsHybrid A u (fun _ => none) results

/-- `apply_scope_filter` of `query_core.rs`. The embedder is `none` if there is none, or if one
of its two calls fails. -/
def apply (embedder : Option (String → Embedding)) (f : ScopeFilter)
    (results : List SearchResult) : List SearchResult :=
  if f.isEnabled = false then results
  else
    match embedder with
    | some embed =>
      if f.phraseTexts.isEmpty || results.isEmpty then f.filterResults A u results
      else
        (f.withPhraseEmbeddings (f.phraseTexts.map embed)).filterResultsHybrid A u
          (fun i => (results[i]?).map fun r => embed r.content) results
    | none => f.filterResults A u results

def drops (f : ScopeFilter) : Bool := f.isEnabled && f.mode = .filter

/-- A result passes a filter that keeps it, either by its words alone or with the embedder's
vectors for the phrases and the content. -/
def Passes (embedder : Option (String → Embedding)) (f : ScopeFilter) (r : SearchResult) : Prop :=
  f.keeps A u none r = true ∨
    ∃ embed ∈ embedder,
      (f.withPhraseEmbeddings (f.phraseTexts.map embed)).keeps A u (some (embed r.content)) r = true

variable {A u} {f : ScopeFilter} {r : SearchResult} {results : List SearchResult}

theorem mem_applyFilter {embeddings : Nat → Option Embedding}
    (h : r ∈ f.applyFilter A u embeddings results) :
    ∃ i, results[i]? = some r ∧ f.keeps A u (embeddings i) r = true := by
  unfold applyFilter at h
  obtain ⟨⟨r', i⟩, hmem, rfl⟩ := List.mem_map.mp h
  obtain ⟨hindex, hkeeps⟩ := List.mem_filter.mp hmem
  exact ⟨i, List.mk_mem_zipIdx_iff_getElem?.mp hindex, hkeeps⟩

theorem drops_withPhraseEmbeddings (embeddings : List Embedding) :
    (f.withPhraseEmbeddings embeddings).drops = f.drops := by
  unfold withPhraseEmbeddings
  split <;> rfl

theorem filterResultsHybrid_of_drops (hdrops : f.drops = true)
    (embeddings : Nat → Option Embedding) (results : List SearchResult) :
    f.filterResultsHybrid A u embeddings results = f.applyFilter A u embeddings results := by
  obtain ⟨henabled, hmode⟩ : f.isEnabled = true ∧ f.mode = .filter := by
    simpa [drops] using hdrops
  simp only [filterResultsHybrid, henabled, hmode, if_true]

theorem mem_filterResults (hdrops : f.drops = true) (h : r ∈ f.filterResults A u results) :
    f.keeps A u none r = true := by
  unfold filterResults at h
  rw [filterResultsHybrid_of_drops hdrops] at h
  obtain ⟨i, -, hkeeps⟩ := mem_applyFilter h
  exact hkeeps

/-- What `apply_scope_filter` returns passes the filter, whether or not the embedder answered. -/
theorem passes_of_mem_apply {embedder available : Option (String → Embedding)}
    (havailable : available = none ∨ available = embedder) (hdrops : f.drops = true)
    (h : r ∈ f.apply A u available results) : f.Passes A u embedder r := by
  have henabled : ¬ f.isEnabled = false := by
    simp only [drops, Bool.and_eq_true] at hdrops
    simp [hdrops.1]
  unfold apply at h
  rw [if_neg henabled] at h
  split at h
  · rename_i embed
    obtain rfl : some embed = embedder := havailable.resolve_left (by simp)
    split at h
    · exact .inl (mem_filterResults hdrops h)
    · rw [filterResultsHybrid_of_drops (by rwa [drops_withPhraseEmbeddings])] at h
      obtain ⟨i, hindex, hkeeps⟩ := mem_applyFilter h
      refine .inr ⟨embed, rfl, ?_⟩
      rwa [hindex] at hkeeps
  · exact .inl (mem_filterResults hdrops h)

end ScopeFilter

end Conproxy
