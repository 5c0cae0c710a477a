import Mathlib.Algebra.Order.Field.Rat
import Conproxy.BestEffort

/-!
# The modes of the scope filter

`filter_results` and `filter_with_discarded` of `scope.rs` by the words of the results. What filter
mode decides is the same in any arithmetic; the scores of the other modes are computed without
rounding.
-/

namespace Conproxy

set_option autoImplicit false

theorem F32.le_max_iff {m a b : F32} (hm : m ≠ nan) : m ≤ F32.max a b ↔ m ≤ a ∨ m ≤ b := by
  have hnan : ¬ m ≤ nan := by
    intro h
    exact ne_nan_of_le h hm rfl
  unfold F32.max
  by_cases ha : a = nan
  · rw [if_pos ha, ha]
    exact (or_iff_right hnan).symm
  · rw [if_neg ha]
    by_cases hb : b = nan
    · rw [if_pos hb, hb]
      exact (or_iff_left hnan).symm
    · rw [if_neg hb]
      by_cases hab : lt a b = true
      · have hle : a ≤ b := le_of_lt (show a < b from hab)
        rw [if_pos hab]
        exact (or_iff_right_of_imp fun h => h.trans hle).symm
      · have hle : b ≤ a := le_of_not_lt ha hb hab
        rw [if_neg hab]
        exact (or_iff_left_of_imp fun h => h.trans hle).symm

inductive DiscardReason where
  | belowThreshold (actual threshold : F32)

structure DiscardedResult where
  id : String
  similarity : F32
  reason : DiscardReason

namespace ScopeFilter

section Source

variable (A : F32Arith) (u : CaseTables)

def discarded (f : ScopeFilter) (r : SearchResult) : DiscardedResult :=
  let s := f.signalsForEmb A u r.content none
  -- With no contributor the source reports `ScopeSignals::NONE`, from which the loop starts.
  ⟨r.id, s.bestSim, .belowThreshold s.bestSim f.minSimilarity⟩

def filterWithDiscarded (f : ScopeFilter) (results : List SearchResult) :
    List SearchResult × List DiscardedResult :=
  if f.isEnabled then
    results.foldl
      (fun sides r =>
        if f.keeps A u none r then (sides.1 ++ [r], sides.2)
        else (sides.1, sides.2 ++ [f.discarded A u r]))
      ([], [])
  else (results, [])

/-- The similarity of a phrase to a content, by their words. -/
def wordSim (content : String) (phrase : PhraseEntry) : F32 :=
  let contentLower := u.toLowercase content.toList
  lexicalSim A phrase contentLower (splitWhitespace contentLower)

def floor (f : ScopeFilter) (phrase : PhraseEntry) : F32 :=
  phrase.minSimilarity.getD f.minSimilarity

/-- A phrase contributes to a content if its similarity is not below its floor. -/
def Contributes (f : ScopeFilter) (content : String) (phrase : PhraseEntry) : Prop :=
  F32.lt (wordSim A u content phrase) (f.floor phrase) = false

end Source

end ScopeFilter

def PhraseEntry.unweighted (phrase : PhraseEntry) : PhraseEntry := { phrase with weight := F32.one }

namespace ScopeFilter

variable {A : F32Arith} {u : CaseTables} {f g : ScopeFilter}

theorem signalStep_none (f : ScopeFilter) (content : String) (s : ScopeSignals)
    (phrase : PhraseEntry × Nat) :
    f.signalStep A (u.toLowercase content.toList)
        (splitWhitespace (u.toLowercase content.toList)) none s phrase =
      if F32.lt (wordSim A u content phrase.1) (f.floor phrase.1) then s
      else
        { bestSim := F32.max s.bestSim (wordSim A u content phrase.1)
          bestWeighted :=
            F32.max s.bestWeighted (A.mul (wordSim A u content phrase.1) phrase.1.weight)
          any := true } := by
  have hsim (lexical : F32) : f.hybridSim A phrase.2 lexical none = lexical := by
    unfold hybridSim
    cases f.phraseEmbeddings <;> rfl
  unfold signalStep
  dsimp only
  rw [hsim]
  rfl

/-- The two running values of the loop: whether a phrase contributed, and what the best similarity
of a contributor reaches. -/
theorem foldl_signalStep (f : ScopeFilter) (content : String) (phrases : List (PhraseEntry × Nat))
    (s : ScopeSignals) :
    let t := phrases.foldl (f.signalStep A (u.toLowercase content.toList)
      (splitWhitespace (u.toLowercase content.toList)) none) s
    (t.any = true ↔ s.any = true ∨ ∃ phrase ∈ phrases, f.Contributes A u content phrase.1) ∧
      ∀ m, m ≠ F32.nan →
        (m ≤ t.bestSim ↔ m ≤ s.bestSim ∨
          ∃ phrase ∈ phrases, f.Contributes A u content phrase.1 ∧
            m ≤ wordSim A u content phrase.1) := by
  induction phrases generalizing s with
  | nil => simp
  | cons phrase rest ih =>
    rw [List.foldl_cons, signalStep_none]
    cases hlow : F32.lt (wordSim A u content phrase.1) (f.floor phrase.1) with
    | true =>
      have hnot : ¬ f.Contributes A u content phrase.1 := by
        intro h
        exact Bool.false_ne_true (h.symm.trans hlow)
      simpa [hnot] using ih s
    | false =>
      have hcontributes : f.Contributes A u content phrase.1 := hlow
      obtain ⟨hany, hbest⟩ := ih
        { bestSim := F32.max s.bestSim (wordSim A u content phrase.1)
          bestWeighted :=
            F32.max s.bestWeighted (A.mul (wordSim A u content phrase.1) phrase.1.weight)
          any := true }
      refine ⟨?_, ?_⟩
      · simp [hany, hcontributes]
      · intro m hm
        refine (hbest m hm).trans ?_
        rw [F32.le_max_iff hm]
        simp [hcontributes, or_assoc]

/-- Filter mode keeps a result if a phrase contributes and zero or the similarity of a
contributor reaches the threshold. -/
theorem keeps_iff (hphrases : f.phrases ≠ []) (r : SearchResult) :
    f.keeps A u none r = true ↔
      (∃ phrase ∈ f.phrases, f.Contributes A u r.content phrase) ∧ f.minSimilarity ≠ .nan ∧
        (f.minSimilarity ≤ F32.zero ∨
          ∃ phrase ∈ f.phrases, f.Contributes A u r.content phrase ∧
            f.minSimilarity ≤ wordSim A u r.content phrase) := by
  have hmem (p : PhraseEntry → Prop) :
      (∃ phrase ∈ f.phrases.zipIdx, p phrase.1) ↔ ∃ phrase ∈ f.phrases, p phrase := by
    constructor
    · rintro ⟨⟨phrase, i⟩, hin, hp⟩
      exact ⟨phrase, List.mem_of_getElem? (List.mk_mem_zipIdx_iff_getElem?.1 hin), hp⟩
    · rintro ⟨phrase, hin, hp⟩
      obtain ⟨i, hi⟩ := List.mem_iff_getElem?.1 hin
      exact ⟨(phrase, i), List.mk_mem_zipIdx_iff_getElem?.2 hi, hp⟩
  have hempty : f.phrases.isEmpty = false := by simpa using hphrases
  obtain ⟨hany, hbest⟩ := foldl_signalStep (A := A) (u := u) f r.content f.phrases.zipIdx
    ⟨F32.zero, F32.zero, false⟩
  unfold keeps signalsForEmb
  rw [hempty, Bool.and_eq_true, F32.ge_iff, and_comm (a := f.minSimilarity ≤ _)]
  refine and_congr ?_ (and_congr_right ?_)
  · simpa [hmem] using hany
  · intro hm
    simpa [hmem fun phrase => f.Contributes A u r.content phrase ∧
      f.minSimilarity ≤ wordSim A u r.content phrase] using hbest f.minSimilarity hm

/-- More phrases keep more, whatever their weights and their order. -/
theorem keeps_mono (hphrases : f.phrases ≠ []) (hmin : f.minSimilarity = g.minSimilarity)
    (hsub : f.phrases.map PhraseEntry.unweighted ⊆ g.phrases.map PhraseEntry.unweighted)
    {r : SearchResult} (h : f.keeps A u none r = true) : g.keeps A u none r = true := by
  have hfloor {p q : PhraseEntry} (heq : p.unweighted = q.unweighted) :
      (f.Contributes A u r.content p → g.Contributes A u r.content q) ∧
        wordSim A u r.content p = wordSim A u r.content q := by
    have hwords := congrArg (wordSim A u r.content) heq
    have hown := congrArg PhraseEntry.minSimilarity heq
    have hsim : wordSim A u r.content p = wordSim A u r.content q := hwords
    have hsame : p.minSimilarity = q.minSimilarity := hown
    have hlow : f.floor p = g.floor q := by rw [floor, floor, hsame, hmin]
    refine ⟨?_, hsim⟩
    unfold Contributes
    rw [hsim, hlow]
    exact id
  have hfind {p : PhraseEntry} (hp : p ∈ f.phrases) :
      ∃ q ∈ g.phrases, p.unweighted = q.unweighted := by
    obtain ⟨q, hq, heq⟩ := List.mem_map.1 (hsub (List.mem_map_of_mem hp))
    exact ⟨q, hq, heq.symm⟩
  obtain ⟨⟨p, hp, hcontributes⟩, hnan, hreach⟩ := (keeps_iff hphrases r).1 h
  obtain ⟨q, hq, heq⟩ := hfind hp
  rw [hmin] at hnan hreach
  refine (keeps_iff (List.ne_nil_of_mem hq) r).2 ⟨⟨q, hq, (hfloor heq).1 hcontributes⟩, hnan, ?_⟩
  rcases hreach with hzero | ⟨p', hp', hcontributes', hle⟩
  · exact .inl hzero
  · obtain ⟨q', hq', heq'⟩ := hfind hp'
    rw [(hfloor heq').2] at hle
    exact .inr ⟨q', hq', (hfloor heq').1 hcontributes', hle⟩

theorem applyFilter_none (f : ScopeFilter) (results : List SearchResult) :
    f.applyFilter A u (fun _ => none) results = results.filter (f.keeps A u none) := by
  have hmap := List.filter_map (f := Prod.fst) (p := f.keeps A u none) (l := results.zipIdx)
  rw [List.zipIdx_map_fst] at hmap
  exact hmap.symm

theorem filterResults_eq_filter (hmode : f.mode = .filter) (hphrases : f.phrases ≠ [])
    (results : List SearchResult) :
    f.filterResults A u results = results.filter (f.keeps A u none) := by
  have hdrops : f.drops = true := by simp [drops, isEnabled, hmode, hphrases]
  unfold filterResults
  rw [filterResultsHybrid_of_drops hdrops, applyFilter_none]

theorem filterWithDiscarded_eq (hphrases : f.phrases ≠ []) (results : List SearchResult) :
    f.filterWithDiscarded A u results =
      (results.filter (f.keeps A u none),
        (results.filter fun r => !f.keeps A u none r).map (f.discarded A u)) := by
  have henabled : f.isEnabled = true := by simp [isEnabled, hphrases]
  have hfold (sides : List SearchResult × List DiscardedResult) :
      results.foldl
          (fun sides r =>
            if f.keeps A u none r then (sides.1 ++ [r], sides.2)
            else (sides.1, sides.2 ++ [f.discarded A u r])) sides =
        (sides.1 ++ results.filter (f.keeps A u none),
          sides.2 ++ (results.filter fun r => !f.keeps A u none r).map (f.discarded A u)) := by
    induction results generalizing sides with
    | nil => simp
    | cons r rest ih =>
      rw [List.foldl_cons, ih]
      cases hkeeps : f.keeps A u none r <;> simp [hkeeps]
  rw [filterWithDiscarded, if_pos henabled, hfold]
  rfl

/-- The laws of filter mode. -/
theorem filter_mode_laws (A : F32Arith) (u : CaseTables) {f : ScopeFilter}
    (hmode : f.mode = .filter) (hphrases : f.phrases ≠ []) :
    (∀ results, (f.filterResults A u results).Sublist results) ∧
    (∀ results, f.filterResults A u (f.filterResults A u results) =
      f.filterResults A u results) ∧
    (∀ results results', f.filterResults A u (results ++ results') =
      f.filterResults A u results ++ f.filterResults A u results') ∧
    (∀ g : ScopeFilter, g.mode = .filter → g.minSimilarity = f.minSimilarity →
      (g.phrases.map PhraseEntry.unweighted).Perm (f.phrases.map PhraseEntry.unweighted) →
      ∀ results, g.filterResults A u results = f.filterResults A u results) ∧
    (∀ g : ScopeFilter, g.mode = .filter → g.minSimilarity = f.minSimilarity →
      f.phrases ⊆ g.phrases →
      ∀ results, (f.filterResults A u results).Sublist (g.filterResults A u results)) ∧
    ∀ results, ∃ dropped,
      f.filterWithDiscarded A u results =
        (f.filterResults A u results, dropped.map (f.discarded A u)) ∧
      (f.filterResults A u results ++ dropped).Perm results := by
  have heq (results : List SearchResult) := filterResults_eq_filter (A := A) (u := u) hmode
    hphrases results
  refine ⟨?_, ?_, ?_, ?_, ?_, ?_⟩
  · intro results
    rw [heq]
    exact List.filter_sublist
  · intro results
    rw [heq, heq, List.filter_filter]
    simp only [Bool.and_self]
  · intro results results'
    rw [heq, heq, heq, List.filter_append]
  · intro g hg hmin hperm results
    have hg' : g.phrases ≠ [] := by
      intro hnil
      rw [hnil] at hperm
      exact hphrases (List.map_eq_nil_iff.1 hperm.nil_eq.symm)
    rw [heq, filterResults_eq_filter hg hg']
    apply List.filter_congr
    intro r _
    rw [Bool.eq_iff_iff]
    exact ⟨keeps_mono hg' hmin hperm.subset, keeps_mono hphrases hmin.symm hperm.symm.subset⟩
  · intro g hg hmin hsub results
    have hg' : g.phrases ≠ [] := by
      obtain ⟨phrase, hphrase⟩ := List.exists_mem_of_ne_nil _ hphrases
      exact List.ne_nil_of_mem (hsub hphrase)
    rw [heq, filterResults_eq_filter hg hg']
    apply List.monotone_filter_right
    intro r
    exact keeps_mono hphrases hmin.symm (List.map_subset _ hsub)
  · intro results
    refine ⟨results.filter fun r => !f.keeps A u none r, ?_, ?_⟩
    · rw [filterWithDiscarded_eq hphrases, heq]
    · rw [heq]
      exact List.filter_append_perm _ _

/-- One phrase, in some mode. -/
def rust (mode : FilterMode) : ScopeFilter :=
  { fromConfig CaseTables.ascii
      { ProxyScopeConfig.none with weightedPhrases := [⟨"rust", F32.one, none⟩] } with
    mode := mode }

def rustHits : List SearchResult :=
  [⟨"1", .finite 1, "about go", none, none⟩, ⟨"2", .finite (9 / 10), "about rust", none, none⟩]

theorem rust_phrases (mode : FilterMode) : (rust mode).phrases ≠ [] := List.cons_ne_nil _ _

theorem filter_mode_laws_rust :
    ((rust .filter).filterResults F32Arith.exact CaseTables.ascii rustHits).Sublist rustHits :=
  (filter_mode_laws F32Arith.exact CaseTables.ascii rfl (rust_phrases .filter)).1 rustHits

end ScopeFilter

namespace F32

theorem clampUnit_finite (q : ℚ) :
    ∃ c, clampUnit (.finite q) = .finite c ∧ 0 ≤ c ∧ c ≤ 1 := by
  unfold clampUnit
  by_cases hneg : lt (.finite q) zero = true
  · rw [if_pos hneg]
    exact ⟨0, rfl, le_refl 0, zero_le_one⟩
  · rw [if_neg hneg]
    by_cases habove : lt one (.finite q) = true
    · rw [if_pos habove]
      exact ⟨1, rfl, zero_le_one, le_refl 1⟩
    · rw [if_neg habove]
      simp only [lt, zero, one, decide_eq_true_eq, not_lt] at hneg habove
      exact ⟨q, rfl, hneg, habove⟩

theorem max_finite (a b : ℚ) : ∃ c, F32.max (.finite a) (.finite b) = .finite c := by
  unfold F32.max
  rw [if_neg (by intro h; cases h), if_neg (by intro h; cases h)]
  split
  · exact ⟨b, rfl⟩
  · exact ⟨a, rfl⟩

theorem foldl_max_finite {values : List F32} (h : ∀ a ∈ values, ∃ q, a = .finite q) (q : ℚ) :
    ∃ c, values.foldl F32.max (.finite q) = .finite c := by
  induction values generalizing q with
  | nil => exact ⟨q, rfl⟩
  | cons a rest ih =>
    obtain ⟨b, rfl⟩ := h a List.mem_cons_self
    obtain ⟨c, hc⟩ := max_finite q b
    rw [List.foldl_cons, hc]
    exact ih (fun a ha => h a (List.mem_cons_of_mem _ ha)) c

end F32

def SearchResult.unscored (r : SearchResult) : SearchResult := { r with score := F32.zero }

namespace ScopeFilter

variable {u : CaseTables} {f : ScopeFilter} {results : List SearchResult}

/-- The numbers that the scores are computed from are numbers. -/
structure Rational (f : ScopeFilter) : Prop where
  scopeWeight : ∃ q, f.scopeWeight = .finite q
  weights : ∀ phrase ∈ f.phrases, ∃ q, phrase.weight = .finite q

theorem wordSim_finite (content : String) (phrase : PhraseEntry) :
    ∃ q, wordSim F32Arith.exact u content phrase = .finite q := by
  unfold wordSim lexicalSim
  dsimp only
  split
  · exact ⟨0, rfl⟩
  · split
    · obtain ⟨c, hc, -⟩ := F32.clampUnit_finite _
      exact ⟨c, hc⟩
    · obtain ⟨c, hc, -⟩ := F32.clampUnit_finite _
      exact ⟨c, hc⟩

theorem bestWeighted_finite (hf : f.Rational) (content : String) :
    ∃ q, (f.signalsForEmb F32Arith.exact u content none).bestWeighted = .finite q := by
  have hfold (phrases : List (PhraseEntry × Nat)) (hsub : ∀ phrase ∈ phrases, phrase.1 ∈ f.phrases)
      (s : ScopeSignals) (hs : ∃ q, s.bestWeighted = .finite q) :
      ∃ q, (phrases.foldl (f.signalStep F32Arith.exact (u.toLowercase content.toList)
        (splitWhitespace (u.toLowercase content.toList)) none) s).bestWeighted = .finite q := by
    induction phrases generalizing s with
    | nil => exact hs
    | cons phrase rest ih =>
      rw [List.foldl_cons, signalStep_none]
      apply ih (fun phrase h => hsub phrase (List.mem_cons_of_mem _ h))
      split
      · exact hs
      · obtain ⟨best, hbest⟩ := hs
        obtain ⟨sim, hsim⟩ := wordSim_finite (u := u) content phrase.1
        obtain ⟨weight, hweight⟩ := hf.weights phrase.1 (hsub phrase List.mem_cons_self)
        dsimp only
        rw [hbest, hsim, hweight]
        exact F32.max_finite best (sim * weight)
  unfold signalsForEmb
  split
  · exact ⟨1, rfl⟩
  · refine hfold _ ?_ _ ⟨0, rfl⟩
    intro phrase h
    exact List.mem_of_getElem? (List.mk_mem_zipIdx_iff_getElem?.1 h)

theorem maxWeight_finite (hf : f.Rational) : ∃ q, f.maxWeight = .finite q := by
  have hweights : ∀ a ∈ f.phrases.map PhraseEntry.weight, ∃ q, a = F32.finite q := by
    intro a ha
    obtain ⟨phrase, hphrase, rfl⟩ := List.mem_map.1 ha
    exact hf.weights phrase hphrase
  obtain ⟨c, hc⟩ := F32.foldl_max_finite hweights 1
  have hfold : (f.phrases.map PhraseEntry.weight).foldl F32.max F32.one = .finite c := hc
  unfold maxWeight
  rw [hfold]
  exact F32.max_finite c 1

theorem scopeSignal_finite (hf : f.Rational) (content : String) :
    ∃ c, f.scopeSignal F32Arith.exact (f.signalsForEmb F32Arith.exact u content none) =
      .finite c ∧ 0 ≤ c ∧ c ≤ 1 := by
  obtain ⟨best, hbest⟩ := bestWeighted_finite (u := u) hf content
  obtain ⟨weight, hweight⟩ := maxWeight_finite hf
  unfold scopeSignal
  rw [hbest, hweight]
  exact F32.clampUnit_finite (best / weight)

theorem rerankScore_eq (hf : f.Rational) {w q : ℚ} (hw : f.scopeWeight.clampUnit = .finite w)
    {r : SearchResult} (hq : r.score = .finite q) :
    ∃ signal, 0 ≤ signal ∧ signal ≤ 1 ∧
      f.rerankScore F32Arith.exact u none r = .finite ((1 - w) * q + w * signal) := by
  obtain ⟨c, hc, hnonneg, hle⟩ := scopeSignal_finite (u := u) hf r.content
  unfold rerankScore
  dsimp only
  rw [hw, hq]
  split
  · rw [hc]
    exact ⟨c, hnonneg, hle, rfl⟩
  · exact ⟨0, le_refl 0, zero_le_one, rfl⟩

theorem map_comp_fst_zipIdx {α β : Type} (g : α → β) (l : List α) :
    l.zipIdx.map (g ∘ Prod.fst) = l.map g := by
  rw [← List.map_map, List.zipIdx_map_fst]

/-- A result with its blended score. -/
def reranked (u : CaseTables) (f : ScopeFilter) (r : SearchResult) : SearchResult :=
  { r with score := f.rerankScore F32Arith.exact u none r }

theorem applyRerank_none (f : ScopeFilter) (results : List SearchResult) :
    f.applyRerank F32Arith.exact u (fun _ => none) results =
      (results.map (f.reranked u)).mergeSort fun a b => !F32.lt a.score b.score := by
  have hmap := map_comp_fst_zipIdx (f.reranked u) results
  exact congrArg (fun l => List.mergeSort l fun a b => !F32.lt a.score b.score) hmap

/-- A result with its score multiplied. -/
def boosted (u : CaseTables) (f : ScopeFilter) (r : SearchResult) : SearchResult :=
  let s := f.signalsForEmb F32Arith.exact u r.content none
  if s.any && F32.ge s.bestSim f.minSimilarity then
    { r with
      score := F32Arith.exact.mul r.score (F32Arith.exact.add F32.one
        (F32Arith.exact.mul f.scopeWeight.clampUnit (f.scopeSignal F32Arith.exact s))) }
  else r

theorem applyBoost_none (f : ScopeFilter) (results : List SearchResult) :
    f.applyBoost F32Arith.exact u (fun _ => none) results = results.map (f.boosted u) :=
  map_comp_fst_zipIdx (f.boosted u) results

/-- Boost mode multiplies the score of a result by at most one plus the weight; a result that
filter mode would drop keeps its score. -/
theorem boosted_score (hf : f.Rational) {w q : ℚ} (hw : f.scopeWeight.clampUnit = .finite w)
    (hw₀ : 0 ≤ w) {r : SearchResult} (hq : r.score = .finite q) :
    ∃ factor, 1 ≤ factor ∧ factor ≤ 1 + w ∧
      (f.keeps F32Arith.exact u none r = false → factor = 1) ∧
        (f.boosted u r).score = .finite (q * factor) := by
  obtain ⟨c, hc, hnonneg, hle⟩ := scopeSignal_finite (u := u) hf r.content
  unfold boosted keeps
  dsimp only
  split
  · rename_i hkeeps
    refine ⟨1 + w * c, ?_, ?_, ?_, ?_⟩
    · exact le_add_of_nonneg_right (mul_nonneg hw₀ hnonneg)
    · exact add_le_add_right (mul_le_of_le_one_right hw₀ hle) 1
    · intro h
      exact absurd (h.symm.trans hkeeps) Bool.false_ne_true
    · dsimp only
      rw [hq, hw, hc]
      rfl
  · refine ⟨1, le_refl 1, le_add_of_nonneg_right hw₀, fun _ => rfl, ?_⟩
    rw [hq, mul_one]

/-! ## Both modes -/

/-- Best score first. -/
def Ranked (results : List SearchResult) : Prop :=
  results.Pairwise fun a b => F32.ge a.score b.score = true

theorem ranked_mergeSort (h : ∀ r ∈ results, ∃ q, r.score = .finite q) :
    Ranked (results.mergeSort fun a b => !F32.lt a.score b.score) := by
  have hnumber {r : SearchResult} (hr : r ∈ results) : r.score ≠ .nan := by
    obtain ⟨q, hq⟩ := h r hr
    rw [hq]
    intro hnan
    cases hnan
  apply (F32.pairwise_mergeSort SearchResult.score h).imp_of_mem
  intro a b ha hb hab
  rw [List.mem_mergeSort] at ha hb
  exact F32.ge_iff.2 ⟨F32.le_of_not_lt (hnumber ha) (hnumber hb) hab, hnumber hb⟩

theorem mergeSort_of_ranked (h : Ranked results) :
    (results.mergeSort fun a b => !F32.lt a.score b.score) = results := by
  apply List.mergeSort_of_pairwise
  apply h.imp
  intro a b hge
  have hle : b.score ≤ a.score := (F32.ge_iff.1 hge).1
  have hnot : F32.lt a.score b.score ≠ true := hle.not_gt
  simpa using hnot

theorem clampUnit_scopeWeight (hf : f.Rational) :
    ∃ w, f.scopeWeight.clampUnit = .finite w ∧ 0 ≤ w ∧ w ≤ 1 := by
  obtain ⟨q, hq⟩ := hf.scopeWeight
  rw [hq]
  exact F32.clampUnit_finite q

theorem rerank_eq (hmode : f.mode = .rerank) (hphrases : f.phrases ≠ [])
    (results : List SearchResult) :
    f.filterResults F32Arith.exact u results =
      (results.map (f.reranked u)).mergeSort fun a b => !F32.lt a.score b.score := by
  have henabled : f.isEnabled = true := by simp [isEnabled, hphrases]
  unfold filterResults filterResultsHybrid
  rw [if_pos henabled, hmode]
  exact applyRerank_none f results

theorem rerank_ranks (hmode : f.mode = .rerank) (hphrases : f.phrases ≠ []) (hf : f.Rational)
    (hscores : ∀ r ∈ results, ∃ q, r.score = .finite q) :
    ((f.filterResults F32Arith.exact u results).map SearchResult.unscored).Perm
        (results.map SearchResult.unscored) ∧
      Ranked (f.filterResults F32Arith.exact u results) := by
  rw [rerank_eq hmode hphrases]
  constructor
  · have hperm := (List.mergeSort_perm (results.map (f.reranked u))
      fun a b => !F32.lt a.score b.score).map SearchResult.unscored
    rw [List.map_map] at hperm
    exact hperm
  · apply ranked_mergeSort
    intro r hr
    obtain ⟨r', hr', rfl⟩ := List.mem_map.1 hr
    obtain ⟨q, hq⟩ := hscores r' hr'
    obtain ⟨w, hw, -⟩ := clampUnit_scopeWeight hf
    obtain ⟨signal, -, -, hscore⟩ := rerankScore_eq (u := u) hf hw hq
    exact ⟨_, hscore⟩

theorem boost_eq (hmode : f.mode = .boost) (hphrases : f.phrases ≠ [])
    (results : List SearchResult) :
    f.filterResults F32Arith.exact u results = results.map (f.boosted u) := by
  have henabled : f.isEnabled = true := by simp [isEnabled, hphrases]
  unfold filterResults filterResultsHybrid
  rw [if_pos henabled, hmode]
  exact applyBoost_none f results

theorem unscored_boosted (f : ScopeFilter) (r : SearchResult) :
    (f.boosted u r).unscored = r.unscored := by
  unfold boosted
  dsimp only
  split <;> rfl

theorem filterResults_of_weightless (hmode : f.mode ≠ .filter) (hphrases : f.phrases ≠ [])
    (hf : f.Rational) (hweight : f.scopeWeight = F32.zero) (hranked : Ranked results)
    (hscores : ∀ r ∈ results, ∃ q, r.score = .finite q) :
    f.filterResults F32Arith.exact u results = results := by
  have hw : f.scopeWeight.clampUnit = .finite 0 := by
    rw [hweight]
    decide +kernel
  have hrescored {r r' : SearchResult} (hscore : r'.score = r.score)
      (hrest : r'.unscored = r.unscored) : r' = r := by
    obtain ⟨id, score, content, metadata, upstreamId⟩ := r
    obtain ⟨id', score', content', metadata', upstreamId'⟩ := r'
    simp only [SearchResult.unscored, SearchResult.mk.injEq] at hrest hscore ⊢
    exact ⟨hrest.1, hscore, hrest.2.2⟩
  cases hm : f.mode with
  | filter => exact absurd hm hmode
  | rerank =>
    have hsame : ∀ r ∈ results, f.reranked u r = id r := by
      intro r hr
      obtain ⟨q, hq⟩ := hscores r hr
      obtain ⟨signal, -, -, hscore⟩ := rerankScore_eq (u := u) hf hw hq
      refine hrescored ?_ rfl
      rw [id, hq, reranked, hscore, sub_zero, one_mul, zero_mul, add_zero]
    rw [rerank_eq hm hphrases, List.map_congr_left hsame, List.map_id]
    exact mergeSort_of_ranked hranked
  | boost =>
    have hsame : ∀ r ∈ results, f.boosted u r = id r := by
      intro r hr
      obtain ⟨q, hq⟩ := hscores r hr
      obtain ⟨factor, hone, hle, -, hscore⟩ := boosted_score (u := u) hf hw (le_refl 0) hq
      refine hrescored ?_ (unscored_boosted f r)
      have hfactor : factor = 1 := by
        rw [add_zero] at hle
        exact le_antisymm hle hone
      rw [id, hscore, hq, hfactor, mul_one]
    rw [boost_eq hm hphrases, List.map_congr_left hsame, List.map_id]

/-- Rerank mode returns the same results with other scores, the best first. Boost mode leaves them
in place and multiplies each score by one, or by up to one plus the weight. Without a weight
nothing changes. -/
theorem rescoring_modes (u : CaseTables) {f : ScopeFilter} (hphrases : f.phrases ≠ [])
    (hf : f.Rational) {results : List SearchResult} (hranked : Ranked results)
    (hscores : ∀ r ∈ results, ∃ q, r.score = .finite q) :
    (f.mode = .rerank →
      ((f.filterResults F32Arith.exact u results).map SearchResult.unscored).Perm
          (results.map SearchResult.unscored) ∧
        Ranked (f.filterResults F32Arith.exact u results)) ∧
    (f.mode = .boost →
      List.Forall₂ (fun r r' => r'.unscored = r.unscored ∧
          ∃ q w factor, r.score = .finite q ∧ f.scopeWeight.clampUnit = .finite w ∧
            1 ≤ factor ∧ factor ≤ 1 + w ∧
            (f.keeps F32Arith.exact u none r = false → factor = 1) ∧
              r'.score = .finite (q * factor))
        results (f.filterResults F32Arith.exact u results)) ∧
    (f.mode ≠ .filter → f.scopeWeight = F32.zero →
      f.filterResults F32Arith.exact u results = results) := by
  refine ⟨?_, ?_, ?_⟩
  · intro hmode
    exact rerank_ranks hmode hphrases hf hscores
  · intro hmode
    rw [boost_eq hmode hphrases]
    apply List.forall₂_map_right_iff.2
    apply List.forall₂_same.2
    intro r hr
    obtain ⟨q, hq⟩ := hscores r hr
    obtain ⟨w, hw, hw₀, -⟩ := clampUnit_scopeWeight hf
    obtain ⟨factor, hone, hle, hplain, hscore⟩ := boosted_score (u := u) hf hw hw₀ hq
    exact ⟨unscored_boosted f r, q, w, factor, hq, hw, hone, hle, hplain, hscore⟩
  · intro hmode hweight
    exact filterResults_of_weightless hmode hphrases hf hweight hranked hscores

instance (results : List SearchResult) : Decidable (Ranked results) :=
  inferInstanceAs (Decidable (List.Pairwise _ _))

theorem rust_rational (mode : FilterMode) : (rust mode).Rational where
  scopeWeight := ⟨3 / 10, rfl⟩
  weights := by
    intro phrase hphrase
    obtain rfl := List.mem_singleton.1 hphrase
    exact ⟨1, by decide +kernel⟩

theorem rescoring_modes_rust :
    Ranked ((rust .rerank).filterResults F32Arith.exact CaseTables.ascii rustHits) :=
  ((rescoring_modes CaseTables.ascii (rust_phrases .rerank) (rust_rational .rerank)
    (by decide +kernel) (by
      intro r hr
      obtain rfl | rfl := by simpa [rustHits] using hr
      · exact ⟨_, rfl⟩
      · exact ⟨_, rfl⟩)).1 rfl).2

/-- Boost mode puts the second result above the first one, but behind it. -/
theorem boost_not_ranked :
    Ranked rustHits ∧
      ¬ Ranked ((rust .boost).filterResults F32Arith.exact CaseTables.ascii rustHits) := by
  decide +kernel

end ScopeFilter

end Conproxy
