import Mathlib.Algebra.Order.Field.Rat
import Mathlib.Data.List.Sort
import Mathlib.Data.Set.List
import Mathlib.Tactic.Positivity
import Conproxy.Lib.Ranks
import Conproxy.Cascade
import Conproxy.Sample

/-!
# Reciprocal rank fusion

`fuse_rrf` of `cascade.rs` with exact arithmetic. A document scores `1 / (k + rank)` for every place
at which a list has it, so its score is the sum over the lists only if no list has it twice.
-/

namespace Conproxy

set_option autoImplicit false

section Formula

/-- `1 / (k + rank)` for the rank of a place, counted from zero. -/
def rankWeight (k place : Nat) : ℚ := 1 / ((k : ℚ) + (place : ℚ) + 1)

def contents (results : List SearchResult) : List String := results.map SearchResult.content

/-- The documented score of a document: every list that has it adds `1 / (k + rank)`. -/
def rrfScore (k : Nat) (lists : List (List SearchResult)) (content : String) : ℚ :=
  (lists.map fun results => Ranks.first (rankWeight k) content 0 (contents results)).sum

end Formula

section Fused

variable (p : Platform) (k : Nat)

/-- The scores and representatives of all documents, before they are sorted. -/
def fusedDocuments (lists : List (List SearchResult)) : List (F32 × SearchResult) :=
  (lists.foldl (fun accum results => results.zipIdx.foldl (fuseOne F32Arith.exact p k) accum)
    (∅ : AList fun _ : QueryHash => F32 × SearchResult)).entries.map Sigma.snd

/-- The pairs of a content and its score before truncation. -/
def fusedScores (lists : List (List SearchResult)) : List (String × F32) :=
  (fusedDocuments p k lists).map fun d => (d.2.content, d.1)

/-- The hash has no collisions on the contents of the lists. -/
def KeepsApart (lists : List (List SearchResult)) : Prop :=
  ∀ l ∈ lists, ∀ r ∈ l, ∀ l' ∈ lists, ∀ r' ∈ l',
    p.blake3 (utf8 r.content) = p.blake3 (utf8 r'.content) → r.content = r'.content

/-- What fusion returns, and the pairs it is chosen from. -/
structure FusesByRank (scan : FuseScan) (lists : List (List SearchResult)) (maxResults : Nat) :
    Prop where
  distinct : (contents (fuseRrf F32Arith.exact p scan lists k maxResults)).Nodup
  bounded : (fuseRrf F32Arith.exact p scan lists k maxResults).length ≤ maxResults
  ordered : (fuseRrf F32Arith.exact p scan lists k maxResults).Pairwise fun a b =>
    rrfScore k lists b.content ≤ rrfScore k lists a.content
  scored : ∀ content score, (content, score) ∈ fusedScores p k lists ↔
    (∃ l ∈ lists, content ∈ contents l) ∧ score = .finite (rrfScore k lists content)
  independent : ∀ lists', lists'.Perm lists →
    ∀ scored, scored ∈ fusedScores p k lists' ↔ scored ∈ fusedScores p k lists

end Fused

variable {p : Platform} {k : Nat}

theorem rankWeight_pos (k place : Nat) : 0 < rankWeight k place := by
  unfold rankWeight
  positivity

def contentHash (p : Platform) (r : SearchResult) : QueryHash := p.blake3 (utf8 r.content)

def weightOf (p : Platform) (k : Nat) (key : QueryHash) (ranked : List (SearchResult × Nat)) : ℚ :=
  (ranked.map fun s => if contentHash p s.1 = key then rankWeight k s.2 else 0).sum

/-- The map holds a score for the hash of every result so far, and a result that has it. -/
structure Tallies (p : Platform) (k : Nat) (ranked : List (SearchResult × Nat))
    (accum : AList fun _ : QueryHash => F32 × SearchResult) : Prop where
  missing : ∀ key, accum.lookup key = none → ∀ s ∈ ranked, contentHash p s.1 ≠ key
  found : ∀ key score best, accum.lookup key = some (score, best) →
    score = .finite (weightOf p k key ranked) ∧ contentHash p best = key ∧
      ∃ place, (best, place) ∈ ranked

theorem weightOf_concat (key : QueryHash) (ranked : List (SearchResult × Nat))
    (s : SearchResult × Nat) :
    weightOf p k key (ranked ++ [s]) = weightOf p k key ranked +
      if contentHash p s.1 = key then rankWeight k s.2 else 0 := by
  unfold weightOf
  rw [List.map_append, List.sum_append, List.map_singleton, List.sum_singleton]

theorem weightOf_missing {key : QueryHash} {ranked : List (SearchResult × Nat)}
    (h : ∀ s ∈ ranked, contentHash p s.1 ≠ key) : weightOf p k key ranked = 0 := by
  unfold weightOf
  rw [List.map_congr_left fun s hs => if_neg (h s hs)]
  simp

theorem lookup_fuseOne_ne {key : QueryHash}
    {accum : AList fun _ : QueryHash => F32 × SearchResult} {s : SearchResult × Nat}
    (h : contentHash p s.1 ≠ key) :
    (fuseOne F32Arith.exact p k accum s).lookup key = accum.lookup key := by
  unfold fuseOne
  dsimp only
  split
  · exact AList.lookup_insert_ne (Ne.symm h)
  · exact AList.lookup_insert_ne (Ne.symm h)

theorem tallies_fuseOne {ranked : List (SearchResult × Nat)}
    {accum : AList fun _ : QueryHash => F32 × SearchResult} (h : Tallies p k ranked accum)
    (s : SearchResult × Nat) :
    Tallies p k (ranked ++ [s]) (fuseOne F32Arith.exact p k accum s) := by
  have hkeep {best : SearchResult} (hbest : ∃ place, (best, place) ∈ ranked) :
      ∃ place, (best, place) ∈ ranked ++ [s] := by
    obtain ⟨place, hmem⟩ := hbest
    exact ⟨place, List.mem_append_left _ hmem⟩
  have hnew : ∃ place, (s.1, place) ∈ ranked ++ [s] := ⟨s.2, by simp⟩
  refine ⟨fun key hkey => ?_, fun key score best hkey => ?_⟩
  · by_cases hs : contentHash p s.1 = key
    · subst hs
      unfold fuseOne at hkey
      dsimp only [contentHash] at hkey
      split at hkey
      · rw [AList.lookup_insert] at hkey
        cases hkey
      · rw [AList.lookup_insert] at hkey
        cases hkey
    · rw [lookup_fuseOne_ne hs] at hkey
      rw [List.forall_mem_append]
      exact ⟨h.missing key hkey, by simpa using hs⟩
  · by_cases hs : contentHash p s.1 = key
    · subst hs
      rw [weightOf_concat, if_pos rfl]
      unfold fuseOne at hkey
      dsimp only at hkey
      cases hold : accum.lookup (contentHash p s.1) with
      | none =>
        rw [show accum.lookup (p.blake3 (utf8 s.1.content)) = none from hold] at hkey
        dsimp only at hkey
        rw [contentHash, AList.lookup_insert] at hkey
        cases hkey
        rw [weightOf_missing (h.missing _ hold), zero_add]
        exact ⟨rfl, rfl, hnew⟩
      | some found =>
        obtain ⟨oldScore, oldBest⟩ := found
        obtain ⟨hscore, hhash, hbest⟩ := h.found _ _ _ hold
        rw [show accum.lookup (p.blake3 (utf8 s.1.content)) = some (oldScore, oldBest) from hold]
          at hkey
        dsimp only at hkey
        rw [contentHash, AList.lookup_insert] at hkey
        cases hkey
        refine ⟨?_, ?_, ?_⟩
        · rw [hscore]
          rfl
        · split
          · rfl
          · exact hhash
        · split
          · exact hnew
          · exact hkeep hbest
    · rw [lookup_fuseOne_ne hs] at hkey
      obtain ⟨hscore, hhash, hbest⟩ := h.found key score best hkey
      rw [weightOf_concat, if_neg hs, add_zero]
      exact ⟨hscore, hhash, hkeep hbest⟩

theorem tallies_foldl (ranked : List (SearchResult × Nat)) :
    Tallies p k ranked (ranked.foldl (fuseOne F32Arith.exact p k) ∅) := by
  induction ranked using List.reverseRecOn with
  | nil => exact ⟨nofun, nofun⟩
  | append_singleton ranked s ih =>
    rw [List.foldl_concat]
    exact tallies_fuseOne ih s

def rankedResults (lists : List (List SearchResult)) : List (SearchResult × Nat) :=
  lists.flatMap List.zipIdx

def documents (p : Platform) (k : Nat) (lists : List (List SearchResult)) :
    AList fun _ : QueryHash => F32 × SearchResult :=
  (rankedResults lists).foldl (fuseOne F32Arith.exact p k) ∅

theorem fusedDocuments_eq (lists : List (List SearchResult)) :
    fusedDocuments p k lists = (documents p k lists).entries.map Sigma.snd := by
  unfold fusedDocuments documents rankedResults
  rw [List.foldl_flatMap]

theorem mem_fusedDocuments {lists : List (List SearchResult)} {d : F32 × SearchResult} :
    d ∈ fusedDocuments p k lists ↔ ∃ key, (documents p k lists).lookup key = some d := by
  rw [fusedDocuments_eq, List.mem_map]
  constructor
  · rintro ⟨⟨key, found⟩, hmem, rfl⟩
    exact ⟨key, AList.mem_lookup_iff.2 hmem⟩
  · rintro ⟨key, h⟩
    exact ⟨⟨key, d⟩, AList.mem_lookup_iff.1 h, rfl⟩

theorem mem_rankedResults {lists : List (List SearchResult)} {r : SearchResult} :
    (∃ place, (r, place) ∈ rankedResults lists) ↔ ∃ l ∈ lists, r ∈ l := by
  unfold rankedResults
  simp only [List.mem_flatMap]
  constructor
  · rintro ⟨place, l, hl, hmem⟩
    exact ⟨l, hl, List.fst_mem_of_mem_zipIdx hmem⟩
  · rintro ⟨l, hl, hmem⟩
    obtain ⟨place, hplace, rfl⟩ := List.getElem_of_mem hmem
    exact ⟨place, l, hl, List.mk_mem_zipIdx_iff_getElem?.2 (List.getElem?_eq_getElem hplace)⟩

/-- The score that the code computes for a content. -/
def tally (k : Nat) (lists : List (List SearchResult)) (content : String) : ℚ :=
  (lists.map fun results => Ranks.total (rankWeight k) content 0 (contents results)).sum

theorem weightOf_zipIdx (key : QueryHash) (results : List SearchResult) (place : Nat) :
    weightOf p k key (results.zipIdx place) =
      Ranks.total (rankWeight k) key place (results.map (contentHash p)) := by
  induction results generalizing place with
  | nil => rfl
  | cons r rest ih =>
    rw [List.zipIdx_cons, List.map_cons, Ranks.total, ← ih]
    unfold weightOf
    rw [List.map_cons, List.sum_cons]

theorem weightOf_rankedResults {lists : List (List SearchResult)} (hapart : KeepsApart p lists)
    {l : List SearchResult} (hl : l ∈ lists) {r : SearchResult} (hr : r ∈ l) :
    weightOf p k (contentHash p r) (rankedResults lists) = tally k lists r.content := by
  have hsum : weightOf p k (contentHash p r) (rankedResults lists) =
      (lists.map fun results => weightOf p k (contentHash p r) results.zipIdx).sum := by
    unfold weightOf rankedResults
    rw [List.map_flatMap, List.flatMap_def, List.sum_flatten, List.map_map]
    rfl
  rw [hsum, tally]
  refine congrArg List.sum (List.map_congr_left fun results hresults => ?_)
  rw [weightOf_zipIdx]
  have hmap : results.map (contentHash p) =
      (contents results).map fun content => p.blake3 (utf8 content) := by
    unfold contents
    rw [List.map_map]
    rfl
  rw [hmap, contentHash, Ranks.total_map (f := fun content => p.blake3 (utf8 content))]
  intro content hcontent heq
  obtain ⟨r', hr', rfl⟩ := List.mem_map.1 hcontent
  exact hapart results hresults r' hr' l hl r hr heq

theorem mem_contents {lists : List (List SearchResult)} {content : String} :
    (∃ l ∈ lists, content ∈ contents l) ↔ ∃ l ∈ lists, ∃ r ∈ l, r.content = content := by
  simp [contents]

theorem mem_fusedScores {lists : List (List SearchResult)} (hapart : KeepsApart p lists)
    (content : String) (score : F32) :
    (content, score) ∈ fusedScores p k lists ↔
      (∃ l ∈ lists, content ∈ contents l) ∧ score = .finite (tally k lists content) := by
  have htallies := tallies_foldl (p := p) (k := k) (rankedResults lists)
  rw [mem_contents]
  unfold fusedScores
  simp only [List.mem_map, Prod.mk.injEq, mem_fusedDocuments]
  constructor
  · rintro ⟨⟨score', best⟩, ⟨key, hkey⟩, rfl, rfl⟩
    obtain ⟨hscore, rfl, hbest⟩ := htallies.found _ _ _ hkey
    obtain ⟨l, hl, hmem⟩ := mem_rankedResults.1 hbest
    refine ⟨⟨l, hl, best, hmem, rfl⟩, ?_⟩
    rw [hscore, weightOf_rankedResults hapart hl hmem]
  · rintro ⟨⟨l, hl, r, hr, rfl⟩, rfl⟩
    obtain ⟨place, hplace⟩ := mem_rankedResults.2 ⟨l, hl, hr⟩
    cases hkey : (documents p k lists).lookup (contentHash p r) with
    | none => exact absurd rfl (htallies.missing _ hkey _ hplace)
    | some d =>
      obtain ⟨score, best⟩ := d
      obtain ⟨hscore, hhash, hbest⟩ := htallies.found _ _ _ hkey
      obtain ⟨l', hl', hmem⟩ := mem_rankedResults.1 hbest
      refine ⟨(score, best), ⟨_, hkey⟩, hapart l' hl' best hmem l hl r hr hhash, ?_⟩
      rw [hscore, weightOf_rankedResults hapart hl hr]

theorem keepsApart_of_perm {lists lists' : List (List SearchResult)} (hapart : KeepsApart p lists)
    (h : lists'.Perm lists) : KeepsApart p lists' := fun l hl r hr l' hl' r' hr' =>
  hapart l (h.mem_iff.1 hl) r hr l' (h.mem_iff.1 hl') r' hr'

theorem fusedScores_of_perm {lists lists' : List (List SearchResult)}
    (hapart : KeepsApart p lists) (h : lists'.Perm lists) (scored : String × F32) :
    scored ∈ fusedScores p k lists' ↔ scored ∈ fusedScores p k lists := by
  obtain ⟨content, score⟩ := scored
  have htally : tally k lists' content = tally k lists content := (h.map _).sum_eq
  rw [mem_fusedScores (keepsApart_of_perm hapart h), mem_fusedScores hapart, htally]
  simp only [h.mem_iff]

theorem nodup_contents_fusedDocuments (lists : List (List SearchResult)) :
    ((fusedDocuments p k lists).map fun d => d.2.content).Nodup := by
  have hkeys := (documents p k lists).nodupKeys
  have hhash : (documents p k lists).entries.map Sigma.fst =
      ((fusedDocuments p k lists).map fun d => d.2.content).map
        fun content => p.blake3 (utf8 content) := by
    rw [fusedDocuments_eq, List.map_map, List.map_map]
    refine List.map_congr_left fun e he => ?_
    obtain ⟨key, score, best⟩ := e
    exact ((tallies_foldl (rankedResults lists)).found key score best
      (AList.mem_lookup_iff.2 he)).2.1.symm
  unfold List.NodupKeys List.keys at hkeys
  rw [hhash] at hkeys
  exact hkeys.of_map

variable (p k) in
theorem fuseRrf_eq_map (scan : FuseScan) (lists : List (List SearchResult)) (maxResults : Nat) :
    ∃ docs : List (F32 × SearchResult),
      fuseRrf F32Arith.exact p scan lists k maxResults = docs.map Prod.snd ∧
        docs.length ≤ maxResults ∧ docs.Subperm (fusedDocuments p k lists) ∧
          ((∀ d ∈ fusedDocuments p k lists, ∃ q, d.1 = .finite q) →
            docs.Pairwise fun a b => ¬ F32.lt a.1 b.1) := by
  have hperm := scan.perm (fusedDocuments p k lists)
  refine ⟨((scan.order (fusedDocuments p k lists)).mergeSort fun a b => !F32.lt a.1 b.1).take
    maxResults, rfl, List.length_take_le _ _, ?_, fun h => ?_⟩
  · exact (List.take_sublist _ _).subperm.trans
      ((List.mergeSort_perm _ _).trans hperm).subperm
  · exact (F32.pairwise_mergeSort Prod.fst fun d hd => h d (hperm.mem_iff.1 hd)).sublist
      (List.take_sublist _ _)

theorem tally_eq_rrfScore_iff (k : Nat) (lists : List (List SearchResult)) :
    (∀ content, tally k lists content = rrfScore k lists content) ↔
      ∀ l ∈ lists, (contents l).Nodup := by
  have hranks := Ranks.sum_total_eq_iff (rankWeight_pos k) (lists.map contents)
  simp only [List.map_map, List.forall_mem_map] at hranks
  exact hranks

theorem tally_eq_rrfScore_of_not_mem {lists : List (List SearchResult)} {content : String}
    (h : ¬ ∃ l ∈ lists, content ∈ contents l) :
    tally k lists content = rrfScore k lists content := by
  unfold tally rrfScore
  refine congrArg List.sum (List.map_congr_left fun l hl => ?_)
  have hmem : content ∉ contents l := fun hmem => h ⟨l, hl, hmem⟩
  rw [Ranks.total_of_not_mem hmem, Ranks.first, if_neg hmem]

/-- Fusion returns the documented ranking exactly if no list has a content twice. -/
theorem fuses_by_rank_iff (p : Platform) (k : Nat) (scan : FuseScan)
    (lists : List (List SearchResult)) (maxResults : Nat) (hapart : KeepsApart p lists) :
    FusesByRank p k scan lists maxResults ↔ ∀ l ∈ lists, (contents l).Nodup := by
  rw [← tally_eq_rrfScore_iff k]
  constructor
  · intro h content
    by_cases hlisted : ∃ l ∈ lists, content ∈ contents l
    · have hmem := (mem_fusedScores (k := k) hapart content _).2 ⟨hlisted, rfl⟩
      exact F32.finite.inj ((h.scored content _).1 hmem).2
    · exact tally_eq_rrfScore_of_not_mem hlisted
  · intro h
    obtain ⟨docs, hdocs, hlength, hsub, hsorted⟩ := fuseRrf_eq_map p k scan lists maxResults
    have hscore {d : F32 × SearchResult} (hd : d ∈ fusedDocuments p k lists) :
        d.1 = .finite (rrfScore k lists d.2.content) := by
      have hmem : (d.2.content, d.1) ∈ fusedScores p k lists := List.mem_map.2 ⟨d, hd, rfl⟩
      rw [← h]
      exact ((mem_fusedScores hapart _ _).1 hmem).2
    refine ⟨?_, ?_, ?_, fun content score => ?_, fun lists' hperm scored => ?_⟩
    · rw [hdocs, contents, List.map_map]
      obtain ⟨sorted, hperm, hsublist⟩ := hsub
      exact (hperm.map _).nodup_iff.1
        ((nodup_contents_fusedDocuments lists).sublist (hsublist.map _))
    · rwa [hdocs, List.length_map]
    · rw [hdocs, List.pairwise_map]
      refine (hsorted fun d hd => ⟨_, hscore hd⟩).imp_of_mem fun {a b} ha hb hlt => ?_
      rw [hscore (hsub.subset ha), hscore (hsub.subset hb)] at hlt
      simpa [F32.lt] using hlt
    · rw [mem_fusedScores hapart, h]
    · exact fusedScores_of_perm hapart hperm scored

def plainResult (content : String) (score : F32) : SearchResult := ⟨"1", score, content, none, none⟩

def FuseScan.asStored : FuseScan where
  order documents := documents
  perm _ := .refl _

theorem two_lists_fused :
    FusesByRank Platform.sample 60 .asStored
      [[plainResult "x" F32.zero, plainResult "y" F32.zero], [plainResult "y" F32.one]] 10 := by
  refine (fuses_by_rank_iff _ _ _ _ _ ?_).2 (by decide)
  intro l hl r hr l' hl' r' hr'
  revert l hl r hr l' hl' r' hr'
  decide +kernel

/-- A content that one list has twice scores for both places. -/
theorem repeated_content_counted_twice :
    fusedScores Platform.sample 1 [[plainResult "x" F32.one, plainResult "x" F32.zero]] =
        [("x", .finite (1 / 2 + 1 / 3))] ∧
      rrfScore 1 [[plainResult "x" F32.one, plainResult "x" F32.zero]] "x" = 1 / 2 ∧
      ¬ FusesByRank Platform.sample 1 .asStored
        [[plainResult "x" F32.one, plainResult "x" F32.zero]] 10 := by
  have hpairs : fusedScores Platform.sample 1
      [[plainResult "x" F32.one, plainResult "x" F32.zero]] =
        [("x", .finite (1 / 2 + 1 / 3))] := by
    decide +kernel
  have hscore : rrfScore 1 [[plainResult "x" F32.one, plainResult "x" F32.zero]] "x" = 1 / 2 := by
    decide +kernel
  refine ⟨hpairs, hscore, fun h => ?_⟩
  have hlisted := (h.scored "x" (.finite (1 / 2 + 1 / 3))).1 (by rw [hpairs]; simp)
  rw [hscore] at hlisted
  exact absurd hlisted.2 (by decide +kernel)

end Conproxy
