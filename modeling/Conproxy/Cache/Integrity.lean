import Conproxy.Cache.Operations
import Conproxy.Sample

/-!
# The integrity of a cached response

`CacheEntry::compute_content_hash` feeds the number of results to the hasher and then, for every
result, the bytes of its id, score, content and metadata, with no mark between them. What lies
between two boundaries is determined only where both lists have their boundaries at the same places.
-/

namespace Conproxy

set_option autoImplicit false

variable {p : Platform}

section Preimage

variable (p : Platform)

/-- The bytes that are fed to the hasher. -/
def preimage (response : QueryResponse) : List UInt8 :=
  leBytes64 response.results.length ++ response.results.flatMap (CacheEntry.resultBytes p)

/-- The id, the score bits, the content and the rendered metadata of a result. -/
def renderedResult (r : SearchResult) : String × List UInt8 × String × Option String :=
  (r.id, p.f32Bytes r.score, r.content, r.metadata.map Json.toText)

def rendered (response : QueryResponse) : List (String × List UInt8 × String × Option String) :=
  response.results.map (renderedResult p)

/-- Equal streams belong to equal results, and `get_verified` rejects an entry for a response that
was replaced by a different one, if the hash has no collision there. -/
structure Tells (r r' : QueryResponse) : Prop where
  injective : preimage p r = preimage p r' → rendered p r = rendered p r'
  verified : (p.blake3 (preimage p r) = p.blake3 (preimage p r') → preimage p r = preimage p r') →
    rendered p r ≠ rendered p r' →
    ∀ (s : CacheStore) (query : String) (e : CacheEntry),
      s.entries.lookup (CacheStore.hashQuery p query) = some e →
      e.contentHash = some (CacheEntry.computeContentHash p r) → e.response = r' →
        (s.getVerified p query).1 = none

end Preimage

/-- The lengths in bytes of id, content and rendered metadata. -/
def framing (r : SearchResult) : Nat × Nat × Option Nat :=
  ((utf8 r.id).length, (utf8 r.content).length, r.metadata.map fun m => (utf8 m.toText).length)

def framings (response : QueryResponse) : List (Nat × Nat × Option Nat) :=
  response.results.map framing

/-- The bytes of a result, four of them for the score. -/
def framedSize (f : Nat × Nat × Option Nat) : Nat := f.1 + 4 + f.2.1 + f.2.2.getD 0

def framedBytes (response : QueryResponse) : Nat := ((framings response).map framedSize).sum

theorem computeContentHash_eq (response : QueryResponse) :
    CacheEntry.computeContentHash p response = p.blake3 (preimage p response) := rfl

theorem length_leBytes64 (n : Nat) : (leBytes64 n).length = 8 := rfl

section Score

variable (hscore : ∀ x, (p.f32Bytes x).length = 4)
include hscore

theorem length_resultBytes (r : SearchResult) :
    (CacheEntry.resultBytes p r).length = framedSize (framing r) := by
  unfold CacheEntry.resultBytes framedSize framing
  cases r.metadata <;> simp [hscore, Nat.add_assoc]

theorem length_results (results : List SearchResult) :
    (results.flatMap (CacheEntry.resultBytes p)).length =
      ((results.map framing).map framedSize).sum := by
  rw [List.length_flatMap, List.map_map]
  exact congrArg List.sum (List.map_congr_left fun r _ => length_resultBytes hscore r)

theorem length_preimage (response : QueryResponse) :
    (preimage p response).length = 8 + framedBytes response := by
  rw [preimage, List.length_append, length_leBytes64, length_results hscore]
  rfl

/-- The bytes of a result determine it where the lengths are known. -/
theorem renderedResult_of_bytes {r r' : SearchResult} (hframing : framing r = framing r')
    (hbytes : CacheEntry.resultBytes p r = CacheEntry.resultBytes p r') :
    renderedResult p r = renderedResult p r' := by
  unfold framing at hframing
  simp only [Prod.mk.injEq] at hframing
  obtain ⟨hid, hcontent, hmetadata⟩ := hframing
  unfold CacheEntry.resultBytes at hbytes
  have hhead : (utf8 r.id ++ p.f32Bytes r.score).length =
      (utf8 r'.id ++ p.f32Bytes r'.score).length := by
    rw [List.length_append, List.length_append, hid, hscore, hscore]
  obtain ⟨hfront, hmeta⟩ := List.append_inj hbytes (by
    rw [List.length_append, hhead, hcontent, ← List.length_append])
  obtain ⟨hstart, htext⟩ := List.append_inj hfront hhead
  obtain ⟨hname, hbits⟩ := List.append_inj hstart hid
  have hrendered : r.metadata.map Json.toText = r'.metadata.map Json.toText := by
    cases hm : r.metadata with
    | none =>
      rw [hm] at hmetadata
      rw [Option.map_eq_none_iff.1 hmetadata.symm]
    | some m =>
      rw [hm] at hmetadata hmeta
      obtain ⟨m', hm', -⟩ := Option.map_eq_some_iff.1 hmetadata.symm
      rw [hm'] at hmeta
      rw [hm']
      exact congrArg some (utf8_inj.1 hmeta)
  simp only [renderedResult, utf8_inj.1 hname, hbits, utf8_inj.1 htext, hrendered]

theorem rendered_of_bytes {results results' : List SearchResult}
    (hframing : results.map framing = results'.map framing)
    (hbytes : results.flatMap (CacheEntry.resultBytes p) =
      results'.flatMap (CacheEntry.resultBytes p)) :
    results.map (renderedResult p) = results'.map (renderedResult p) := by
  induction results generalizing results' with
  | nil => rw [List.map_eq_nil_iff.1 hframing.symm]
  | cons r rest ih =>
    cases results' with
    | nil => cases hframing
    | cons r' rest' =>
      rw [List.map_cons, List.map_cons, List.cons.injEq] at hframing
      rw [List.flatMap_cons, List.flatMap_cons] at hbytes
      obtain ⟨hfirst, hrest⟩ := List.append_inj hbytes (by
        rw [length_resultBytes hscore, length_resultBytes hscore, hframing.1])
      rw [List.map_cons, List.map_cons, renderedResult_of_bytes hscore hframing.1 hfirst,
        ih hframing.2 hrest]

theorem rendered_of_preimage {r r' : QueryResponse} (hframing : framings r = framings r')
    (h : preimage p r = preimage p r') : rendered p r = rendered p r' :=
  rendered_of_bytes hscore hframing (List.append_inj h rfl).2

omit hscore in
theorem framings_of_rendered {r r' : QueryResponse} (h : rendered p r = rendered p r') :
    framings r = framings r' := by
  have hlengths (response : QueryResponse) : framings response =
      (rendered p response).map fun t =>
        ((utf8 t.1).length, (utf8 t.2.2.1).length, t.2.2.2.map fun m => (utf8 m).length) := by
    unfold framings rendered
    rw [List.map_map]
    refine List.map_congr_left fun x _ => ?_
    simp [framing, renderedResult, Function.comp_def]
  rw [hlengths r, hlengths r', h]

omit hscore in
theorem getVerified_eq_none {r r' : QueryResponse} {s : CacheStore} {query : String}
    {e : CacheEntry}
    (hentry : s.entries.lookup (CacheStore.hashQuery p query) = some e)
    (hhash : e.contentHash = some (CacheEntry.computeContentHash p r)) (hresponse : e.response = r')
    (hdiffer : p.blake3 (preimage p r) ≠ p.blake3 (preimage p r')) :
    (s.getVerified p query).1 = none := by
  have hcorrupted : CacheStore.corrupted p e = true := by
    unfold CacheStore.corrupted
    rw [hhash, hresponse]
    simpa [computeContentHash_eq] using hdiffer
  unfold CacheStore.getVerified
  dsimp only
  rw [hentry]
  dsimp only
  rw [if_pos hcorrupted]

theorem tells_iff (r r' : QueryResponse) :
    Tells p r r' ↔ framings r = framings r' ∨ preimage p r ≠ preimage p r' := by
  constructor
  · intro h
    by_cases hsame : preimage p r = preimage p r'
    · exact .inl (framings_of_rendered (h.injective hsame))
    · exact .inr hsame
  · intro h
    have hinjective : preimage p r = preimage p r' → rendered p r = rendered p r' := by
      intro hsame
      rcases h with hframing | hdiffer
      · exact rendered_of_preimage hscore hframing hsame
      · exact absurd hsame hdiffer
    refine ⟨hinjective, fun hcollision hchanged s query e hentry hhash hresponse => ?_⟩
    refine getVerified_eq_none hentry hhash hresponse fun hdigest => ?_
    exact hchanged (hinjective (hcollision hdigest))

end Score

/-- A text of `n` ones. -/
def ones (n : Nat) : String := String.ofList (List.replicate n '1')

theorem utf8_ones (n : Nat) : utf8 (ones n) = List.replicate n 49 := by
  induction n with
  | zero => rfl
  | succ n ih =>
    have hcons : ones (n + 1) = "1" ++ ones n := by
      unfold ones
      rw [List.replicate_succ, ← List.singleton_append, String.ofList_append]
    rw [hcons, utf8_append, ih, List.replicate_succ]
    rfl

/-- A result without metadata whose fields have the same lengths, and hold only ones. -/
def onesLike (score : F32) (r : SearchResult) : SearchResult :=
  ⟨ones (utf8 r.id).length, score, ones (utf8 r.content).length, none, none⟩

def onesResponse (score : F32) (response : QueryResponse) : QueryResponse :=
  { response with results := response.results.map (onesLike score) }

theorem framings_onesResponse (score : F32) {response : QueryResponse}
    (h : ∀ r ∈ response.results, r.metadata = none) :
    framings (onesResponse score response) = framings response := by
  unfold framings onesResponse
  rw [List.map_map]
  refine List.map_congr_left fun r hr => ?_
  simp [framing, onesLike, utf8_ones, h r hr]

theorem preimage_onesResponse {score : F32} (hones : p.f32Bytes score = [49, 49, 49, 49])
    (response : QueryResponse) :
    ∃ n, preimage p (onesResponse score response) =
      leBytes64 response.results.length ++ List.replicate n 49 := by
  have hresult (r : SearchResult) : ∀ b ∈ CacheEntry.resultBytes p (onesLike score r), b = 49 := by
    intro b hb
    simp only [CacheEntry.resultBytes, onesLike, utf8_ones, hones, Option.map_none,
      Option.getD_none, List.append_nil, List.mem_append, List.mem_replicate] at hb
    rcases hb with (⟨-, hb⟩ | hb) | ⟨-, hb⟩
    · exact hb
    · simpa using hb
    · exact hb
  refine ⟨_, congrArg₂ (· ++ ·) (by rw [onesResponse, List.length_map])
    (List.eq_replicate_of_mem fun b hb => ?_)⟩
  obtain ⟨r, hr, hmem⟩ := List.mem_flatMap.1 hb
  obtain ⟨r, -, rfl⟩ := List.mem_map.1 hr
  exact hresult r b hmem

/-- A change to a response is detected exactly if all boundaries stay at their places or the streams
differ anyway. Without metadata the lengths say nothing more: where only the boundaries differ, some
fields with these lengths have one stream. -/
theorem changes_detected_iff (p : Platform) (hscore : ∀ x, (p.f32Bytes x).length = 4)
    (hones : ∃ x, p.f32Bytes x = [49, 49, 49, 49]) (r r' : QueryResponse) :
    (Tells p r r' ↔ framings r = framings r' ∨ preimage p r ≠ preimage p r') ∧
      ((∀ x ∈ r.results ++ r'.results, x.metadata = none) →
        ((∀ r₁ r₂, framings r₁ = framings r → framings r₂ = framings r' → Tells p r₁ r₂) ↔
          framings r = framings r' ∨
            leBytes64 r.results.length ≠ leBytes64 r'.results.length ∨
              framedBytes r ≠ framedBytes r')) := by
  refine ⟨tells_iff hscore r r', fun hplain => ?_⟩
  rw [List.forall_mem_append] at hplain
  have hlengths {r₁ r₂ : QueryResponse} (h : framings r₁ = framings r₂) :
      r₁.results.length = r₂.results.length := by
    have hlength := congrArg List.length h
    rwa [framings, framings, List.length_map, List.length_map] at hlength
  constructor
  · intro h
    obtain ⟨score, hbits⟩ := hones
    by_contra hnot
    simp only [not_or, not_not] at hnot
    obtain ⟨hframing, hcount, hsize⟩ := hnot
    have hfirst := framings_onesResponse score hplain.1
    have hsecond := framings_onesResponse score hplain.2
    obtain ⟨n, hn⟩ := preimage_onesResponse hbits r
    obtain ⟨m, hm⟩ := preimage_onesResponse hbits r'
    have hsame : n = m := by
      have hleft := length_preimage hscore (onesResponse score r)
      have hright := length_preimage hscore (onesResponse score r')
      rw [hn, framedBytes, hfirst, List.length_append, List.length_replicate] at hleft
      rw [hm, framedBytes, hsecond, List.length_append, List.length_replicate] at hright
      rw [framedBytes, framedBytes] at hsize
      rw [hsize, hcount] at hleft
      omega
    have hstream : preimage p (onesResponse score r) = preimage p (onesResponse score r') := by
      rw [hn, hm, hcount, hsame]
    have htold := (h _ _ hfirst hsecond).injective hstream
    exact hframing (hfirst.symm.trans ((framings_of_rendered htold).trans hsecond))
  · intro h r₁ r₂ hfirst hsecond
    refine (tells_iff hscore r₁ r₂).2 ?_
    rcases h with hframing | hcount | hsize
    · exact .inl (hfirst.trans (hframing.trans hsecond.symm))
    · rw [← hlengths hfirst, ← hlengths hsecond] at hcount
      exact .inr fun hsame => hcount (List.append_inj hsame rfl).1
    · refine .inr fun hsame => hsize ?_
      have hlength := congrArg List.length hsame
      rw [length_preimage hscore, length_preimage hscore] at hlength
      rw [framedBytes, framedBytes, hfirst, hsecond] at hlength
      exact Nat.add_left_cancel hlength

/-- The bytes of two numbers as they are in memory. -/
def Platform.withScores : Platform :=
  { Platform.sample with
    f32Bytes := fun x =>
      if x = .finite (11612465 / 2 ^ 52) then [49, 49, 49, 49] else [0, 0, 0, 0] }

def markedResponse (content : String) (metadata : Option Json) : QueryResponse :=
  { textResponse content with results := [⟨"1", .finite 0, content, metadata, none⟩] }

theorem same_boundaries_detected :
    Tells Platform.withScores (markedResponse "x" none) (markedResponse "y" none) := by
  refine ((changes_detected_iff Platform.withScores (fun x => ?_) ?_ _ _).1).2 (.inl rfl)
  · unfold Platform.withScores
    dsimp only
    split <;> rfl
  · exact ⟨.finite (11612465 / 2 ^ 52), if_pos rfl⟩

/-- A store with one entry, for the first response, in which the second one is put. -/
def changedStore (p : Platform) (query : String) (r r' : QueryResponse) : CacheStore :=
  let entry := { CacheStore.newEntry p ⟨0, 0⟩ r "u" none "default" with response := r' }
  let s := CacheStore.new 10 10 10
  { s with entries := s.entries.insert (CacheStore.hashQuery p query) entry }

/-- Metadata that moved into the content is not noticed. -/
theorem moved_metadata_unnoticed :
    preimage Platform.sample (markedResponse "x" (some .null)) =
        preimage Platform.sample (markedResponse "xnull" none) ∧
      rendered Platform.sample (markedResponse "x" (some .null)) ≠
        rendered Platform.sample (markedResponse "xnull" none) ∧
      ((changedStore Platform.sample "q" (markedResponse "x" (some .null))
        (markedResponse "xnull" none)).getVerified Platform.sample "q").1.isSome = true ∧
      ¬ Tells Platform.sample (markedResponse "x" (some .null)) (markedResponse "xnull" none) := by
  have hsame : preimage Platform.sample (markedResponse "x" (some .null)) =
      preimage Platform.sample (markedResponse "xnull" none) := by
    decide +kernel
  have hdiffer : rendered Platform.sample (markedResponse "x" (some .null)) ≠
      rendered Platform.sample (markedResponse "xnull" none) := by
    decide +kernel
  exact ⟨hsame, hdiffer, by decide +kernel, fun h => hdiffer (h.injective hsame)⟩

end Conproxy
