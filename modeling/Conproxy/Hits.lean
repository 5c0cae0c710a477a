import Conproxy.Scope

/-!
# Hits of the adapters

How `elasticsearch.rs`, `qdrant.rs`, `meilisearch.rs` and `pinecone.rs` turn a hit into a
`SearchResult`: one field of its payload becomes the content, others become the metadata. The
hits are taken as `serde` has read them.
-/

namespace Conproxy

set_option autoImplicit false

namespace Json

/-- `Value::get` with a name: only an object has fields. -/
def get (j : Json) (name : String) : Option Json :=
  match j with
  | .object fields => fields.lookup name
  | _ => none

def asStr : Json → Option String
  | .string text => some text
  | _ => none

/-- An object without the fields of some names; every other value stays as it is. -/
def without (names : List String) : Json → Json
  | .object fields => .object (fields.filter fun field => !names.contains field.1)
  | j => j

/-- The other fields of an object as strings that hold their JSON text. -/
def texts (names : List String) : Json → Json
  | .object fields =>
    .object ((fields.filter fun field => !names.contains field.1).map fun field =>
      (field.1, .string field.2.toText))
  | _ => .null

/-- A number that `serde_json` prints without a fraction or an exponent is an `i64` or a `u64`. -/
def isInteger (literal : String) : Bool :=
  match literal.toList with
  | '-' :: digits => !digits.isEmpty && digits.all Char.isDigit
  | digits => !digits.isEmpty && digits.all Char.isDigit

end Json

/-- What the program makes of the literal of a number: an `f32`, and the `Display` text of the
`f64`. -/
structure NumberReader where
  asF32 : String → F32
  display : String → String

/-- The fields that may hold the content, the first ones first. -/
def contentNames : List String := ["content", "text", "body"]

/-- The content field that is present, whether it is a string or not. -/
def contentField (payload : Json) : Option Json :=
  ((payload.get "content").or (payload.get "text")).or (payload.get "body")

def extractContent (payload : Json) : Option String := (contentField payload).bind Json.asStr

structure EsHit where
  id : String
  score : Option F32
  source : Option Json

structure EsSearchResponse where
  maxScore : Option F32
  hits : List EsHit

section

variable (A : F32Arith)

def EsHit.normalizeScore (score maxScore : F32) : F32 :=
  if F32.ge F32.zero maxScore then F32.zero else (A.div score maxScore).clampUnit

def EsHit.toResult (maxScore : F32) (hit : EsHit) : SearchResult where
  id := hit.id
  score := normalizeScore A (hit.score.getD F32.zero) maxScore
  content := (hit.source.bind extractContent).getD ""
  metadata := hit.source.map (Json.without contentNames)
  upstreamId := none

def EsSearchResponse.parseHits (response : EsSearchResponse) : List SearchResult :=
  response.hits.map (EsHit.toResult A (response.maxScore.getD F32.zero))

end

inductive QdrantPointId where
  | uuid (text : String)
  | integer (value : Nat)

def QdrantPointId.text : QdrantPointId → String
  | .uuid text => text
  | .integer value => toString value

structure QdrantScoredPoint where
  id : QdrantPointId
  score : F32
  payload : Option Json

def QdrantScoredPoint.toResult (point : QdrantScoredPoint) : SearchResult where
  id := point.id.text
  score := point.score
  content := (point.payload.bind extractContent).getD ""
  metadata := point.payload.map (Json.texts contentNames)
  upstreamId := none

/-- The conversion in `query` and in `query_vector`. -/
def qdrantResults (points : List QdrantScoredPoint) : List SearchResult :=
  points.map QdrantScoredPoint.toResult

structure PineconeMatch where
  id : Option String
  score : Option F32
  metadata : Option Json

namespace PineconeMatch

def clampedScore (m : PineconeMatch) : F32 := (m.score.getD F32.zero).clampUnit

def belowThreshold (threshold : Option F32) (m : PineconeMatch) : Bool :=
  threshold.any fun t => F32.lt m.clampedScore t

def toResult (m : PineconeMatch) : SearchResult where
  id := m.id.getD "unknown"
  score := m.clampedScore
  content := (m.metadata.bind extractContent).getD ""
  metadata := m.metadata.map (Json.texts contentNames)
  upstreamId := none

def mapMatches (matched : List PineconeMatch) (threshold : Option F32) : List SearchResult :=
  matched.filterMap fun m => if m.belowThreshold threshold then none else some m.toResult

end PineconeMatch

namespace Meili

variable (N : NumberReader)

/-- The fields that Meilisearch itself uses. -/
def ownNames : List String := ["id", "_rankingScore", "_formatted"]

def idText : Json → Option String
  | .string text => some text
  | .number literal => some (if Json.isInteger literal then literal else N.display literal)
  | _ => none

/-- The id under `id`, or else a string under `uid`. -/
def hitId (hit : Json) : String :=
  (((hit.get "id").bind (idText N)).or ((hit.get "uid").bind Json.asStr)).getD ""

def rankingScore (hit : Json) : Option F32 :=
  match hit.get "_rankingScore" with
  | some (.number literal) => some (N.asF32 literal)
  | _ => none

def metadata : Json → Option Json
  | .object fields => some ((Json.object fields).without (contentNames ++ ownNames))
  | _ => none

def toResult (hit : Json) : SearchResult where
  id := hitId N hit
  score := ((rankingScore N hit).getD F32.zero).clampUnit
  content := (extractContent hit).getD ""
  metadata := metadata hit
  upstreamId := none

/-- A hit with neither a content nor an id is left out. -/
def isEmpty (hit : Json) : Bool := (extractContent hit).getD "" = "" && hitId N hit = ""

def parseHits (hits : List Json) : List SearchResult :=
  hits.filterMap fun hit => if isEmpty N hit then none else some (toResult N hit)

def reaches (threshold : Option F32) (r : SearchResult) : Bool :=
  threshold.all fun t => F32.ge r.score t

/-- The results of `query`: the threshold is applied to what was parsed. -/
def results (hits : List Json) (threshold : Option F32) : List SearchResult :=
  (parseHits N hits).filter (reaches threshold)

/-- The hit becomes a result of `query`. -/
def shown (threshold : Option F32) (hit : Json) : Bool :=
  !isEmpty N hit && reaches threshold (toResult N hit)

theorem results_eq (hits : List Json) (threshold : Option F32) :
    results N hits threshold = (hits.filter (shown N threshold)).map (toResult N) := by
  unfold results parseHits
  induction hits with
  | nil => rfl
  | cons hit rest ih =>
    rw [List.filterMap_cons, List.filter_cons]
    unfold shown
    cases isEmpty N hit with
    | true => exact ih
    | false =>
      simp only [Bool.false_eq_true, if_false, Bool.not_false, Bool.true_and]
      rw [List.filter_cons]
      split
      · exact congrArg (List.cons (toResult N hit)) ih
      · exact ih

end Meili

/-- The first content field that is a string. -/
def firstText (payload : Json) : Option String :=
  contentNames.findSome? fun name => (payload.get name).bind Json.asStr

/-- A field that is not a string comes before the first one that is. -/
def Blocked (payload : Json) : Prop :=
  ∃ value, contentField payload = some value ∧ value.asStr = none ∧ firstText payload ≠ none

/-- The content fields that are present hold one string. -/
def OneText (payload : Json) : Prop :=
  ∃ text, ∀ name ∈ contentNames, ∀ value, payload.get name = some value → value = .string text

/-- A result shows the fields of a payload: the content fields as its content, the others in its
metadata, encoded in some way, up to the fields that the upstream uses itself. -/
structure Displays (own : List String) (encode : Json → Json) (payload : Json) (r : SearchResult) :
    Prop where
  others : ∀ name value, payload.get name = some value → name ∉ contentNames → name ∉ own →
    ∃ metadata, r.metadata = some metadata ∧ metadata.get name = some (encode value)
  contents : OneText payload → ∀ name ∈ contentNames, ∀ value, payload.get name = some value →
    value = .string r.content
  first : ¬ Blocked payload → r.content = (firstText payload).getD ""

/-- Every field shows unchanged, as the content or under its name. -/
def KeepsAll (payload : Json) (r : SearchResult) : Prop :=
  (∀ name value, payload.get name = some value →
    value = .string r.content ∨
      ∃ metadata, r.metadata = some metadata ∧ metadata.get name = some value) ∧
    r.content = (firstText payload).getD ""

theorem lookup_filter {α : Type} {p : String → Bool} {name : String} (hp : p name = true)
    (fields : List (String × α)) :
    (fields.filter fun field => p field.1).lookup name = fields.lookup name := by
  induction fields with
  | nil => rfl
  | cons field rest ih =>
    obtain ⟨key, value⟩ := field
    rw [List.filter_cons]
    by_cases hkey : name = key
    · subst hkey
      rw [if_pos hp, List.lookup_cons_self, List.lookup_cons_self]
    · have hne : (name == key) = false := beq_false_of_ne hkey
      by_cases hpk : p key = true
      · rw [if_pos hpk, List.lookup_cons, List.lookup_cons, hne]
        exact ih
      · rw [if_neg hpk, List.lookup_cons, hne]
        exact ih

theorem lookup_map_snd {α β : Type} (g : α → β) (name : String) (fields : List (String × α)) :
    (fields.map fun field => (field.1, g field.2)).lookup name =
      (fields.lookup name).map g := by
  induction fields with
  | nil => rfl
  | cons field rest ih =>
    rw [List.map_cons, List.lookup_cons, List.lookup_cons]
    cases name == field.1 with
    | true => rfl
    | false => exact ih

theorem get_without {payload value : Json} {names : List String} {name : String}
    (h : payload.get name = some value) (hname : name ∉ names) :
    (payload.without names).get name = some value := by
  cases payload with
  | object fields =>
    have hp : (!names.contains name) = true := by simpa using hname
    exact (lookup_filter (p := fun key => !names.contains key) hp fields).trans h
  | null | bool | number | string | array => cases h

theorem get_texts {payload value : Json} {names : List String} {name : String}
    (h : payload.get name = some value) (hname : name ∉ names) :
    (payload.texts names).get name = some (.string value.toText) := by
  cases payload with
  | object fields =>
    have hp : (!names.contains name) = true := by simpa using hname
    have hfield : (fields.filter fun field => !names.contains field.1).lookup name = some value :=
      (lookup_filter (p := fun key => !names.contains key) hp fields).trans h
    have hmap := lookup_map_snd (fun value => Json.string value.toText) name
      (fields.filter fun field => !names.contains field.1)
    rw [hfield] at hmap
    exact hmap
  | null | bool | number | string | array => cases h

theorem contentField_eq (payload : Json) :
    contentField payload = contentNames.findSome? payload.get := by
  simp only [contentField, contentNames, List.findSome?_cons, List.findSome?_nil]
  cases payload.get "content" with
  | some value => rfl
  | none =>
    cases payload.get "text" with
    | some value => rfl
    | none => cases payload.get "body" <;> rfl

theorem contentField_eq_none_iff {payload : Json} :
    contentField payload = none ↔ ∀ name ∈ contentNames, payload.get name = none := by
  rw [contentField_eq]
  exact List.findSome?_eq_none_iff

theorem firstText_eq_none {payload : Json} (h : contentField payload = none) :
    firstText payload = none := by
  apply List.findSome?_eq_none_iff.2
  intro name hname
  rw [contentField_eq_none_iff.1 h name hname]
  rfl

theorem mem_contentField {payload value : Json} (h : contentField payload = some value) :
    ∃ name ∈ contentNames, payload.get name = some value := by
  rw [contentField_eq] at h
  exact List.exists_of_findSome?_eq_some h

theorem findSome?_bind {α β γ : Type} {f : α → Option β} {g : β → Option γ} {l : List α} {b : β}
    {c : γ} (h : l.findSome? f = some b) (hg : g b = some c) :
    l.findSome? (fun a => (f a).bind g) = some c := by
  induction l with
  | nil => cases h
  | cons a rest ih =>
    rw [List.findSome?_cons] at h ⊢
    cases hfirst : f a with
    | none =>
      rw [hfirst] at h
      exact ih h
    | some b' =>
      rw [hfirst] at h
      cases h
      rw [Option.bind_some, hg]

theorem firstText_of_contentField {payload value : Json} {text : String}
    (h : contentField payload = some value) (htext : value.asStr = some text) :
    firstText payload = some text := by
  rw [contentField_eq] at h
  exact findSome?_bind h htext

theorem extractContent_eq_firstText {payload : Json} (h : ¬ Blocked payload) :
    extractContent payload = firstText payload := by
  unfold extractContent
  cases hfield : contentField payload with
  | none => exact (firstText_eq_none hfield).symm
  | some value =>
    cases hstr : value.asStr with
    | some text => exact hstr.trans (firstText_of_contentField hfield hstr).symm
    | none =>
      have hfirst : firstText payload = none := by
        by_contra hsome
        exact h ⟨value, hfield, hstr, hsome⟩
      exact hstr.trans hfirst.symm

theorem extractContent_of_oneText {payload value : Json} {name : String} (h : OneText payload)
    (hname : name ∈ contentNames) (hvalue : payload.get name = some value) :
    value = .string ((extractContent payload).getD "") := by
  obtain ⟨text, hone⟩ := h
  have hpresent : contentField payload ≠ none := by
    intro hnone
    have habsent := contentField_eq_none_iff.1 hnone name hname
    cases habsent.symm.trans hvalue
  obtain ⟨field, hfield⟩ := Option.ne_none_iff_exists'.1 hpresent
  obtain ⟨name', hname', hget⟩ := mem_contentField hfield
  have hcontent : extractContent payload = some text := by
    unfold extractContent
    rw [hfield, hone name' hname' field hget]
    rfl
  rw [hcontent]
  exact hone name hname value hvalue

theorem displays_of_get {own : List String} {encode : Json → Json} {payload m : Json}
    {r : SearchResult} (hcontent : r.content = (extractContent payload).getD "")
    (hmetadata : r.metadata = some m)
    (hget : ∀ name value, payload.get name = some value → name ∉ contentNames → name ∉ own →
      m.get name = some (encode value)) : Displays own encode payload r where
  others name value hvalue hname hown := ⟨m, hmetadata, hget name value hvalue hname hown⟩
  contents hone name hname value hvalue := by
    rw [hcontent]
    exact extractContent_of_oneText hone hname hvalue
  first hblocked := by rw [hcontent, extractContent_eq_firstText hblocked]

theorem filterMap_ite {α β : Type} (p : α → Bool) (f : α → β) (l : List α) :
    (l.filterMap fun a => if p a then none else some (f a)) =
      (l.filter fun a => !p a).map f := by
  induction l with
  | nil => rfl
  | cons a rest ih =>
    rw [List.filterMap_cons, List.filter_cons]
    cases p a with
    | true => exact ih
    | false => exact congrArg (List.cons (f a)) ih

theorem EsHit.toResult_displays (A : F32Arith) (maxScore : F32) {hit : EsHit} {payload : Json}
    (h : hit.source = some payload) :
    Displays [] (fun value => value) payload (hit.toResult A maxScore) := by
  refine displays_of_get (m := payload.without contentNames) ?_ ?_ ?_
  · simp only [toResult, h, Option.bind_some]
  · simp only [toResult, h, Option.map_some]
  · intro name value hvalue hname _
    exact get_without hvalue hname

theorem displays_texts {payload : Json} {r : SearchResult}
    (hcontent : r.content = (extractContent payload).getD "")
    (hmetadata : r.metadata = some (payload.texts contentNames)) :
    Displays [] (fun value => .string value.toText) payload r := by
  apply displays_of_get hcontent hmetadata
  intro name value hvalue hname _
  exact get_texts hvalue hname

theorem QdrantScoredPoint.toResult_displays {point : QdrantScoredPoint} {payload : Json}
    (h : point.payload = some payload) :
    Displays [] (fun value => .string value.toText) payload point.toResult := by
  apply displays_texts
  · simp only [toResult, h, Option.bind_some]
  · simp only [toResult, h, Option.map_some]

theorem PineconeMatch.toResult_displays {m : PineconeMatch} {payload : Json}
    (h : m.metadata = some payload) :
    Displays [] (fun value => .string value.toText) payload m.toResult := by
  apply displays_texts
  · simp only [toResult, h, Option.bind_some]
  · simp only [toResult, h, Option.map_some]

theorem Meili.toResult_displays (N : NumberReader) (fields : List (String × Json)) :
    Displays ownNames (fun value => value) (.object fields) (toResult N (.object fields)) := by
  refine displays_of_get rfl rfl ?_
  intro name value hvalue hname hown
  refine get_without hvalue ?_
  intro hmem
  exact (List.mem_append.1 hmem).elim hname hown

/-- Every hit that an adapter turns into a result shows in it: unchanged with Elasticsearch and
Meilisearch, as JSON text with Qdrant and Pinecone. Pinecone leaves out what is below its
threshold, Meilisearch what does not reach its threshold or has neither content nor id. -/
theorem hits_displayed (A : F32Arith) (N : NumberReader) :
    (∀ response : EsSearchResponse,
      List.Forall₂ (fun hit r => r.id = hit.id ∧
          ∀ payload, hit.source = some payload → Displays [] (fun value => value) payload r)
        response.hits (response.parseHits A)) ∧
    (∀ points : List QdrantScoredPoint,
      List.Forall₂ (fun point r => r.id = point.id.text ∧
          ∀ payload, point.payload = some payload →
            Displays [] (fun value => .string value.toText) payload r)
        points (qdrantResults points)) ∧
    (∀ (matched : List PineconeMatch) (threshold : Option F32),
      List.Forall₂ (fun m r => r.id = m.id.getD "unknown" ∧
          ∀ payload, m.metadata = some payload →
            Displays [] (fun value => .string value.toText) payload r)
        (matched.filter fun m => !m.belowThreshold threshold)
        (PineconeMatch.mapMatches matched threshold)) ∧
    (∀ (hits : List (List (String × Json))) (threshold : Option F32),
      List.Forall₂ (fun hit r => r.id = Meili.hitId N hit ∧
          Displays Meili.ownNames (fun value => value) hit r)
        ((hits.map Json.object).filter (Meili.shown N threshold))
        (Meili.results N (hits.map Json.object) threshold)) := by
  refine ⟨?_, ?_, ?_, ?_⟩
  · intro response
    apply List.forall₂_map_right_iff.2
    apply List.forall₂_same.2
    intro hit _
    exact ⟨rfl, fun payload h => EsHit.toResult_displays A _ h⟩
  · intro points
    apply List.forall₂_map_right_iff.2
    apply List.forall₂_same.2
    intro point _
    exact ⟨rfl, fun payload h => QdrantScoredPoint.toResult_displays h⟩
  · intro matched threshold
    unfold PineconeMatch.mapMatches
    rw [filterMap_ite]
    apply List.forall₂_map_right_iff.2
    apply List.forall₂_same.2
    intro m _
    exact ⟨rfl, fun payload h => PineconeMatch.toResult_displays h⟩
  · intro hits threshold
    rw [Meili.results_eq]
    apply List.forall₂_map_right_iff.2
    apply List.forall₂_same.2
    intro hit hhit
    obtain ⟨fields, -, rfl⟩ := List.mem_map.1 (List.mem_filter.1 hhit).1
    exact ⟨rfl, Meili.toResult_displays N fields⟩

theorem not_keepsAll {payload : Json} {r : SearchResult} (name : String) (value : Json)
    (hget : payload.get name = some value) (hcontent : value ≠ .string r.content)
    (hmetadata : ∀ metadata, r.metadata = some metadata → metadata.get name ≠ some value) :
    ¬ KeepsAll payload r := by
  intro h
  obtain hshown | ⟨metadata, hm, hshown⟩ := h.1 name value hget
  · exact hcontent hshown
  · exact hmetadata metadata hm hshown

/-- Meilisearch's id is not in the metadata, Qdrant's year is there as a text, Pinecone and
Meilisearch drop what is below the threshold, and Elasticsearch drops a second text and a text
behind a number. -/
theorem hits_lose :
    (let N : NumberReader := ⟨fun _ => F32.one, id⟩;
      let hit : Json := .object [("content", .string "C"), ("id", .string "doc-001")];
      Meili.results N [hit] none = [Meili.toResult N hit] ∧
        Meili.results N [hit] (some (.finite (1 / 2))) = [] ∧
        ¬ KeepsAll hit (Meili.toResult N hit)) ∧
    (let payload : Json := .object [("content", .string "C"), ("year", .number "1999")];
      ¬ KeepsAll payload (QdrantScoredPoint.toResult ⟨.integer 1, F32.one, some payload⟩)) ∧
    (let payload : Json := .object [("content", .string "C")];
      PineconeMatch.mapMatches [⟨some "pc-1", some (.finite (1 / 4)), some payload⟩]
        (some (.finite (1 / 2))) = []) ∧
    (let payload : Json := .object [("body", .string "B"), ("text", .string "T")];
      ¬ KeepsAll payload
        (EsHit.toResult F32Arith.exact F32.one ⟨"1", some F32.one, some payload⟩)) ∧
    (let payload : Json := .object [("content", .number "5"), ("text", .string "T")];
      ¬ KeepsAll payload
        (EsHit.toResult F32Arith.exact F32.one ⟨"1", some F32.one, some payload⟩)) := by
  have hstring {a b : String} (h : a ≠ b) : Json.string a ≠ .string b := by
    intro heq
    injection heq with heq
    exact h heq
  refine ⟨⟨rfl, List.isEmpty_iff.1 (by decide +kernel),
      not_keepsAll "id" (.string "doc-001") rfl (hstring (by decide)) ?_⟩,
    not_keepsAll "year" (.number "1999") rfl (by intro h; cases h) ?_, ?_,
    not_keepsAll "body" (.string "B") rfl (hstring (by decide)) ?_,
    not_keepsAll "text" (.string "T") rfl (hstring (by decide)) ?_⟩
  · intro metadata hmetadata hid
    cases hmetadata
    cases hid
  · intro metadata hmetadata hyear
    cases hmetadata
    cases hyear
  · have hbelow (payload : Json) : PineconeMatch.belowThreshold (some (.finite (1 / 2)))
        ⟨some "pc-1", some (.finite (1 / 4)), some payload⟩ = true := by
      simp only [PineconeMatch.belowThreshold, PineconeMatch.clampedScore, Option.any_some,
        Option.getD_some]
      decide +kernel
    exact List.filterMap_cons_none (if_pos (hbelow _))
  · intro metadata hmetadata hbody
    cases hmetadata
    cases hbody
  · intro metadata hmetadata htext
    cases hmetadata
    cases htext

end Conproxy
