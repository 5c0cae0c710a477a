import Mathlib.Data.String.Basic
import Conproxy.Lib.Weighing
import Conproxy.Types

/-!
# Cutting texts

An error of the generic REST adapter, an audit entry and a benchmark report show the beginning
of a text that came from outside. All three slice it at a fixed byte; a slice that ends inside
of a character is a panic, which is `none` here.
-/

namespace Conproxy

open Weighing

set_option autoImplicit false

/-- `&s[..n]`. -/
def sliceTo (s : String) (n : Nat) : Option String :=
  (takeWeight Char.utf8Size n s.toList).map String.ofList

def IsCharBoundary (s : String) (n : Nat) : Prop := (String.Pos.Raw.mk n).IsValid s

theorem utf8ByteSize_eq_weight (s : String) :
    s.utf8ByteSize = weight Char.utf8Size s.toList := by
  have hlen : ∀ cs : List Char, String.utf8Len cs = weight Char.utf8Size cs := by
    intro cs
    induction cs with
    | nil => rfl
    | cons c cs ih => rw [String.utf8Len_cons, weight_cons, ih, Nat.add_comm]
  rw [← hlen, ← String.utf8ByteSize_ofList, String.ofList_toList]

theorem sliceTo_eq_some_iff {s t : String} {n : Nat} :
    sliceTo s n = some t ↔ t.toList <+: s.toList ∧ t.utf8ByteSize = n := by
  rw [sliceTo, Option.map_eq_some_iff, utf8ByteSize_eq_weight]
  constructor
  · rintro ⟨cs, hcs, rfl⟩
    rw [String.toList_ofList]
    exact (takeWeight_eq_some_iff Char.utf8Size_pos).1 hcs
  · intro h
    exact ⟨t.toList, (takeWeight_eq_some_iff Char.utf8Size_pos).2 h, String.ofList_toList⟩

theorem exists_sliceTo_iff {s : String} {n : Nat} :
    (∃ t, sliceTo s n = some t) ↔ IsCharBoundary s n := by
  rw [IsCharBoundary, String.Pos.Raw.isValid_iff_exists_append]
  constructor
  · rintro ⟨t, ht⟩
    obtain ⟨⟨rest, hrest⟩, hsize⟩ := sliceTo_eq_some_iff.1 ht
    refine ⟨t, String.ofList rest, ?_, ?_⟩
    · rw [← String.toList_inj, String.toList_append, String.toList_ofList, hrest]
    · rw [← hsize]
      rfl
  · rintro ⟨t, rest, rfl, hn⟩
    have hsize : t.utf8ByteSize = n := (congrArg String.Pos.Raw.byteIdx hn).symm
    refine ⟨t, sliceTo_eq_some_iff.2 ⟨?_, hsize⟩⟩
    rw [String.toList_append]
    exact List.prefix_append _ _

/-- A text that is longer than the limit is cut there, and the ellipsis is put behind it. -/
def cutAt (limit : Nat) (ellipsis s : String) : Option String :=
  if limit < s.utf8ByteSize then (sliceTo s limit).map (· ++ ellipsis) else some s

/-- The text itself if it is within the limit, and otherwise its first bytes. -/
def IsCut (limit : Nat) (ellipsis s t : String) : Prop :=
  (s.utf8ByteSize ≤ limit ∧ t = s) ∨
    limit < s.utf8ByteSize ∧ ∃ kept : String, kept.toList <+: s.toList ∧
      kept.utf8ByteSize = limit ∧ t = kept ++ ellipsis

theorem cutAt_eq_some_iff {limit : Nat} {ellipsis s t : String} :
    cutAt limit ellipsis s = some t ↔ IsCut limit ellipsis s t := by
  unfold cutAt IsCut
  by_cases hlong : limit < s.utf8ByteSize
  · rw [if_pos hlong, Option.map_eq_some_iff]
    constructor
    · rintro ⟨kept, hkept, rfl⟩
      have hspec := sliceTo_eq_some_iff.1 hkept
      exact .inr ⟨hlong, kept, hspec.1, hspec.2, rfl⟩
    · rintro (⟨hshort, _⟩ | ⟨_, kept, hpre, hsize, rfl⟩)
      · omega
      · exact ⟨kept, sliceTo_eq_some_iff.2 ⟨hpre, hsize⟩, rfl⟩
  · rw [if_neg hlong, Option.some_inj]
    constructor
    · rintro rfl
      exact .inl ⟨by omega, rfl⟩
    · rintro (⟨_, rfl⟩ | ⟨hlong', _⟩)
      · rfl
      · omega

theorem exists_cutAt_iff {limit : Nat} (ellipsis : String) {s : String} :
    (∃ t, cutAt limit ellipsis s = some t) ↔
      s.utf8ByteSize ≤ limit ∨ IsCharBoundary s limit := by
  unfold cutAt
  by_cases hlong : limit < s.utf8ByteSize
  · rw [if_pos hlong, ← exists_sliceTo_iff]
    constructor
    · rintro ⟨t, ht⟩
      obtain ⟨kept, hkept, _⟩ := Option.map_eq_some_iff.1 ht
      exact .inr ⟨kept, hkept⟩
    · rintro (hshort | ⟨kept, hkept⟩)
      · omega
      · exact ⟨kept ++ ellipsis, by rw [hkept]; rfl⟩
  · rw [if_neg hlong]
    exact ⟨fun _ => .inl (by omega), fun _ => ⟨s, rfl⟩⟩

theorem cutAt_eq_none {limit : Nat} {cs : List Char} (ellipsis : String)
    (hlong : limit < weight Char.utf8Size cs) (hcut : takeWeight Char.utf8Size limit cs = none) :
    cutAt limit ellipsis (String.ofList cs) = none := by
  have hsize : limit < (String.ofList cs).utf8ByteSize := by
    rw [utf8ByteSize_eq_weight, String.toList_ofList]
    exact hlong
  unfold cutAt sliceTo
  rw [if_pos hsize, String.toList_ofList, hcut]
  rfl

inductive UpstreamError where
  | network (e : String)
  | status (code : Nat) (body : String)
  | parse (e : String)
  | timeout
deriving DecidableEq

/-- A response as `reqwest` gives it. How the reading of the body ends depends on the time
that it is given. -/
structure HttpResponse where
  status : Nat
  body : Duration → Except UpstreamError String

def HttpResponse.isSuccess (r : HttpResponse) : Bool := 200 ≤ r.status && r.status < 300

/-- The shapes in which `serde_json` reads a body: a response, a list of results, and an object
with such a list. -/
structure BodyFormats where
  response : String → Option QueryResponse
  results : String → Option (List SearchResult)
  wrapper : String → Option (List SearchResult)

/-- A request of the adapter: how the sending ended, and the clocks. -/
structure RestExchange where
  sent : Except UpstreamError HttpResponse
  elapsedMs : Nat
  currentTimeMs : Nat

structure GenericRestAdapter where
  formats : BodyFormats
  timeout : Duration

namespace GenericRestAdapter

variable (a : GenericRestAdapter) (x : RestExchange)

def ofResults (results : List SearchResult) : QueryResponse where
  results := results
  cacheStatus := .miss
  tookMs := x.elapsedMs
  generatedAt := some x.currentTimeMs
  missReason := none

def parseBody (body : String) : Option (Except UpstreamError QueryResponse) :=
  match a.formats.response body with
  | some resp => some (.ok { resp with cacheStatus := .miss, tookMs := x.elapsedMs })
  | none =>
    match a.formats.results body with
    | some results => some (.ok (ofResults x results))
    | none =>
      match a.formats.wrapper body with
      | some results => some (.ok (ofResults x results))
      | none =>
        (cutAt 200 "" body).map fun shown =>
          .error (.parse ("Failed to parse upstream response: " ++ shown))

/-- The answer, or a panic. -/
def query : Option (Except UpstreamError QueryResponse) :=
  match x.sent with
  | .error e => some (.error e)
  | .ok response =>
    if response.isSuccess then
      match response.body a.timeout with
      | .error e => some (.error e)
      | .ok body => a.parseBody x body
    else
      let body := match response.body 5000000000 with
        | .ok body => body
        | .error _ => ""
      some (.error (.status response.status body))

/-- The body of a successful answer in none of the shapes. -/
def unparsed : Option String :=
  match x.sent with
  | .error _ => none
  | .ok response =>
    if response.isSuccess then
      match response.body a.timeout with
      | .error _ => none
      | .ok body =>
        if (a.formats.response body).isNone && (a.formats.results body).isNone &&
            (a.formats.wrapper body).isNone then some body
        else none
    else none

/-- A value is returned, and what an unreadable answer's error shows is cut from its body. -/
def QueryReturns : Prop :=
  ∃ answer, a.query x = some answer ∧
    ∀ body, a.unparsed x = some body →
      ∃ shown, IsCut 200 "" body shown ∧
        answer = .error (.parse ("Failed to parse upstream response: " ++ shown))

theorem query_of_unparsed {body : String} (h : a.unparsed x = some body) :
    a.query x = (cutAt 200 "" body).map fun shown =>
      .error (.parse ("Failed to parse upstream response: " ++ shown)) := by
  unfold unparsed at h
  unfold query
  cases hsent : x.sent with
  | error e =>
    rw [hsent] at h
    cases h
  | ok response =>
    rw [hsent] at h
    by_cases hok : response.isSuccess = true
    · simp only [hok, if_true] at h ⊢
      cases hbody : response.body a.timeout with
      | error e =>
        rw [hbody] at h
        cases h
      | ok read =>
        rw [hbody] at h
        simp only at h ⊢
        split at h
        · rename_i hnone
          cases h
          simp only [Bool.and_eq_true, Option.isNone_iff_eq_none] at hnone
          simp only [parseBody, hnone.1.1, hnone.1.2, hnone.2]
        · cases h
    · simp [hok] at h

theorem query_of_parsed (h : a.unparsed x = none) : ∃ answer, a.query x = some answer := by
  unfold unparsed at h
  unfold query
  cases hsent : x.sent with
  | error e => exact ⟨.error e, rfl⟩
  | ok response =>
    rw [hsent] at h
    by_cases hok : response.isSuccess = true
    · simp only [hok, if_true] at h ⊢
      cases hbody : response.body a.timeout with
      | error e => exact ⟨.error e, rfl⟩
      | ok read =>
        rw [hbody] at h
        simp only at h ⊢
        unfold parseBody
        cases hresp : a.formats.response read with
        | some resp => exact ⟨_, rfl⟩
        | none =>
          cases hres : a.formats.results read with
          | some results => exact ⟨_, rfl⟩
          | none =>
            cases hwrap : a.formats.wrapper read with
            | some results => exact ⟨_, rfl⟩
            | none => simp [hresp, hres, hwrap] at h
    · simp only [hok]
      exact ⟨_, rfl⟩

theorem queryReturns_iff :
    a.QueryReturns x ↔
      ∀ body, a.unparsed x = some body → body.utf8ByteSize ≤ 200 ∨ IsCharBoundary body 200 := by
  unfold QueryReturns
  cases hun : a.unparsed x with
  | none =>
    obtain ⟨answer, hanswer⟩ := a.query_of_parsed x hun
    constructor
    · intro _ body hbody
      cases hbody
    · intro _
      refine ⟨answer, hanswer, ?_⟩
      intro body hbody
      cases hbody
  | some body =>
    rw [a.query_of_unparsed x hun]
    constructor
    · rintro ⟨answer, hanswer, _⟩ body' hbody'
      cases hbody'
      obtain ⟨shown, hshown, _⟩ := Option.map_eq_some_iff.1 hanswer
      exact (exists_cutAt_iff "").1 ⟨shown, hshown⟩
    · intro h
      obtain ⟨shown, hshown⟩ := (exists_cutAt_iff "").2 (h body rfl)
      refine ⟨_, Option.map_eq_some_iff.2 ⟨shown, hshown, rfl⟩, ?_⟩
      intro body' hbody'
      cases hbody'
      exact ⟨shown, cutAt_eq_some_iff.1 hshown, rfl⟩

end GenericRestAdapter

structure AuditEntry where
  requestId : Nat
  timestamp : Nat
  query : String
  topK : Option Nat
  cacheStatus : CacheStatus
  latencyMs : Nat
  resultCount : Nat
  success : Bool
  error : Option String
  clientId : Option String
  upstreamId : Option String
  missReason : Option MissReason
deriving DecidableEq

namespace AuditEntry

def ofQuery (requestId timestamp : Nat) (topK : Option Nat) (query : String) : AuditEntry where
  requestId := requestId
  timestamp := timestamp
  query := query
  topK := topK
  cacheStatus := .miss
  latencyMs := 0
  resultCount := 0
  success := false
  error := none
  clientId := none
  upstreamId := none
  missReason := none

def new (requestId timestamp : Nat) (query : String) (topK : Option Nat) : Option AuditEntry :=
  (cutAt 200 "..." query).map (ofQuery requestId timestamp topK)

theorem new_returns_iff (requestId timestamp : Nat) (query : String) (topK : Option Nat) :
    (∃ entry, new requestId timestamp query topK = some entry ∧
        IsCut 200 "..." query entry.query) ↔
      query.utf8ByteSize ≤ 200 ∨ IsCharBoundary query 200 := by
  rw [← exists_cutAt_iff "..."]
  constructor
  · rintro ⟨entry, hentry, _⟩
    obtain ⟨shown, hshown, _⟩ := Option.map_eq_some_iff.1 hentry
    exact ⟨shown, hshown⟩
  · rintro ⟨shown, hshown⟩
    exact ⟨ofQuery requestId timestamp topK shown,
      Option.map_eq_some_iff.2 ⟨shown, hshown, rfl⟩, cutAt_eq_some_iff.1 hshown⟩

end AuditEntry

namespace Benchmark

structure Hit where
  id : String
  score : F32
  rank : Nat
  content : String

def truncate (s : String) (max : Nat) : Option String := cutAt max "..." s

def hit (i : Nat) (r : SearchResult) : Option Hit :=
  (truncate r.content 120).map fun content => ⟨r.id, r.score, i + 1, content⟩

/-- The hits of one side of a report, from a rank on. -/
def hits : Nat → List SearchResult → Option (List Hit)
  | _, [] => some []
  | i, r :: rest => do
    let first ← hit i r
    let others ← hits (i + 1) rest
    return first :: others

theorem truncate_returns_iff (s : String) (max : Nat) :
    (∃ t, truncate s max = some t ∧ IsCut max "..." s t) ↔
      s.utf8ByteSize ≤ max ∨ IsCharBoundary s max := by
  rw [← exists_cutAt_iff "..."]
  constructor
  · rintro ⟨t, ht, _⟩
    exact ⟨t, ht⟩
  · rintro ⟨t, ht⟩
    exact ⟨t, ht, cutAt_eq_some_iff.1 ht⟩

theorem exists_hits_iff (top : List SearchResult) (i : Nat) :
    (∃ shown, hits i top = some shown) ↔
      ∀ r ∈ top, r.content.utf8ByteSize ≤ 120 ∨ IsCharBoundary r.content 120 := by
  induction top generalizing i with
  | nil => exact ⟨fun _ r hr => absurd hr List.not_mem_nil, fun _ => ⟨[], rfl⟩⟩
  | cons r rest ih =>
    rw [List.forall_mem_cons, ← ih (i + 1), ← exists_cutAt_iff "..."]
    constructor
    · rintro ⟨shown, hshown⟩
      simp only [hits, hit, truncate, Option.bind_eq_bind, Option.bind_eq_some_iff,
        Option.map_eq_some_iff] at hshown
      obtain ⟨first, ⟨content, hcontent, _⟩, others, hothers, _⟩ := hshown
      exact ⟨⟨content, hcontent⟩, others, hothers⟩
    · rintro ⟨⟨content, hcontent⟩, others, hothers⟩
      refine ⟨⟨r.id, r.score, i + 1, content⟩ :: others, ?_⟩
      simp [hits, hit, truncate, hcontent, hothers]

end Benchmark

/-- Each of the three returns a value exactly if the text it cuts is within its limit, or a
character starts or the text ends there; and then what it shows is the beginning of the text. -/
theorem truncations_return_iff (a : GenericRestAdapter) (x : RestExchange)
    (requestId timestamp : Nat) (query : String) (topK : Option Nat) (content : String) :
    (a.QueryReturns x ↔
      ∀ body, a.unparsed x = some body →
        body.utf8ByteSize ≤ 200 ∨ IsCharBoundary body 200) ∧
    ((∃ entry, AuditEntry.new requestId timestamp query topK = some entry ∧
        IsCut 200 "..." query entry.query) ↔
      query.utf8ByteSize ≤ 200 ∨ IsCharBoundary query 200) ∧
    ((∃ shown, Benchmark.truncate content 120 = some shown ∧
        IsCut 120 "..." content shown) ↔
      content.utf8ByteSize ≤ 120 ∨ IsCharBoundary content 120) :=
  ⟨a.queryReturns_iff x, AuditEntry.new_returns_iff requestId timestamp query topK,
    Benchmark.truncate_returns_iff content 120⟩

/-- A letter of two bytes lies across the limit. -/
theorem truncations_panic :
    let long (n : Nat) := String.ofList (List.replicate n 'a' ++ ['é'])
    let a : GenericRestAdapter := ⟨⟨fun _ => none, fun _ => none, fun _ => none⟩, 5000000000⟩
    a.query ⟨.ok ⟨200, fun _ => .ok (long 199)⟩, 1, 1⟩ = none ∧
    AuditEntry.new 1 1 (long 199) (some 10) = none ∧
    Benchmark.truncate (long 119) 120 = none := by
  intro long a
  have hlong (ellipsis : String) : cutAt 200 ellipsis (long 199) = none :=
    cutAt_eq_none ellipsis (by decide +kernel) (by decide +kernel)
  refine ⟨?_, ?_, ?_⟩
  · rw [a.query_of_unparsed _ rfl, hlong]
    rfl
  · rw [AuditEntry.new, hlong]
    rfl
  · exact cutAt_eq_none "..." (by decide +kernel) (by decide +kernel)

end Conproxy
