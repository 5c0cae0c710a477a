import Conproxy.Batch
import Conproxy.Server.State

/-!
# Messages of the gRPC service

`convert.rs`: the conversions between the types of the proxy and the messages that the protocol
buffer schema generates. A field that is absent is zero or empty in a message. Metadata travels as
JSON bytes, which `serde_json` writes and reads.
-/

namespace Conproxy

set_option autoImplicit false

/-- `serde_json::to_vec` and `from_slice` on values. -/
structure MetadataCodec where
  toVec : Json → Option (List UInt8)
  fromSlice : List UInt8 → Option Json

namespace Proto

inductive CacheStatus where
  | unspecified
  | hit
  | miss
  | stale
  | frozen
deriving DecidableEq

def CacheStatus.toI32 : CacheStatus → Int
  | unspecified => 0
  | hit => 1
  | miss => 2
  | stale => 3
  | frozen => 4

def CacheStatus.tryFrom (n : Int) : Option CacheStatus :=
  if n = 0 then some unspecified
  else if n = 1 then some hit
  else if n = 2 then some miss
  else if n = 3 then some stale
  else if n = 4 then some frozen
  else none

structure QueryRequest where
  query : String
  topK : UInt32
  priority : UInt32
  upstreamId : String
  upstreamType : String
  context : String
  requestId : String
deriving DecidableEq

structure SearchResult where
  id : String
  score : F32
  content : String
  metadataJson : List UInt8
  upstreamId : String
deriving DecidableEq

structure QueryResponse where
  results : List SearchResult
  cacheStatus : Int
  tookMs : Nat
  generatedAt : Nat
deriving DecidableEq

structure BatchQueryResponse where
  results : AList fun _ : String => QueryResponse
  tookMs : Nat
  successCount : UInt32
  errorCount : UInt32
  complete : Bool

/-- An empty text is an absent one. -/
def text (s : String) : Option String := if s = "" then none else some s

end Proto

def QueryRequest.ofProto (m : Proto.QueryRequest) : QueryRequest where
  query := m.query
  topK := if 0 < m.topK then some m.topK.toNat else none
  priority := if 0 < m.priority then some m.priority.toUInt8.toNat else none
  upstreamId := Proto.text m.upstreamId
  upstreamType := Proto.text m.upstreamType

def QueryRequest.toProto (r : QueryRequest) : Proto.QueryRequest where
  query := r.query
  topK := UInt32.ofNat (r.topK.getD 0)
  priority := UInt32.ofNat (r.priority.getD 0)
  upstreamId := r.upstreamId.getD ""
  upstreamType := r.upstreamType.getD ""
  context := ""
  requestId := ""

/-- The fields that both forms of a request have. -/
structure Proto.QueryRequest.Same (m m' : Proto.QueryRequest) : Prop where
  query : m'.query = m.query
  topK : m'.topK = m.topK
  priority : m'.priority = m.priority
  upstreamId : m'.upstreamId = m.upstreamId
  upstreamType : m'.upstreamType = m.upstreamType

theorem Proto.text_getD (s : String) : (Proto.text s).getD "" = s := by
  unfold Proto.text
  split
  · rename_i hempty
    exact hempty.symm
  · rfl

theorem toProto_topK (m : Proto.QueryRequest) : (QueryRequest.ofProto m).toProto.topK = m.topK := by
  unfold QueryRequest.toProto QueryRequest.ofProto
  dsimp only
  split
  · exact UInt32.ofNat_toNat
  · rename_i hzero
    have hle : m.topK ≤ 0 := UInt32.not_lt.1 hzero
    exact (UInt32.le_zero_iff.1 hle).symm

theorem toProto_priority (m : Proto.QueryRequest) :
    (QueryRequest.ofProto m).toProto.priority = UInt32.ofNat (m.priority.toNat % 256) := by
  unfold QueryRequest.toProto QueryRequest.ofProto
  dsimp only
  split
  · rfl
  · rename_i hzero
    have hle : m.priority ≤ 0 := UInt32.not_lt.1 hzero
    rw [UInt32.le_zero_iff.1 hle]
    rfl

theorem toProto_ofProto_iff (m : Proto.QueryRequest) :
    m.Same (QueryRequest.ofProto m).toProto ↔ m.priority < 256 := by
  have hpriority : (QueryRequest.ofProto m).toProto.priority = m.priority ↔ m.priority < 256 := by
    rw [toProto_priority, ← UInt32.toNat_inj, UInt32.lt_iff_toNat_lt]
    have hlt := m.priority.toNat_lt
    rw [UInt32.toNat_ofNat']
    change m.priority.toNat % 256 % 2 ^ 32 = m.priority.toNat ↔ m.priority.toNat < 256
    omega
  constructor
  · intro h
    exact hpriority.1 h.priority
  · intro h
    exact ⟨rfl, toProto_topK m, hpriority.2 h, Proto.text_getD _, Proto.text_getD _⟩

section

variable (codec : MetadataCodec)

def SearchResult.toProto (r : SearchResult) : Proto.SearchResult where
  id := r.id
  score := r.score
  content := r.content
  metadataJson := (r.metadata.map fun m => (codec.toVec m).getD []).getD []
  upstreamId := r.upstreamId.getD ""

def SearchResult.ofProto (m : Proto.SearchResult) : SearchResult where
  id := m.id
  score := m.score
  content := m.content
  metadata := if m.metadataJson = [] then none else codec.fromSlice m.metadataJson
  upstreamId := Proto.text m.upstreamId

/-- `serde_json` writes the value, and reads it from what it wrote. -/
def MetadataCodec.ReadsBack (m : Json) : Prop :=
  ∃ bytes, codec.toVec m = some bytes ∧ bytes ≠ [] ∧ codec.fromSlice bytes = some m

/-- The upstream has a name if it has one at all, and the metadata survives its writing. -/
structure SearchResult.Kept (r : SearchResult) : Prop where
  upstreamId : r.upstreamId ≠ some ""
  metadata : ∀ m, r.metadata = some m → codec.ReadsBack m

theorem Proto.text_of_getD {u : Option String} : Proto.text (u.getD "") = u ↔ u ≠ some "" := by
  unfold Proto.text
  cases u with
  | none => simp
  | some name =>
    by_cases hempty : name = ""
    · simp [hempty]
    · simp [hempty]

theorem metadata_toProto_iff (r : SearchResult) :
    (SearchResult.ofProto codec (r.toProto codec)).metadata = r.metadata ↔
      ∀ m, r.metadata = some m → codec.ReadsBack m := by
  unfold SearchResult.ofProto SearchResult.toProto MetadataCodec.ReadsBack
  dsimp only
  cases r.metadata with
  | none => simp
  | some m =>
    cases hwritten : codec.toVec m with
    | none => simp [hwritten]
    | some bytes =>
      by_cases hempty : bytes = []
      · simp [hempty, hwritten]
      · simp [hempty, hwritten]

theorem ofProto_toProto_iff (r : SearchResult) :
    SearchResult.ofProto codec (r.toProto codec) = r ↔ r.Kept codec := by
  have hmetadata := metadata_toProto_iff codec r
  have hupstream : (SearchResult.ofProto codec (r.toProto codec)).upstreamId = r.upstreamId ↔
      r.upstreamId ≠ some "" := Proto.text_of_getD
  constructor
  · intro h
    exact ⟨hupstream.1 (congrArg SearchResult.upstreamId h),
      hmetadata.1 (congrArg SearchResult.metadata h)⟩
  · rintro ⟨hname, hread⟩
    have hsame := hmetadata.2 hread
    have hsame' := hupstream.2 hname
    cases r
    simp only [SearchResult.ofProto, SearchResult.toProto, SearchResult.mk.injEq, true_and]
      at hsame hsame' ⊢
    exact ⟨hsame, hsame'⟩

def CacheStatus.toProto : CacheStatus → Proto.CacheStatus
  | .hit => .hit
  | .miss => .miss
  | .stale => .stale
  | .frozen => .frozen

def CacheStatus.ofProto : Proto.CacheStatus → CacheStatus
  | .hit => .hit
  | .miss => .miss
  | .stale => .stale
  | .frozen => .frozen
  | .unspecified => .miss

def QueryResponse.toProto (r : QueryResponse) : Proto.QueryResponse where
  results := r.results.map (SearchResult.toProto codec)
  cacheStatus := r.cacheStatus.toProto.toI32
  tookMs := r.tookMs
  generatedAt := r.generatedAt.getD 0

def QueryResponse.ofProto (m : Proto.QueryResponse) : QueryResponse where
  results := m.results.map (SearchResult.ofProto codec)
  cacheStatus := .ofProto ((Proto.CacheStatus.tryFrom m.cacheStatus).getD .unspecified)
  tookMs := m.tookMs
  generatedAt := if 0 < m.generatedAt then some m.generatedAt else none
  missReason := none

def CachedResponse.toProto : CachedResponse → Proto.QueryResponse
  | .cached entry cacheStatus tookMs =>
    { results := entry.response.results.map (SearchResult.toProto codec)
      cacheStatus := cacheStatus.toProto.toI32
      tookMs := tookMs
      generatedAt := entry.response.generatedAt.getD 0 }
  | .fresh response => response.toProto codec
  | .sharedFresh response tookMs =>
    { results := response.results.map (SearchResult.toProto codec)
      cacheStatus := response.cacheStatus.toProto.toI32
      tookMs := tookMs
      generatedAt := response.generatedAt.getD 0 }

/-- What is kept of a response on its way to a message and back. -/
structure QueryResponse.Same (r r' : QueryResponse) : Prop where
  results : r'.results = r.results
  cacheStatus : r'.cacheStatus = r.cacheStatus
  tookMs : r'.tookMs = r.tookMs
  generatedAt : ∀ t, 0 < t → r.generatedAt = some t → r'.generatedAt = some t

theorem cacheStatus_toProto (status : CacheStatus) :
    CacheStatus.ofProto ((Proto.CacheStatus.tryFrom status.toProto.toI32).getD .unspecified) =
      status := by
  cases status <;> rfl

theorem same_ofProto_iff (r : QueryResponse) :
    r.Same (QueryResponse.ofProto codec (r.toProto codec)) ↔ ∀ x ∈ r.results, x.Kept codec := by
  have hresults : (QueryResponse.ofProto codec (r.toProto codec)).results = r.results ↔
      ∀ x ∈ r.results, x.Kept codec := by
    simp only [QueryResponse.ofProto, QueryResponse.toProto, List.map_map]
    conv_lhs => rw [← List.map_id r.results, List.map_map]
    rw [List.map_inj_left]
    exact forall₂_congr fun x _ => ofProto_toProto_iff codec x
  constructor
  · intro h
    exact hresults.1 h.results
  · intro h
    refine ⟨hresults.2 h, cacheStatus_toProto r.cacheStatus, rfl, ?_⟩
    intro t ht hgenerated
    simp [QueryResponse.ofProto, QueryResponse.toProto, hgenerated, ht]

/-- An item without a response becomes an empty miss. -/
def BatchQueryResult.toProto (v : BatchQueryResult) : Proto.QueryResponse :=
  match v.response with
  | some response => response.toProto codec
  | none => ⟨[], Proto.CacheStatus.miss.toI32, v.tookMs, 0⟩

/-- `batch_response_to_proto`. -/
def BatchResponse.toProto (r : BatchResponse) : Proto.BatchQueryResponse where
  results :=
    { entries := r.results.entries.map fun e => ⟨e.1, e.2.toProto codec⟩
      nodupKeys := by
        have hkeys : (r.results.entries.map fun e =>
            (⟨e.1, e.2.toProto codec⟩ : Sigma fun _ : String => Proto.QueryResponse)).keys =
            r.results.entries.keys := by
          simp [List.keys]
        rw [List.NodupKeys, hkeys]
        exact r.results.nodupKeys }
  tookMs := r.tookMs
  successCount := UInt32.ofNat r.successCount
  errorCount := UInt32.ofNat r.errorCount
  complete := r.complete

theorem lookup_toProto {r : BatchResponse} {id : String} {v : BatchQueryResult}
    (h : r.results.lookup id = some v) :
    (r.toProto codec).results.lookup id = some (v.toProto codec) := by
  rw [← Option.mem_def, AList.mem_lookup_iff] at h ⊢
  exact List.mem_map.2 ⟨_, h, rfl⟩

/-- No failed item has the message of a successful one without results. -/
def BatchResponse.Tells (r : BatchResponse) : Prop :=
  ∀ i j failed done response, r.results.lookup i = some failed → failed.response = none →
    r.results.lookup j = some done → done.response = some response → response.results = [] →
    (r.toProto codec).results.lookup i ≠ (r.toProto codec).results.lookup j

/-- No successful item without results is an undated miss that took as long as a failed one. -/
def BatchResponse.Apart (r : BatchResponse) : Prop :=
  ∀ i j failed done response, r.results.lookup i = some failed → failed.response = none →
    r.results.lookup j = some done → done.response = some response → response.results = [] →
    ¬ (response.cacheStatus = .miss ∧ response.tookMs = failed.tookMs ∧
      response.generatedAt.getD 0 = 0)

theorem toI32_eq_miss_iff (status : CacheStatus) :
    status.toProto.toI32 = Proto.CacheStatus.miss.toI32 ↔ status = .miss := by
  cases status <;> decide

theorem item_toProto_eq_iff {failed done : BatchQueryResult} {response : QueryResponse}
    (hfailed : failed.response = none) (hdone : done.response = some response)
    (hempty : response.results = []) :
    failed.toProto codec = done.toProto codec ↔
      response.cacheStatus = .miss ∧ response.tookMs = failed.tookMs ∧
        response.generatedAt.getD 0 = 0 := by
  unfold BatchQueryResult.toProto
  rw [hfailed, hdone]
  simp only [QueryResponse.toProto, hempty, List.map_nil, Proto.QueryResponse.mk.injEq, true_and,
    eq_comm (a := Proto.CacheStatus.miss.toI32), toI32_eq_miss_iff, eq_comm (a := failed.tookMs),
    eq_comm (a := 0)]

theorem batch_tells_iff (r : BatchResponse) : r.Tells codec ↔ r.Apart := by
  unfold BatchResponse.Tells BatchResponse.Apart
  refine forall₂_congr fun i j => forall₃_congr fun failed done response => ?_
  refine forall₂_congr fun hi hfailed => forall₃_congr fun hj hdone hempty => ?_
  rw [lookup_toProto codec hi, lookup_toProto codec hj, ne_eq, Option.some_inj,
    item_toProto_eq_iff codec hfailed hdone hempty]

end

/-- What the conversions keep, and when: a request if its priority fits into a byte, a result and
the results of a response if metadata and upstream survive, the rest of a response always, and the
failure of an item if no successful one looks like it. -/
theorem conversions_keep_iff (codec : MetadataCodec) (m : Proto.QueryRequest) (r : SearchResult)
    (response : QueryResponse) (batch : BatchResponse) :
    (m.Same (QueryRequest.ofProto m).toProto ↔ m.priority < 256) ∧
    (SearchResult.ofProto codec (r.toProto codec) = r ↔ r.Kept codec) ∧
    (response.Same (QueryResponse.ofProto codec (response.toProto codec)) ↔
      ∀ x ∈ response.results, x.Kept codec) ∧
    (batch.Tells codec ↔ batch.Apart) :=
  ⟨toProto_ofProto_iff m, ofProto_toProto_iff codec r, same_ofProto_iff codec response,
    batch_tells_iff codec batch⟩

/-- A failure after five milliseconds and an empty answer that took five. -/
def twoItems : BatchResponse where
  results := (((∅ : AList fun _ : String => BatchQueryResult).insert "q0"
    (.ofError "unavailable" 5)).insert "q1" (.ofResponse ⟨[], .miss, 5, none, none⟩))
  tookMs := 5
  successCount := 1
  errorCount := 1
  complete := true

/-- The priority 256 comes back as 0, and a failed item reads as an empty answer. -/
theorem conversions_lose :
    let m : Proto.QueryRequest := ⟨"q", 0, 256, "", "", "", ""⟩
    let codec : MetadataCodec := ⟨fun v => some (utf8 v.toText), fun _ => none⟩
    ¬ m.Same (QueryRequest.ofProto m).toProto ∧
    (twoItems.toProto codec).results.lookup "q0" =
      (twoItems.toProto codec).results.lookup "q1" := by
  intro m codec
  refine ⟨?_, rfl⟩
  intro h
  exact absurd h.priority (by decide)

end Conproxy
