import Mathlib.Algebra.Order.Ring.Unbundled.Rat
import Mathlib.Data.BitVec
import Conproxy.Text

/-!
# Core types of the cache proxy

The request, response and entry records of `types.rs` with their checks. Sizes and counters
are natural numbers: the source adds them with `saturating_add`, and no sum of byte lengths
in a run comes near `usize::MAX`.
-/

namespace Conproxy

set_option autoImplicit false

/-- A blake3 digest: 32 bytes, read as one little-endian word. -/
abbrev QueryHash := BitVec 256

/-- Nanoseconds. -/
abbrev Duration := Nat

/-- An `f32`, with the finite values kept exact. -/
inductive F32 where
  | finite (value : ℚ)
  | infinite (negative : Bool)
  | nan
deriving DecidableEq

def F32.isFinite : F32 → Bool
  | .finite _ => true
  | _ => false

/-- `serde_json::Value`; a number carries its literal text. -/
inductive Json where
  | null
  | bool (value : Bool)
  | number (literal : String)
  | string (text : String)
  | array (items : List Json)
  | object (fields : List (String × Json))

namespace Json

def hexDigit (n : Nat) : Char :=
  if n < 10 then Char.ofNat (48 + n) else Char.ofNat (87 + n)

/-- `serde_json` escapes the quote, the backslash and the control characters below 32. -/
def escapeChar (c : Char) : List Char :=
  if c = '"' then ['\\', '"']
  else if c = '\\' then ['\\', '\\']
  else if c.toNat = 8 then ['\\', 'b']
  else if c.toNat = 9 then ['\\', 't']
  else if c.toNat = 10 then ['\\', 'n']
  else if c.toNat = 12 then ['\\', 'f']
  else if c.toNat = 13 then ['\\', 'r']
  else if c.toNat < 32 then
    ['\\', 'u', '0', '0', hexDigit (c.toNat / 16), hexDigit (c.toNat % 16)]
  else [c]

def quoted (s : String) : List Char := '"' :: s.toList.flatMap escapeChar ++ ['"']

mutual

def render : Json → List Char
  | .null => ['n', 'u', 'l', 'l']
  | .bool true => ['t', 'r', 'u', 'e']
  | .bool false => ['f', 'a', 'l', 's', 'e']
  | .number literal => literal.toList
  | .string text => quoted text
  | .array items => '[' :: renderItems items ++ [']']
  | .object fields => '{' :: renderFields fields ++ ['}']

def renderItems : List Json → List Char
  | [] => []
  | [item] => render item
  | item :: next :: rest => render item ++ ',' :: renderItems (next :: rest)

def renderFields : List (String × Json) → List Char
  | [] => []
  | [(key, value)] => quoted key ++ ':' :: render value
  | (key, value) :: next :: rest =>
    quoted key ++ ':' :: render value ++ ',' :: renderFields (next :: rest)

end

def toText (j : Json) : String := String.ofList j.render

mutual

/-- `json_approximate_size`: an estimate of the text length that builds no text. -/
def approximateSize : Json → Nat
  | .null => 4
  | .bool true => 4
  | .bool false => 5
  | .number _ => 8
  | .string text => text.utf8ByteSize + 2
  | .array items => sizeOfItems items + items.length + 2
  | .object fields => sizeOfFields fields + 2

def sizeOfItems : List Json → Nat
  | [] => 0
  | item :: rest => approximateSize item + sizeOfItems rest

def sizeOfFields : List (String × Json) → Nat
  | [] => 0
  | (key, value) :: rest => key.utf8ByteSize + approximateSize value + 4 + sizeOfFields rest

end

end Json

structure SearchResult where
  id : String
  score : F32
  content : String
  metadata : Option Json
  upstreamId : Option String

inductive CacheStatus where
  | hit
  | miss
  | stale
  | frozen
deriving DecidableEq

inductive MissReason where
  | notInCache
  | expired
  | circuitOpen
  | upstreamError
deriving DecidableEq

inductive Freshness where
  | fresh
  | stale
  | frozen
  | expired
deriving DecidableEq

structure QueryResponse where
  results : List SearchResult
  cacheStatus : CacheStatus
  tookMs : Nat
  generatedAt : Option Nat
  missReason : Option MissReason

structure QueryRequest where
  query : String
  topK : Option Nat
  priority : Option Nat
  upstreamId : Option String
  upstreamType : Option String
deriving DecidableEq

def maxQueryLength : Nat := 10000
def maxTopK : Nat := 1000
def defaultTopK : Nat := 10
def maxResults : Nat := 1000
def maxContentLength : Nat := 100000
def maxResponseSize : Nat := 10000000

inductive ValidationError where
  | emptyQuery
  | queryTooLong (length max : Nat)
  | queryContainsNullBytes
  | queryContainsControlChars
  | topKTooLarge (value max : Nat)
deriving DecidableEq

/-- The control characters that a query may not contain: all below 32 but tab, newline and
carriage return. -/
def suspiciousControl (c : Char) : Bool :=
  c.toNat < 32 && c.toNat != 9 && c.toNat != 10 && c.toNat != 13

def QueryRequest.validate (r : QueryRequest) : Except ValidationError Unit :=
  if trim r.query.toList = [] then .error .emptyQuery
  else if maxQueryLength < r.query.utf8ByteSize then
    .error (.queryTooLong r.query.utf8ByteSize maxQueryLength)
  else if r.query.toList.contains '\x00' then .error .queryContainsNullBytes
  else if r.query.toList.any suspiciousControl then .error .queryContainsControlChars
  else
    match r.topK with
    | some k => if maxTopK < k then .error (.topKTooLarge k maxTopK) else .ok ()
    | none => .ok ()

def QueryRequest.effectiveTopK (r : QueryRequest) : Nat :=
  min (r.topK.getD defaultTopK) maxTopK

inductive ResponseValidationError where
  | tooManyResults (count max : Nat)
  | contentTooLong (resultId : String) (length max : Nat)
  | contentContainsNullBytes (resultId : String)
  | contentContainsControlChars (resultId : String)
  | responseTooLarge (size max : Nat)
  | emptyResultId
  | invalidScore (resultId : String) (score : F32)
deriving DecidableEq

def SearchResult.validate (r : SearchResult) : Except ResponseValidationError Unit :=
  if r.id = "" then .error .emptyResultId
  else if r.score.isFinite = false then .error (.invalidScore r.id r.score)
  else if maxContentLength < r.content.utf8ByteSize then
    .error (.contentTooLong r.id r.content.utf8ByteSize maxContentLength)
  else if r.content.toList.contains '\x00' then .error (.contentContainsNullBytes r.id)
  else if r.content.toList.any fun c => isControl c && c != '\n' && c != '\r' && c != '\t' then
    .error (.contentContainsControlChars r.id)
  else .ok ()

def SearchResult.approximateSize (r : SearchResult) : Nat :=
  r.id.utf8ByteSize + r.content.utf8ByteSize + 32 +
    (r.metadata.map Json.approximateSize).getD 0

def validateResults : List SearchResult → Nat → Except ResponseValidationError Nat
  | [], total => .ok total
  | r :: rest, total =>
    match r.validate with
    | .error e => .error e
    | .ok () => validateResults rest (total + r.approximateSize)

def QueryResponse.validate (resp : QueryResponse) : Except ResponseValidationError Unit :=
  if maxResults < resp.results.length then
    .error (.tooManyResults resp.results.length maxResults)
  else
    match validateResults resp.results 0 with
    | .error e => .error e
    | .ok total =>
      if maxResponseSize < total then .error (.responseTooLarge total maxResponseSize)
      else .ok ()

structure SchemaFingerprint where
  embeddingDims : Option Nat
  modelHint : Option String
  version : Option String
deriving DecidableEq

def SchemaFingerprint.default : SchemaFingerprint := ⟨none, none, none⟩

/-- A cached response. `cachedAt` is a reading of the monotonic clock and `cachedAtWall` one
of the wall clock, both in nanoseconds. -/
structure CacheEntry where
  freq : Nat
  cachedAt : Nat
  cachedAtWall : Option Nat
  contentHash : Option QueryHash
  response : QueryResponse
  upstreamId : String
  extendedCount : Nat
  schema : SchemaFingerprint
  queryText : Option String
  contextId : String

/-- The stored forms of a result, a response and an entry (`persistence.rs`). -/
structure PersistedResult where
  id : String
  content : String
  score : F32
  metadata : Option Json

structure PersistedResponse where
  results : List PersistedResult
  cacheStatus : String
  tookMs : Nat
  generatedAt : Option Nat

structure PersistedEntry where
  query : String
  upstreamId : String
  response : PersistedResponse
  cachedAtMs : Nat
  extendedCount : Nat
  contentHash : QueryHash

abbrev Embedding := List F32

/-- What the program takes from outside its own source: the Unicode tables, the blake3
function, the encoding of an `f32`, the size of the entry record in memory, the
floating-point part of the TTL jitter, the JSON coding of a response and of a stored entry,
and the cosine of two vectors. -/
structure Platform where
  tables : CaseTables
  blake3 : List UInt8 → QueryHash
  f32Bytes : F32 → List UInt8
  entryBytes : Nat
  jitterSecs : ℚ → Duration → QueryHash → Nat
  toVec : QueryResponse → Option (List UInt8)
  fromSlice : List UInt8 → Option QueryResponse
  encodeEntry : PersistedEntry → Option (List UInt8)
  decodeEntry : List UInt8 → Option PersistedEntry
  cosineSimilarity : Embedding → Embedding → F32

/-- `str::as_bytes`. -/
def utf8 (s : String) : List UInt8 := s.toUTF8.data.toList

theorem utf8_inj {a b : String} : utf8 a = utf8 b ↔ a = b := by
  constructor
  · intro h
    apply String.toByteArray_inj.mp
    exact ByteArray.ext (Array.toList_inj.mp h)
  · intro h
    rw [h]

theorem utf8_append (a b : String) : utf8 (a ++ b) = utf8 a ++ utf8 b := by
  have hbytes : (a ++ b).toUTF8 = a.toUTF8 ++ b.toUTF8 := String.toByteArray_append
  rw [utf8, hbytes, ByteArray.data_append, Array.toList_append]
  rfl

def leBytes64 (n : Nat) : List UInt8 := (List.range 8).map fun i => UInt8.ofNat (n / 256 ^ i)

namespace CacheEntry

def resultBytes (p : Platform) (r : SearchResult) : List UInt8 :=
  utf8 r.id ++ p.f32Bytes r.score ++ utf8 r.content ++
    (r.metadata.map fun m => utf8 m.toText).getD []

def computeContentHash (p : Platform) (response : QueryResponse) : QueryHash :=
  p.blake3 (leBytes64 response.results.length ++ response.results.flatMap (resultBytes p))

def resultSize (r : SearchResult) : Nat :=
  r.id.utf8ByteSize + r.content.utf8ByteSize + 4 +
    (r.metadata.map fun m => m.toText.utf8ByteSize).getD 0

def optionSize (s : Option String) : Nat := (s.map String.utf8ByteSize).getD 0

def approximateSize (p : Platform) (e : CacheEntry) : Nat :=
  p.entryBytes + (e.response.results.map resultSize).sum + e.upstreamId.utf8ByteSize +
    optionSize e.schema.modelHint + optionSize e.schema.version + optionSize e.queryText

theorem approximateSize_congr (p : Platform) {e e' : CacheEntry}
    (hr : e'.response = e.response) (hu : e'.upstreamId = e.upstreamId)
    (hs : e'.schema = e.schema) (hq : e'.queryText = e.queryText) :
    e'.approximateSize p = e.approximateSize p := by
  simp only [approximateSize, hr, hu, hs, hq]

end CacheEntry

end Conproxy
