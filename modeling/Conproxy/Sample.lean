import Conproxy.Persistence

/-!
# A small platform

A platform that computes, for the concrete runs that accompany the general results. Its digest
is the text itself, read as a number to the base 256, so it has no collisions on texts of up
to thirty bytes. Its JSON coding is the one of `serde_json` for responses with one plain result.
-/

namespace Conproxy

set_option autoImplicit false

def textResponse (content : String) : QueryResponse where
  results := [⟨"1", .finite 0, content, none, none⟩]
  cacheStatus := .miss
  tookMs := 0
  generatedAt := none
  missReason := none

def textResponseHead : List UInt8 :=
  utf8 "\x7b\"results\":[\x7b\"id\":\"1\",\"score\":0.0,\"content\":\""

def textResponseTail : List UInt8 :=
  utf8 "\",\"metadata\":null\x7d],\"cache_status\":\"miss\",\"took_ms\":0\x7d"

def textOfBytes (bytes : List UInt8) : String :=
  String.ofList (bytes.map fun b => Char.ofNat b.toNat)

def encodeText (response : QueryResponse) : Option (List UInt8) :=
  match response.results with
  | [r] => some (textResponseHead ++ utf8 r.content ++ textResponseTail)
  | _ => none

def decodeText (bytes : List UInt8) : Option QueryResponse :=
  if textResponseHead <+: bytes ∧ textResponseTail <:+ bytes then
    some (textResponse (textOfBytes ((bytes.drop textResponseHead.length).take
      (bytes.length - textResponseHead.length - textResponseTail.length))))
  else none

def Platform.sample : Platform where
  tables := CaseTables.ascii
  blake3 bytes := BitVec.ofNat 256 (bytes.foldl (fun n b => n * 256 + b.toNat) 1)
  f32Bytes _ := [0, 0, 0, 0]
  entryBytes := 256
  jitterSecs _ _ _ := 0
  toVec := encodeText
  fromSlice := decodeText
  encodeEntry _ := none
  decodeEntry _ := none
  cosineSimilarity _ _ := .finite 1

def natJson (n : Nat) : Json := .number (toString n)

/-- For a score of zero. -/
def storedResultJson (r : PersistedResult) : Json :=
  .object [("id", .string r.id), ("content", .string r.content), ("score", .number "0.0"),
    ("metadata", r.metadata.getD .null)]

def storedJson (e : PersistedEntry) : Json :=
  .object [("query", .string e.query), ("upstream_id", .string e.upstreamId),
    ("response", .object [("results", .array (e.response.results.map storedResultJson)),
      ("cache_status", .string e.response.cacheStatus), ("took_ms", natJson e.response.tookMs),
      ("generated_at", (e.response.generatedAt.map natJson).getD .null)]),
    ("cached_at_ms", natJson e.cachedAtMs), ("extended_count", natJson e.extendedCount),
    ("content_hash", .array ((hashBytes e.contentHash).map fun b => natJson b.toNat))]

def encodeStored (e : PersistedEntry) : Option (List UInt8) :=
  if e.response.results.all fun r => r.score = .finite 0 then some (utf8 (storedJson e).toText)
  else none

/-- A platform with a disk on which only one entry is ever read back. -/
def Platform.disk (known : PersistedEntry) : Platform :=
  { Platform.sample with
    encodeEntry := encodeStored
    decodeEntry := fun bytes => if some bytes = encodeStored known then some known else none }

end Conproxy
