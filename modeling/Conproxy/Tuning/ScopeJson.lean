import Conproxy.Hits
import Conproxy.Tuning.Session

/-!
# A scope as JSON

How `serde` reads `ProxyScopeConfig` and `WeightedPhrase` of `config/mod.rs`, from an object or from
a sequence, and how it writes a phrase. The fields have aliases, and a field that is given under two
of its names is an error; fields with other names are ignored.
-/

namespace Conproxy

set_option autoImplicit false

namespace Json

/-- The fields of a structure, which may also come as a sequence in their order. -/
def structFields (names : List String) : Json → Option (List (String × Json))
  | .object fields => some fields
  | .array items => if items.length ≤ names.length then some (names.zip items) else none
  | _ => none

/-- The value under one of the names of a field; two of them are an error. -/
def fieldOf (names : List String) (fields : List (String × Json)) : Option (Option Json) :=
  match fields.filter fun field => names.contains field.1 with
  | [] => some none
  | [field] => some (some field.2)
  | _ => none

/-- A field that may be missing. -/
def readField {α : Type} (names : List String) (default : α) (read : Json → Option α)
    (fields : List (String × Json)) : Option α :=
  match fieldOf names fields with
  | none => none
  | some none => some default
  | some (some value) => read value

/-- `null` is `None`. -/
def nullable {α : Type} (read : Json → Option α) : Json → Option (Option α)
  | .null => some none
  | value => (read value).map some

def listOf {α : Type} (read : Json → Option α) : Json → Option (List α)
  | .array items => items.mapM read
  | _ => none

end Json

section Read

variable (t : TuneText)

def readF32 (value : Json) : Option F32 := value.asNumber.map t.asF32

def readBand : Json → Option (F32 × F32)
  | .array [low, high] => do
    let low ← readF32 t low
    let high ← readF32 t high
    return (low, high)
  | _ => none

def phraseNames : List String := ["text", "weight", "min_similarity"]

/-- Without a text there is no phrase. -/
def readPhrase (value : Json) : Option WeightedPhrase := do
  let fields ← value.structFields phraseNames
  let text ← Json.readField ["text"] none (fun value => value.asStr.map some) fields
  let weight ← Json.readField ["weight"] F32.one (readF32 t) fields
  let minSimilarity ←
    Json.readField ["min_similarity"] none (Json.nullable (readF32 t)) fields
  return ⟨← text, weight, minSimilarity⟩

def scopeNames : List String :=
  ["weighted_phrases", "seeds", "mode", "min_seed_similarity", "seed_weight", "query_prefix",
    "lexical_weight", "embed_band"]

def readScope (value : Json) : Option ProxyScopeConfig := do
  let fields ← value.structFields scopeNames
  let weightedPhrases ← Json.readField ["weighted_phrases"] [] (Json.listOf (readPhrase t)) fields
  let seeds ← Json.readField ["seeds", "phrases"] [] (Json.listOf Json.asStr) fields
  let mode ← Json.readField ["mode"] none (Json.nullable Json.asStr) fields
  let minSeedSimilarity ← Json.readField ["min_seed_similarity", "min_similarity"] none
    (Json.nullable (readF32 t)) fields
  let seedWeight ← Json.readField ["seed_weight", "scope_weight"] none
    (Json.nullable (readF32 t)) fields
  let queryPrefix ← Json.readField ["query_prefix"] none (Json.nullable Json.asStr) fields
  let lexicalWeight ← Json.readField ["lexical_weight"] none (Json.nullable (readF32 t)) fields
  let embedBand ← Json.readField ["embed_band"] none (Json.nullable (readBand t)) fields
  return ProxyScopeConfig.mk weightedPhrases seeds mode minSeedSimilarity seedWeight queryPrefix
    lexicalWeight embedBand

end Read

/-- A phrase as it is written: a missing floor is left out. -/
def WeightedPhrase.json (t : TuneText) (phrase : WeightedPhrase) : Json :=
  .object
    ((phrase.minSimilarity.map fun floor => ("min_similarity", Json.f32 t floor)).toList ++
      [("text", .string phrase.text), ("weight", .f32 t phrase.weight)])

end Conproxy
