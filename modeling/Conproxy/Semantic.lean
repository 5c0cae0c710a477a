import Mathlib.Data.List.AList
import Conproxy.Types

/-!
# The semantic tier

Embeddings by query hash, looked up by similarity (`semantic_cache.rs`). The cosine of two
vectors is computed in floating point and stays a parameter.
-/

namespace Conproxy

set_option autoImplicit false

namespace F32

/-- `<` on `f32`; `NaN` is not comparable. -/
def lt : F32 → F32 → Bool
  | .finite a, .finite b => a < b
  | .finite _, .infinite neg => !neg
  | .infinite neg, .finite _ => neg
  | .infinite a, .infinite b => a && !b
  | _, _ => false

def ge (a b : F32) : Bool := lt b a || (a == b && a != .nan)

def zero : F32 := .finite 0

def one : F32 := .finite 1

/-- `clamp(0.0, 1.0)`. -/
def clampUnit (a : F32) : F32 := if lt a zero then zero else if lt one a then one else a

end F32

structure SemanticCache where
  embeddings : AList fun _ : QueryHash => Nat × Embedding
  sequence : Nat
  threshold : F32
  maxEntries : Nat

namespace SemanticCache

def new (threshold : F32) (maxEntries : Nat) : SemanticCache :=
  ⟨∅, 0, threshold.clampUnit, maxEntries⟩

/-- The scan of `lookup`: the best similarity so far and the hash that has it. -/
def best (p : Platform) (query : Embedding) :
    List (QueryHash × Embedding) → F32 × Option QueryHash → F32 × Option QueryHash
  | [], acc => acc
  | (h, stored) :: rest, acc =>
    if stored.length ≠ query.length then best p query rest acc
    else
      let sim := p.cosineSimilarity query stored
      if F32.lt acc.1 sim then best p query rest (sim, some h)
      else best p query rest acc

/-- `lookup`, given the order in which the map is scanned. -/
def lookup (p : Platform) (scan : List (QueryHash × Embedding))
    (t : SemanticCache) (query : Embedding) : Option QueryHash :=
  let acc := best p query scan (.infinite true, none)
  if F32.ge acc.1 t.threshold then acc.2 else none

def oldest : List (QueryHash × Nat) → Option (QueryHash × Nat)
  | [] => none
  | e :: rest =>
    match oldest rest with
    | some o => if o.2 < e.2 then some o else some e
    | none => some e

def evictLruOne (t : SemanticCache) : SemanticCache :=
  match oldest (t.embeddings.entries.map fun e => (e.1, e.2.1)) with
  | some (h, _) => { t with embeddings := t.embeddings.erase h }
  | none => t

def insert (t : SemanticCache) (h : QueryHash) (e : Embedding) : SemanticCache :=
  if t.maxEntries = 0 then t
  else
    let t := { t with
      sequence := t.sequence + 1
      embeddings := t.embeddings.insert h (t.sequence, e) }
    if t.maxEntries < t.embeddings.keys.length then t.evictLruOne else t

end SemanticCache

end Conproxy
