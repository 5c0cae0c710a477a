import Mathlib.Data.List.AList
import Mathlib.Data.List.Sort
import Conproxy.Types

/-!
# Persistent storage

The entry table of `persistence.rs`: byte keys, JSON values. Iteration follows the key order
of the table. Only 32-byte keys name entries of the main namespace.
-/

namespace Conproxy

set_option autoImplicit false

def PersistedResult.ofResult (r : SearchResult) : PersistedResult :=
  ⟨r.id, r.content, r.score, r.metadata⟩

def PersistedResult.toResult (r : PersistedResult) : SearchResult :=
  ⟨r.id, r.score, r.content, r.metadata, none⟩

def statusText : CacheStatus → String
  | .hit => "hit"
  | .miss => "miss"
  | .stale => "stale"
  | .frozen => "frozen"

def statusOfText (s : String) : CacheStatus :=
  if s = "hit" then .hit
  else if s = "miss" then .miss
  else if s = "stale" then .stale
  else if s = "frozen" then .frozen
  else .miss

def PersistedResponse.ofResponse (resp : QueryResponse) : PersistedResponse :=
  ⟨resp.results.map PersistedResult.ofResult, statusText resp.cacheStatus, resp.tookMs,
    resp.generatedAt⟩

def PersistedResponse.toResponse (resp : PersistedResponse) : QueryResponse :=
  ⟨resp.results.map PersistedResult.toResult, statusOfText resp.cacheStatus, resp.tookMs,
    resp.generatedAt, none⟩

structure PersistentCache where
  entries : AList fun _ : List UInt8 => List UInt8

def hashBytes (h : QueryHash) : List UInt8 :=
  (List.range 32).map fun i => UInt8.ofNat (h.toNat / 256 ^ i)

def hashOfBytes (bytes : List UInt8) : QueryHash :=
  BitVec.ofNat 256 (bytes.foldr (fun b acc => b.toNat + 256 * acc) 0)

theorem foldr_digits (n m : Nat) :
    ((List.range n).map fun i => UInt8.ofNat (m / 256 ^ i)).foldr
      (fun b acc => b.toNat + 256 * acc) 0 = m % 256 ^ n := by
  induction n generalizing m with
  | zero => simp [Nat.mod_one]
  | succ n ih =>
    have hdigit (i : Nat) : m / 256 ^ (i + 1) = m / 256 / 256 ^ i := by
      rw [Nat.pow_succ, Nat.mul_comm, Nat.div_div_eq_div_mul]
    have hrest := ih (m / 256)
    rw [List.range_succ_eq_map, List.map_cons, List.map_map, List.foldr_cons]
    simp only [Function.comp_def, Nat.succ_eq_add_one, hdigit]
    rw [hrest, Nat.pow_succ', Nat.mod_mul, Nat.pow_zero, Nat.div_one]
    simp

theorem hashOfBytes_hashBytes (h : QueryHash) : hashOfBytes (hashBytes h) = h := by
  have hlt : h.toNat < 256 ^ 32 := h.isLt
  apply BitVec.eq_of_toNat_eq
  rw [hashOfBytes, hashBytes, foldr_digits, Nat.mod_eq_of_lt hlt, BitVec.toNat_ofNat]
  exact Nat.mod_eq_of_lt h.isLt

theorem hashBytes_injective : Function.Injective hashBytes :=
  Function.LeftInverse.injective hashOfBytes_hashBytes

@[simp] theorem length_hashBytes (h : QueryHash) : (hashBytes h).length = 32 := by
  simp [hashBytes]

namespace PersistentCache

variable (p : Platform)

/-- A value that does not serialize leaves the table unchanged. -/
def storeEntry (t : PersistentCache) (h : QueryHash) (e : PersistedEntry) : PersistentCache :=
  match p.encodeEntry e with
  | some value => ⟨t.entries.insert (hashBytes h) value⟩
  | none => t

def loadEntry (t : PersistentCache) (h : QueryHash) : Option PersistedEntry :=
  (t.entries.lookup (hashBytes h)).bind p.decodeEntry

def removeEntry (t : PersistentCache) (h : QueryHash) : PersistentCache :=
  ⟨t.entries.erase (hashBytes h)⟩

def clearEntries (_ : PersistentCache) : PersistentCache := ⟨∅⟩

def allEntryHashes (t : PersistentCache) : List QueryHash :=
  ((t.entries.keys.insertionSort (· ≤ ·)).filter fun k => k.length = 32).map hashOfBytes

end PersistentCache

end Conproxy
