import Mathlib.Data.Finset.Basic
import Conproxy.Lib.WeightedTable
import Conproxy.Cdc
import Conproxy.Persistence
import Conproxy.Semantic

/-!
# The cache store

The state of `CacheStore` and the wrappers through which every operation changes the entry
map: `trackedInsert`, `trackedRemove` and the frequency counters. The map is an association
list, and an operation that iterates over it takes the iteration order as an argument.
-/

namespace Conproxy

set_option autoImplicit false

abbrev Table (ν : Type) := AList fun _ : QueryHash => ν

/-- An `AtomicUsize`. `underflowed` is set by the first `fetch_sub` that takes away more
than the counter holds, and never reset. -/
structure Counter where
  value : Nat
  underflowed : Bool
deriving DecidableEq

namespace Counter

def zero : Counter := ⟨0, false⟩

def fetchAdd (c : Counter) (n : Nat) : Counter := { c with value := c.value + n }

/-- Below zero an atomic counter wraps around. -/
def fetchSub (c : Counter) (n : Nat) : Counter :=
  if n ≤ c.value then { c with value := c.value - n } else ⟨c.value + 2 ^ 64 - n, true⟩

def reset (c : Counter) : Counter := { c with value := 0 }

end Counter

/-- The S3-FIFO queues, oldest slot first. A `S3FifoMeta` is the hash that it holds. -/
structure S3FifoState where
  small : List QueryHash
  main : List QueryHash
  ghost : List QueryHash
  ghostSet : Finset QueryHash
  smallCapacity : Nat
  mainCapacity : Nat
  ghostCapacity : Nat
deriving DecidableEq

namespace S3FifoState

def new (maxEntries : Nat) : S3FifoState :=
  let smallCapacity := max (maxEntries / 10) 1
  { small := []
    main := []
    ghost := []
    ghostSet := ∅
    smallCapacity := smallCapacity
    mainCapacity := maxEntries - smallCapacity
    ghostCapacity := max maxEntries 1 }

def slots (q : S3FifoState) : List QueryHash := q.small ++ q.main

def capacity (q : S3FifoState) : Nat := q.smallCapacity + q.mainCapacity

def clear (q : S3FifoState) : S3FifoState :=
  { q with small := [], main := [], ghost := [], ghostSet := ∅ }

/-- The loop of `s3fifo_add_ghost` that makes room: oldest hashes leave list and set. -/
def trimGhost (capacity : Nat) :
    List QueryHash → Finset QueryHash → List QueryHash × Finset QueryHash
  | [], set => ([], set)
  | old :: rest, set =>
    if capacity ≤ (old :: rest).length then trimGhost capacity rest (set.erase old)
    else (old :: rest, set)

def addGhost (q : S3FifoState) (h : QueryHash) : S3FifoState :=
  let trimmed := trimGhost q.ghostCapacity q.ghost q.ghostSet
  { q with ghost := trimmed.1 ++ [h], ghostSet := insert h trimmed.2 }

/-- The first part of `s3fifo_admit`: a hash known to the ghost list goes to the main queue,
any other to the small one. -/
def push (q : S3FifoState) (h : QueryHash) : S3FifoState :=
  if h ∈ q.ghostSet then
    { q with
      ghostSet := q.ghostSet.erase h
      ghost := q.ghost.filter (· ≠ h)
      main := q.main ++ [h] }
  else { q with small := q.small ++ [h] }

@[simp] theorem new_capacity (maxEntries : Nat) :
    (new maxEntries).capacity = max maxEntries 1 := by
  simp only [new, capacity]
  omega

end S3FifoState

inductive EvictionSource where
  | small
  | main
deriving DecidableEq

structure EvictionStats where
  total : Nat
  expired : Nat
  oldest : Nat
  integrityFailures : Nat
  perUpstream : Nat
  ghostHits : Nat
  smallEvictions : Nat
  mainEvictions : Nat
  promotions : Nat
deriving DecidableEq

def EvictionStats.default : EvictionStats := ⟨0, 0, 0, 0, 0, 0, 0, 0, 0⟩

structure CacheStore where
  entries : Table CacheEntry
  exactToNormalized : Table QueryHash
  freshDuration : Duration
  staleDuration : Duration
  maxFrozenDuration : Duration
  maxEntries : Nat
  maxMemoryBytes : Nat
  ttlJitterPercent : ℚ
  configFingerprint : Nat
  evictionStats : EvictionStats
  perUpstreamLimit : Option Nat
  normalizedMatching : Bool
  exactHits : Nat
  normalizedHits : Nat
  totalMemoryBytes : Counter
  persistence : Option PersistentCache
  cdcSender : Option EventSender
  s3fifo : S3FifoState
  semantic : Option SemanticCache

/-- Twenty-four hours. -/
def defaultMaxFrozenDuration : Duration := 24 * 60 * 60 * 1000000000

namespace CacheStore

def withJitter (freshDuration staleDuration : Duration) (maxEntries : Nat)
    (ttlJitterPercent : ℚ) : CacheStore where
  entries := ∅
  exactToNormalized := ∅
  freshDuration := freshDuration
  staleDuration := staleDuration
  maxFrozenDuration := defaultMaxFrozenDuration
  maxEntries := maxEntries
  maxMemoryBytes := 0
  ttlJitterPercent := max 0 (min ttlJitterPercent 1)
  configFingerprint := 0
  evictionStats := EvictionStats.default
  perUpstreamLimit := none
  normalizedMatching := false
  exactHits := 0
  normalizedHits := 0
  totalMemoryBytes := Counter.zero
  persistence := none
  cdcSender := none
  s3fifo := S3FifoState.new maxEntries
  semantic := none

/-- `new`: ten percent jitter. -/
def new (freshDuration staleDuration : Duration) (maxEntries : Nat) : CacheStore :=
  withJitter freshDuration staleDuration maxEntries (1 / 10)

def withMemoryLimit (freshDuration staleDuration : Duration)
    (maxEntries maxMemoryBytes : Nat) : CacheStore :=
  { new freshDuration staleDuration maxEntries with maxMemoryBytes := maxMemoryBytes }

variable (p : Platform)

def hashQuery (query : String) : QueryHash := p.blake3 (utf8 (normalizeQuery p.tables query))

def hashQueryExact (query : String) : QueryHash := p.blake3 (utf8 query)

def updateStats (s : CacheStore) (f : EvictionStats → EvictionStats) : CacheStore :=
  { s with evictionStats := f s.evictionStats }

def publish (s : CacheStore) (now : Clock) (eventType : CdcEventType) (b : CdcEventBuilder) :
    CacheStore :=
  { s with cdcSender := s.cdcSender.map fun x => x.send now.nowMs eventType b }

def memoryUsage (s : CacheStore) : Nat :=
  WeightedTable.weight (CacheEntry.approximateSize p) s.entries

def len (s : CacheStore) : Nat := s.entries.keys.length

def replaceBytes (bytes : Counter) (oldSize newSize : Nat) : Counter :=
  if oldSize ≤ newSize then bytes.fetchAdd (newSize - oldSize)
  else bytes.fetchSub (oldSize - newSize)

def trackedInsert (s : CacheStore) (h : QueryHash) (entry : CacheEntry) : CacheStore :=
  { s with
    entries := s.entries.insert h entry
    totalMemoryBytes :=
      match s.entries.lookup h with
      | some old =>
        replaceBytes s.totalMemoryBytes (old.approximateSize p) (entry.approximateSize p)
      | none => s.totalMemoryBytes.fetchAdd (entry.approximateSize p) }

/-- The exact mapping of a removed entry goes with it when normalized matching is on. -/
def forgetExact (s : CacheStore) (old : CacheEntry) : Table QueryHash :=
  match s.normalizedMatching, old.queryText with
  | true, some queryText => s.exactToNormalized.erase (hashQueryExact p queryText)
  | _, _ => s.exactToNormalized

def trackedRemove (s : CacheStore) (h : QueryHash) : Option CacheEntry × CacheStore :=
  match s.entries.lookup h with
  | some old =>
    (some old,
      { s with
        entries := s.entries.erase h
        totalMemoryBytes := s.totalMemoryBytes.fetchSub (old.approximateSize p)
        exactToNormalized := s.forgetExact p old })
  | none => (none, s)

def withFreq (e : CacheEntry) (freq : Nat) : CacheEntry := { e with freq := freq }

/-- `bump_freq` on the entry stored under a hash, capped at 3. -/
def bumpFreq (s : CacheStore) (h : QueryHash) (e : CacheEntry) : CacheStore :=
  { s with entries := s.entries.insert h (withFreq e (min (e.freq + 1) 3)) }

def readAndResetFreq (s : CacheStore) (h : QueryHash) : Nat × CacheStore :=
  match s.entries.lookup h with
  | some e => (e.freq, { s with entries := s.entries.insert h (withFreq e 0) })
  | none => (0, s)

@[simp] theorem approximateSize_withFreq (e : CacheEntry) (n : Nat) :
    (withFreq e n).approximateSize p = e.approximateSize p := rfl

end CacheStore

/-- An iteration order of the entry map. -/
structure Scan where
  order : List (QueryHash × CacheEntry) → List (QueryHash × CacheEntry)
  perm : ∀ l, (order l).Perm l

def Scan.stored : Scan := ⟨id, List.Perm.refl⟩

def CacheStore.iter (s : CacheStore) (scan : Scan) : List (QueryHash × CacheEntry) :=
  scan.order (s.entries.entries.map fun e => (e.1, e.2))

end Conproxy
