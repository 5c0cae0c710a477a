import Conproxy.Cache.Store

/-!
# S3-FIFO eviction

The eviction scans of `cache.rs`. A scan looks at every slot of its queue at most once: a cold
resident key is evicted and ends the scan, a hot one moves to the tail of the main queue with
its counter reset, and a slot whose key has left the map is dropped.
-/

namespace Conproxy.CacheStore

set_option autoImplicit false

variable (p : Platform)

def recordPromotions (s : CacheStore) (promotions : Nat) : CacheStore :=
  if 0 < promotions then
    s.updateStats fun st => { st with promotions := st.promotions + promotions }
  else s

/-- The `for` loop of `s3fifo_evict_from_small` with its remaining attempts. -/
def evictFromSmallLoop : Nat → Nat → CacheStore → Option EvictionSource × CacheStore
  | 0, promotions, s => (none, s.recordPromotions promotions)
  | attempts + 1, promotions, s =>
    match s.s3fifo.small with
    | [] => (none, s)
    | h :: rest =>
      let popped := { s with s3fifo := { s.s3fifo with small := rest } }
      let read := popped.readAndResetFreq h
      if read.1 = 0 then
        let removed := read.2.trackedRemove p h
        let ghosted := { removed.2 with s3fifo := removed.2.s3fifo.addGhost h }
        match removed.1 with
        | some _ => (some .small, ghosted.recordPromotions promotions)
        | none => evictFromSmallLoop attempts promotions ghosted
      else
        evictFromSmallLoop attempts (promotions + 1)
          { read.2 with s3fifo := { read.2.s3fifo with main := read.2.s3fifo.main ++ [h] } }

def s3fifoEvictFromSmall (s : CacheStore) : Option EvictionSource × CacheStore :=
  evictFromSmallLoop p s.s3fifo.small.length 0 s

def evictFromMainLoop : Nat → CacheStore → Option EvictionSource × CacheStore
  | 0, s => (none, s)
  | attempts + 1, s =>
    match s.s3fifo.main with
    | [] => (none, s)
    | h :: rest =>
      let popped := { s with s3fifo := { s.s3fifo with main := rest } }
      let read := popped.readAndResetFreq h
      if read.1 = 0 then
        let removed := read.2.trackedRemove p h
        match removed.1 with
        | some _ => (some .main, removed.2)
        | none => evictFromMainLoop attempts removed.2
      else
        evictFromMainLoop attempts
          { read.2 with s3fifo := { read.2.s3fifo with main := read.2.s3fifo.main ++ [h] } }

def s3fifoEvictFromMain (s : CacheStore) : Option EvictionSource × CacheStore :=
  evictFromMainLoop p s.s3fifo.main.length s

/-- The common body of `s3fifo_evict_one` and `s3fifo_evict_one_memory`: small first, then
main. -/
def evictSmallThenMain (s : CacheStore) : Option EvictionSource × CacheStore :=
  let first := if s.s3fifo.small ≠ [] then s.s3fifoEvictFromSmall p else (none, s)
  match first.1 with
  | some source => (some source, first.2)
  | none => if first.2.s3fifo.main ≠ [] then first.2.s3fifoEvictFromMain p else (none, first.2)

def s3fifoEvictOne (s : CacheStore) : Option EvictionSource × CacheStore := s.evictSmallThenMain p

def s3fifoEvictOneMemory (s : CacheStore) : Option EvictionSource × CacheStore :=
  s.evictSmallThenMain p

structure Evicted where
  small : Nat
  main : Nat
deriving DecidableEq

def Evicted.add (n : Evicted) : EvictionSource → Evicted
  | .small => { n with small := n.small + 1 }
  | .main => { n with main := n.main + 1 }

/-- `while exceeds { match evict() { Some(..) => count, None => break } }`, for at most `fuel`
rounds. -/
def evictWhile (exceeds : CacheStore → Bool)
    (evict : CacheStore → Option EvictionSource × CacheStore) :
    Nat → Evicted → CacheStore → Evicted × CacheStore
  | 0, n, s => (n, s)
  | fuel + 1, n, s =>
    if exceeds s then
      match evict s with
      | (some source, s') => evictWhile exceeds evict fuel (n.add source) s'
      | (none, s') => (n, s')
    else (n, s)

def overCapacity (s : CacheStore) : Bool :=
  s.s3fifo.capacity < s.s3fifo.small.length + s.s3fifo.main.length

def overMemory (limit : Nat) (s : CacheStore) : Bool := limit < s.totalMemoryBytes.value

/-- Every round of the capacity loop takes a slot off the queues, so the rounds suffice. -/
def evictToCapacity (n : Evicted) (s : CacheStore) : Evicted × CacheStore :=
  evictWhile overCapacity (s3fifoEvictOne p) (s.s3fifo.slots.length + 1) n s

/-- Every round of the memory loop takes an entry out of the map, so the rounds suffice. -/
def evictToMemory (limit : Nat) (n : Evicted) (s : CacheStore) : Evicted × CacheStore :=
  evictWhile (overMemory limit) (s3fifoEvictOneMemory p) (s.len + 1) n s

def recordAdmission (s : CacheStore) (wasGhost : Bool) (n : Evicted) : CacheStore :=
  if wasGhost || 0 < n.small || 0 < n.main then
    s.updateStats fun st =>
      { st with
        ghostHits := if wasGhost then st.ghostHits + 1 else st.ghostHits
        smallEvictions := st.smallEvictions + n.small
        mainEvictions := st.mainEvictions + n.main
        total := st.total + (n.small + n.main) }
  else s

def s3fifoAdmit (s : CacheStore) (h : QueryHash) : CacheStore :=
  let wasGhost := decide (h ∈ s.s3fifo.ghostSet)
  let pushed := { s with s3fifo := s.s3fifo.push h }
  let fitted := evictToCapacity p ⟨0, 0⟩ pushed
  let shrunk :=
    if 0 < s.maxMemoryBytes then evictToMemory p s.maxMemoryBytes fitted.1 fitted.2 else fitted
  shrunk.2.recordAdmission wasGhost shrunk.1

def enforceMemoryLimit (s : CacheStore) : Nat × CacheStore :=
  if s.maxMemoryBytes = 0 then (0, s)
  else
    let shrunk := evictToMemory p s.maxMemoryBytes ⟨0, 0⟩ s
    let evicted := shrunk.1.small + shrunk.1.main
    (evicted,
      if 0 < evicted then shrunk.2.updateStats fun st => { st with total := st.total + evicted }
      else shrunk.2)

end Conproxy.CacheStore
