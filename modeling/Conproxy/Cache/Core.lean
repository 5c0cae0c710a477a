import Mathlib.Logic.Relation
import Conproxy.Cache.Operations

/-!
# What an operation does to entries, queues and byte counter

The entry map, the S3-FIFO queues and the memory counter form the core of a store. `Evict`
lists everything an eviction scan does to the core, slot by slot, and `Shrink` adds what
lookups and removals do. The scans are proved to be chains of `Evict` once, here; every
invariant of the core is then a case analysis on these steps.
-/

namespace Conproxy

open Relation

set_option autoImplicit false

structure Core where
  entries : Table CacheEntry
  queues : S3FifoState
  bytes : Counter

namespace CacheStore

def core (s : CacheStore) : Core := ⟨s.entries, s.s3fifo, s.totalMemoryBytes⟩

@[simp] theorem core_entries (s : CacheStore) : s.core.entries = s.entries := rfl

@[simp] theorem core_queues (s : CacheStore) : s.core.queues = s.s3fifo := rfl

@[simp] theorem core_recordPromotions (s : CacheStore) (n : Nat) :
    (s.recordPromotions n).core = s.core := by
  unfold recordPromotions
  split <;> rfl

@[simp] theorem core_recordAdmission (s : CacheStore) (g : Bool) (n : Evicted) :
    (s.recordAdmission g n).core = s.core := by
  unfold recordAdmission
  split <;> rfl

@[simp] theorem core_rememberExact (p : Platform) (s : CacheStore) (query : String)
    (h : QueryHash) : (s.rememberExact p query h).core = s.core := by
  unfold rememberExact
  split <;> rfl

end CacheStore

open CacheStore

section Steps

variable (p : Platform)

inductive Evict : Core → Core → Prop where
  | cool {c : Core} {h : QueryHash} {e : CacheEntry} (hl : c.entries.lookup h = some e) :
      Evict c { c with entries := c.entries.insert h (withFreq e 0) }
  | promote {c : Core} {h : QueryHash} {rest : List QueryHash} (hs : c.queues.small = h :: rest) :
      Evict c { c with queues := { c.queues with small := rest, main := c.queues.main ++ [h] } }
  | recycle {c : Core} {h : QueryHash} {rest : List QueryHash} (hm : c.queues.main = h :: rest) :
      Evict c { c with queues := { c.queues with main := rest ++ [h] } }
  | evictSmall {c : Core} {h : QueryHash} {rest : List QueryHash} {e : CacheEntry}
      (hs : c.queues.small = h :: rest) (hl : c.entries.lookup h = some e) :
      Evict c ⟨c.entries.erase h, ({ c.queues with small := rest } : S3FifoState).addGhost h,
        c.bytes.fetchSub (e.approximateSize p)⟩
  | dropSmall {c : Core} {h : QueryHash} {rest : List QueryHash}
      (hs : c.queues.small = h :: rest) (hl : h ∉ c.entries) :
      Evict c { c with queues := ({ c.queues with small := rest } : S3FifoState).addGhost h }
  | evictMain {c : Core} {h : QueryHash} {rest : List QueryHash} {e : CacheEntry}
      (hm : c.queues.main = h :: rest) (hl : c.entries.lookup h = some e) :
      Evict c ⟨c.entries.erase h, { c.queues with main := rest },
        c.bytes.fetchSub (e.approximateSize p)⟩
  | dropMain {c : Core} {h : QueryHash} {rest : List QueryHash}
      (hm : c.queues.main = h :: rest) (hl : h ∉ c.entries) :
      Evict c { c with queues := { c.queues with main := rest } }

/-- The second entry holds what the first does; only its counters and its age may differ. -/
def SameContent (e e' : CacheEntry) : Prop :=
  e' = { e with freq := e'.freq, cachedAt := e'.cachedAt, extendedCount := e'.extendedCount }

/-- One step that stores nothing new: an eviction step, a lookup or an extension that touches
an entry, a removal outside the scans, or a bulk clear. -/
inductive Shrink : Core → Core → Prop where
  | evict {c c' : Core} (h : Evict p c c') : Shrink c c'
  | touch {c : Core} {h : QueryHash} {e e' : CacheEntry} (hl : c.entries.lookup h = some e)
      (hsame : SameContent e e') :
      Shrink c { c with entries := c.entries.insert h e' }
  | remove {c : Core} {h : QueryHash} {e : CacheEntry} (hl : c.entries.lookup h = some e) :
      Shrink c ⟨c.entries.erase h, c.queues, c.bytes.fetchSub (e.approximateSize p)⟩
  | clear {c : Core} : Shrink c ⟨∅, c.queues.clear, c.bytes.reset⟩

abbrev Evicts : Core → Core → Prop := ReflTransGen (Evict p)

abbrev Shrinks : Core → Core → Prop := ReflTransGen (Shrink p)

variable {p}

theorem Evicts.shrinks {c c' : Core} (h : Evicts p c c') : Shrinks p c c' :=
  ReflTransGen.mono (fun _ _ => Shrink.evict) _ _ h

namespace CacheStore

theorem readAndResetFreq_of_lookup {s : CacheStore} {h : QueryHash} {e : CacheEntry}
    (hl : s.entries.lookup h = some e) :
    s.readAndResetFreq h = (e.freq, { s with entries := s.entries.insert h (withFreq e 0) }) := by
  simp [readAndResetFreq, hl]

theorem readAndResetFreq_of_notMem {s : CacheStore} {h : QueryHash} (hn : h ∉ s.entries) :
    s.readAndResetFreq h = (0, s) := by
  simp [readAndResetFreq, AList.lookup_eq_none.mpr hn]

theorem getByHash_of_lookup {s : CacheStore} {h : QueryHash} {e : CacheEntry}
    (hl : s.entries.lookup h = some e) : s.getByHash h = (some e, s.bumpFreq h e) := by
  simp only [getByHash, hl]

theorem getByHash_of_none {s : CacheStore} {h : QueryHash} (hl : s.entries.lookup h = none) :
    s.getByHash h = (none, s) := by
  simp only [getByHash, hl]

theorem trackedRemove_of_notMem {s : CacheStore} {h : QueryHash} (hn : h ∉ s.entries) :
    s.trackedRemove p h = (none, s) := by
  simp [trackedRemove, AList.lookup_eq_none.mpr hn]

theorem trackedRemove_of_lookup {s : CacheStore} {h : QueryHash} {e : CacheEntry}
    (hl : s.entries.lookup h = some e) :
    (s.trackedRemove p h).1 = some e ∧ (s.trackedRemove p h).2.core =
      ⟨s.entries.erase h, s.s3fifo, s.totalMemoryBytes.fetchSub (e.approximateSize p)⟩ := by
  simp [trackedRemove, hl, core]

theorem trackedRemove_shrinks (s : CacheStore) (h : QueryHash) :
    Shrinks p s.core (s.trackedRemove p h).2.core := by
  by_cases hm : h ∈ s.entries
  · obtain ⟨e, hl⟩ := WeightedTable.lookup_of_mem s.entries hm
    rw [(trackedRemove_of_lookup hl).2]
    exact .single (.remove hl)
  · rw [trackedRemove_of_notMem hm]

/-- Everything of a store that an eviction leaves alone. -/
def frame (s : CacheStore) : CacheStore :=
  { s with
    entries := ∅
    exactToNormalized := ∅
    totalMemoryBytes := Counter.zero
    s3fifo := S3FifoState.new 0
    evictionStats := EvictionStats.default }

theorem maxMemoryBytes_of_frame {s s' : CacheStore} (h : s'.frame = s.frame) :
    s'.maxMemoryBytes = s.maxMemoryBytes :=
  show s'.frame.maxMemoryBytes = s.frame.maxMemoryBytes by rw [h]

@[simp] theorem frame_recordPromotions (s : CacheStore) (n : Nat) :
    (s.recordPromotions n).frame = s.frame := by
  unfold recordPromotions
  split <;> rfl

@[simp] theorem frame_recordAdmission (s : CacheStore) (g : Bool) (n : Evicted) :
    (s.recordAdmission g n).frame = s.frame := by
  unfold recordAdmission
  split <;> rfl

@[simp] theorem frame_trackedRemove (s : CacheStore) (h : QueryHash) :
    (s.trackedRemove p h).2.frame = s.frame := by
  unfold trackedRemove
  split <;> rfl

inductive SmallHead (p : Platform) (attempts promotions : Nat) (s : CacheStore) (h : QueryHash)
    (rest : List QueryHash) : Prop where
  | evicted (s' : CacheStore) (e : CacheEntry) (hl : s.entries.lookup h = some e)
      (heq : evictFromSmallLoop p (attempts + 1) promotions s = (some .small, s'))
      (hframe : s'.frame = s.frame)
      (hcore : s'.core = ⟨(s.entries.insert h (withFreq e 0)).erase h,
        ({ s.s3fifo with small := rest } : S3FifoState).addGhost h,
        s.totalMemoryBytes.fetchSub (e.approximateSize p)⟩)
  | dropped (s' : CacheStore) (hn : h ∉ s.entries)
      (heq : evictFromSmallLoop p (attempts + 1) promotions s =
        evictFromSmallLoop p attempts promotions s')
      (hframe : s'.frame = s.frame)
      (hcore : s'.core = ⟨s.entries, ({ s.s3fifo with small := rest } : S3FifoState).addGhost h,
        s.totalMemoryBytes⟩)
  | promoted (s' : CacheStore) (e : CacheEntry) (hl : s.entries.lookup h = some e)
      (heq : evictFromSmallLoop p (attempts + 1) promotions s =
        evictFromSmallLoop p attempts (promotions + 1) s')
      (hframe : s'.frame = s.frame)
      (hcore : s'.core = ⟨s.entries.insert h (withFreq e 0),
        { s.s3fifo with small := rest, main := s.s3fifo.main ++ [h] }, s.totalMemoryBytes⟩)

section

variable (attempts promotions : Nat) {s : CacheStore} {h : QueryHash} {rest : List QueryHash}

theorem smallLoop_cold (hs : s.s3fifo.small = h :: rest) {e : CacheEntry}
    (hl : s.entries.lookup h = some e) (hf : e.freq = 0) :
    ∃ s', evictFromSmallLoop p (attempts + 1) promotions s = (some .small, s') ∧
      s'.frame = s.frame ∧
      s'.core = ⟨(s.entries.insert h (withFreq e 0)).erase h,
        ({ s.s3fifo with small := rest } : S3FifoState).addGhost h,
        s.totalMemoryBytes.fetchSub (e.approximateSize p)⟩ := by
  have hread := readAndResetFreq_of_lookup
    (s := { s with s3fifo := { s.s3fifo with small := rest } }) (h := h) (e := e) hl
  apply Exists.intro
  refine ⟨?_, ?_, ?_⟩
  · simp only [evictFromSmallLoop, hs, hread, hf, if_true]
    simp only [trackedRemove, AList.lookup_insert]
    rfl
  · exact frame_recordPromotions _ _
  · exact core_recordPromotions _ _

theorem smallLoop_warm (hs : s.s3fifo.small = h :: rest) {e : CacheEntry}
    (hl : s.entries.lookup h = some e) (hf : e.freq ≠ 0) :
    ∃ s', evictFromSmallLoop p (attempts + 1) promotions s =
        evictFromSmallLoop p attempts (promotions + 1) s' ∧
      s'.frame = s.frame ∧
      s'.core = ⟨s.entries.insert h (withFreq e 0),
        { s.s3fifo with small := rest, main := s.s3fifo.main ++ [h] }, s.totalMemoryBytes⟩ := by
  have hread := readAndResetFreq_of_lookup
    (s := { s with s3fifo := { s.s3fifo with small := rest } }) (h := h) (e := e) hl
  apply Exists.intro
  refine ⟨?_, ?_, ?_⟩
  · simp only [evictFromSmallLoop, hs, hread, hf, if_false]
    rfl
  · rfl
  · rfl

theorem smallLoop_gone (hs : s.s3fifo.small = h :: rest) (hn : h ∉ s.entries) :
    ∃ s', evictFromSmallLoop p (attempts + 1) promotions s =
        evictFromSmallLoop p attempts promotions s' ∧
      s'.frame = s.frame ∧
      s'.core = ⟨s.entries, ({ s.s3fifo with small := rest } : S3FifoState).addGhost h,
        s.totalMemoryBytes⟩ := by
  have hread := readAndResetFreq_of_notMem
    (s := { s with s3fifo := { s.s3fifo with small := rest } }) (h := h) hn
  have hremove := trackedRemove_of_notMem (p := p)
    (s := { s with s3fifo := { s.s3fifo with small := rest } }) (h := h) hn
  apply Exists.intro
  refine ⟨?_, ?_, ?_⟩
  · simp only [evictFromSmallLoop, hs, hread, hremove, if_true]
    rfl
  · rfl
  · rfl

theorem smallHead (hs : s.s3fifo.small = h :: rest) :
    SmallHead p attempts promotions s h rest := by
  by_cases hm : h ∈ s.entries
  · obtain ⟨e, hl⟩ := WeightedTable.lookup_of_mem s.entries hm
    by_cases hf : e.freq = 0
    · obtain ⟨s', heq, hframe, hcore⟩ := smallLoop_cold attempts promotions hs hl hf
      exact .evicted s' e hl heq hframe hcore
    · obtain ⟨s', heq, hframe, hcore⟩ := smallLoop_warm attempts promotions hs hl hf
      exact .promoted s' e hl heq hframe hcore
  · obtain ⟨s', heq, hframe, hcore⟩ := smallLoop_gone attempts promotions hs hm
    exact .dropped s' hm heq hframe hcore

end

inductive MainHead (p : Platform) (attempts : Nat) (s : CacheStore) (h : QueryHash)
    (rest : List QueryHash) : Prop where
  | evicted (s' : CacheStore) (e : CacheEntry) (hl : s.entries.lookup h = some e)
      (heq : evictFromMainLoop p (attempts + 1) s = (some .main, s'))
      (hframe : s'.frame = s.frame)
      (hcore : s'.core = ⟨(s.entries.insert h (withFreq e 0)).erase h,
        { s.s3fifo with main := rest }, s.totalMemoryBytes.fetchSub (e.approximateSize p)⟩)
  | dropped (s' : CacheStore) (hn : h ∉ s.entries)
      (heq : evictFromMainLoop p (attempts + 1) s = evictFromMainLoop p attempts s')
      (hframe : s'.frame = s.frame)
      (hcore : s'.core = ⟨s.entries, { s.s3fifo with main := rest }, s.totalMemoryBytes⟩)
  | recycled (s' : CacheStore) (e : CacheEntry) (hl : s.entries.lookup h = some e)
      (hf : e.freq ≠ 0)
      (heq : evictFromMainLoop p (attempts + 1) s = evictFromMainLoop p attempts s')
      (hframe : s'.frame = s.frame)
      (hcore : s'.core = ⟨s.entries.insert h (withFreq e 0),
        { s.s3fifo with main := rest ++ [h] }, s.totalMemoryBytes⟩)

section

variable (attempts : Nat) {s : CacheStore} {h : QueryHash} {rest : List QueryHash}

theorem mainLoop_cold (hm : s.s3fifo.main = h :: rest) {e : CacheEntry}
    (hl : s.entries.lookup h = some e) (hf : e.freq = 0) :
    ∃ s', evictFromMainLoop p (attempts + 1) s = (some .main, s') ∧ s'.frame = s.frame ∧
      s'.core = ⟨(s.entries.insert h (withFreq e 0)).erase h, { s.s3fifo with main := rest },
        s.totalMemoryBytes.fetchSub (e.approximateSize p)⟩ := by
  have hread := readAndResetFreq_of_lookup
    (s := { s with s3fifo := { s.s3fifo with main := rest } }) (h := h) (e := e) hl
  apply Exists.intro
  refine ⟨?_, ?_, ?_⟩
  · simp only [evictFromMainLoop, hm, hread, hf, if_true]
    simp only [trackedRemove, AList.lookup_insert]
    rfl
  · rfl
  · rfl

theorem mainLoop_warm (hm : s.s3fifo.main = h :: rest) {e : CacheEntry}
    (hl : s.entries.lookup h = some e) (hf : e.freq ≠ 0) :
    ∃ s', evictFromMainLoop p (attempts + 1) s = evictFromMainLoop p attempts s' ∧
      s'.frame = s.frame ∧
      s'.core = ⟨s.entries.insert h (withFreq e 0), { s.s3fifo with main := rest ++ [h] },
        s.totalMemoryBytes⟩ := by
  have hread := readAndResetFreq_of_lookup
    (s := { s with s3fifo := { s.s3fifo with main := rest } }) (h := h) (e := e) hl
  apply Exists.intro
  refine ⟨?_, ?_, ?_⟩
  · simp only [evictFromMainLoop, hm, hread, hf, if_false]
    rfl
  · rfl
  · rfl

theorem mainLoop_gone (hm : s.s3fifo.main = h :: rest) (hn : h ∉ s.entries) :
    ∃ s', evictFromMainLoop p (attempts + 1) s = evictFromMainLoop p attempts s' ∧
      s'.frame = s.frame ∧
      s'.core = ⟨s.entries, { s.s3fifo with main := rest }, s.totalMemoryBytes⟩ := by
  have hread := readAndResetFreq_of_notMem
    (s := { s with s3fifo := { s.s3fifo with main := rest } }) (h := h) hn
  have hremove := trackedRemove_of_notMem (p := p)
    (s := { s with s3fifo := { s.s3fifo with main := rest } }) (h := h) hn
  apply Exists.intro
  refine ⟨?_, ?_, ?_⟩
  · simp only [evictFromMainLoop, hm, hread, hremove, if_true]
    rfl
  · rfl
  · rfl

theorem mainHead (hm : s.s3fifo.main = h :: rest) : MainHead p attempts s h rest := by
  by_cases hmem : h ∈ s.entries
  · obtain ⟨e, hl⟩ := WeightedTable.lookup_of_mem s.entries hmem
    by_cases hf : e.freq = 0
    · obtain ⟨s', heq, hframe, hcore⟩ := mainLoop_cold attempts hm hl hf
      exact .evicted s' e hl heq hframe hcore
    · obtain ⟨s', heq, hframe, hcore⟩ := mainLoop_warm attempts hm hl hf
      exact .recycled s' e hl hf heq hframe hcore
  · obtain ⟨s', heq, hframe, hcore⟩ := mainLoop_gone attempts hm hmem
    exact .dropped s' hmem heq hframe hcore

end

end CacheStore

namespace Core

def len (c : Core) : Nat := c.entries.keys.length

def slots (c : Core) : List QueryHash := c.queues.slots

def weight (p : Platform) (c : Core) : Nat :=
  WeightedTable.weight (CacheEntry.approximateSize p) c.entries

/-- A key that an eviction scan would take: if it is resident, it has a slot and is cold. -/
def Cold (c : Core) (k : QueryHash) : Prop :=
  ∀ e, c.entries.lookup k = some e → e.freq = 0 ∧ k ∈ c.slots

end Core

@[simp] theorem S3FifoState.addGhost_slots (q : S3FifoState) (h : QueryHash) :
    (q.addGhost h).slots = q.slots := rfl

@[simp] theorem S3FifoState.addGhost_capacity (q : S3FifoState) (h : QueryHash) :
    (q.addGhost h).capacity = q.capacity := rfl

inductive EvictView (p : Platform) (c c' : Core) : Prop where
  | cool (h : QueryHash) (e : CacheEntry) (hl : c.entries.lookup h = some e)
      (hentries : c'.entries = c.entries.insert h (withFreq e 0)) (hbytes : c'.bytes = c.bytes)
      (hslots : c'.slots.Perm c.slots)
  | rotate (hentries : c'.entries = c.entries) (hbytes : c'.bytes = c.bytes)
      (hslots : c'.slots.Perm c.slots)
  | evict (h : QueryHash) (e : CacheEntry) (hl : c.entries.lookup h = some e)
      (hentries : c'.entries = c.entries.erase h)
      (hbytes : c'.bytes = c.bytes.fetchSub (e.approximateSize p))
      (hslots : c.slots.Perm (h :: c'.slots))
  | drop (h : QueryHash) (hn : h ∉ c.entries) (hentries : c'.entries = c.entries)
      (hbytes : c'.bytes = c.bytes) (hslots : c.slots.Perm (h :: c'.slots))

namespace Evict

theorem view {c c' : Core} (h : Evict p c c') : EvictView p c c' := by
  cases h with
  | cool hl => exact .cool _ _ hl rfl rfl (List.Perm.refl _)
  | promote hs =>
    refine .rotate rfl rfl ?_
    simp only [Core.slots, S3FifoState.slots, hs]
    exact (List.append_assoc _ _ _).symm ▸ List.perm_append_singleton _ _
  | recycle hm =>
    refine .rotate rfl rfl ?_
    simp only [Core.slots, S3FifoState.slots, hm]
    exact (List.perm_append_singleton _ _).append_left _
  | evictSmall hs hl =>
    refine .evict _ _ hl rfl rfl ?_
    simp [Core.slots, S3FifoState.slots, S3FifoState.addGhost, hs]
  | dropSmall hs hl =>
    refine .drop _ hl rfl rfl ?_
    simp [Core.slots, S3FifoState.slots, S3FifoState.addGhost, hs]
  | evictMain hm hl =>
    refine .evict _ _ hl rfl rfl ?_
    simp only [Core.slots, S3FifoState.slots, hm]
    exact List.perm_middle
  | dropMain hm hl =>
    refine .drop _ hl rfl rfl ?_
    simp only [Core.slots, S3FifoState.slots, hm]
    exact List.perm_middle

theorem capacity_eq {c c' : Core} (h : Evict p c c') :
    c'.queues.capacity = c.queues.capacity := by
  cases h <;> rfl

theorem len_le {c c' : Core} (h : Evict p c c') : c'.len ≤ c.len := by
  simp only [Core.len]
  cases h.view with
  | cool h e hl hentries =>
    rw [hentries, WeightedTable.length_keys_insert _ (WeightedTable.mem_of_lookup _ hl)]
  | evict h e hl hentries =>
    have := WeightedTable.length_keys_erase _ (WeightedTable.mem_of_lookup _ hl)
    rw [hentries]
    omega
  | rotate hentries | drop _ _ hentries => rw [hentries]

theorem slots_length_le {c c' : Core} (h : Evict p c c') :
    c'.slots.length ≤ c.slots.length := by
  cases h.view with
  | cool _ _ _ _ _ hslots | rotate _ _ hslots => exact hslots.length_eq.le
  | evict _ _ _ _ _ hslots | drop _ _ _ _ hslots =>
    rw [hslots.length_eq]
    exact Nat.le_succ _

theorem cold {c c' : Core} {k : QueryHash} (h : Evict p c c') (hk : c.Cold k) : c'.Cold k := by
  intro e' hl'
  cases h.view with
  | cool h e hl hentries _ hslots =>
    rw [hentries] at hl'
    by_cases hkh : k = h
    · subst hkh
      rw [AList.lookup_insert] at hl'
      cases hl'
      exact ⟨rfl, hslots.mem_iff.mpr (hk e hl).2⟩
    · rw [AList.lookup_insert_ne hkh] at hl'
      exact ⟨(hk e' hl').1, hslots.mem_iff.mpr (hk e' hl').2⟩
  | rotate hentries _ hslots =>
    rw [hentries] at hl'
    exact ⟨(hk e' hl').1, hslots.mem_iff.mpr (hk e' hl').2⟩
  | evict h e hl hentries _ hslots =>
    rw [hentries] at hl'
    have hkh : k ≠ h := by
      rintro rfl
      simp at hl'
    rw [AList.lookup_erase_ne hkh] at hl'
    have hmem := hslots.mem_iff.mp (hk e' hl').2
    exact ⟨(hk e' hl').1, (List.mem_cons.mp hmem).resolve_left hkh⟩
  | drop h hn hentries _ hslots =>
    rw [hentries] at hl'
    have hkh : k ≠ h := by
      rintro rfl
      exact hn (WeightedTable.mem_of_lookup _ hl')
    have hmem := hslots.mem_iff.mp (hk e' hl').2
    exact ⟨(hk e' hl').1, (List.mem_cons.mp hmem).resolve_left hkh⟩

end Evict

end Steps
end Conproxy
