import Conproxy.Sample
import Conproxy.Cache.Residency

/-!
# Memory accounting and the memory cap

The byte counter is the sum of the sizes of the resident entries after every call, so no
subtraction from it underflows. The cap is enforced by the admission loop only: replacing the
entry of a resident key may take the usage past the cap.
-/

namespace Conproxy

open Relation CacheStore

set_option autoImplicit false

variable {p : Platform}

structure Core.Exact (p : Platform) (c : Core) : Prop where
  value_eq : c.bytes.value = c.weight p
  no_underflow : c.bytes.underflowed = false

theorem Counter.fetchSub_of_le {b : Counter} {n : Nat} (h : n ≤ b.value) :
    b.fetchSub n = { b with value := b.value - n } := if_pos h

theorem SameContent.approximateSize_eq {e e' : CacheEntry} (h : SameContent e e') :
    e'.approximateSize p = e.approximateSize p := by
  rw [h]
  exact CacheEntry.approximateSize_congr p rfl rfl rfl rfl

namespace Core.Exact

theorem insert {c c' : Core} {h : QueryHash} {e e' : CacheEntry} (hc : c.Exact p)
    (hl : c.entries.lookup h = some e) (hsize : e'.approximateSize p = e.approximateSize p)
    (hentries : c'.entries = c.entries.insert h e') (hbytes : c'.bytes = c.bytes) :
    c'.Exact p := by
  have hw := WeightedTable.weight_insert_of_lookup (CacheEntry.approximateSize p) c.entries
    (x := e') hl
  refine ⟨?_, hbytes ▸ hc.no_underflow⟩
  rw [hbytes, hc.value_eq, Core.weight, Core.weight, hentries]
  omega

theorem erase {c c' : Core} {h : QueryHash} {e : CacheEntry} (hc : c.Exact p)
    (hl : c.entries.lookup h = some e) (hentries : c'.entries = c.entries.erase h)
    (hbytes : c'.bytes = c.bytes.fetchSub (e.approximateSize p)) : c'.Exact p := by
  have hw := WeightedTable.weight_erase_of_lookup (CacheEntry.approximateSize p) c.entries hl
  have hvalue := hc.value_eq
  rw [Core.weight] at hvalue
  have hle : e.approximateSize p ≤ c.bytes.value := by omega
  rw [Counter.fetchSub_of_le hle] at hbytes
  constructor
  · rw [hbytes, Core.weight, hentries]
    dsimp only
    omega
  · rw [hbytes]
    exact hc.no_underflow

theorem congr {c c' : Core} (hc : c.Exact p) (hentries : c'.entries = c.entries)
    (hbytes : c'.bytes = c.bytes) : c'.Exact p := by
  refine ⟨?_, hbytes ▸ hc.no_underflow⟩
  rw [hbytes, hc.value_eq, Core.weight, Core.weight, hentries]

end Core.Exact

theorem Evict.exact {c c' : Core} (h : Evict p c c') (hc : c.Exact p) : c'.Exact p := by
  cases h.view with
  | cool h e hl hentries hbytes =>
    exact hc.insert hl (approximateSize_withFreq p e 0) hentries hbytes
  | rotate hentries hbytes => exact hc.congr hentries hbytes
  | evict h e hl hentries hbytes => exact hc.erase hl hentries hbytes
  | drop h hn hentries hbytes => exact hc.congr hentries hbytes

theorem Shrink.exact {c c' : Core} (h : Shrink p c c') (hc : c.Exact p) : c'.Exact p := by
  cases h with
  | evict h => exact h.exact hc
  | touch hl hsame => exact hc.insert hl hsame.approximateSize_eq rfl rfl
  | remove hl => exact hc.erase hl rfl rfl
  | clear => exact ⟨rfl, hc.no_underflow⟩

theorem Shrinks.exact {c c' : Core} (h : Shrinks p c c') (hc : c.Exact p) : c'.Exact p := by
  induction h with
  | refl => exact hc
  | tail _ hstep ih => exact hstep.exact ih

theorem replaceBytes_spec (b : Counter) (m n : Nat) (h : m ≤ b.value) :
    (replaceBytes b m n).value + m = b.value + n ∧
      (replaceBytes b m n).underflowed = b.underflowed := by
  unfold replaceBytes
  split
  · simp only [Counter.fetchAdd, and_true]
    omega
  · rw [Counter.fetchSub_of_le (by omega)]
    simp only [and_true]
    omega

theorem exact_trackedInsert {s : CacheStore} (h : QueryHash) (e : CacheEntry)
    (hs : s.core.Exact p) : (s.trackedInsert p h e).core.Exact p := by
  have hvalue : s.totalMemoryBytes.value =
      WeightedTable.weight (CacheEntry.approximateSize p) s.entries := hs.value_eq
  cases hl : s.entries.lookup h with
  | some old =>
    have hw := WeightedTable.weight_insert_of_lookup (CacheEntry.approximateSize p) s.entries
      (x := e) hl
    have hle := WeightedTable.weight_of_lookup_le (CacheEntry.approximateSize p) s.entries hl
    obtain ⟨hnew, hunder⟩ := replaceBytes_spec s.totalMemoryBytes (old.approximateSize p)
      (e.approximateSize p) (by omega)
    constructor
    · simp only [core, trackedInsert, hl, Core.weight]
      omega
    · simp only [core, trackedInsert, hl]
      exact hunder.trans hs.no_underflow
  | none =>
    have hw := WeightedTable.weight_insert_of_notMem (CacheEntry.approximateSize p) s.entries
      (v := e) (AList.lookup_eq_none.mp hl)
    constructor
    · simp only [core, trackedInsert, hl, Core.weight, Counter.fetchAdd]
      omega
    · simp only [core, trackedInsert, hl]
      exact hs.no_underflow

theorem exact_s3fifoAdmit {s : CacheStore} (h : QueryHash) (hs : s.core.Exact p) :
    (s.s3fifoAdmit p h).core.Exact p :=
  (s3fifoAdmit_chain s h).shrinks.exact (hs.congr rfl rfl)

theorem Inserted.exact {i : Insertion} {s' : CacheStore} (h : Inserted p i s')
    (hs : i.store.core.Exact p) : s'.core.Exact p := by
  rcases h.cases with ⟨-, -, hcore⟩ | ⟨-, stored, hstored, -, hcore⟩
  · rw [hcore]
    exact exact_trackedInsert i.hash i.entry hs
  · rw [hcore]
    apply exact_s3fifoAdmit
    rw [hstored]
    exact exact_trackedInsert i.hash i.entry hs

theorem exec_exact (s : CacheStore) (call : Call) (hs : s.core.Exact p) :
    (exec p s call).core.Exact p := by
  by_cases hop : ∃ n, call.op = .setMaxMemoryBytes n
  · obtain ⟨n, hn⟩ := hop
    simp only [exec, hn]
    exact hs
  · have hsteps := exec_steps (p := p) s call (fun n hn => hop ⟨n, hn⟩)
    refine hsteps.invariant (fun s => s.core.Exact p) (fun _ => True) ?_ ?_
      (fun _ _ => trivial) hs
    · exact fun s s' h hs => h.core.exact hs
    · exact fun i s' h _ hs => h.exact hs

theorem run_exact {s : CacheStore} (hs : s.core.Exact p) (calls : List Call) :
    (Machine.run (exec p) s calls).core.Exact p := by
  induction calls generalizing s with
  | nil => exact hs
  | cons call rest ih => exact ih (exec_exact s call hs)

/-- After every run the counter is the sum of the sizes of the resident entries, and no
subtraction has gone below zero. -/
theorem memory_accounting_exact (freshDuration staleDuration : Duration) (maxEntries : Nat)
    (ttlJitterPercent : ℚ) (calls : List Call) :
    let s := Machine.run (exec p)
      (CacheStore.withJitter freshDuration staleDuration maxEntries ttlJitterPercent) calls
    s.totalMemoryBytes.value = s.memoryUsage p ∧ s.totalMemoryBytes.underflowed = false := by
  intro s
  have hexact : s.core.Exact p := run_exact ⟨rfl, rfl⟩ calls
  exact ⟨hexact.value_eq, hexact.no_underflow⟩

theorem Evict.weight_others {c c' : Core} (h : Evict p c c') (k : QueryHash) :
    WeightedTable.weight (CacheEntry.approximateSize p) (c'.entries.erase k) ≤
      WeightedTable.weight (CacheEntry.approximateSize p) (c.entries.erase k) := by
  have hold := WeightedTable.weight_erase_add (CacheEntry.approximateSize p) c.entries k
  have hnew := WeightedTable.weight_erase_add (CacheEntry.approximateSize p) c'.entries k
  cases h.view with
  | cool h e hl hentries =>
    by_cases hkh : k = h
    · rw [hentries, hkh, WeightedTable.erase_insert_self]
    · have hw := WeightedTable.weight_insert_of_lookup (CacheEntry.approximateSize p) c.entries
        (x := withFreq e 0) hl
      rw [hentries, AList.lookup_insert_ne hkh] at hnew
      rw [approximateSize_withFreq] at hw
      rw [hentries]
      omega
  | evict h e hl hentries =>
    by_cases hkh : k = h
    · rw [hentries, hkh]
      have hgone : h ∉ c.entries.erase h := by simp [AList.mem_erase]
      rw [WeightedTable.weight_erase_of_notMem _ _ hgone]
    · have hw := WeightedTable.weight_erase_of_lookup (CacheEntry.approximateSize p) c.entries hl
      rw [hentries, AList.lookup_erase_ne hkh] at hnew
      rw [hentries]
      omega
  | rotate hentries | drop _ _ hentries => rw [hentries]

/-- The state of the memory loop of an admission: all entries but the new one fit. -/
structure Fitting (p : Platform) (limit : Nat) (k : QueryHash) (s : CacheStore) : Prop where
  exact : s.core.Exact p
  cold : s.core.Cold k
  others : WeightedTable.weight (CacheEntry.approximateSize p) (s.entries.erase k) ≤ limit

theorem Fitting.of_evicts {limit : Nat} {k : QueryHash} {s s' : CacheStore}
    (h : Evicts p s.core s'.core) (hs : Fitting p limit k s) : Fitting p limit k s' := by
  refine ⟨h.shrinks.exact hs.exact, h.cold hs.cold, ?_⟩
  have hothers : ∀ c, Evicts p s.core c →
      WeightedTable.weight (CacheEntry.approximateSize p) (c.entries.erase k) ≤ limit := by
    intro c hc
    induction hc with
    | refl => exact hs.others
    | tail _ hstep ih => exact (hstep.weight_others k).trans ih
  exact hothers _ h

theorem Fitting.found {limit : Nat} {k : QueryHash} {s : CacheStore} (hs : Fitting p limit k s)
    (hover : overMemory limit s = true) : (s.s3fifoEvictOneMemory p).1 ≠ none := by
  refine evictSmallThenMain_found (k := k) ?_ hs.cold
  by_contra hk
  have hlt : limit < s.totalMemoryBytes.value := by simpa [overMemory] using hover
  have hvalue : s.totalMemoryBytes.value =
      WeightedTable.weight (CacheEntry.approximateSize p) s.entries := hs.exact.value_eq
  have hothers := hs.others
  rw [WeightedTable.weight_erase_of_notMem _ _ hk] at hothers
  omega

theorem evictToMemory_bounded {limit : Nat} {k : QueryHash} {s : CacheStore} (n : Evicted)
    (hs : Fitting p limit k s) :
    (evictToMemory p limit n s).2.totalMemoryBytes.value ≤ limit := by
  have hloop := evictWhile_spec (fun s => s.core.len) (Fitting p limit k)
    (fun s hs _ => hs.of_evicts (evictSmallThenMain_spec s).chain)
    (fun s hs hover => hs.found hover)
    (fun s => (evictSmallThenMain_spec s).found_len) (s.len + 1) n s hs (Nat.lt_succ_self _)
  have hbound := hloop.2
  simp only [overMemory, decide_eq_false_iff_not, not_lt] at hbound
  exact hbound

theorem recordAdmission_bytes (s : CacheStore) (g : Bool) (n : Evicted) :
    (s.recordAdmission g n).totalMemoryBytes = s.totalMemoryBytes :=
  congrArg Core.bytes (core_recordAdmission s g n)

theorem s3fifoAdmit_memory {s : CacheStore} {h : QueryHash} {e : CacheEntry}
    (hl : s.entries.lookup h = some e) (hcold : e.freq = 0) (hexact : s.core.Exact p)
    (hpos : 0 < s.maxMemoryBytes)
    (hothers : WeightedTable.weight (CacheEntry.approximateSize p) (s.entries.erase h) ≤
      s.maxMemoryBytes) :
    (s.s3fifoAdmit p h).totalMemoryBytes.value ≤ s.maxMemoryBytes := by
  have hpushed : Fitting p s.maxMemoryBytes h { s with s3fifo := s.s3fifo.push h } := by
    refine ⟨hexact.congr rfl rfl, ?_, hothers⟩
    intro e' hl'
    rw [Option.some.inj (hl'.symm.trans hl)]
    exact ⟨hcold, (s.s3fifo.push_slots h).mem_iff.mpr List.mem_cons_self⟩
  have hfit := (evictWhile_chain (p := p) overCapacity
    ((s.s3fifo.push h).slots.length + 1) ⟨0, 0⟩ { s with s3fifo := s.s3fifo.push h }).1
  have hbound := evictToMemory_bounded (evictToCapacity p ⟨0, 0⟩
    { s with s3fifo := s.s3fifo.push h }).1 (hpushed.of_evicts hfit)
  simp only [s3fifoAdmit, hpos, if_true, recordAdmission_bytes]
  exact hbound

def Insertion.Affordable (p : Platform) (i : Insertion) : Prop :=
  ∀ old ∈ i.store.entries.lookup i.hash, i.admits = false → 0 < i.store.maxMemoryBytes →
    i.store.memoryUsage p + i.entry.approximateSize p ≤
      i.store.maxMemoryBytes + old.approximateSize p

instance (p : Platform) (i : Insertion) : Decidable (i.Affordable p) :=
  inferInstanceAs (Decidable (∀ old ∈ i.store.entries.lookup i.hash, _ → _ → _))

/-- No insertion of the call replaces an entry past the cap, and a new cap is not below the
usage. -/
def Affordable (p : Platform) (s : CacheStore) (call : Call) : Prop :=
  (∀ i ∈ insertions p s call, i.Affordable p) ∧
    ∀ n ∈ call.op.memoryLimit, 0 < n → s.memoryUsage p ≤ n

instance (p : Platform) (s : CacheStore) (call : Call) : Decidable (Affordable p s call) :=
  inferInstanceAs (Decidable (_ ∧ ∀ n ∈ call.op.memoryLimit, _ → _))

structure Capped (p : Platform) (s : CacheStore) : Prop where
  exact : s.core.Exact p
  capped : 0 < s.maxMemoryBytes → s.totalMemoryBytes.value ≤ s.maxMemoryBytes

theorem Shrink.weight_le {c c' : Core} (h : Shrink p c c') : c'.weight p ≤ c.weight p := by
  simp only [Core.weight]
  cases h with
  | evict h =>
    cases h.view with
    | cool h e hl hentries =>
      have hw := WeightedTable.weight_insert_of_lookup (CacheEntry.approximateSize p) c.entries
        (x := withFreq e 0) hl
      rw [approximateSize_withFreq] at hw
      rw [hentries]
      omega
    | evict h e hl hentries =>
      have hw := WeightedTable.weight_erase_of_lookup (CacheEntry.approximateSize p) c.entries hl
      rw [hentries]
      omega
    | rotate hentries | drop _ _ hentries => rw [hentries]
  | @touch h e e' hl hsame =>
    have hw := WeightedTable.weight_insert_of_lookup (CacheEntry.approximateSize p) c.entries
      (x := e') hl
    rw [hsame.approximateSize_eq] at hw
    dsimp only
    omega
  | remove hl =>
    have hw := WeightedTable.weight_erase_of_lookup (CacheEntry.approximateSize p) c.entries hl
    dsimp only
    omega
  | clear => exact Nat.zero_le _

theorem Shrinks.weight_le {c c' : Core} (h : Shrinks p c c') : c'.weight p ≤ c.weight p := by
  induction h with
  | refl => exact le_rfl
  | tail _ hstep ih => exact hstep.weight_le.trans ih

theorem Capped.of_shrunk {s s' : CacheStore} (h : Shrunk p s s') (hs : Capped p s) :
    Capped p s' := by
  have hexact := h.core.exact hs.exact
  refine ⟨hexact, ?_⟩
  intro hpos
  have hle := h.core.weight_le
  have hcap := hs.capped (h.limit ▸ hpos)
  have hvalue : s.totalMemoryBytes.value = s.core.weight p := hs.exact.value_eq
  have hvalue' : s'.totalMemoryBytes.value = s'.core.weight p := hexact.value_eq
  rw [h.limit]
  omega

theorem Capped.of_inserted {i : Insertion} {s' : CacheStore} (h : Inserted p i s')
    (hi : i.Affordable p) (hs : Capped p i.store) : Capped p s' := by
  refine ⟨h.exact hs.exact, ?_⟩
  intro hpos
  rw [h.limit] at hpos ⊢
  have hcap := hs.capped hpos
  have hvalue : i.store.totalMemoryBytes.value = i.store.memoryUsage p := hs.exact.value_eq
  rcases h.cases with ⟨hforced, hmem, hcore⟩ | ⟨-, stored, hstored, hlimit, hcore⟩
  · obtain ⟨old, hl⟩ := WeightedTable.lookup_of_mem _ hmem
    have hroom := hi old hl (by simp [Insertion.admits, hforced, hmem]) hpos
    have hw := WeightedTable.weight_insert_of_lookup (CacheEntry.approximateSize p)
      i.store.entries (x := i.entry) hl
    have hentries : s'.entries = i.store.entries.insert i.hash i.entry :=
      congrArg Core.entries hcore
    have hnew : s'.totalMemoryBytes.value =
        WeightedTable.weight (CacheEntry.approximateSize p) s'.entries :=
      (h.exact hs.exact).value_eq
    rw [hentries] at hnew
    rw [memoryUsage] at hroom
    omega
  · have hentries : stored.entries = i.store.entries.insert i.hash i.entry :=
      congrArg Core.entries hstored
    have hexact : stored.core.Exact p := by
      rw [hstored]
      exact exact_trackedInsert i.hash i.entry hs.exact
    have hothers : WeightedTable.weight (CacheEntry.approximateSize p)
        (stored.entries.erase i.hash) ≤ stored.maxMemoryBytes := by
      have hadd := WeightedTable.weight_erase_add (CacheEntry.approximateSize p)
        i.store.entries i.hash
      rw [hentries, WeightedTable.erase_insert_self, hlimit]
      rw [memoryUsage] at hvalue
      omega
    have hbytes : s'.totalMemoryBytes = (stored.s3fifoAdmit p i.hash).totalMemoryBytes :=
      congrArg Core.bytes hcore
    rw [hbytes, ← hlimit]
    refine s3fifoAdmit_memory (e := i.entry) ?_ h.cold hexact (hlimit ▸ hpos) hothers
    rw [hentries, AList.lookup_insert]

theorem exec_capped (s : CacheStore) (call : Call) (hcall : Affordable p s call)
    (hs : Capped p s) : Capped p (exec p s call) := by
  by_cases hop : ∃ n, call.op = .setMaxMemoryBytes n
  · obtain ⟨n, hn⟩ := hop
    have hcap := hcall.2 n (by simp [hn, Op.memoryLimit])
    simp only [exec, hn]
    refine ⟨hs.exact, fun hpos => ?_⟩
    have hvalue : s.totalMemoryBytes.value = s.memoryUsage p := hs.exact.value_eq
    exact hvalue.le.trans (hcap hpos)
  · have hsteps := exec_steps (p := p) s call (fun n hn => hop ⟨n, hn⟩)
    refine hsteps.invariant (Capped p) (Insertion.Affordable p) ?_ ?_ hcall.1 hs
    · exact fun s s' h hs => hs.of_shrunk h
    · exact fun i s' h hi hs => hs.of_inserted h hi

/-- In every run in which no insertion replaces an entry past the cap, the usage is under the
cap after every call. -/
theorem memory_capped_of_affordable (freshDuration staleDuration : Duration)
    (maxEntries maxMemoryBytes : Nat) (calls : List Call)
    (hcalls : Machine.AllSteps (exec p) (Affordable p)
      (CacheStore.withMemoryLimit freshDuration staleDuration maxEntries maxMemoryBytes) calls) :
    let s := Machine.run (exec p)
      (CacheStore.withMemoryLimit freshDuration staleDuration maxEntries maxMemoryBytes) calls
    0 < s.maxMemoryBytes → s.totalMemoryBytes.value ≤ s.maxMemoryBytes := by
  intro s
  have hcapped : Capped p s := by
    refine Machine.run_invariant (fun s call hcall hs => exec_capped s call hcall hs) ?_ hcalls
    exact ⟨⟨rfl, rfl⟩, fun _ => Nat.zero_le _⟩
  exact hcapped.capped

theorem memory_capped_after_inserts :
    let s := Machine.run (exec Platform.sample) (CacheStore.withMemoryLimit 1 1 10 300)
      [callNow (.insert "a" (textResponse "x") "u"), callNow (.insert "b" (textResponse "y") "u")]
    0 < s.maxMemoryBytes → s.totalMemoryBytes.value ≤ s.maxMemoryBytes :=
  memory_capped_of_affordable _ _ _ _ _ (by decide +kernel)

theorem memory_over_cap_after_update :
    let s := Machine.run (exec Platform.sample) (CacheStore.withMemoryLimit 1 1 10 300)
      [callNow (.insert "a" (textResponse "x") "u"),
        callNow (.insert "a" (textResponse (String.ofList (List.replicate 60 'y'))) "u")]
    s.maxMemoryBytes = 300 ∧ ¬ (s.totalMemoryBytes.value ≤ 300 ∨ s.len = 0) := by
  decide +kernel

end Conproxy
