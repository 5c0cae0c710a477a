import Conproxy.Sample
import Conproxy.Cache.Calls
import Conproxy.Cache.Keys

/-!
# Freshness in the reports and evictions

The functions of `cache.rs` that compare ages. `check_freshness_by_hash` and
`get_stale_hashes` add the jitter of the hash to the fresh duration; the statistics, the
summary and the first phase of `evict_smart` do not, and `evict_truly_expired` looks at the frozen
duration alone. They agree exactly when no entry has an age that the jitter decides, or that lies
between the frozen duration and the end of the stale time.
-/

namespace Conproxy

open CacheStore

set_option autoImplicit false

inductive EntryFreshness where
  | fresh
  | stale
  | expired
deriving DecidableEq

structure FreshnessCounts where
  fresh : Nat
  stale : Nat
  expired : Nat
deriving DecidableEq

def FreshnessCounts.add (n : FreshnessCounts) : EntryFreshness → FreshnessCounts
  | .fresh => { n with fresh := n.fresh + 1 }
  | .stale => { n with stale := n.stale + 1 }
  | .expired => { n with expired := n.expired + 1 }

/-- `utilization` is the ratio before its rounding to `f32`. -/
structure CacheStats extends FreshnessCounts where
  total : Nat
  maxEntries : Nat
  memoryBytes : Nat
  utilization : ℚ

structure UpstreamCacheStats extends FreshnessCounts where
  total : Nat
  memoryBytes : Nat
deriving DecidableEq

def UpstreamCacheStats.default : UpstreamCacheStats := ⟨⟨0, 0, 0⟩, 0, 0⟩

structure CacheEntrySummary where
  hash : String
  queryText : String
  upstreamId : String
  contextId : String
  cachedAtUnixMs : Option Nat
  resultCount : Nat
  freshness : EntryFreshness
deriving DecidableEq

def queryHashHex (h : QueryHash) : String :=
  String.ofList ((hashBytes h).flatMap fun b =>
    [Json.hexDigit (b.toNat / 16), Json.hexDigit (b.toNat % 16)])

namespace CacheStore

variable (p : Platform)

/-- The comparison that the statistics and the summary share: no jitter. -/
def ttlClass (s : CacheStore) (now : Clock) (e : CacheEntry) : EntryFreshness :=
  if age now e < s.freshDuration then .fresh
  else if age now e < s.freshDuration + s.staleDuration then .stale
  else .expired

def stats (s : CacheStore) (scan : Scan) (now : Clock) : CacheStats where
  toFreshnessCounts := (s.iter scan).foldl (fun n e => n.add (s.ttlClass now e.2)) ⟨0, 0, 0⟩
  total := s.len
  maxEntries := s.maxEntries
  memoryBytes := s.totalMemoryBytes.value
  utilization := if 0 < s.maxEntries then s.len / s.maxEntries else 0

/-- One round of `stats_by_upstream` on the record of the entry's upstream. -/
def countEntry (s : CacheStore) (now : Clock) (st : UpstreamCacheStats) (e : CacheEntry) :
    UpstreamCacheStats where
  toFreshnessCounts := st.toFreshnessCounts.add (s.ttlClass now e)
  total := st.total + 1
  memoryBytes := st.memoryBytes + e.approximateSize p

def statsByUpstream (s : CacheStore) (scan : Scan) (now : Clock) :
    AList fun _ : String => UpstreamCacheStats :=
  (s.iter scan).foldl (fun t e => t.insert e.2.upstreamId
    (s.countEntry p now ((t.lookup e.2.upstreamId).getD .default) e.2)) ∅

def summaryOf (s : CacheStore) (now : Clock) (h : QueryHash) (e : CacheEntry) :
    CacheEntrySummary where
  hash := queryHashHex h
  queryText := String.ofList ((e.queryText.getD "").toList.take 120)
  upstreamId := e.upstreamId
  contextId := e.contextId
  cachedAtUnixMs := e.cachedAtWall.map millis
  resultCount := e.response.results.length
  freshness := s.ttlClass now e

def getStaleHashes (s : CacheStore) (scan : Scan) (now : Clock) : List QueryHash :=
  ((s.iter scan).filter fun e =>
    let jitteredFresh := s.jitteredTtl p s.freshDuration e.1
    jitteredFresh ≤ age now e.2 && age now e.2 < jitteredFresh + s.staleDuration).map Prod.fst

/-- The first phase of `evict_smart`. -/
def evictExpiredPhase (s : CacheStore) (scan : Scan) (now : Clock) (target : Nat) : CacheStore :=
  (evictExpired p target (((s.iter scan).filter fun e =>
    s.freshDuration + s.staleDuration < age now e.2).map Prod.fst) 0 s).2

def freshOrStale (s : CacheStore) (now : Clock) (h : QueryHash) (e : CacheEntry) : Bool :=
  s.freshnessOf p now h e = .fresh || s.freshnessOf p now h e = .stale

end CacheStore

section Agreement

variable (p : Platform)

/-- The reports count as expired just the entries that are neither fresh nor stale, the first
phase of `evict_smart` spares the others, `get_stale_hashes` names the stale ones, and
`evict_truly_expired` takes only expired ones. -/
structure OneFreshness (s : CacheStore) (now : Clock) : Prop where
  stats : ∀ scan, (s.stats scan now).expired =
    (s.iter scan).countP fun e => !s.freshOrStale p now e.1 e.2
  byUpstream : ∀ scan u, (((s.statsByUpstream p scan now).lookup u).getD .default).expired =
    (s.iter scan).countP fun e => e.2.upstreamId = u && !s.freshOrStale p now e.1 e.2
  summary : ∀ h e, s.entries.lookup h = some e → s.freshOrStale p now h e = true →
    (s.summaryOf now h e).freshness ≠ .expired
  smart : ∀ scan target h e, s.entries.lookup h = some e → s.freshOrStale p now h e = true →
    h ∈ (s.evictExpiredPhase p scan now target).entries
  staleHashes : ∀ scan h, h ∈ s.getStaleHashes p scan now ↔
    s.checkFreshnessByHash p now h = some .stale
  trulyExpired : ∀ scan, ∀ h ∈ s.entries, h ∉ (s.evictTrulyExpired p scan now).2.entries →
    s.checkFreshnessByHash p now h = some .expired

/-- An entry that has outlived the durations without jitter, or the frozen duration, has
outlived them with jitter. -/
def OutlivesJitter (s : CacheStore) (now : Clock) : Prop :=
  ∀ h e, s.entries.lookup h = some e →
    s.freshDuration + s.staleDuration ≤ age now e ∨ s.maxFrozenDuration < age now e →
    s.jitteredTtl p s.freshDuration h + s.staleDuration ≤ age now e

end Agreement

variable {p : Platform} {s : CacheStore} {now : Clock} {scan : Scan}

theorem le_jitteredTtl (s : CacheStore) (base : Duration) (h : QueryHash) :
    base ≤ s.jitteredTtl p base h := by
  unfold jitteredTtl
  split
  · exact le_rfl
  · exact Nat.le_add_right _ _

theorem freshOrStale_iff {h : QueryHash} {e : CacheEntry} :
    s.freshOrStale p now h e = true ↔
      age now e < s.jitteredTtl p s.freshDuration h + s.staleDuration := by
  have hle : s.jitteredTtl p s.freshDuration h ≤
      s.jitteredTtl p s.freshDuration h + s.staleDuration := Nat.le_add_right _ _
  simp only [freshOrStale, freshnessOf, Bool.or_eq_true]
  split
  · rename_i hfresh
    simpa using hfresh.trans_le hle
  · split
    · rename_i hstale
      simpa using hstale
    · rename_i hstale
      split <;> simp [hstale]

theorem ttlClass_eq_expired_iff {e : CacheEntry} :
    s.ttlClass now e = .expired ↔ s.freshDuration + s.staleDuration ≤ age now e := by
  have hle : s.freshDuration ≤ s.freshDuration + s.staleDuration := Nat.le_add_right _ _
  unfold ttlClass
  split
  · rename_i hfresh
    simpa using hfresh.trans_le hle
  · split
    · rename_i hstale
      simpa using hstale
    · rename_i hstale
      simpa using hstale

theorem ttlClass_of_outlived {h : QueryHash} {e : CacheEntry}
    (hout : s.freshOrStale p now h e = false) : s.ttlClass now e = .expired := by
  rw [ttlClass_eq_expired_iff]
  have hage : ¬ age now e < s.jitteredTtl p s.freshDuration h + s.staleDuration := by
    rw [← freshOrStale_iff]
    simp [hout]
  exact (Nat.add_le_add_right (le_jitteredTtl s _ h) _).trans (Nat.not_lt.1 hage)

theorem expired_foldl {α : Type} (f : α → EntryFreshness) (l : List α) (n : FreshnessCounts) :
    (l.foldl (fun n x => n.add (f x)) n).expired =
      n.expired + l.countP fun x => f x = .expired := by
  induction l generalizing n with
  | nil => rfl
  | cons x rest ih =>
    rw [List.foldl_cons, ih, List.countP_cons]
    cases f x with
    | fresh => rfl
    | stale => rfl
    | expired =>
      simp only [FreshnessCounts.add, decide_true, if_true]
      omega

theorem expired_statsByUpstream (u : String) (l : List (QueryHash × CacheEntry))
    (t : AList fun _ : String => UpstreamCacheStats) :
    (((l.foldl (fun t e => t.insert e.2.upstreamId
        (s.countEntry p now ((t.lookup e.2.upstreamId).getD .default) e.2)) t).lookup u).getD
          .default).expired =
      ((t.lookup u).getD .default).expired +
        l.countP fun e => e.2.upstreamId = u && s.ttlClass now e.2 = .expired := by
  induction l generalizing t with
  | nil => rfl
  | cons x rest ih =>
    rw [List.foldl_cons, ih, List.countP_cons]
    by_cases hu : x.2.upstreamId = u
    · subst hu
      rw [AList.lookup_insert]
      simp only [Option.getD_some, countEntry, decide_true, Bool.true_and]
      cases s.ttlClass now x.2 with
      | fresh => rfl
      | stale => rfl
      | expired =>
        simp only [FreshnessCounts.add, decide_true, if_true]
        omega
    · rw [AList.lookup_insert_ne (Ne.symm hu)]
      simp [hu]

theorem OutlivesJitter.freshOrStale (hs : OutlivesJitter p s now) {h : QueryHash} {e : CacheEntry}
    (hl : s.entries.lookup h = some e) :
    (decide (s.ttlClass now e = .expired)) = !s.freshOrStale p now h e := by
  cases hfresh : s.freshOrStale p now h e with
  | false => simp [ttlClass_of_outlived hfresh]
  | true =>
    have hlt := freshOrStale_iff.1 hfresh
    have hnot : ¬ s.freshDuration + s.staleDuration ≤ age now e :=
      fun hle => absurd (hs h e hl (.inl hle)) (Nat.not_le.2 hlt)
    simpa [ttlClass_eq_expired_iff] using hnot

theorem mem_evictExpired {target : Nat} {hashes : List QueryHash} {k : QueryHash}
    (hk : k ∉ hashes) (evicted : Nat) {s : CacheStore} (hmem : k ∈ s.entries) :
    k ∈ (evictExpired p target hashes evicted s).2.entries := by
  induction hashes generalizing evicted s with
  | nil => exact hmem
  | cons h rest ih =>
    rw [List.mem_cons, not_or] at hk
    have hstep := (mem_trackedRemove (p := p) s h k).2 ⟨hmem, hk.1⟩
    unfold evictExpired
    split
    · exact hmem
    · rcases hr : s.trackedRemove p h with ⟨_ | old, s'⟩
      · rw [hr] at hstep
        exact ih hk.2 _ hstep
      · rw [hr] at hstep
        exact ih hk.2 _ hstep

theorem mem_getStaleHashes (h : QueryHash) :
    h ∈ s.getStaleHashes p scan now ↔ s.checkFreshnessByHash p now h = some .stale := by
  simp only [getStaleHashes, List.mem_map, List.mem_filter, Prod.exists, exists_and_right,
    exists_eq_right, mem_iter_iff, checkFreshnessByHash, Option.map_eq_some_iff,
    Bool.and_eq_true, decide_eq_true_eq]
  refine exists_congr fun e => and_congr_right fun _ => ?_
  unfold freshnessOf
  dsimp only
  split
  · rename_i hfresh
    simp [Nat.not_le.2 hfresh]
  · rename_i hfresh
    split
    · rename_i hstale
      simp [Nat.not_lt.1 hfresh, hstale]
    · rename_i hstale
      split <;> simp [hstale]

theorem mem_evictTrulyExpired (h : QueryHash) :
    h ∈ (s.evictTrulyExpired p scan now).2.entries ↔
      ∃ e, s.entries.lookup h = some e ∧ age now e ≤ s.maxFrozenDuration := by
  have hkeys := mem_removeAll (p := p)
    (((s.iter scan).filter fun e => s.maxFrozenDuration < age now e.2).map Prod.fst) s h
  have hmem : h ∈ (s.evictTrulyExpired p scan now).2.entries ↔ h ∈ s.entries ∧
      h ∉ ((s.iter scan).filter fun e => s.maxFrozenDuration < age now e.2).map Prod.fst := by
    unfold evictTrulyExpired
    dsimp only
    split
    · exact hkeys
    · exact hkeys
  rw [hmem]
  simp only [List.mem_map, List.mem_filter, Prod.exists, exists_and_right, exists_eq_right,
    mem_iter_iff, decide_eq_true_eq, not_exists, not_and, Nat.not_lt]
  constructor
  · rintro ⟨hin, hage⟩
    obtain ⟨e, hl⟩ := WeightedTable.lookup_of_mem _ hin
    exact ⟨e, hl, hage e hl⟩
  · rintro ⟨e, hl, hage⟩
    refine ⟨WeightedTable.mem_of_lookup _ hl, ?_⟩
    intro e' hl'
    obtain rfl : e = e' := Option.some.inj (hl.symm.trans hl')
    exact hage

theorem freshnessOf_eq_expired_iff {h : QueryHash} {e : CacheEntry} :
    s.freshnessOf p now h e = .expired ↔
      s.freshOrStale p now h e = false ∧ s.maxFrozenDuration ≤ age now e := by
  rw [← Bool.not_eq_true, freshOrStale_iff]
  have hle : s.jitteredTtl p s.freshDuration h ≤
      s.jitteredTtl p s.freshDuration h + s.staleDuration := Nat.le_add_right _ _
  unfold freshnessOf
  dsimp only
  split
  · rename_i hfresh
    simp [hfresh.trans_le hle]
  · split
    · rename_i hstale
      simp [hstale]
    · rename_i hstale
      split
      · rename_i hfrozen
        simp [Nat.not_le.2 hfrozen]
      · rename_i hfrozen
        simp [hstale, Nat.not_lt.1 hfrozen]

/-- The functions have one notion of freshness for a store at a time exactly when every entry
that has outlived the durations without jitter, or the frozen duration, has outlived them with
its jitter. -/
theorem one_freshness_iff (p : Platform) (s : CacheStore) (now : Clock) :
    OneFreshness p s now ↔ OutlivesJitter p s now := by
  constructor
  · rintro hone h e hl hage
    by_contra hlt
    have hfresh : s.freshOrStale p now h e = true := freshOrStale_iff.2 (Nat.not_le.1 hlt)
    rcases hage with hage | hage
    · exact hone.summary h e hl hfresh (ttlClass_eq_expired_iff.2 hage)
    · have hgone : h ∉ (s.evictTrulyExpired p Scan.stored now).2.entries := by
        rw [mem_evictTrulyExpired]
        rintro ⟨e', hl', hle⟩
        obtain rfl : e = e' := Option.some.inj (hl.symm.trans hl')
        exact absurd hage (Nat.not_lt.2 hle)
      have hexpired := hone.trulyExpired Scan.stored h (WeightedTable.mem_of_lookup _ hl) hgone
      simp only [checkFreshnessByHash, hl, Option.map_some, Option.some.injEq,
        freshnessOf_eq_expired_iff, hfresh, Bool.true_eq_false, false_and] at hexpired
  · intro hs
    have hclass (scan : Scan) (x : QueryHash × CacheEntry) (hx : x ∈ s.iter scan) :=
      hs.freshOrStale (mem_iter_iff.1 hx)
    refine ⟨?_, ?_, ?_, ?_, fun scan h => mem_getStaleHashes h, ?_⟩
    · intro scan
      simp only [CacheStore.stats, expired_foldl, Nat.zero_add]
      exact List.countP_congr fun x hx => by rw [hclass scan x hx]
    · intro scan u
      rw [statsByUpstream, expired_statsByUpstream, AList.lookup_empty]
      refine (Nat.zero_add _).trans (List.countP_congr fun x hx => ?_)
      rw [hclass scan x hx]
    · intro h e hl hfresh hexpired
      have hsame := hs.freshOrStale hl
      rw [hfresh] at hsame
      simp only [Bool.not_true, decide_eq_false_iff_not] at hsame
      exact hsame hexpired
    · intro scan target h e hl hfresh
      apply mem_evictExpired _ 0 (WeightedTable.mem_of_lookup _ hl)
      simp only [List.mem_map, List.mem_filter, Prod.exists, exists_and_right, exists_eq_right,
        mem_iter_iff, decide_eq_true_eq, not_exists, not_and]
      intro e' hl' hage
      obtain rfl : e = e' := Option.some.inj (hl.symm.trans hl')
      exact absurd (hs h e hl (.inl (Nat.le_of_lt hage))) (Nat.not_le.2 (freshOrStale_iff.1 hfresh))
    · intro scan h hmem hgone
      obtain ⟨e, hl⟩ := WeightedTable.lookup_of_mem _ hmem
      have hage : s.maxFrozenDuration < age now e := by
        by_contra hle
        exact hgone ((mem_evictTrulyExpired h).2 ⟨e, hl, Nat.not_lt.1 hle⟩)
      simp only [checkFreshnessByHash, hl, Option.map_some, Option.some.injEq,
        freshnessOf_eq_expired_iff]
      refine ⟨?_, Nat.le_of_lt hage⟩
      rw [← Bool.not_eq_true, freshOrStale_iff]
      exact Nat.not_lt.2 (hs h e hl (.inr hage))

/-- The jitter of a hash whose first byte is 255, for ten percent of 300 seconds. -/
def Platform.jittered : Platform := { Platform.sample with jitterSecs := fun _ _ _ => 30 }

/-- A store with 300 seconds of fresh and 600 seconds of stale time and one entry, under the hash
whose first byte is 255. -/
def jitteredEntry : CacheStore :=
  exec Platform.jittered (CacheStore.new 300000000000 600000000000 10)
    (callNow (.insertByHash 255 (textResponse "a") "u" none))

/-- At 910 seconds the entry is stale, and the statistics count it as expired. -/
theorem stale_entry_counted_expired :
    ¬ OneFreshness Platform.jittered jitteredEntry ⟨910000000000, 910000000000⟩ := by
  intro hone
  have hcount := hone.stats Scan.stored
  revert hcount
  decide +kernel

end Conproxy
