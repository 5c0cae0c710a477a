import Conproxy.Cache.Smart
import Conproxy.Cache.UpstreamLimit
import Conproxy.Lib.Leaders
import Conproxy.Sample

/-!
# Eviction requests

`handle_cache_evict` of `server/cache.rs` and `cache_evict` of `grpc/admin.rs`. A request names up
to six criteria, and a chain of conditions hands it to one of four operations of the store, each
of which looks at some of the criteria only.
-/

namespace Conproxy

open CacheStore

set_option autoImplicit false

structure EvictRequest where
  upstreamId : Option String
  contextId : Option String
  queryTextPrefix : Option String
  olderThanSecs : Option Nat
  maxEntries : Option Nat
  expiredOnly : Bool
deriving DecidableEq

structure EvictResponse where
  evicted : Nat
  remaining : Nat
deriving DecidableEq

def EvictResponse.ofResult (result : Nat × CacheStore) : EvictResponse × CacheStore :=
  (⟨result.1, result.2.len⟩, result.2)

variable (p : Platform)

namespace EvictRequest

def criteria (r : EvictRequest) : EvictCriteria :=
  ⟨r.contextId, r.queryTextPrefix, r.olderThanSecs, r.maxEntries⟩

/-- One of the criteria of `evict_filter` is given. -/
def filters (r : EvictRequest) : Bool :=
  r.contextId.isSome || r.queryTextPrefix.isSome || r.olderThanSecs.isSome

end EvictRequest

namespace CacheStore

def evictRequested (s : CacheStore) (scan : Scan) (now : Clock) (r : EvictRequest) :
    Nat × CacheStore :=
  if r.expiredOnly then s.evictTrulyExpired p scan now
  else
    match r.upstreamId with
    | some upstreamId =>
      match r.maxEntries with
      | some max =>
        s.enforcePerUpstreamLimit p scan now upstreamId (s.countForUpstream upstreamId - max)
      | none => s.evictFromUpstream p scan now upstreamId (s.countForUpstream upstreamId)
    | none =>
      if r.filters then s.evictFilter p scan now r.criteria
      else s.evictTrulyExpired p scan now

def handleCacheEvict (s : CacheStore) (scan : Scan) (now : Clock) (r : EvictRequest) :
    EvictResponse × CacheStore :=
  EvictResponse.ofResult (s.evictRequested p scan now r)

/-- `cache_evict`: an empty upstream and a limit of zero are not given, and there are no other
criteria. -/
def cacheEvict (s : CacheStore) (scan : Scan) (now : Clock) (upstreamId : String)
    (maxEntries : Nat) (expiredOnly : Bool) : EvictResponse × CacheStore :=
  EvictResponse.ofResult <|
    if expiredOnly then s.evictTrulyExpired p scan now
    else if upstreamId ≠ "" then
      if 0 < maxEntries then
        s.enforcePerUpstreamLimit p scan now upstreamId
          (s.countForUpstream upstreamId - maxEntries)
      else s.evictFromUpstream p scan now upstreamId (s.countForUpstream upstreamId)
    else s.evictTrulyExpired p scan now

end CacheStore

namespace EvictRequest

/-- The criteria of a request but its limit; the context counts without an upstream only. -/
def admits (r : EvictRequest) (s : CacheStore) (now : Clock) (e : CacheEntry) : Bool :=
  (match r.upstreamId with
    | some upstreamId => e.upstreamId == upstreamId
    | none => true) &&
  EvictCriteria.matches p
    ⟨if r.upstreamId.isSome then none else r.contextId, r.queryTextPrefix, r.olderThanSecs, none⟩
    now e &&
  (!r.expiredOnly || decide (s.maxFrozenDuration < age now e))

/-- Every entry that went met the criteria, and no more than the limit went. -/
structure Honoured (r : EvictRequest) (s : CacheStore) (now : Clock) (s' : CacheStore) : Prop where
  admitted : ∀ h e, s.entries.lookup h = some e → h ∉ s'.entries → r.admits p s now e = true
  limited : ∀ max, r.maxEntries = some max → s.len ≤ s'.len + max

end EvictRequest

namespace CacheStore

/-- The entries that `evict_truly_expired` removes. -/
def overdue (s : CacheStore) (now : Clock) : Nat :=
  (s.entries.entries.filter fun e => s.maxFrozenDuration < age now e.2).length

def olderThan (s : CacheStore) (now : Clock) (upstreamId : String) (e : CacheEntry) : Nat :=
  (s.entries.entries.filter fun x =>
    x.2.upstreamId = upstreamId ∧ age now e < age now x.2).length

end CacheStore

/-- The requests that no iteration order leads astray: the operation they are handed to looks at
all their criteria, or every entry that it may remove meets the others. -/
def EvictRequest.Covered (r : EvictRequest) (s : CacheStore) (now : Clock) : Prop :=
  if r.expiredOnly then
    (∀ h e, s.entries.lookup h = some e → s.maxFrozenDuration < age now e →
      r.admits p s now e = true) ∧
    ∀ max, r.maxEntries = some max → s.overdue now ≤ max
  else
    match r.upstreamId with
    | some upstreamId =>
      ∀ h e, s.entries.lookup h = some e → e.upstreamId = upstreamId →
        (∀ max, r.maxEntries = some max → s.olderThan now upstreamId e < max) →
        r.admits p s now e = true
    | none =>
      r.filters = true ∨ ∀ max, r.maxEntries = some max → s.overdue now ≤ max

/-! ## The entries that a request removes -/

section

variable {p} {s : CacheStore} {scan : Scan} {now : Clock} {r : EvictRequest}

namespace CacheStore

def overdueHashes (s : CacheStore) (scan : Scan) (now : Clock) : List QueryHash :=
  ((s.iter scan).filter fun e => s.maxFrozenDuration < age now e.2).map Prod.fst

variable (p) in
/-- The hashes that a request removes, in their order. -/
def victims (s : CacheStore) (scan : Scan) (now : Clock) (r : EvictRequest) : List QueryHash :=
  if r.expiredOnly then s.overdueHashes scan now
  else
    match r.upstreamId with
    | some upstreamId =>
      match r.maxEntries with
      | some max => (s.upstreamHashes scan now upstreamId).take max
      | none => s.upstreamHashes scan now upstreamId
    | none =>
      if r.filters then s.matchingHashes p scan now r.criteria else s.overdueHashes scan now

theorem entries_evictTrulyExpired (s : CacheStore) (scan : Scan) (now : Clock) :
    (s.evictTrulyExpired p scan now).2.entries =
      (removeAll p (s.overdueHashes scan now) s).2.entries := by
  unfold evictTrulyExpired
  dsimp only
  split <;> rfl

theorem entries_evictFilter (s : CacheStore) (scan : Scan) (now : Clock) (c : EvictCriteria) :
    (s.evictFilter p scan now c).2.entries =
      (removeAll p (s.matchingHashes p scan now c) s).2.entries := by
  unfold evictFilter
  dsimp only
  split <;> rfl

theorem entries_evictFromUpstream (s : CacheStore) (scan : Scan) (now : Clock)
    (upstreamId : String) (count : Nat) :
    (s.evictFromUpstream p scan now upstreamId count).2.entries =
      (removeAll p ((s.upstreamHashes scan now upstreamId).take count) s).2.entries := by
  unfold evictFromUpstream
  by_cases hzero : count = 0
  · subst hzero
    rfl
  · rw [if_neg hzero]
    dsimp only
    split <;> exact entries_publishRemoves _ _

/-- A limit that is `max` below the count lets the `max` oldest entries go. -/
theorem entries_enforcePerUpstreamLimit (s : CacheStore) (scan : Scan) (now : Clock)
    (upstreamId : String) (max : Nat) :
    (s.enforcePerUpstreamLimit p scan now upstreamId
        (s.countForUpstream upstreamId - max)).2.entries =
      (removeAll p ((s.upstreamHashes scan now upstreamId).take max) s).2.entries := by
  have hlen := length_upstreamHashes s scan now upstreamId
  unfold enforcePerUpstreamLimit
  dsimp only
  split
  · rename_i hle
    have hnone : (s.upstreamHashes scan now upstreamId).take max = [] := by
      rw [List.take_eq_nil_iff, ← List.length_eq_zero_iff]
      omega
    rw [hnone]
    rfl
  · rename_i hlt
    have htake : (s.upstreamHashes scan now upstreamId).take
        (s.countForUpstream upstreamId - (s.countForUpstream upstreamId - max)) =
        (s.upstreamHashes scan now upstreamId).take max := by
      rw [List.take_eq_take_iff]
      omega
    rw [entries_evictFromUpstream, htake]

theorem entries_evictRequested (s : CacheStore) (scan : Scan) (now : Clock) (r : EvictRequest) :
    (s.evictRequested p scan now r).2.entries =
      (removeAll p (s.victims p scan now r) s).2.entries := by
  unfold evictRequested victims
  split
  · exact entries_evictTrulyExpired s scan now
  · cases r.upstreamId with
    | some upstreamId =>
      cases r.maxEntries with
      | some max => exact entries_enforcePerUpstreamLimit s scan now upstreamId max
      | none =>
        have hlen := length_upstreamHashes s scan now upstreamId
        dsimp only
        rw [entries_evictFromUpstream, List.take_of_length_le (by omega)]
    | none =>
      dsimp only
      split
      · exact entries_evictFilter s scan now r.criteria
      · exact entries_evictTrulyExpired s scan now

theorem mem_overdueHashes {h : QueryHash} :
    h ∈ s.overdueHashes scan now ↔
      ∃ e, s.entries.lookup h = some e ∧ s.maxFrozenDuration < age now e := by
  simp only [overdueHashes, List.mem_map, List.mem_filter, Prod.exists, exists_and_right,
    exists_eq_right, mem_iter_iff, decide_eq_true_eq]

theorem nodup_overdueHashes (s : CacheStore) (scan : Scan) (now : Clock) :
    (s.overdueHashes scan now).Nodup :=
  (nodup_iter s scan).sublist (List.filter_sublist.map Prod.fst)

theorem length_overdueHashes (s : CacheStore) (scan : Scan) (now : Clock) :
    (s.overdueHashes scan now).length = s.overdue now := by
  have hperm := (scan.perm (s.entries.entries.map fun e => (e.1, e.2))).filter
    fun e => s.maxFrozenDuration < age now e.2
  rw [overdueHashes, List.length_map, iter, hperm.length_eq, List.filter_map, List.length_map]
  rfl

theorem nodup_victims (s : CacheStore) (scan : Scan) (now : Clock) (r : EvictRequest) :
    (s.victims p scan now r).Nodup := by
  unfold victims
  split
  · exact nodup_overdueHashes s scan now
  · cases r.upstreamId with
    | some upstreamId =>
      have hall : (s.upstreamHashes scan now upstreamId).Nodup :=
        nodup_upstreamHashes s upstreamId
      cases r.maxEntries with
      | some max => exact hall.sublist (List.take_sublist _ _)
      | none => exact hall
    | none =>
      dsimp only
      split
      · exact nodup_matchingHashes s r.criteria
      · exact nodup_overdueHashes s scan now

theorem mem_of_mem_victims {h : QueryHash} (hh : h ∈ s.victims p scan now r) :
    h ∈ s.entries := by
  have hoverdue : h ∈ s.overdueHashes scan now → h ∈ s.entries := by
    intro hin
    obtain ⟨_, hl, _⟩ := mem_overdueHashes.1 hin
    exact WeightedTable.mem_of_lookup _ hl
  have hown (upstreamId : String) :
      h ∈ s.upstreamHashes scan now upstreamId → h ∈ s.entries := by
    intro hin
    obtain ⟨_, hl, _⟩ := mem_upstreamHashes hin
    exact WeightedTable.mem_of_lookup _ hl
  unfold victims at hh
  split at hh
  · exact hoverdue hh
  · cases hu : r.upstreamId with
    | some upstreamId =>
      rw [hu] at hh
      cases hm : r.maxEntries with
      | some max =>
        rw [hm] at hh
        exact hown upstreamId (List.mem_of_mem_take hh)
      | none =>
        rw [hm] at hh
        exact hown upstreamId hh
    | none =>
      rw [hu] at hh
      dsimp only at hh
      split at hh
      · exact mem_of_mem_matchingHashes hh
      · exact hoverdue hh

theorem len_removeAll {hashes : List QueryHash} (hnodup : hashes.Nodup)
    (hmem : ∀ h ∈ hashes, h ∈ s.entries) :
    (removeAll p hashes s).2.len + hashes.length = s.len := by
  rw [len, entries_removeAll]
  exact WeightedTable.length_keys_foldl_erase s.entries hnodup hmem

theorem len_evictRequested (s : CacheStore) (scan : Scan) (now : Clock) (r : EvictRequest) :
    (s.evictRequested p scan now r).2.len + (s.victims p scan now r).length = s.len := by
  rw [← len_removeAll (p := p) (nodup_victims s scan now r) fun h => mem_of_mem_victims]
  exact congrArg (fun t : Table CacheEntry => t.keys.length + _)
    (entries_evictRequested s scan now r)

theorem mem_evictRequested {h : QueryHash} :
    h ∈ (s.evictRequested p scan now r).2.entries ↔
      h ∈ s.entries ∧ h ∉ s.victims p scan now r := by
  rw [entries_evictRequested]
  exact mem_removeAll _ s h

end CacheStore

theorem honoured_iff :
    r.Honoured p s now (s.evictRequested p scan now r).2 ↔
      (∀ h ∈ s.victims p scan now r, ∀ e, s.entries.lookup h = some e →
        r.admits p s now e = true) ∧
      ∀ max, r.maxEntries = some max → (s.victims p scan now r).length ≤ max := by
  have hlen := len_evictRequested (p := p) s scan now r
  constructor
  · rintro ⟨hadmitted, hlimited⟩
    refine ⟨fun h hh e hl => hadmitted h e hl fun hkept => ?_, fun max hmax => ?_⟩
    · exact (mem_evictRequested.1 hkept).2 hh
    · have hle := hlimited max hmax
      omega
  · rintro ⟨hadmitted, hlimited⟩
    refine ⟨fun h e hl hgone => ?_, fun max hmax => ?_⟩
    · refine hadmitted h ?_ e hl
      by_contra hkept
      exact hgone (mem_evictRequested.2 ⟨WeightedTable.mem_of_lookup _ hl, hkept⟩)
    · have hle := hlimited max hmax
      omega

def Scan.startingAt (h : QueryHash) : Scan where
  order l := l.filter (fun x => x.1 = h) ++ l.filter fun x => !decide (x.1 = h)
  perm l := List.filter_append_perm (fun x => decide (x.1 = h)) l

theorem iter_startingAt {h : QueryHash} {e : CacheEntry} (hl : s.entries.lookup h = some e) :
    ∃ rest, s.iter (Scan.startingAt h) = (h, e) :: rest := by
  have hfound {x : QueryHash × CacheEntry} (hx : x ∈ s.iter (Scan.startingAt h))
      (hkey : x.1 = h) : x = (h, e) := by
    have hlx : s.entries.lookup x.1 = some x.2 := mem_iter_iff.1 hx
    rw [hkey, hl] at hlx
    exact Prod.ext hkey (Option.some.inj hlx).symm
  have hin : (h, e) ∈ s.iter (Scan.startingAt h) := mem_iter_iff.2 hl
  have hiter : s.iter (Scan.startingAt h) =
      (s.entries.entries.map fun e => (e.1, e.2)).filter (fun x => x.1 = h) ++
        (s.entries.entries.map fun e => (e.1, e.2)).filter fun x => !decide (x.1 = h) := rfl
  cases hfront : (s.entries.entries.map fun e => (e.1, e.2)).filter (fun x => x.1 = h) with
  | nil =>
    rw [hiter, hfront, List.nil_append, List.mem_filter] at hin
    simp at hin
  | cons x xs =>
    have hmem : x ∈ (s.entries.entries.map fun e => (e.1, e.2)).filter fun x => x.1 = h := by
      rw [hfront]
      exact List.mem_cons_self
    have hx : x = (h, e) := by
      refine hfound ?_ (by simpa using (List.mem_filter.1 hmem).2)
      rw [hiter]
      exact List.mem_append_left _ hmem
    rw [hfront, hx, List.cons_append] at hiter
    exact ⟨_, hiter⟩

/-- The entries of an upstream with their ages, in the order of the iteration. -/
def CacheStore.ages (s : CacheStore) (scan : Scan) (now : Clock) (upstreamId : String) :
    List (QueryHash × Duration) :=
  ((s.iter scan).filter fun e => e.2.upstreamId = upstreamId).map fun e => (e.1, age now e.2)

/-- The order of the removals: the older entry first. -/
def Older (a b : QueryHash × Duration) : Prop := b.2 ≤ a.2

instance : DecidableRel Older := fun a b => inferInstanceAs (Decidable (b.2 ≤ a.2))

instance : Std.Total Older := ⟨fun a b => Nat.le_total b.2 a.2⟩

instance : IsTrans (QueryHash × Duration) Older := ⟨fun _ _ _ hab hbc => Nat.le_trans hbc hab⟩

theorem upstreamHashes_eq (s : CacheStore) (scan : Scan) (now : Clock) (upstreamId : String) :
    s.upstreamHashes scan now upstreamId =
      ((s.ages scan now upstreamId).insertionSort Older).map Prod.fst := rfl

theorem mem_ages {upstreamId : String} {x : QueryHash × Duration} :
    x ∈ s.ages scan now upstreamId ↔
      ∃ e, s.entries.lookup x.1 = some e ∧ e.upstreamId = upstreamId ∧ x.2 = age now e := by
  simp only [ages, List.mem_map, List.mem_filter, Prod.exists, decide_eq_true_eq, mem_iter_iff]
  constructor
  · rintro ⟨h, e, ⟨hl, hown⟩, rfl⟩
    exact ⟨e, hl, hown, rfl⟩
  · rintro ⟨e, hl, hown, hage⟩
    exact ⟨x.1, e, ⟨hl, hown⟩, Prod.ext rfl hage.symm⟩

theorem ahead_ages (s : CacheStore) (scan : Scan) (now : Clock) (upstreamId : String)
    (h : QueryHash) (e : CacheEntry) :
    Leaders.ahead Older (h, age now e) (s.ages scan now upstreamId) =
      s.olderThan now upstreamId e := by
  have hperm := ((scan.perm (s.entries.entries.map fun e => (e.1, e.2))).filter
    fun e => e.2.upstreamId = upstreamId).map fun e => (e.1, age now e.2)
  rw [ages, iter, Leaders.ahead_perm hperm, Leaders.ahead, olderThan, List.filter_map,
    List.map_map, List.countP_map, List.countP_filter, List.countP_eq_length_filter]
  congr 1
  refine List.filter_congr fun x _ => ?_
  simp [Older, Bool.and_comm]

/-- The oldest entries of an upstream: with the right iteration order any entry that fewer than
`n` are older than is one of the first `n`, and with every order all of these are such entries. -/
theorem exists_mem_take_upstreamHashes {upstreamId : String} {h : QueryHash} {e : CacheEntry}
    {n : Nat} (hl : s.entries.lookup h = some e) (hown : e.upstreamId = upstreamId) :
    (∃ scan, h ∈ (s.upstreamHashes scan now upstreamId).take n) ↔
      s.olderThan now upstreamId e < n := by
  constructor
  · rintro ⟨scan, hh⟩
    rw [upstreamHashes_eq, ← List.map_take, List.mem_map] at hh
    obtain ⟨x, hx, rfl⟩ := hh
    obtain ⟨e', hl', -, hage⟩ := mem_ages.1
      ((List.mem_insertionSort Older).1 (List.mem_of_mem_take hx))
    obtain rfl : e = e' := Option.some.inj (hl.symm.trans hl')
    have hlt := Leaders.ahead_lt_of_mem_take hx
    rw [← ahead_ages s scan now upstreamId x.1 e, ← hage]
    exact hlt
  · intro hlt
    obtain ⟨rest, hrest⟩ := iter_startingAt hl
    refine ⟨Scan.startingAt h, ?_⟩
    have hages : s.ages (Scan.startingAt h) now upstreamId =
        (h, age now e) :: ((rest.filter fun e => e.2.upstreamId = upstreamId).map
          fun e => (e.1, age now e.2)) := by
      rw [ages, hrest, List.filter_cons_of_pos (by simp [hown]), List.map_cons]
    rw [← ahead_ages s (Scan.startingAt h) now upstreamId h e, hages, Leaders.ahead,
      List.countP_cons_of_neg (by simp [Older])] at hlt
    rw [upstreamHashes_eq, hages, ← List.map_take]
    exact List.mem_map.2 ⟨_, Leaders.mem_take_of_ahead_lt hlt, rfl⟩

theorem mem_upstreamHashes_iff {upstreamId : String} {h : QueryHash} :
    h ∈ s.upstreamHashes scan now upstreamId ↔
      ∃ e, s.entries.lookup h = some e ∧ e.upstreamId = upstreamId := by
  rw [upstreamHashes_eq, List.mem_map]
  constructor
  · rintro ⟨x, hx, rfl⟩
    obtain ⟨e, hl, hown, -⟩ := mem_ages.1 ((List.mem_insertionSort Older).1 hx)
    exact ⟨e, hl, hown⟩
  · rintro ⟨e, hl, hown⟩
    exact ⟨(h, age now e), (List.mem_insertionSort Older).2 (mem_ages.2 ⟨e, hl, hown, rfl⟩), rfl⟩

/-! ## The four operations -/

/-- What `evict_truly_expired` removes honours a request. -/
theorem overdue_honoured_iff (hvictims : s.victims p scan now r = s.overdueHashes scan now) :
    r.Honoured p s now (s.evictRequested p scan now r).2 ↔
      (∀ h e, s.entries.lookup h = some e → s.maxFrozenDuration < age now e →
        r.admits p s now e = true) ∧
      ∀ max, r.maxEntries = some max → s.overdue now ≤ max := by
  rw [honoured_iff, hvictims, length_overdueHashes]
  refine and_congr_left fun _ => ?_
  constructor
  · intro h k e hl hage
    exact h k (mem_overdueHashes.2 ⟨e, hl, hage⟩) e hl
  · intro h k hk e hl
    obtain ⟨e', hl', hage⟩ := mem_overdueHashes.1 hk
    obtain rfl : e = e' := Option.some.inj (hl.symm.trans hl')
    exact h k e hl hage

theorem upstream_honoured_iff {upstreamId : String} (hexpired : r.expiredOnly = false)
    (hupstream : r.upstreamId = some upstreamId) :
    (∀ scan, r.Honoured p s now (s.evictRequested p scan now r).2) ↔
      ∀ h e, s.entries.lookup h = some e → e.upstreamId = upstreamId →
        (∀ max, r.maxEntries = some max → s.olderThan now upstreamId e < max) →
        r.admits p s now e = true := by
  cases hmax : r.maxEntries with
  | none =>
    have hvictims (scan : Scan) :
        s.victims p scan now r = s.upstreamHashes scan now upstreamId := by
      simp [victims, hexpired, hupstream, hmax]
    constructor
    · intro h k e hl hown _
      have hall := (honoured_iff.1 (h Scan.stored)).1
      rw [hvictims] at hall
      exact hall k (mem_upstreamHashes_iff.2 ⟨e, hl, hown⟩) e hl
    · intro h scan
      rw [honoured_iff, hvictims]
      refine ⟨fun k hk e hl => ?_, fun max hm => by rw [hmax] at hm; cases hm⟩
      obtain ⟨e', hl', hown⟩ := mem_upstreamHashes_iff.1 hk
      obtain rfl : e = e' := Option.some.inj (hl.symm.trans hl')
      exact h k e hl hown fun max hm => by cases hm
  | some max =>
    have hvictims (scan : Scan) :
        s.victims p scan now r = (s.upstreamHashes scan now upstreamId).take max := by
      simp [victims, hexpired, hupstream, hmax]
    constructor
    · intro h k e hl hown hlt
      obtain ⟨scan, hk⟩ := (exists_mem_take_upstreamHashes hl hown).2 (hlt max rfl)
      have hall := (honoured_iff.1 (h scan)).1
      rw [hvictims] at hall
      exact hall k hk e hl
    · intro h scan
      rw [honoured_iff, hvictims]
      refine ⟨fun k hk e hl => ?_, fun m hm => ?_⟩
      · obtain ⟨e', hl', hown⟩ := mem_upstreamHashes_iff.1 (List.mem_of_mem_take hk)
        obtain rfl : e = e' := Option.some.inj (hl.symm.trans hl')
        refine h k e hl hown fun m hm => ?_
        cases hm
        exact (exists_mem_take_upstreamHashes hl hown).1 ⟨scan, hk⟩
      · rw [hmax] at hm
        cases hm
        exact List.length_take_le _ _

/-- `evict_filter` looks at every criterion that it is given. -/
theorem filter_honoured (hexpired : r.expiredOnly = false) (hupstream : r.upstreamId = none)
    (hfilters : r.filters = true) : r.Honoured p s now (s.evictRequested p scan now r).2 := by
  have hvictims : s.victims p scan now r = s.matchingHashes p scan now r.criteria := by
    simp [victims, hexpired, hupstream, hfilters]
  rw [honoured_iff, hvictims]
  refine ⟨fun h hh e hl => ?_, fun max hmax => ?_⟩
  · have hmatches : EvictCriteria.matches p
        ⟨r.contextId, r.queryTextPrefix, r.olderThanSecs, none⟩ now e = true := by
      have hin : h ∈ ((s.iter scan).filter fun e => r.criteria.matches p now e.2).map Prod.fst := by
        unfold matchingHashes at hh
        dsimp only at hh
        split at hh
        · exact List.mem_of_mem_take hh
        · exact hh
      obtain ⟨x, hx, rfl⟩ := List.mem_map.1 hin
      obtain ⟨hin', hok⟩ := List.mem_filter.1 hx
      obtain rfl : x.2 = e := Option.some.inj ((mem_iter_iff.1 hin').symm.trans hl)
      exact hok
    simpa [EvictRequest.admits, hupstream, hexpired] using hmatches
  · unfold matchingHashes EvictRequest.criteria
    dsimp only
    rw [hmax]
    exact List.length_take_le _ _

end

/-- A request is honoured, in whatever order the entries are visited, exactly if it is covered. -/
theorem handleCacheEvict_honoured_iff (p : Platform) (s : CacheStore) (now : Clock)
    (r : EvictRequest) :
    (∀ scan, r.Honoured p s now (s.handleCacheEvict p scan now r).2) ↔ r.Covered p s now := by
  have hresult (scan : Scan) :
      (s.handleCacheEvict p scan now r).2 = (s.evictRequested p scan now r).2 := rfl
  simp only [hresult]
  unfold EvictRequest.Covered
  cases hexpired : r.expiredOnly with
  | true =>
    have hvictims (scan : Scan) : s.victims p scan now r = s.overdueHashes scan now := by
      simp [victims, hexpired]
    simp only [if_true, overdue_honoured_iff (hvictims _)]
    exact ⟨fun h => h Scan.stored, fun h _ => h⟩
  | false =>
    cases hupstream : r.upstreamId with
    | some upstreamId => exact upstream_honoured_iff hexpired hupstream
    | none =>
      cases hfilters : r.filters with
      | true => exact ⟨fun _ => .inl rfl, fun _ scan => filter_honoured hexpired hupstream hfilters⟩
      | false =>
        have hvictims (scan : Scan) : s.victims p scan now r = s.overdueHashes scan now := by
          simp [victims, hexpired, hupstream, hfilters]
        -- No criterion is given, so every entry meets them.
        have hadmits (e : CacheEntry) : r.admits p s now e = true := by
          simp only [EvictRequest.filters, Bool.or_eq_false_iff, Option.isSome_eq_false_iff,
            Option.isNone_iff_eq_none] at hfilters
          simp [EvictRequest.admits, EvictCriteria.matches, hupstream, hexpired, hfilters.1.1,
            hfilters.1.2, hfilters.2]
        simp only [overdue_honoured_iff (hvictims _)]
        constructor
        · intro h
          exact .inr (h Scan.stored).2
        · rintro (h | h) _
          · cases h
          · exact ⟨fun _ e _ _ => hadmits e, h⟩

def storeWithKeep : CacheStore :=
  (CacheStore.new 1 1 10).insert Platform.sample Scan.stored ⟨0, 0⟩ "keep" (textResponse "x") "u"

/-- All entries of the upstream whose text starts with "drop" are asked for, and "keep" goes. -/
def dropOfUpstream : EvictRequest where
  upstreamId := some "u"
  contextId := none
  queryTextPrefix := some "drop"
  olderThanSecs := none
  maxEntries := none
  expiredOnly := false

theorem prefix_ignored_with_upstream :
    ¬ dropOfUpstream.Honoured Platform.sample storeWithKeep ⟨0, 0⟩
      (storeWithKeep.handleCacheEvict Platform.sample Scan.stored ⟨0, 0⟩ dropOfUpstream).2 := by
  intro h
  have hgone : hashQuery Platform.sample "keep" ∉
      (storeWithKeep.handleCacheEvict Platform.sample Scan.stored ⟨0, 0⟩
        dropOfUpstream).2.entries := by
    decide +kernel
  have hother : (storeWithKeep.entries.lookup (hashQuery Platform.sample "keep")).map
      (dropOfUpstream.admits Platform.sample storeWithKeep ⟨0, 0⟩) = some false := by
    decide +kernel
  obtain ⟨e, hl, hnot⟩ := Option.map_eq_some_iff.1 hother
  have hok := h.admitted _ e hl hgone
  rw [hnot] at hok
  cases hok

theorem cacheEvict_eq_handleCacheEvict (p : Platform) (s : CacheStore) (scan : Scan)
    (now : Clock) (upstreamId : String) (maxEntries : Nat) (expiredOnly : Bool) :
    s.cacheEvict p scan now upstreamId maxEntries expiredOnly =
      s.handleCacheEvict p scan now
        { upstreamId := if upstreamId = "" then none else some upstreamId
          contextId := none
          queryTextPrefix := none
          olderThanSecs := none
          maxEntries := if maxEntries = 0 then none else some maxEntries
          expiredOnly := expiredOnly } := by
  unfold cacheEvict handleCacheEvict evictRequested
  cases expiredOnly with
  | true => rfl
  | false =>
    by_cases hname : upstreamId = ""
    · simp [hname, EvictRequest.filters]
    · by_cases hmax : maxEntries = 0
      · simp [hname, hmax]
      · simp [hname, hmax, Nat.pos_of_ne_zero hmax]

end Conproxy
