import Mathlib.Data.List.AList
import Mathlib.Data.UInt
import Conproxy.Types
import Conproxy.Lib.Machine

/-!
# Query statistics

Requests record their query, and whether it was a hit, in a shared map. A record call looks the
query up and counts in the entry it finds; it holds the entry's lock while it does, so both are one
step here. When there is no entry it checks the number of entries, evicts the oldest one if there
are too many, and inserts a new entry. Other calls may run between any two of these steps.
-/

namespace Conproxy

set_option autoImplicit false

structure QueryStats where
  count : UInt64
  hits : UInt64
  misses : UInt64
  totalLatencyUs : UInt64
  maxLatencyUs : UInt64
  minLatencyUs : UInt64
  firstSeen : UInt64
  lastSeen : UInt64
deriving DecidableEq

/-- What one call of `record` is about. The time is read before the map is. -/
structure RecordCall where
  query : String
  isHit : Bool
  latency : Duration
  timestamp : UInt64
deriving DecidableEq

/-- `as_micros() as u64` -/
def RecordCall.latencyUs (r : RecordCall) : UInt64 := .ofNat (r.latency / 1000)

namespace QueryStats

def new (timestamp : UInt64) : QueryStats := ⟨1, 0, 1, 0, 0, 2 ^ 64 - 1, timestamp, timestamp⟩

def record (stats : QueryStats) (r : RecordCall) : QueryStats where
  count := stats.count + 1
  hits := if r.isHit then stats.hits + 1 else stats.hits
  misses := if r.isHit then stats.misses else stats.misses + 1
  totalLatencyUs := stats.totalLatencyUs + r.latencyUs
  maxLatencyUs := if r.latencyUs ≤ stats.maxLatencyUs then stats.maxLatencyUs else r.latencyUs
  minLatencyUs := if stats.minLatencyUs ≤ r.latencyUs then stats.minLatencyUs else r.latencyUs
  firstSeen := stats.firstSeen
  lastSeen := r.timestamp

/-- The entry that a first call inserts. -/
def first (r : RecordCall) : QueryStats :=
  { new r.timestamp with
    hits := if r.isHit then 1 else (new r.timestamp).hits
    misses := if r.isHit then 0 else 1
    totalLatencyUs := r.latencyUs
    maxLatencyUs := r.latencyUs
    minLatencyUs := r.latencyUs }

/-- `checked_div`, with zero for no requests. -/
def avgLatencyUs (stats : QueryStats) : UInt64 :=
  if stats.count = 0 then 0 else stats.totalLatencyUs / stats.count

end QueryStats

/-- How far a call has come that did not find its query. -/
inductive RecordPhase
  | missed
  | full
  | ready
deriving DecidableEq

/-- What happened to the entries, for the statement of the results. -/
inductive StatsEvent
  | completed (r : RecordCall)
  | evicted (key : String)
deriving DecidableEq

/-- The tracker with the calls in progress. The last event of the history comes first. -/
structure QueryStatsTracker where
  stats : AList fun _ : String => QueryStats
  maxQueries : Nat
  storeQueryText : Bool
  inProgress : AList fun _ : Nat => RecordPhase × RecordCall
  history : List StatsEvent

inductive StatsAction
  | get (task : Nat) (r : RecordCall)
  | checkLen (task : Nat)
  | evict (task : Nat) (victim : Option String)
  | insert (task : Nat)

namespace QueryStatsTracker

def fresh (maxQueries : Nat) (storeQueryText : Bool) : QueryStatsTracker :=
  ⟨∅, maxQueries, storeQueryText, ∅, []⟩

def new (maxQueries : Nat) : QueryStatsTracker := fresh maxQueries true

def len (t : QueryStatsTracker) : Nat := t.stats.keys.length

section Tracker

-- the `DefaultHasher` of the standard library
variable (hasher : String → UInt64)

def queryKey (t : QueryStatsTracker) (query : String) : String :=
  if t.storeQueryText then query
  else "hash:" ++ String.ofList (Nat.toDigits 16 (hasher query).toNat)

/-- The entry that `evict_oldest` removes: one seen before all others that were seen before
`u64::MAX`. The order of the iteration decides between entries seen at the same time. -/
def isOldest (t : QueryStatsTracker) : Option String → Bool
  | none => t.stats.entries.all fun x => x.2.lastSeen = 2 ^ 64 - 1
  | some key =>
    match t.stats.lookup key with
    | none => false
    | some oldest =>
      oldest.lastSeen < 2 ^ 64 - 1 && t.stats.entries.all fun x => oldest.lastSeen ≤ x.2.lastSeen

/-- An action that is not due changes nothing. -/
def step (t : QueryStatsTracker) : StatsAction → QueryStatsTracker
  | .get task r =>
    if task ∈ t.inProgress then t
    else match t.stats.lookup (t.queryKey hasher r.query) with
      | some stats =>
        { t with
          stats := t.stats.insert (t.queryKey hasher r.query) (stats.record r)
          history := .completed r :: t.history }
      | none => { t with inProgress := t.inProgress.insert task (.missed, r) }
  | .checkLen task =>
    match t.inProgress.lookup task with
    | some (.missed, r) =>
      let phase := if t.maxQueries ≤ t.len then .full else .ready
      { t with inProgress := t.inProgress.insert task (phase, r) }
    | _ => t
  | .evict task victim =>
    match t.inProgress.lookup task with
    | some (.full, r) =>
      if t.isOldest victim then
        match victim with
        | some key =>
          { t with
            stats := t.stats.erase key
            inProgress := t.inProgress.insert task (.ready, r)
            history := .evicted key :: t.history }
        | none => { t with inProgress := t.inProgress.insert task (.ready, r) }
      else t
    | _ => t
  | .insert task =>
    match t.inProgress.lookup task with
    | some (.ready, r) =>
      { t with
        stats := t.stats.insert (t.queryKey hasher r.query) (.first r)
        inProgress := t.inProgress.erase task
        history := .completed r :: t.history }
    | _ => t

def callsSince (keyOf : String → String) (key : String) : List StatsEvent → List RecordCall
  | [] => []
  | .completed r :: rest =>
    if keyOf r.query = key then r :: callsSince keyOf key rest else callsSince keyOf key rest
  | .evicted victim :: rest => if victim = key then [] else callsSince keyOf key rest

def callsOf (t : QueryStatsTracker) (key : String) : List RecordCall :=
  callsSince (t.queryKey hasher) key t.history

/-- The completed calls for a query since it was evicted. -/
def callsFor (t : QueryStatsTracker) (query : String) : List RecordCall :=
  (t.callsOf hasher (t.queryKey hasher query)).filter fun r => r.query = query

/-- What the statistics promise: the entry of a query that was recorded counts its calls, and no
more entries are left than allowed. -/
structure Counts (t : QueryStatsTracker) : Prop where
  query : ∀ query, t.callsFor hasher query ≠ [] →
    ∃ stats, t.stats.lookup (t.queryKey hasher query) = some stats ∧
      stats.count.toNat = (t.callsFor hasher query).length ∧
      stats.hits.toNat + stats.misses.toNat = stats.count.toNat ∧
      stats.minLatencyUs ≤ stats.avgLatencyUs ∧ stats.avgLatencyUs ≤ stats.maxLatencyUs
  len_le : t.inProgress.keys = [] → t.len ≤ max t.maxQueries 1

/-- A step that loses nothing: a call counts in an entry of its own query, without overflow, and a
call inserts only where there is no entry and room for one. -/
def Sound (t : QueryStatsTracker) : StatsAction → Prop
  | .get task r => task ∉ t.inProgress →
    ∀ stats ∈ t.stats.lookup (t.queryKey hasher r.query),
      (∀ r' ∈ t.callsOf hasher (t.queryKey hasher r.query), r'.query = r.query) ∧
        stats.count.toNat + 1 < 2 ^ 64 ∧
        stats.totalLatencyUs.toNat + r.latencyUs.toNat < 2 ^ 64
  | .insert task => ∀ r, t.inProgress.lookup task = some (.ready, r) →
      t.queryKey hasher r.query ∉ t.stats ∧ t.len < max t.maxQueries 1
  | _ => True

end Tracker

end QueryStatsTracker

/-- An entry counts the calls of a list, which are for one query. -/
structure QueryStats.CountsCalls (stats : QueryStats) (calls : List RecordCall) : Prop where
  ne_nil : calls ≠ []
  one_query : ∀ r ∈ calls, ∀ r' ∈ calls, r.query = r'.query
  count : stats.count.toNat = calls.length
  tally : stats.hits.toNat + stats.misses.toNat = stats.count.toNat
  low : stats.count.toNat * stats.minLatencyUs.toNat ≤ stats.totalLatencyUs.toNat
  high : stats.totalLatencyUs.toNat ≤ stats.count.toNat * stats.maxLatencyUs.toNat

namespace QueryStats

theorem first_counts (r : RecordCall) : (first r).CountsCalls [r] where
  ne_nil := List.cons_ne_nil r []
  one_query := by
    intro x hx y hy
    rw [List.mem_singleton.mp hx, List.mem_singleton.mp hy]
  count := rfl
  tally := by
    unfold first new
    cases r.isHit <;> rfl
  low := Nat.le_of_eq (Nat.one_mul _)
  high := Nat.le_of_eq (Nat.one_mul _).symm

section Record

variable {stats : QueryStats} {calls : List RecordCall} {r : RecordCall}

theorem toNat_succ {n : UInt64} (h : n.toNat + 1 < 2 ^ 64) : (n + 1).toNat = n.toNat + 1 := by
  rw [UInt64.toNat_add]
  exact Nat.mod_eq_of_lt h

theorem record_count (h : stats.count.toNat + 1 < 2 ^ 64) :
    (stats.record r).count.toNat = stats.count.toNat + 1 :=
  toNat_succ h

theorem record_total (h : stats.totalLatencyUs.toNat + r.latencyUs.toNat < 2 ^ 64) :
    (stats.record r).totalLatencyUs.toNat = stats.totalLatencyUs.toNat + r.latencyUs.toNat := by
  unfold record
  rw [UInt64.toNat_add]
  exact Nat.mod_eq_of_lt h

theorem record_min (stats : QueryStats) (r : RecordCall) :
    (stats.record r).minLatencyUs.toNat ≤ stats.minLatencyUs.toNat ∧
      (stats.record r).minLatencyUs.toNat ≤ r.latencyUs.toNat := by
  unfold record
  dsimp only
  split
  · rename_i hle
    exact ⟨Nat.le_refl _, UInt64.le_iff_toNat_le.mp hle⟩
  · rename_i hlt
    have h := mt UInt64.le_iff_toNat_le.mpr hlt
    omega

theorem le_record_max (stats : QueryStats) (r : RecordCall) :
    stats.maxLatencyUs.toNat ≤ (stats.record r).maxLatencyUs.toNat ∧
      r.latencyUs.toNat ≤ (stats.record r).maxLatencyUs.toNat := by
  unfold record
  dsimp only
  split
  · rename_i hle
    exact ⟨Nat.le_refl _, UInt64.le_iff_toNat_le.mp hle⟩
  · rename_i hlt
    have h := mt UInt64.le_iff_toNat_le.mpr hlt
    omega

theorem record_tally (htally : stats.hits.toNat + stats.misses.toNat = stats.count.toNat)
    (h : stats.count.toNat + 1 < 2 ^ 64) :
    (stats.record r).hits.toNat + (stats.record r).misses.toNat = stats.count.toNat + 1 := by
  unfold record
  cases r.isHit with
  | true =>
    change (stats.hits + 1).toNat + stats.misses.toNat = _
    rw [toNat_succ (by omega)]
    omega
  | false =>
    change stats.hits.toNat + (stats.misses + 1).toNat = _
    rw [toNat_succ (by omega)]
    omega

/-- Counting one more call for the query of an entry. -/
theorem CountsCalls.record (hcounts : stats.CountsCalls calls)
    (hquery : ∀ r' ∈ calls, r'.query = r.query) (hcount : stats.count.toNat + 1 < 2 ^ 64)
    (htotal : stats.totalLatencyUs.toNat + r.latencyUs.toNat < 2 ^ 64) :
    (stats.record r).CountsCalls (r :: calls) where
  ne_nil := List.cons_ne_nil r calls
  one_query := by
    have hsame : ∀ x ∈ r :: calls, x.query = r.query := by
      intro x hx
      rcases List.mem_cons.mp hx with rfl | hx
      · rfl
      · exact hquery x hx
    intro x hx y hy
    rw [hsame x hx, hsame y hy]
  count := by rw [record_count hcount, hcounts.count, List.length_cons]
  tally := by rw [record_count hcount, record_tally hcounts.tally hcount]
  low := by
    obtain ⟨hmin, hlatency⟩ := record_min stats r
    rw [record_count hcount, record_total htotal, Nat.add_mul, Nat.one_mul]
    exact Nat.add_le_add ((Nat.mul_le_mul_left _ hmin).trans hcounts.low) hlatency
  high := by
    obtain ⟨hmax, hlatency⟩ := le_record_max stats r
    rw [record_count hcount, record_total htotal, Nat.add_mul, Nat.one_mul]
    exact Nat.add_le_add (hcounts.high.trans (Nat.mul_le_mul_left _ hmax)) hlatency

theorem CountsCalls.average (hcounts : stats.CountsCalls calls) :
    stats.minLatencyUs ≤ stats.avgLatencyUs ∧ stats.avgLatencyUs ≤ stats.maxLatencyUs := by
  have hpos : 0 < stats.count.toNat := by
    rw [hcounts.count]
    exact List.length_pos_of_ne_nil hcounts.ne_nil
  have hne : ¬stats.count = 0 := by
    rintro hzero
    rw [hzero] at hpos
    exact absurd hpos (Nat.lt_irrefl 0)
  unfold avgLatencyUs
  rw [if_neg hne, UInt64.le_iff_toNat_le, UInt64.le_iff_toNat_le, UInt64.toNat_div]
  constructor
  · rw [Nat.le_div_iff_mul_le hpos, Nat.mul_comm]
    exact hcounts.low
  · exact Nat.div_le_of_le_mul hcounts.high

end Record

end QueryStats

namespace QueryStatsTracker

section Entries

variable {keyOf : String → String} {entries : AList fun _ : String => QueryStats}
  {history : List StatsEvent} {key : String} {r : RecordCall}

theorem callsSince_completed (h : keyOf r.query = key) :
    callsSince keyOf key (.completed r :: history) = r :: callsSince keyOf key history :=
  if_pos h

theorem callsSince_completed_of_ne (h : keyOf r.query ≠ key) :
    callsSince keyOf key (.completed r :: history) = callsSince keyOf key history :=
  if_neg h

theorem callsSince_evicted : callsSince keyOf key (.evicted key :: history) = [] := if_pos rfl

theorem callsSince_evicted_of_ne {victim : String} (h : victim ≠ key) :
    callsSince keyOf key (.evicted victim :: history) = callsSince keyOf key history :=
  if_neg h

variable (keyOf entries history)

/-- Every entry counts the calls with its key, which are for one query, and a call that has
completed has an entry. -/
structure EntriesCount : Prop where
  absent : ∀ key, entries.lookup key = none → callsSince keyOf key history = []
  counted : ∀ key stats, entries.lookup key = some stats →
    stats.CountsCalls (callsSince keyOf key history)

variable {keyOf entries history}

theorem EntriesCount.completed (h : EntriesCount keyOf entries history) {stats : QueryStats}
    (hstats : stats.CountsCalls (r :: callsSince keyOf (keyOf r.query) history)) :
    EntriesCount keyOf (entries.insert (keyOf r.query) stats) (.completed r :: history) where
  absent key hkey := by
    have hne : key ≠ keyOf r.query := by
      rintro rfl
      rw [AList.lookup_insert] at hkey
      cases hkey
    rw [AList.lookup_insert_ne hne] at hkey
    rw [callsSince_completed_of_ne hne.symm]
    exact h.absent key hkey
  counted key stats' hkey := by
    by_cases hk : key = keyOf r.query
    · subst hk
      rw [AList.lookup_insert] at hkey
      rw [callsSince_completed rfl, ← Option.some.inj hkey]
      exact hstats
    · rw [AList.lookup_insert_ne hk] at hkey
      rw [callsSince_completed_of_ne (Ne.symm hk)]
      exact h.counted key stats' hkey

theorem EntriesCount.evicted (h : EntriesCount keyOf entries history) (victim : String) :
    EntriesCount keyOf (entries.erase victim) (.evicted victim :: history) where
  absent key hkey := by
    by_cases hk : key = victim
    · subst hk
      exact callsSince_evicted
    · rw [AList.lookup_erase_ne hk] at hkey
      rw [callsSince_evicted_of_ne (Ne.symm hk)]
      exact h.absent key hkey
  counted key stats hkey := by
    have hk : key ≠ victim := by
      rintro rfl
      rw [AList.lookup_erase] at hkey
      cases hkey
    rw [AList.lookup_erase_ne hk] at hkey
    rw [callsSince_evicted_of_ne hk.symm]
    exact h.counted key stats hkey

theorem length_keys_insert (stats : QueryStats) (h : key ∈ entries) :
    (entries.insert key stats).keys.length = entries.keys.length := by
  have hmem := AList.mem_keys.mp h
  rw [AList.keys_insert, List.length_cons, List.length_erase_of_mem hmem]
  exact Nat.sub_add_cancel (List.length_pos_of_mem hmem)

theorem length_keys_insert_of_notMem (stats : QueryStats) (h : key ∉ entries) :
    (entries.insert key stats).keys.length = entries.keys.length + 1 := by
  rw [AList.keys_insert, List.length_cons, List.erase_of_not_mem (mt AList.mem_keys.mpr h)]

theorem length_keys_erase_le : (entries.erase key).keys.length ≤ entries.keys.length := by
  rw [AList.keys_erase]
  exact List.length_erase_le

end Entries

variable (hasher : String → UInt64)

/-- What sound steps keep. -/
structure Consistent (t : QueryStatsTracker) : Prop where
  entries : EntriesCount (t.queryKey hasher) t.stats t.history
  len_le : t.len ≤ max t.maxQueries 1

variable {hasher} {t : QueryStatsTracker}

theorem Consistent.get (h : t.Consistent hasher) {task : Nat} {r : RecordCall}
    (hsound : t.Sound hasher (.get task r)) : (t.step hasher (.get task r)).Consistent hasher := by
  unfold step
  dsimp only
  split
  · exact h
  · rename_i hidle
    split
    · rename_i stats hstats
      obtain ⟨hquery, hcount, htotal⟩ := hsound hidle stats hstats
      have hmem : t.queryKey hasher r.query ∈ t.stats :=
        AList.lookup_isSome.mp (Option.isSome_iff_exists.mpr ⟨stats, hstats⟩)
      have hcounts := (h.entries.counted _ stats hstats).record hquery hcount htotal
      exact ⟨h.entries.completed hcounts, (length_keys_insert _ hmem).trans_le h.len_le⟩
    · exact ⟨h.entries, h.len_le⟩

theorem Consistent.checkLen (h : t.Consistent hasher) (task : Nat) :
    (t.step hasher (.checkLen task)).Consistent hasher := by
  unfold step
  dsimp only
  split
  · exact ⟨h.entries, h.len_le⟩
  · exact h

theorem Consistent.evict (h : t.Consistent hasher) (task : Nat) (victim : Option String) :
    (t.step hasher (.evict task victim)).Consistent hasher := by
  unfold step
  dsimp only
  split
  · split
    · split
      · exact ⟨h.entries.evicted _, length_keys_erase_le.trans h.len_le⟩
      · exact ⟨h.entries, h.len_le⟩
    · exact h
  · exact h

theorem Consistent.insert (h : t.Consistent hasher) {task : Nat}
    (hsound : t.Sound hasher (.insert task)) :
    (t.step hasher (.insert task)).Consistent hasher := by
  unfold step
  dsimp only
  split
  · rename_i r hready
    obtain ⟨hnew, hroom⟩ := hsound r hready
    have hnone := h.entries.absent _ (AList.lookup_eq_none.mpr hnew)
    have hcounts := QueryStats.first_counts r
    rw [← hnone] at hcounts
    exact ⟨h.entries.completed hcounts, (length_keys_insert_of_notMem _ hnew).trans_le hroom⟩
  · exact h

theorem Consistent.step (h : t.Consistent hasher) {a : StatsAction} (hsound : t.Sound hasher a) :
    (t.step hasher a).Consistent hasher := by
  cases a with
  | get task r => exact h.get hsound
  | checkLen task => exact h.checkLen task
  | evict task victim => exact h.evict task victim
  | insert task => exact h.insert hsound

theorem Consistent.counts (h : t.Consistent hasher) : t.Counts hasher where
  query query hcalls := by
    obtain ⟨r, hr⟩ := List.exists_mem_of_ne_nil _ hcalls
    obtain ⟨hmem, hquery⟩ := List.mem_filter.mp hr
    cases hstats : t.stats.lookup (t.queryKey hasher query) with
    | none =>
      have hnone := h.entries.absent _ hstats
      unfold callsOf at hmem
      rw [hnone] at hmem
      cases hmem
    | some stats =>
      have hcounts := h.entries.counted _ stats hstats
      have hall : t.callsFor hasher query = t.callsOf hasher (t.queryKey hasher query) := by
        apply List.filter_eq_self.mpr
        intro r' hr'
        rw [hcounts.one_query r' hr' r hmem]
        exact hquery
      rw [hall]
      exact ⟨stats, rfl, hcounts.count, hcounts.tally, hcounts.average⟩
  len_le _ := h.len_le

theorem consistent_fresh (maxQueries : Nat) (storeQueryText : Bool) :
    Consistent hasher (fresh maxQueries storeQueryText) where
  entries := ⟨fun _ _ => rfl, fun _ _ h => nomatch h⟩
  len_le := Nat.zero_le _

/-- In every run whose steps are sound, nothing is lost in any state that is reached. -/
theorem sound_run_counts (maxQueries : Nat) (storeQueryText : Bool) (actions : List StatsAction)
    (h : Machine.AllSteps (step hasher) (Sound hasher) (fresh maxQueries storeQueryText) actions) :
    Counts hasher (Machine.run (step hasher) (fresh maxQueries storeQueryText) actions) := by
  have hkeep (s : QueryStatsTracker) (a : StatsAction) (hsound : s.Sound hasher a)
      (hs : s.Consistent hasher) : (s.step hasher a).Consistent hasher := hs.step hsound
  have hrun := Machine.run_invariant hkeep (consistent_fresh maxQueries storeQueryText) h
  exact hrun.counts

/-- A miss of 500 microseconds. -/
def missOf (query : String) : RecordCall := ⟨query, false, 500000, 1700000000⟩

/-- The second call for a query counts in the entry of the first. -/
theorem one_after_another_counts :
    Counts (fun _ => 0) (Machine.run (step fun _ => 0) (new 1)
      [.get 0 (missOf "a"), .checkLen 0, .insert 0, .get 1 (missOf "a")]) := by
  apply sound_run_counts
  refine ⟨?_, trivial, ?_, ?_, trivial⟩
  · intro _ stats hstats
    cases hstats
  · intro r hr
    obtain rfl : missOf "a" = r := by
      have hready : AList.lookup 0 (Machine.run (step fun _ => 0) (fresh 1 true)
          [.get 0 (missOf "a"), .checkLen 0]).inProgress = some (.ready, missOf "a") := by decide
      exact (Prod.mk.inj (Option.some.inj (hready.symm.trans hr))).2
    decide
  · intro _ stats hstats
    have hfirst : AList.lookup "a" (Machine.run (step fun _ => 0) (fresh 1 true)
        [.get 0 (missOf "a"), .checkLen 0, .insert 0]).stats = some (.first (missOf "a")) := by
      decide
    obtain rfl : QueryStats.first (missOf "a") = stats :=
      Option.some.inj (hfirst.symm.trans hstats)
    decide

/-- Two first calls for one query overlap, and one of them is lost; two first calls for two queries
overlap, and more entries stay than allowed. -/
theorem overlapping_first_calls :
    ¬Counts (fun _ => 0) (Machine.run (step fun _ => 0) (new 10)
      [.get 0 (missOf "a"), .get 1 (missOf "a"), .checkLen 0, .checkLen 1, .insert 0, .insert 1]) ∧
    ¬Counts (fun _ => 0) (Machine.run (step fun _ => 0) (new 1)
      [.get 0 (missOf "a"), .get 1 (missOf "b"), .checkLen 0, .checkLen 1, .insert 0,
        .insert 1]) := by
  constructor
  · intro h
    obtain ⟨stats, hstats, hcount, -⟩ := h.query "a" (by decide)
    have hlast : AList.lookup "a" (Machine.run (step fun _ => 0) (new 10)
        [.get 0 (missOf "a"), .get 1 (missOf "a"), .checkLen 0, .checkLen 1, .insert 0,
          .insert 1]).stats = some (.first (missOf "a")) := by decide
    obtain rfl : QueryStats.first (missOf "a") = stats :=
      Option.some.inj (hlast.symm.trans hstats)
    exact absurd hcount (by decide)
  · intro h
    exact absurd (h.len_le (by decide)) (by decide)

end QueryStatsTracker

end Conproxy
