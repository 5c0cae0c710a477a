import Conproxy.Cache.Operations
import Conproxy.Sample
import Conproxy.Tuning.Selection

/-!
# The dry run of the freshness rule

`cache_tune` of `tune/cache.rs` counts which ages would have been served under other times to live.
An age that equals the end of an interval belongs to it here; for `CacheStore` it does not.
-/

namespace Conproxy

set_option autoImplicit false

/-- `none` is an access that found nothing. -/
structure CacheAccessEvent where
  key : String
  ageSecs : Option Nat
deriving DecidableEq

structure CacheTuneParams where
  sessionId : String
  agentId : Option String
  contextId : Option String
  events : List CacheAccessEvent
  freshTtlSecs : Option (List Nat)
  staleTtlSecs : Option (List Nat)
  budget : TuneBudget

structure CacheTuneCandidate where
  freshTtlSecs : Nat
  staleTtlSecs : Nat
  hits : Nat
  staleHits : Nat
  misses : Nat
  hitRate : String
  estimatedUpstreamCalls : Nat
deriving DecidableEq

structure CacheTuneReport where
  sessionId : String
  runId : String
  candidates : List CacheTuneCandidate
  warnings : List String
deriving DecidableEq

/-- The arm of the match that an access falls into. -/
inductive AccessClass where
  | hit
  | staleHit
  | miss
deriving DecidableEq

def accessClass (freshTtl staleTtl : Nat) : Option Nat → AccessClass
  | none => .miss
  | some age =>
    if age ≤ freshTtl then .hit
    else if 0 < staleTtl ∧ age ≤ min (freshTtl + staleTtl) (2 ^ 64 - 1) then .staleHit
    else .miss

structure AccessCounts where
  hits : Nat
  staleHits : Nat
  misses : Nat
deriving DecidableEq

def AccessCounts.add (n : AccessCounts) : AccessClass → AccessCounts
  | .hit => { n with hits := n.hits + 1 }
  | .staleHit => { n with staleHits := n.staleHits + 1 }
  | .miss => { n with misses := n.misses + 1 }

def countAccesses (freshTtl staleTtl : Nat) (events : List CacheAccessEvent) : AccessCounts :=
  events.foldl (fun n ev => n.add (accessClass freshTtl staleTtl ev.ageSecs)) ⟨0, 0, 0⟩

namespace CacheTuneParams

/-- The accesses that the budget allows for. -/
def considered (params : CacheTuneParams) : List CacheAccessEvent :=
  params.events.take (max (min (params.budget.maxResults * 4) (2 ^ 64 - 1)) 64)

def fresh (params : CacheTuneParams) : List Nat := params.freshTtlSecs.getD [60, 300, 900]

def stale (params : CacheTuneParams) : List Nat := params.staleTtlSecs.getD [0, 60, 300]

def grid (params : CacheTuneParams) : List (Nat × Nat) :=
  params.fresh.flatMap fun f => params.stale.map fun s => (f, s)

def total (params : CacheTuneParams) : Nat := max params.considered.length 1

def candidate (t : TuneText) (params : CacheTuneParams) (ttl : Nat × Nat) : CacheTuneCandidate :=
  let counts := countAccesses ttl.1 ttl.2 params.considered
  { freshTtlSecs := ttl.1
    staleTtlSecs := ttl.2
    hits := counts.hits
    staleHits := counts.staleHits
    misses := counts.misses
    hitRate := t.quotient (counts.hits + counts.staleHits) params.total
    estimatedUpstreamCalls := counts.misses }

def warnings (params : CacheTuneParams) : List String :=
  if params.considered.length < params.events.length then
    ["truncated events " ++ toString params.events.length ++ " → " ++
      toString params.considered.length]
  else []

def json (params : CacheTuneParams) : Json :=
  .object
    [("event_count", .nat params.considered.length),
      ("fresh_ttl_secs", .array (params.fresh.map Json.nat)),
      ("stale_ttl_secs", .array (params.stale.map Json.nat))]

def candidates (t : TuneText) (params : CacheTuneParams) : List CacheTuneCandidate :=
  params.grid.map (params.candidate t)

def run (t : TuneText) (nanos : Nat) (params : CacheTuneParams) : TuneRunRecord where
  runId := newRunId nanos
  tool := "cache_tune"
  params := params.json
  metrics :=
    let best := ((params.candidates t).map fun c => c.hits + c.staleHits).foldl max 0
    .object
      [("best_hit_rate", .number (t.quotient best params.total)),
        ("candidates", .nat (params.candidates t).length)]
  selected := false

def work (t : TuneText) (nanos : Nat) (params : CacheTuneParams) :
    Except String (TuneRunRecord × CacheTuneReport) :=
  if params.events.isEmpty then .error "events must not be empty"
  else if params.budget.maxSweepPoints < params.grid.length then
    .error ("TTL grid has " ++ toString params.grid.length ++ " points; max is " ++
      toString params.budget.maxSweepPoints)
  else
    .ok (params.run t nanos,
      ⟨params.sessionId, newRunId nanos, params.candidates t, params.warnings⟩)

end CacheTuneParams

def cacheTune (t : TuneText) (store : TuneSessionStore) (clock : ToolClock)
    (params : CacheTuneParams) : TuneSessionStore × Except String CacheTuneReport :=
  runTool t store clock params.sessionId params.agentId params.contextId
    (params.work t clock.nanos)

/-- How many accesses fall into a class. -/
def countClass (freshTtl staleTtl : Nat) (cls : AccessClass) (events : List CacheAccessEvent) :
    Nat :=
  events.countP fun ev => accessClass freshTtl staleTtl ev.ageSecs = cls

theorem foldl_add (freshTtl staleTtl : Nat) (events : List CacheAccessEvent) (n : AccessCounts) :
    events.foldl (fun n ev => n.add (accessClass freshTtl staleTtl ev.ageSecs)) n =
      ⟨n.hits + countClass freshTtl staleTtl .hit events,
        n.staleHits + countClass freshTtl staleTtl .staleHit events,
        n.misses + countClass freshTtl staleTtl .miss events⟩ := by
  unfold countClass
  induction events generalizing n with
  | nil => rfl
  | cons ev rest ih =>
    rw [List.foldl_cons, ih, List.countP_cons, List.countP_cons, List.countP_cons]
    cases accessClass freshTtl staleTtl ev.ageSecs <;>
      simp [AccessCounts.add, Nat.add_assoc, Nat.add_comm]

theorem countAccesses_eq (freshTtl staleTtl : Nat) (events : List CacheAccessEvent) :
    countAccesses freshTtl staleTtl events =
      ⟨countClass freshTtl staleTtl .hit events, countClass freshTtl staleTtl .staleHit events,
        countClass freshTtl staleTtl .miss events⟩ := by
  unfold countAccesses
  rw [foldl_add]
  simp only [Nat.zero_add]

theorem countClass_add (freshTtl staleTtl : Nat) (events : List CacheAccessEvent) :
    countClass freshTtl staleTtl .hit events + countClass freshTtl staleTtl .staleHit events +
      countClass freshTtl staleTtl .miss events = events.length := by
  unfold countClass
  induction events with
  | nil => rfl
  | cons ev rest ih =>
    rw [List.countP_cons, List.countP_cons, List.countP_cons, List.length_cons, ← ih]
    cases accessClass freshTtl staleTtl ev.ageSecs <;> simp <;> omega

theorem candidates_cacheTune {t : TuneText} {store : TuneSessionStore} {clock : ToolClock}
    {params : CacheTuneParams} {report : CacheTuneReport}
    (h : (cacheTune t store clock params).2 = .ok report) :
    report.candidates = params.candidates t := by
  obtain ⟨run, hwork⟩ := work_of_runTool h
  unfold CacheTuneParams.work at hwork
  split at hwork
  · cases hwork
  · split at hwork
    · cases hwork
    · cases hwork
      rfl

/-- An access is counted as the store classifies the entry, if it finds one that is fresh or
stale. -/
def CountedAs (cls : AccessClass) (freshness : Option Freshness) : Prop :=
  (cls = .hit ↔ freshness = some .fresh) ∧ (cls = .staleHit ↔ freshness = some .stale)

instance (cls : AccessClass) (freshness : Option Freshness) : Decidable (CountedAs cls freshness) :=
  inferInstanceAs (Decidable (_ ∧ _))

/-- A store without jitter with these times to live. -/
structure HasTtl (s : CacheStore) (freshTtl staleTtl : Nat) : Prop where
  jitter : s.ttlJitterPercent ≤ 0
  fresh : s.freshDuration = freshTtl * 1000000000
  stale : s.staleDuration = staleTtl * 1000000000

theorem checkFreshness_of_hasTtl {p : Platform} {s : CacheStore} {freshTtl staleTtl : Nat}
    (hs : HasTtl s freshTtl staleTtl) {now : Clock} {h : QueryHash} {e : CacheEntry}
    (he : s.entries.lookup h = some e) {secs : Nat}
    (hage : CacheStore.age now e = secs * 1000000000) :
    s.checkFreshnessByHash p now h = some
      (if secs < freshTtl then .fresh else if secs < freshTtl + staleTtl then .stale
        else if secs * 1000000000 < s.maxFrozenDuration then .frozen else .expired) := by
  have hjittered : s.jitteredTtl p s.freshDuration h = freshTtl * 1000000000 := by
    unfold CacheStore.jitteredTtl
    rw [if_pos hs.jitter, hs.fresh]
  have hsecs (n : Nat) : secs * 1000000000 < n * 1000000000 ↔ secs < n :=
    Nat.mul_lt_mul_right (Nat.succ_pos _)
  unfold CacheStore.checkFreshnessByHash CacheStore.freshnessOf
  simp only [he, Option.map_some, hjittered, hs.stale, hage, ← Nat.add_mul, hsecs]

/-- The two rules agree on an age exactly if it is not the end of an interval. -/
theorem countedAs_iff {p : Platform} {s : CacheStore} {freshTtl staleTtl : Nat}
    (hs : HasTtl s freshTtl staleTtl) (hsum : freshTtl + staleTtl < 2 ^ 64) {now : Clock}
    {h : QueryHash} {e : CacheEntry} (he : s.entries.lookup h = some e) {secs : Nat}
    (hage : CacheStore.age now e = secs * 1000000000) :
    CountedAs (accessClass freshTtl staleTtl (some secs)) (s.checkFreshnessByHash p now h) ↔
      secs ≠ freshTtl ∧ (staleTtl = 0 ∨ secs ≠ freshTtl + staleTtl) := by
  rw [checkFreshness_of_hasTtl hs he hage]
  have hmin : min (freshTtl + staleTtl) (2 ^ 64 - 1) = freshTtl + staleTtl := by omega
  simp only [accessClass, hmin]
  rcases Nat.lt_trichotomy secs freshTtl with hlt | heq | hgt
  · have hne : secs ≠ freshTtl ∧ (staleTtl = 0 ∨ secs ≠ freshTtl + staleTtl) := by omega
    rw [if_pos hlt.le, if_pos hlt]
    exact ⟨fun _ => hne, fun _ => by decide⟩
  · subst heq
    rw [if_pos (Nat.le_refl _), if_neg (Nat.lt_irrefl _)]
    constructor
    · intro hcounted
      have hfresh := hcounted.1.1 rfl
      split at hfresh
      · cases hfresh
      · split at hfresh <;> cases hfresh
    · intro hne
      exact absurd rfl hne.1
  · rw [if_neg (Nat.not_le.2 hgt), if_neg (Nat.lt_asymm hgt)]
    have hmiss (r : Freshness) (hr : r ≠ .fresh ∧ r ≠ .stale) : CountedAs .miss (some r) := by
      cases r <;> simp_all [CountedAs]
    rcases Nat.lt_trichotomy secs (freshTtl + staleTtl) with hlt | heq | hover
    · have hne : secs ≠ freshTtl ∧ (staleTtl = 0 ∨ secs ≠ freshTtl + staleTtl) := by omega
      rw [if_pos ⟨by omega, hlt.le⟩, if_pos hlt]
      exact ⟨fun _ => hne, fun _ => by decide⟩
    · rw [if_pos ⟨by omega, heq.le⟩, if_neg (by omega)]
      constructor
      · intro hcounted
        have hstale := hcounted.2.1 rfl
        split at hstale <;> cases hstale
      · intro hne
        omega
    · have hne : secs ≠ freshTtl ∧ (staleTtl = 0 ∨ secs ≠ freshTtl + staleTtl) := by omega
      rw [if_neg (by omega), if_neg (by omega)]
      refine ⟨fun _ => hne, fun _ => hmiss _ ?_⟩
      split <;> simp

def sampleCacheTune : CacheTuneParams where
  sessionId := "s"
  agentId := none
  contextId := none
  events := [⟨"a", some 30⟩, ⟨"b", some 60⟩, ⟨"c", some 90⟩, ⟨"d", none⟩]
  freshTtlSecs := some [60]
  staleTtlSecs := some [60]
  budget := .default

def sampleCandidate : CacheTuneCandidate := ⟨60, 60, 2, 1, 1, "0.5", 1⟩

theorem sampleCacheTune_eq :
    (cacheTune SessionHistory.plainText SessionHistory.sampleStore ⟨1, 2, 3⟩
      sampleCacheTune).2 = .ok ⟨"s", "run-3", [sampleCandidate], []⟩ := by
  decide +kernel

/-- A store with one entry, cached at time zero. -/
def minuteStore : CacheStore :=
  { CacheStore.withJitter (60 * 1000000000) (60 * 1000000000) 4 0 with
    entries := (∅ : Table CacheEntry).insert 0
      ⟨1, 0, none, none, ⟨[], .miss, 0, none, none⟩, "u", 0, .default, none, "default"⟩ }

end Conproxy
