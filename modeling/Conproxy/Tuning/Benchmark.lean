import Conproxy.Scope
import Conproxy.Truncation

/-!
# What a tune changes in the results

`evaluate` of `tune/benchmark.rs` compares the first results of a query before and after a tune. Its
verdict counts the results that went and those that came; their order does not matter.
-/

namespace Conproxy

set_option autoImplicit false

/-- `-x`. -/
def F32.neg : F32 → F32
  | .finite value => .finite (-value)
  | .infinite negative => .infinite !negative
  | .nan => .nan

namespace Benchmark

inductive MovementStatus where
  | new
  | evicted
  | up
  | down
  | stable
deriving DecidableEq

structure Movement where
  id : String
  status : MovementStatus
  baselineRank : Option Nat
  tunedRank : Option Nat
  baselineScore : F32
  tunedScore : F32
  scoreDelta : F32
deriving DecidableEq

inductive VerdictLabel where
  | improved
  | degraded
  | unchanged
  | changed
deriving DecidableEq

structure Verdict where
  label : VerdictLabel
  reason : String
deriving DecidableEq

structure BenchmarkReport where
  query : String
  topK : Nat
  verdict : Verdict
  baselineCount : Nat
  tunedCount : Nat
  overlappingCount : Nat
  movements : List Movement
  baseline : List Hit
  tuned : List Hit

def ids (top : List SearchResult) : List String := top.map SearchResult.id

def position (top : List SearchResult) (id : String) : Option Nat :=
  top.findIdx? fun r => r.id = id

section Evaluate

variable (A : F32Arith) (baselineTop tunedTop : List SearchResult)

def baselineMovement (b : SearchResult) : Movement :=
  let bRank := (position baselineTop b.id).getD 0 + 1
  match position tunedTop b.id with
  | some tPos =>
    let tScore := ((tunedTop[tPos]?).map SearchResult.score).getD F32.zero
    let tRank := tPos + 1
    { id := b.id
      status := if tRank < bRank then .up else if bRank < tRank then .down else .stable
      baselineRank := some bRank
      tunedRank := some tRank
      baselineScore := b.score
      tunedScore := tScore
      scoreDelta := A.sub tScore b.score }
  | none => ⟨b.id, .evicted, some bRank, none, b.score, F32.zero, b.score.neg⟩

def newMovement (t : SearchResult) : Movement :=
  ⟨t.id, .new, none, some ((position tunedTop t.id).getD 0 + 1), F32.zero, t.score, t.score⟩

/-- The two loops. -/
def movements : List Movement :=
  baselineTop.map (baselineMovement A baselineTop tunedTop) ++
    (tunedTop.filter fun t => !(ids baselineTop).contains t.id).map (newMovement tunedTop)

/-- The ids are counted as sets. -/
def overlappingCount : Nat :=
  ((ids baselineTop).dedup.filter fun id => (ids tunedTop).contains id).length

def withStatus (status : MovementStatus) (moved : List Movement) : List String :=
  (moved.filter fun m => m.status = status).map Movement.id

def verdict (topK : Nat) (moved : List Movement) (overlapping : Nat) : Verdict :=
  let evicted := withStatus .evicted moved
  let new := withStatus .new moved
  if 0 < evicted.length then
    ⟨.degraded, toString evicted.length ++ " result" ++
      (if evicted.length = 1 then " evicted" else "s evicted") ++ " evicted from top-" ++
      toString topK ++ ": " ++ ", ".intercalate evicted⟩
  else if 0 < new.length ∧ 0 < overlapping then
    ⟨.improved, toString new.length ++ " new result" ++ (if new.length = 1 then "" else "s") ++
      " surfaced in top-" ++ toString topK ++ ": " ++ ", ".intercalate new⟩
  else if 0 < new.length ∧ overlapping = 0 then
    ⟨.changed, "complete replacement: " ++ toString new.length ++ " new result" ++
      (if new.length = 1 then "" else "s") ++ " in top-" ++ toString topK⟩
  else
    ⟨.unchanged, "all " ++ toString overlapping ++ " baseline result" ++
      (if overlapping = 1 then "" else "s") ++ " remain in top-" ++ toString topK ++
      " at same ranks"⟩

end Evaluate

/-- There is no report if the content of a result cannot be cut. -/
def evaluate (A : F32Arith) (query : String) (baseline tuned : List SearchResult) (topK : Nat) :
    Option BenchmarkReport := do
  let baselineTop := baseline.take topK
  let tunedTop := tuned.take topK
  let moved := movements A baselineTop tunedTop
  let overlapping := overlappingCount baselineTop tunedTop
  let baselineHits ← hits 0 baselineTop
  let tunedHits ← hits 0 tunedTop
  return {
    query := query
    topK := topK
    verdict := verdict topK moved overlapping
    baselineCount := baselineTop.length
    tunedCount := tunedTop.length
    overlappingCount := overlapping
    movements := moved
    baseline := baselineHits
    tuned := tunedHits }

/-- The rank of an id, counted from one. -/
def rank (top : List SearchResult) (id : String) : Option Nat := (position top id).map (· + 1)

def MovementStatus.Says : MovementStatus → Option Nat → Option Nat → Prop
  | .up, some b, some t => t < b
  | .down, some b, some t => b < t
  | .stable, some b, some t => b = t
  | .evicted, some _, none => True
  | .new, none, some _ => True
  | _, _, _ => False

variable {A : F32Arith} {baselineTop tunedTop : List SearchResult}

theorem mem_ids {top : List SearchResult} {id : String} :
    id ∈ ids top ↔ ∃ r ∈ top, r.id = id := List.mem_map

theorem position_eq_none_iff {top : List SearchResult} {id : String} :
    position top id = none ↔ id ∉ ids top := by
  unfold position
  rw [List.findIdx?_eq_none_iff, mem_ids]
  simp

theorem position_of_mem {top : List SearchResult} {id : String} (hid : id ∈ ids top) :
    ∃ i, position top id = some i := by
  cases hposition : position top id with
  | some i => exact ⟨i, rfl⟩
  | none => exact absurd hid (position_eq_none_iff.1 hposition)

theorem rank_of_mem {top : List SearchResult} {id : String} (hid : id ∈ ids top) :
    some ((position top id).getD 0 + 1) = rank top id := by
  obtain ⟨i, hi⟩ := position_of_mem hid
  unfold rank
  rw [hi]
  rfl

theorem id_baselineMovement (b : SearchResult) :
    (baselineMovement A baselineTop tunedTop b).id = b.id := by
  unfold baselineMovement
  dsimp only
  split <;> rfl

theorem ids_movements (A : F32Arith) (baselineTop tunedTop : List SearchResult) :
    (movements A baselineTop tunedTop).map Movement.id =
      ids baselineTop ++ (ids tunedTop).filter fun id => !(ids baselineTop).contains id := by
  unfold movements
  rw [List.map_append, List.map_map, List.map_map]
  congr 1
  · exact List.map_congr_left fun b _ => id_baselineMovement b
  · unfold ids
    rw [List.filter_map]
    rfl

theorem nodup_movements (hbaseline : (ids baselineTop).Nodup) (htuned : (ids tunedTop).Nodup) :
    ((movements A baselineTop tunedTop).map Movement.id).Nodup := by
  rw [ids_movements, List.nodup_append]
  refine ⟨hbaseline, htuned.filter _, ?_⟩
  intro id hid id' hid' heq
  rw [← heq] at hid'
  have hnew := (List.mem_filter.1 hid').2
  simp [hid] at hnew

theorem mem_movements_iff {id : String} :
    id ∈ (movements A baselineTop tunedTop).map Movement.id ↔
      id ∈ ids baselineTop ∨ id ∈ ids tunedTop := by
  rw [ids_movements, List.mem_append, List.mem_filter]
  by_cases hid : id ∈ ids baselineTop <;> simp [hid]

theorem baselineMovement_says {b : SearchResult} (hb : b ∈ baselineTop) :
    (baselineMovement A baselineTop tunedTop b).baselineRank = rank baselineTop b.id ∧
      (baselineMovement A baselineTop tunedTop b).tunedRank = rank tunedTop b.id ∧
      (baselineMovement A baselineTop tunedTop b).status.Says (rank baselineTop b.id)
        (rank tunedTop b.id) := by
  have hrank := rank_of_mem (mem_ids.2 ⟨b, hb, rfl⟩)
  unfold baselineMovement
  dsimp only
  split
  · rename_i tPos hposition
    have htuned : rank tunedTop b.id = some (tPos + 1) := congrArg (Option.map (· + 1)) hposition
    refine ⟨hrank, htuned.symm, ?_⟩
    rw [← hrank, htuned]
    dsimp only
    split
    · rename_i hup
      exact hup
    · split
      · rename_i hdown
        exact hdown
      · exact Nat.le_antisymm (by omega) (by omega)
  · rename_i hposition
    have htuned : rank tunedTop b.id = none := congrArg (Option.map (· + 1)) hposition
    refine ⟨hrank, htuned.symm, ?_⟩
    rw [← hrank, htuned]
    trivial

theorem newMovement_says {t : SearchResult} (ht : t ∈ tunedTop) (hnew : t.id ∉ ids baselineTop) :
    (newMovement tunedTop t).baselineRank = rank baselineTop t.id ∧
      (newMovement tunedTop t).tunedRank = rank tunedTop t.id ∧
      (newMovement tunedTop t).status.Says (rank baselineTop t.id) (rank tunedTop t.id) := by
  have hrank := rank_of_mem (mem_ids.2 ⟨t, ht, rfl⟩)
  have hnone : rank baselineTop t.id = none :=
    congrArg (Option.map (· + 1)) (position_eq_none_iff.2 hnew)
  refine ⟨hnone.symm, hrank, ?_⟩
  rw [hnone, ← hrank]
  trivial

theorem movement_agrees {m : Movement} (hm : m ∈ movements A baselineTop tunedTop) :
    m.baselineRank = rank baselineTop m.id ∧ m.tunedRank = rank tunedTop m.id ∧
      m.status.Says (rank baselineTop m.id) (rank tunedTop m.id) := by
  rcases List.mem_append.1 hm with hm | hm
  · obtain ⟨b, hb, rfl⟩ := List.mem_map.1 hm
    rw [id_baselineMovement]
    exact baselineMovement_says hb
  · obtain ⟨t, ht, rfl⟩ := List.mem_map.1 hm
    obtain ⟨hmem, hnew⟩ := List.mem_filter.1 ht
    exact newMovement_says hmem (by simpa using hnew)

theorem withStatus_eq_nil_iff {status : MovementStatus} {moved : List Movement} :
    withStatus status moved = [] ↔ ∀ m ∈ moved, m.status ≠ status := by
  unfold withStatus
  rw [List.map_eq_nil_iff, List.filter_eq_nil_iff]
  simp only [decide_eq_true_eq, ne_eq]

theorem MovementStatus.Says.evicted_iff {status : MovementStatus} {b t : Option Nat}
    (h : status.Says b t) : status = .evicted ↔ b ≠ none ∧ t = none := by
  cases status <;> cases b <;> cases t <;> simp_all [Says]

theorem MovementStatus.Says.new_iff {status : MovementStatus} {b t : Option Nat}
    (h : status.Says b t) : status = .new ↔ b = none ∧ t ≠ none := by
  cases status <;> cases b <;> cases t <;> simp_all [Says]

theorem rank_eq_none_iff {top : List SearchResult} {id : String} :
    rank top id = none ↔ id ∉ ids top := by
  unfold rank
  rw [Option.map_eq_none_iff, position_eq_none_iff]

theorem status_eq_evicted_iff {m : Movement} (hm : m ∈ movements A baselineTop tunedTop) :
    m.status = .evicted ↔ m.id ∈ ids baselineTop ∧ m.id ∉ ids tunedTop := by
  rw [(movement_agrees hm).2.2.evicted_iff, Ne, rank_eq_none_iff, rank_eq_none_iff, not_not]

theorem status_eq_new_iff {m : Movement} (hm : m ∈ movements A baselineTop tunedTop) :
    m.status = .new ↔ m.id ∉ ids baselineTop ∧ m.id ∈ ids tunedTop := by
  rw [(movement_agrees hm).2.2.new_iff, Ne, rank_eq_none_iff, rank_eq_none_iff, not_not]

theorem none_evicted_iff :
    withStatus .evicted (movements A baselineTop tunedTop) = [] ↔
      ∀ id ∈ ids baselineTop, id ∈ ids tunedTop := by
  rw [withStatus_eq_nil_iff]
  constructor
  · intro hnone id hid
    obtain ⟨m, hm, rfl⟩ : ∃ m ∈ movements A baselineTop tunedTop, m.id = id :=
      List.mem_map.1 (mem_movements_iff.2 (.inl hid))
    by_contra hgone
    exact hnone m hm ((status_eq_evicted_iff hm).2 ⟨hid, hgone⟩)
  · intro hall m hm hevicted
    obtain ⟨hid, hgone⟩ := (status_eq_evicted_iff hm).1 hevicted
    exact hgone (hall m.id hid)

theorem none_new_iff :
    withStatus .new (movements A baselineTop tunedTop) = [] ↔
      ∀ id ∈ ids tunedTop, id ∈ ids baselineTop := by
  rw [withStatus_eq_nil_iff]
  constructor
  · intro hnone id hid
    obtain ⟨m, hm, rfl⟩ : ∃ m ∈ movements A baselineTop tunedTop, m.id = id :=
      List.mem_map.1 (mem_movements_iff.2 (.inr hid))
    by_contra hgone
    exact hnone m hm ((status_eq_new_iff hm).2 ⟨hgone, hid⟩)
  · intro hall m hm hnew
    obtain ⟨hgone, hid⟩ := (status_eq_new_iff hm).1 hnew
    exact hgone (hall m.id hid)

theorem label_verdict_iff {topK overlapping : Nat} {moved : List Movement} :
    (verdict topK moved overlapping).label = .unchanged ↔
      withStatus .evicted moved = [] ∧ withStatus .new moved = [] := by
  rw [← List.length_eq_zero_iff, ← List.length_eq_zero_iff]
  unfold verdict
  dsimp only
  split
  · simp only [reduceCtorEq, false_iff]
    omega
  · split
    · simp only [reduceCtorEq, false_iff]
      omega
    · split
      · simp only [reduceCtorEq, false_iff]
        omega
      · simp only [true_iff]
        omega

/-- What is left of a content can be shown: it is short, or a character ends at the limit. -/
def Shows (r : SearchResult) : Prop :=
  r.content.utf8ByteSize ≤ 120 ∨ IsCharBoundary r.content 120

theorem evaluate_returns_iff {query : String} {baseline tuned : List SearchResult} {topK : Nat} :
    (∃ report, evaluate A query baseline tuned topK = some report) ↔
      ∀ r ∈ baseline.take topK ++ tuned.take topK, Shows r := by
  rw [List.forall_mem_append]
  unfold evaluate Shows
  rw [← exists_hits_iff (baseline.take topK) 0, ← exists_hits_iff (tuned.take topK) 0]
  simp only [Option.bind_eq_bind, Option.bind_eq_some_iff]
  constructor
  · rintro ⟨_, baselineHits, hbaseline, tunedHits, htuned, _⟩
    exact ⟨⟨baselineHits, hbaseline⟩, tunedHits, htuned⟩
  · rintro ⟨⟨baselineHits, hbaseline⟩, tunedHits, htuned⟩
    exact ⟨_, baselineHits, hbaseline, tunedHits, htuned, rfl⟩

theorem evaluate_eq_some {query : String} {baseline tuned : List SearchResult} {topK : Nat}
    {report : BenchmarkReport} (h : evaluate A query baseline tuned topK = some report) :
    report.movements = movements A (baseline.take topK) (tuned.take topK) ∧
      report.verdict = verdict topK report.movements report.overlappingCount := by
  unfold evaluate at h
  simp only [Option.bind_eq_bind, Option.bind_eq_some_iff] at h
  obtain ⟨baselineHits, -, tunedHits, -, hreport⟩ := h
  cases hreport
  exact ⟨rfl, rfl⟩

theorem nodup_take {results : List SearchResult} (h : (ids results).Nodup) (k : Nat) :
    (ids (results.take k)).Nodup :=
  h.sublist ((List.take_sublist k results).map _)

/-- There is a report if the contents can be shown. Every id of the two lists has one movement in
it, which tells its ranks in them, and the verdict is that nothing changed exactly if the same ids
are in both. -/
theorem evaluate_compares (query : String) {baseline tuned : List SearchResult} {topK : Nat}
    (hbaseline : (ids baseline).Nodup) (htuned : (ids tuned).Nodup)
    (hshows : ∀ r ∈ baseline.take topK ++ tuned.take topK, Shows r) :
    ∃ report, evaluate A query baseline tuned topK = some report ∧
      (report.movements.map Movement.id).Nodup ∧
      (∀ id, id ∈ report.movements.map Movement.id ↔
        id ∈ ids (baseline.take topK) ∨ id ∈ ids (tuned.take topK)) ∧
      (∀ m ∈ report.movements, m.baselineRank = rank (baseline.take topK) m.id ∧
        m.tunedRank = rank (tuned.take topK) m.id ∧
        m.status.Says m.baselineRank m.tunedRank) ∧
      (report.verdict.label = .unchanged ↔
        ∀ id, id ∈ ids (baseline.take topK) ↔ id ∈ ids (tuned.take topK)) := by
  obtain ⟨report, h⟩ : ∃ report, evaluate A query baseline tuned topK = some report :=
    evaluate_returns_iff.2 hshows
  obtain ⟨hmovements, hverdict⟩ := evaluate_eq_some h
  refine ⟨report, h, ?_⟩
  rw [hverdict, hmovements, label_verdict_iff, none_evicted_iff, none_new_iff]
  refine ⟨nodup_movements (nodup_take hbaseline topK) (nodup_take htuned topK),
    fun id => mem_movements_iff, ?_, ?_⟩
  · intro m hm
    obtain ⟨hb, ht, hsays⟩ := movement_agrees hm
    refine ⟨hb, ht, ?_⟩
    rw [hb, ht]
    exact hsays
  · constructor
    · rintro ⟨hkept, hnone⟩ id
      exact ⟨hkept id, hnone id⟩
    · intro hsame
      exact ⟨fun id => (hsame id).1, fun id => (hsame id).2⟩

def sampleHit (id : String) (score : F32) : SearchResult := ⟨id, score, "", none, none⟩

def sampleBaseline : List SearchResult :=
  [sampleHit "a" (.finite 1), sampleHit "b" (.finite (1 / 2))]

def sampleTuned : List SearchResult :=
  [sampleHit "b" (.finite 1), sampleHit "a" (.finite (1 / 2))]

theorem exists_sampleReport :
    ∃ report, evaluate .exact "rust" sampleBaseline sampleTuned 5 = some report := ⟨_, rfl⟩

theorem sample_compares :
    ∃ report, evaluate .exact "rust" sampleBaseline sampleTuned 5 = some report ∧
      (report.movements.map Movement.id).Nodup ∧ report.verdict.label = .unchanged := by
  have hshows : ∀ r ∈ sampleBaseline.take 5 ++ sampleTuned.take 5, Shows r := by
    intro r hr
    have hempty : ∀ r ∈ sampleBaseline.take 5 ++ sampleTuned.take 5, r.content = "" := by
      simp [sampleBaseline, sampleTuned, sampleHit]
    exact .inl (by rw [hempty r hr]; decide)
  obtain ⟨report, h, hnodup, -, -, hunchanged⟩ := evaluate_compares (A := .exact) "rust"
    (by decide +kernel) (by decide +kernel) hshows
  refine ⟨report, h, hnodup, hunchanged.2 ?_⟩
  intro id
  simp [ids, sampleBaseline, sampleTuned, sampleHit, or_comm]

/-- Two results that change places are reported as unchanged. -/
theorem swapped_is_unchanged :
    ¬ ∀ (A : F32Arith) (query : String) (baseline tuned : List SearchResult) (topK : Nat)
      (report : BenchmarkReport), (ids baseline).Nodup → (ids tuned).Nodup →
        evaluate A query baseline tuned topK = some report →
          (report.verdict.label = .unchanged ↔
            ids (baseline.take topK) = ids (tuned.take topK)) := by
  intro hclaim
  obtain ⟨report, h⟩ := exists_sampleReport
  have hiff := hclaim .exact "rust" sampleBaseline sampleTuned 5 report (by decide +kernel)
    (by decide +kernel) h
  have hlabel : report.verdict.label = .unchanged := by
    rw [(evaluate_eq_some h).2, (evaluate_eq_some h).1, label_verdict_iff]
    exact ⟨by decide +kernel, by decide +kernel⟩
  exact absurd (hiff.1 hlabel) (by decide +kernel)

end Benchmark

end Conproxy
