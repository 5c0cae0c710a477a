import Mathlib.Algebra.Ring.Nat
import Mathlib.Data.List.Sort
import Conproxy.Lib.Extremum
import Conproxy.Lib.Outputs

/-!
# Recorded latencies

The latency part of `ProxyMetrics` of `metrics.rs`. `record_latency` takes no lock: it adds to the
sum, raises the maximum and lowers the minimum in a loop of compare-and-swap each, takes a position
of the ring and stores into its slot. Any number of calls are under way at once. A step is one
atomic operation of one of them; a weak compare-and-swap may fail for no reason.
-/

namespace Conproxy

open Machine

set_option autoImplicit false

def latencyRingSize : Nat := 1000

structure LatencyMetrics where
  latencySumUs : Nat
  latencyMaxUs : Nat
  latencyMinUs : Nat
  latencyRing : List Nat
  latencyRingPos : Nat

/-- After `new` and after `reset`. -/
def LatencyMetrics.new : LatencyMetrics :=
  ⟨0, 0, 2 ^ 64 - 1, List.replicate latencyRingSize 0, 0⟩

/-- The next operation of a call of `record_latency`. -/
inductive RecorderPhase where
  | addSum
  | loadMax
  | swapMax (currentMax : Nat)
  | loadMin
  | swapMin (currentMin : Nat)
  | takePos
  | storeSlot (pos : Nat)
  | done (pos : Nat)
deriving DecidableEq

structure Recorder where
  us : Nat
  phase : RecorderPhase
deriving DecidableEq

namespace Recorder

/-- The condition of the first loop. -/
def testMax (r : Recorder) (currentMax : Nat) : Recorder :=
  { r with phase := if currentMax < r.us then .swapMax currentMax else .loadMin }

/-- The condition of the second loop. -/
def testMin (r : Recorder) (currentMin : Nat) : Recorder :=
  { r with phase := if r.us < currentMin then .swapMin currentMin else .takePos }

def step (m : LatencyMetrics) (r : Recorder) (spurious : Bool) : LatencyMetrics × Recorder :=
  match r.phase with
  | .addSum =>
    ({ m with latencySumUs := (m.latencySumUs + r.us) % 2 ^ 64 }, { r with phase := .loadMax })
  | .loadMax => (m, r.testMax m.latencyMaxUs)
  | .swapMax currentMax =>
    if m.latencyMaxUs = currentMax ∧ spurious = false then
      ({ m with latencyMaxUs := r.us }, { r with phase := .loadMin })
    else (m, r.testMax m.latencyMaxUs)
  | .loadMin => (m, r.testMin m.latencyMinUs)
  | .swapMin currentMin =>
    if m.latencyMinUs = currentMin ∧ spurious = false then
      ({ m with latencyMinUs := r.us }, { r with phase := .takePos })
    else (m, r.testMin m.latencyMinUs)
  | .takePos =>
    ({ m with latencyRingPos := (m.latencyRingPos + 1) % 2 ^ 64 },
      { r with phase := .storeSlot m.latencyRingPos })
  | .storeSlot pos =>
    ({ m with latencyRing := m.latencyRing.set (pos % latencyRingSize) r.us },
      { r with phase := .done pos })
  | .done _ => (m, r)

end Recorder

/-- The shared metrics and the calls of `record_latency`, started or not. -/
structure Recording where
  metrics : LatencyMetrics
  recorders : List Recorder

namespace Recording

def start (values : List Nat) : Recording := ⟨.new, values.map fun us => ⟨us, .addSum⟩⟩

def step (s : Recording) (e : Nat × Bool) : Recording :=
  match s.recorders[e.1]? with
  | none => s
  | some r =>
    let (metrics, r) := r.step s.metrics e.2
    ⟨metrics, s.recorders.set e.1 r⟩

end Recording

/-- The places of the percentiles among so many samples, which the source computes in floating
point. -/
structure PercentilePlaces where
  p50 : Nat → Nat
  p95 : Nat → Nat
  p99 : Nat → Nat

/-- The percentiles in microseconds. -/
structure LatencyPercentiles where
  sampleCount : Nat
  p50 : Nat
  p95 : Nat
  p99 : Nat
deriving DecidableEq

/-- The sample at a place, counted from one. -/
def sampleAt (sorted : List Nat) (place : Nat) : Nat :=
  (sorted[min (place - 1) (sorted.length - 1)]?).getD 0

def latencyPercentiles (places : PercentilePlaces) (m : LatencyMetrics) : LatencyPercentiles :=
  let totalWritten := m.latencyRingPos
  if totalWritten = 0 then ⟨0, 0, 0, 0⟩
  else
    let len := min totalWritten latencyRingSize
    let sorted := (m.latencyRing.take len).mergeSort (· ≤ ·)
    ⟨totalWritten, sampleAt sorted (places.p50 len), sampleAt sorted (places.p95 len),
      sampleAt sorted (places.p99 len)⟩

def percentilesOf (places : PercentilePlaces) (values : List Nat) : LatencyPercentiles :=
  let sorted := values.mergeSort (· ≤ ·)
  ⟨values.length, sampleAt sorted (places.p50 values.length),
    sampleAt sorted (places.p95 values.length), sampleAt sorted (places.p99 values.length)⟩

/-! ## The maximum and the minimum are shared extrema -/

namespace Recorder

def maxWriter (r : Recorder) : Extremum.Writer Nat where
  value := r.us
  phase :=
    match r.phase with
    | .addSum => .load
    | .loadMax => .load
    | .swapMax currentMax => .swap currentMax
    | _ => .done

def minWriter (r : Recorder) : Extremum.Writer Nat where
  value := r.us
  phase :=
    match r.phase with
    | .addSum => .load
    | .loadMax => .load
    | .swapMax _ => .load
    | .loadMin => .load
    | .swapMin currentMin => .swap currentMin
    | _ => .done

def inMax (r : Recorder) : Bool :=
  match r.phase with
  | .loadMax => true
  | .swapMax _ => true
  | _ => false

def inMin (r : Recorder) : Bool :=
  match r.phase with
  | .loadMin => true
  | .swapMin _ => true
  | _ => false

end Recorder

/-- A lower latency is beyond a higher one. -/
abbrev Above (a b : Nat) : Prop := b < a

theorem strict_lt : Extremum.Strict (fun a b : Nat => a < b) where
  irrefl := Nat.lt_irrefl
  asymm := Nat.lt_asymm
  negTrans := by omega

theorem strict_above : Extremum.Strict Above where
  irrefl := Nat.lt_irrefl
  asymm := Nat.lt_asymm
  negTrans := by omega

namespace Recording

/-- The recording as one of its loops sees it. -/
def cell (value : LatencyMetrics → Nat) (writer : Recorder → Extremum.Writer Nat) (s : Recording) :
    Extremum.Cell Nat :=
  ⟨value s.metrics, s.recorders.map writer⟩

def stepsOf (inLoop : Recorder → Bool) (s : Recording) (e : Nat × Bool) : List (Nat × Bool) :=
  if s.recorders[e.1]?.any inLoop then [e] else []

def maxCell : Recording → Extremum.Cell Nat := cell LatencyMetrics.latencyMaxUs Recorder.maxWriter

def minCell : Recording → Extremum.Cell Nat := cell LatencyMetrics.latencyMinUs Recorder.minWriter

variable {s : Recording} {e : Nat × Bool} {r : Recorder}

theorem step_of_none (h : s.recorders[e.1]? = none) : s.step e = s := by
  unfold step
  rw [h]

theorem step_of_some (h : s.recorders[e.1]? = some r) : s.step e =
    ⟨(r.step s.metrics e.2).1, s.recorders.set e.1 (r.step s.metrics e.2).2⟩ := by
  unfold step
  rw [h]

end Recording

namespace Recorder

theorem maxWriter_testMax (r : Recorder) (currentMax : Nat) : (r.testMax currentMax).maxWriter =
    ⟨r.us, if currentMax < r.us then .swap currentMax else .done⟩ := by
  unfold testMax
  by_cases hlt : currentMax < r.us
  · rw [if_pos hlt, if_pos hlt]
    rfl
  · rw [if_neg hlt, if_neg hlt]
    rfl

theorem maxWriter_testMin (r : Recorder) (currentMin : Nat) :
    (r.testMin currentMin).maxWriter = ⟨r.us, .done⟩ := by
  unfold testMin
  split <;> rfl

theorem minWriter_testMin (r : Recorder) (currentMin : Nat) : (r.testMin currentMin).minWriter =
    ⟨r.us, if Above currentMin r.us then .swap currentMin else .done⟩ := by
  unfold testMin Above
  by_cases hlt : r.us < currentMin
  · rw [if_pos hlt, if_pos hlt]
    rfl
  · rw [if_neg hlt, if_neg hlt]
    rfl

theorem minWriter_testMax (r : Recorder) (currentMax : Nat) :
    (r.testMax currentMax).minWriter = ⟨r.us, .load⟩ := by
  unfold testMax
  split <;> rfl

/-- An operation is one of the first loop, or does nothing to the maximum. -/
theorem maxWriter_step (m : LatencyMetrics) (r : Recorder) (spurious : Bool) :
    ((r.step m spurious).1.latencyMaxUs, (r.step m spurious).2.maxWriter) =
      if r.inMax then r.maxWriter.step (fun a b => a < b) m.latencyMaxUs spurious
      else (m.latencyMaxUs, r.maxWriter) := by
  obtain ⟨us, phase⟩ := r
  cases phase with
  | addSum => rfl
  | loadMax =>
    have hin : inMax ⟨us, .loadMax⟩ = true := rfl
    rw [if_pos hin]
    dsimp only [step, maxWriter, Extremum.Writer.step]
    rw [Extremum.test_eq]
    exact congrArg (Prod.mk _) (maxWriter_testMax _ _)
  | swapMax currentMax =>
    have hin : inMax ⟨us, .swapMax currentMax⟩ = true := rfl
    rw [if_pos hin]
    dsimp only [step, maxWriter, Extremum.Writer.step]
    split
    · rfl
    · rw [Extremum.test_eq]
      exact congrArg (Prod.mk _) (maxWriter_testMax _ _)
  | loadMin =>
    dsimp only [step]
    rw [maxWriter_testMin]
    rfl
  | swapMin currentMin =>
    dsimp only [step]
    split
    · rfl
    · dsimp only
      rw [maxWriter_testMin]
      rfl
  | takePos => rfl
  | storeSlot pos => rfl
  | done pos => rfl

theorem minWriter_step (m : LatencyMetrics) (r : Recorder) (spurious : Bool) :
    ((r.step m spurious).1.latencyMinUs, (r.step m spurious).2.minWriter) =
      if r.inMin then r.minWriter.step Above m.latencyMinUs spurious
      else (m.latencyMinUs, r.minWriter) := by
  obtain ⟨us, phase⟩ := r
  cases phase with
  | addSum => rfl
  | loadMax =>
    dsimp only [step]
    rw [minWriter_testMax]
    rfl
  | swapMax currentMax =>
    dsimp only [step]
    split
    · rfl
    · dsimp only
      rw [minWriter_testMax]
      rfl
  | loadMin =>
    have hin : inMin ⟨us, .loadMin⟩ = true := rfl
    rw [if_pos hin]
    dsimp only [step, minWriter, Extremum.Writer.step]
    rw [Extremum.test_eq]
    exact congrArg (Prod.mk _) (minWriter_testMin _ _)
  | swapMin currentMin =>
    have hin : inMin ⟨us, .swapMin currentMin⟩ = true := rfl
    rw [if_pos hin]
    dsimp only [step, minWriter, Extremum.Writer.step]
    split
    · rfl
    · rw [Extremum.test_eq]
      exact congrArg (Prod.mk _) (minWriter_testMin _ _)
  | takePos => rfl
  | storeSlot pos => rfl
  | done pos => rfl

end Recorder

theorem map_set_of_eq {α β : Type} {l : List α} {i : Nat} {a a' : α} (f : α → β)
    (h : l[i]? = some a) (hsame : f a' = f a) : (l.set i a').map f = l.map f := by
  have hget : (l.map f)[i]? = some (f a) := by
    rw [List.getElem?_map, h]
    rfl
  obtain ⟨hlen, heq⟩ := List.getElem?_eq_some_iff.mp hget
  rw [List.map_set, hsame, ← heq, List.set_getElem_self]

namespace Recording

section Cell

variable {value : LatencyMetrics → Nat} {writer : Recorder → Extremum.Writer Nat}
  {inLoop : Recorder → Bool} {lt : Nat → Nat → Prop} [DecidableRel lt]

/-- A step of the recording is one of the loop, or none. -/
theorem cell_step (hstep : ∀ m r spurious,
      (value (Recorder.step m r spurious).1, writer (Recorder.step m r spurious).2) =
        if inLoop r then (writer r).step lt (value m) spurious else (value m, writer r))
    (s : Recording) (e : Nat × Bool) : cell value writer (s.step e) =
      run (Extremum.step lt) (cell value writer s) (s.stepsOf inLoop e) := by
  cases h : s.recorders[e.1]? with
  | none =>
    rw [step_of_none h, stepsOf, h]
    rfl
  | some r =>
    have hone := hstep s.metrics r e.2
    have hwriter : (cell value writer s).writers[e.1]? = some (writer r) := by
      rw [cell, List.getElem?_map, h]
      rfl
    rw [step_of_some h, stepsOf, h]
    cases hin : inLoop r with
    | true =>
      rw [hin, if_pos rfl] at hone
      have houter : (some r).any inLoop = true := hin
      rw [if_pos houter, run_cons, Extremum.step_of_some hwriter]
      unfold cell
      dsimp only
      rw [List.map_set, ← hone]
      rfl
    | false =>
      rw [hin, if_neg Bool.false_ne_true] at hone
      have houter : (some r).any inLoop = false := hin
      rw [houter, if_neg Bool.false_ne_true, run_nil]
      exact congrArg₂ Extremum.Cell.mk (congrArg Prod.fst hone)
        (map_set_of_eq writer h (congrArg Prod.snd hone))

end Cell

theorem maxCell_run (s : Recording) (es : List (Nat × Bool)) : (run step s es).maxCell =
    run (Extremum.step fun a b => a < b) s.maxCell
      (outputs step (stepsOf Recorder.inMax) s es) :=
  run_outputs (fun _ _ (_ : True) => trivial)
    (fun s e _ => cell_step Recorder.maxWriter_step s e) trivial es

theorem minCell_run (s : Recording) (es : List (Nat × Bool)) : (run step s es).minCell =
    run (Extremum.step Above) s.minCell (outputs step (stepsOf Recorder.inMin) s es) :=
  run_outputs (fun _ _ (_ : True) => trivial)
    (fun s e _ => cell_step Recorder.minWriter_step s e) trivial es

theorem maxCell_start (values : List Nat) : (start values).maxCell = Extremum.start 0 values := by
  unfold maxCell cell start
  rw [List.map_map]
  rfl

theorem minCell_start (values : List Nat) :
    (start values).minCell = Extremum.start (2 ^ 64 - 1) values := by
  unfold minCell cell start
  rw [List.map_map]
  rfl

theorem raised_max (values : List Nat) (es : List (Nat × Bool)) :
    Extremum.Raised (fun a b => a < b) 0 (run step (start values) es).maxCell := by
  rw [maxCell_run, maxCell_start]
  exact (Extremum.raised_start strict_lt 0 values).run strict_lt _

theorem raised_min (values : List Nat) (es : List (Nat × Bool)) :
    Extremum.Raised Above (2 ^ 64 - 1) (run step (start values) es).minCell := by
  rw [minCell_run, minCell_start]
  exact (Extremum.raised_start strict_above _ values).run strict_above _

theorem map_us_run (values : List Nat) (es : List (Nat × Bool)) :
    (run step (start values) es).recorders.map Recorder.us = values := by
  have hvalues := congrArg (fun c => c.writers.map Extremum.Writer.value)
    (maxCell_run (start values) es)
  rw [Extremum.map_value_run, maxCell_start] at hvalues
  unfold maxCell cell Extremum.start at hvalues
  dsimp only at hvalues
  rw [List.map_map, List.map_map] at hvalues
  exact hvalues.trans (List.map_id values)

theorem start_recorders (values : List Nat) :
    (start values).recorders = values.map fun us => ⟨us, .addSum⟩ := rfl

theorem step_split (s : Recording) (e : Nat × Bool) : s.step e = s ∨
    ∃ before r after, s.recorders = before ++ r :: after ∧ s.step e =
      ⟨(r.step s.metrics e.2).1, before ++ (r.step s.metrics e.2).2 :: after⟩ := by
  cases h : s.recorders[e.1]? with
  | none => exact .inl (step_of_none h)
  | some r =>
    obtain ⟨hlen, hget⟩ := List.getElem?_eq_some_iff.mp h
    have hexists : ∃ before after, s.recorders = before ++ s.recorders[e.1] :: after ∧
        before.length = e.1 ∧ s.recorders.set e.1 (r.step s.metrics e.2).2 =
          before ++ (r.step s.metrics e.2).2 :: after := List.exists_of_set hlen
    obtain ⟨before, after, hsplit, -, hset⟩ := hexists
    rw [hget] at hsplit
    refine .inr ⟨before, r, after, hsplit, ?_⟩
    rw [step_of_some h, hset]

/-! ## The sum -/

end Recording

namespace Recorder

/-- What a call has added to the sum. -/
def added (r : Recorder) : Nat := if r.phase = .addSum then 0 else r.us

/-- The position that a call has taken. -/
def taken (r : Recorder) : Option Nat :=
  match r.phase with
  | .storeSlot pos => some pos
  | .done pos => some pos
  | _ => none

def isDone (r : Recorder) : Bool :=
  match r.phase with
  | .done _ => true
  | _ => false

variable {m : LatencyMetrics}

theorem testMax_cases (r : Recorder) (currentMax : Nat) :
    r.testMax currentMax = { r with phase := .swapMax currentMax } ∨
      r.testMax currentMax = { r with phase := .loadMin } := by
  unfold testMax
  split
  · exact .inl rfl
  · exact .inr rfl

theorem testMin_cases (r : Recorder) (currentMin : Nat) :
    r.testMin currentMin = { r with phase := .swapMin currentMin } ∨
      r.testMin currentMin = { r with phase := .takePos } := by
  unfold testMin
  split
  · exact .inl rfl
  · exact .inr rfl

/-- The operations that are not in a loop, and what the others leave alone. -/
inductive Move (m : LatencyMetrics) (r : Recorder) : LatencyMetrics × Recorder → Prop where
  | addSum (h : r.phase = .addSum) : Move m r
      ({ m with latencySumUs := (m.latencySumUs + r.us) % 2 ^ 64 }, { r with phase := .loadMax })
  | loop (latencyMaxUs latencyMinUs : Nat) (phase : RecorderPhase)
      (h : r.taken = none ∧ r.phase ≠ .addSum)
      (h' : Recorder.taken ⟨r.us, phase⟩ = none ∧ phase ≠ .addSum) : Move m r
      ({ m with latencyMaxUs := latencyMaxUs, latencyMinUs := latencyMinUs },
        { r with phase := phase })
  | takePos (h : r.phase = .takePos) : Move m r
      ({ m with latencyRingPos := (m.latencyRingPos + 1) % 2 ^ 64 },
        { r with phase := .storeSlot m.latencyRingPos })
  | storeSlot (pos : Nat) (h : r.phase = .storeSlot pos) : Move m r
      ({ m with latencyRing := m.latencyRing.set (pos % latencyRingSize) r.us },
        { r with phase := .done pos })
  | done (h : r.isDone = true) : Move m r (m, r)

theorem move (m : LatencyMetrics) (r : Recorder) (spurious : Bool) :
    Move m r (r.step m spurious) := by
  obtain ⟨us, phase⟩ := r
  cases phase with
  | addSum => exact .addSum rfl
  | loadMax =>
    dsimp only [step]
    rcases testMax_cases ⟨us, .loadMax⟩ m.latencyMaxUs with heq | heq
    · rw [heq]
      exact .loop _ _ _ ⟨rfl, nofun⟩ ⟨rfl, nofun⟩
    · rw [heq]
      exact .loop _ _ _ ⟨rfl, nofun⟩ ⟨rfl, nofun⟩
  | swapMax currentMax =>
    dsimp only [step]
    split
    · exact .loop _ _ _ ⟨rfl, nofun⟩ ⟨rfl, nofun⟩
    · rcases testMax_cases ⟨us, .swapMax currentMax⟩ m.latencyMaxUs with heq | heq
      · rw [heq]
        exact .loop _ _ _ ⟨rfl, nofun⟩ ⟨rfl, nofun⟩
      · rw [heq]
        exact .loop _ _ _ ⟨rfl, nofun⟩ ⟨rfl, nofun⟩
  | loadMin =>
    dsimp only [step]
    rcases testMin_cases ⟨us, .loadMin⟩ m.latencyMinUs with heq | heq
    · rw [heq]
      exact .loop _ _ _ ⟨rfl, nofun⟩ ⟨rfl, nofun⟩
    · rw [heq]
      exact .loop _ _ _ ⟨rfl, nofun⟩ ⟨rfl, nofun⟩
  | swapMin currentMin =>
    dsimp only [step]
    split
    · exact .loop _ _ _ ⟨rfl, nofun⟩ ⟨rfl, nofun⟩
    · rcases testMin_cases ⟨us, .swapMin currentMin⟩ m.latencyMinUs with heq | heq
      · rw [heq]
        exact .loop _ _ _ ⟨rfl, nofun⟩ ⟨rfl, nofun⟩
      · rw [heq]
        exact .loop _ _ _ ⟨rfl, nofun⟩ ⟨rfl, nofun⟩
  | takePos => exact .takePos rfl
  | storeSlot pos => exact .storeSlot pos rfl
  | done pos => exact .done rfl

end Recorder

namespace Recording

/-- The sum is that of the calls that have added to it. -/
def Summed (s : Recording) : Prop :=
  s.metrics.latencySumUs = (s.recorders.map Recorder.added).sum % 2 ^ 64

theorem summed_step (s : Recording) (e : Nat × Bool) (h : Summed s) : Summed (s.step e) := by
  rcases s.step_split e with heq | ⟨before, r, after, hsplit, heq⟩
  · rw [heq]
    exact h
  · unfold Summed at h ⊢
    rw [heq]
    rw [hsplit, List.map_append, List.map_cons, List.sum_append, List.sum_cons] at h
    dsimp only
    rw [List.map_append, List.map_cons, List.sum_append, List.sum_cons]
    have hmove := r.move s.metrics e.2
    generalize r.step s.metrics e.2 = result at hmove
    cases hmove with
    | addSum hphase =>
      have hzero : r.added = 0 := if_pos hphase
      have hadded : Recorder.added { r with phase := .loadMax } = r.us := if_neg nofun
      rw [hzero] at h
      rw [hadded, h]
      dsimp only
      rw [Nat.mod_add_mod]
      congr 1
      omega
    | loop _ _ phase hold hnew =>
      have hadded : Recorder.added { r with phase := phase } = r.added :=
        (if_neg hnew.2).trans (if_neg hold.2).symm
      rw [hadded]
      exact h
    | takePos hphase =>
      have hadded : Recorder.added { r with phase := .storeSlot s.metrics.latencyRingPos } =
          r.added := (if_neg nofun).trans (if_neg (by rw [hphase]; nofun)).symm
      rw [hadded]
      exact h
    | storeSlot pos hphase =>
      have hadded : Recorder.added { r with phase := .done pos } = r.added :=
        (if_neg nofun).trans (if_neg (by rw [hphase]; nofun)).symm
      rw [hadded]
      exact h
    | done hphase => exact h

theorem summed_start (values : List Nat) : Summed (start values) := by
  have hzero : (values.map fun us => Recorder.added ⟨us, .addSum⟩).sum = 0 := by
    induction values with
    | nil => rfl
    | cons us rest ih =>
      rw [List.map_cons, List.sum_cons, ih]
      rfl
  unfold Summed start
  rw [List.map_map]
  exact (congrArg (· % 2 ^ 64) hzero).symm

/-- The positions that are taken are the first ones, each of them once, and the slot of a call that
is done holds its latency, as long as the ring has room for all calls. -/
structure Placed (s : Recording) : Prop where
  length : s.metrics.latencyRing.length = latencyRingSize
  taken : (s.recorders.filterMap Recorder.taken).Perm (List.range s.metrics.latencyRingPos)
  stored : ∀ r ∈ s.recorders, ∀ pos, r.phase = .done pos →
    s.metrics.latencyRing[pos]? = some r.us

theorem placed_start (values : List Nat) : Placed (start values) where
  length := List.length_replicate
  taken := by
    have hnone : (values.map fun us => (⟨us, .addSum⟩ : Recorder)).filterMap Recorder.taken =
        [] := by
      rw [List.filterMap_map]
      exact List.filterMap_eq_nil_iff.mpr fun _ _ => rfl
    rw [start_recorders, hnone]
    exact List.Perm.refl []
  stored r hr pos hdone := by
    obtain ⟨us, -, rfl⟩ := List.mem_map.mp hr
    cases hdone

variable {s : Recording}

theorem Placed.pos_le (h : Placed s) : s.metrics.latencyRingPos ≤ s.recorders.length := by
  have hlength := h.taken.length_eq
  rw [List.length_range] at hlength
  rw [← hlength]
  exact List.length_filterMap_le _ _

theorem Placed.ne_of_done (h : Placed s) {before after : List Recorder} {r x : Recorder}
    {pos place : Nat} (hsplit : s.recorders = before ++ r :: after) (hr : r.taken = some pos)
    (hx : x ∈ before ++ after) (hdone : x.phase = .done place) : pos ≠ place := by
  have hnodup := h.taken.nodup_iff.mpr List.nodup_range
  have htaken : x.taken = some place := by rw [Recorder.taken, hdone]
  have hplace : place ∈ (before ++ after).filterMap Recorder.taken :=
    List.mem_filterMap.mpr ⟨x, hx, htaken⟩
  rw [hsplit, List.filterMap_append, List.filterMap_cons_some hr] at hnodup
  have hfirst := (List.nodup_middle.mp hnodup)
  rw [← List.filterMap_append] at hfirst
  rintro rfl
  exact (List.nodup_cons.mp hfirst).1 hplace

theorem mem_of_split {before after : List Recorder} {r r' x : Recorder}
    (h : x ∈ before ++ r' :: after) : x = r' ∨ x ∈ before ++ after ∧ x ∈ before ++ r :: after := by
  simp only [List.mem_append, List.mem_cons] at h ⊢
  tauto

theorem placed_step (hroom : s.recorders.length ≤ latencyRingSize) (e : Nat × Bool)
    (h : Placed s) : Placed (s.step e) := by
  rcases s.step_split e with heq | ⟨before, r, after, hsplit, heq⟩
  · rw [heq]
    exact h
  have hmove := r.move s.metrics e.2
  have hpos := h.pos_le
  have htaken := h.taken
  have hstored := h.stored
  rw [hsplit, List.filterMap_append] at htaken
  rw [hsplit] at hstored
  rw [heq]
  generalize r.step s.metrics e.2 = result at hmove
  cases hmove with
  | addSum hphase =>
    have hnone : r.taken = none := by rw [Recorder.taken, hphase]
    rw [List.filterMap_cons_none hnone] at htaken
    refine ⟨h.length, ?_, ?_⟩
    · rw [List.filterMap_append]
      exact htaken
    · intro x hx pos hdone
      rcases mem_of_split (r := r) hx with rfl | ⟨-, hx⟩
      · cases hdone
      · exact hstored x hx pos hdone
  | loop _ _ phase hold hnew =>
    rw [List.filterMap_cons_none hold.1] at htaken
    refine ⟨h.length, ?_, ?_⟩
    · rw [List.filterMap_append, List.filterMap_cons_none hnew.1]
      exact htaken
    · intro x hx pos hdone
      rcases mem_of_split (r := r) hx with rfl | ⟨-, hx⟩
      · rw [Recorder.taken, hdone] at hnew
        cases hnew.1
      · exact hstored x hx pos hdone
  | takePos hphase =>
    have hnone : r.taken = none := by rw [Recorder.taken, hphase]
    rw [List.filterMap_cons_none hnone] at htaken
    have hnext : (s.metrics.latencyRingPos + 1) % 2 ^ 64 = s.metrics.latencyRingPos + 1 := by
      apply Nat.mod_eq_of_lt
      unfold latencyRingSize at hroom
      omega
    refine ⟨h.length, ?_, ?_⟩
    · rw [List.filterMap_append]
      dsimp only
      rw [hnext, List.range_succ]
      exact List.perm_middle.trans ((htaken.cons _).trans (List.perm_append_singleton _ _).symm)
    · intro x hx pos hdone
      rcases mem_of_split (r := r) hx with rfl | ⟨-, hx⟩
      · cases hdone
      · exact hstored x hx pos hdone
  | storeSlot pos hphase =>
    have hsome : r.taken = some pos := by rw [Recorder.taken, hphase]
    have hlt : pos < s.metrics.latencyRingPos := by
      apply List.mem_range.mp
      apply h.taken.mem_iff.mp
      rw [hsplit]
      exact List.mem_filterMap.mpr ⟨r, by simp, hsome⟩
    have hmod : pos % latencyRingSize = pos := Nat.mod_eq_of_lt (by omega)
    rw [List.filterMap_cons_some hsome] at htaken
    refine ⟨?_, ?_, ?_⟩
    · dsimp only
      rw [List.length_set]
      exact h.length
    · rw [List.filterMap_append]
      exact htaken
    · intro x hx place hdone
      dsimp only
      rw [hmod]
      rcases mem_of_split (r := r) hx with rfl | ⟨hother, hx⟩
      · cases hdone
        exact List.getElem?_set_self (by rw [h.length]; omega)
      · rw [List.getElem?_set_ne (h.ne_of_done hsplit hsome hother hdone)]
        exact hstored x hx place hdone
  | done hphase =>
    refine ⟨h.length, ?_, hstored⟩
    rw [List.filterMap_append]
    exact htaken

def AllDone (s : Recording) : Prop := ∀ r ∈ s.recorders, r.isDone = true

theorem phase_of_isDone {r : Recorder} (h : r.isDone = true) : ∃ pos, r.phase = .done pos := by
  unfold Recorder.isDone at h
  split at h
  · exact ⟨_, ‹_›⟩
  · cases h

theorem length_run (values : List Nat) (es : List (Nat × Bool)) :
    (run step (start values) es).recorders.length = values.length := by
  rw [← List.length_map Recorder.us, map_us_run]

theorem length_step (s : Recording) (e : Nat × Bool) :
    (s.step e).recorders.length = s.recorders.length := by
  cases h : s.recorders[e.1]? with
  | none => rw [step_of_none h]
  | some r => rw [step_of_some h, List.length_set]

theorem placed_run {values : List Nat} (hroom : values.length ≤ latencyRingSize)
    (es : List (Nat × Bool)) : Placed (run step (start values) es) := by
  have hkeep (s : Recording) (e : Nat × Bool)
      (h : s.recorders.length ≤ latencyRingSize ∧ Placed s) :
      (s.step e).recorders.length ≤ latencyRingSize ∧ Placed (s.step e) :=
    ⟨(length_step s e).trans_le h.1, placed_step h.1 e h.2⟩
  have hstart : (start values).recorders.length ≤ latencyRingSize := by
    rw [start_recorders, List.length_map]
    exact hroom
  exact (run_preserves hkeep ⟨hstart, placed_start values⟩ es).2

theorem map_us_of_done {ring : List Nat} {recorders : List Recorder}
    (hdone : ∀ r ∈ recorders, r.isDone = true)
    (hstored : ∀ r ∈ recorders, ∀ pos, r.phase = .done pos → ring[pos]? = some r.us) :
    recorders.map Recorder.us =
      (recorders.filterMap Recorder.taken).map fun pos => ring[pos]?.getD 0 := by
  induction recorders with
  | nil => rfl
  | cons r rest ih =>
    obtain ⟨pos, hpos⟩ := phase_of_isDone (hdone r List.mem_cons_self)
    have htaken : r.taken = some pos := by rw [Recorder.taken, hpos]
    have hrest := ih (fun x hx => hdone x (List.mem_cons_of_mem r hx))
      fun x hx => hstored x (List.mem_cons_of_mem r hx)
    rw [List.filterMap_cons_some htaken, List.map_cons, List.map_cons, hrest,
      hstored r List.mem_cons_self pos hpos]
    rfl

theorem map_range_getD {ring : List Nat} {n : Nat} (h : n ≤ ring.length) :
    (List.range n).map (fun pos => ring[pos]?.getD 0) = ring.take n := by
  apply List.ext_getElem
  · rw [List.length_map, List.length_range, List.length_take, Nat.min_eq_left h]
  · intro i hi hi'
    rw [List.length_map, List.length_range] at hi
    rw [List.getElem_map, List.getElem_range, List.getElem_take,
      List.getElem?_eq_getElem (Nat.lt_of_lt_of_le hi h)]
    rfl

theorem ring_perm (h : Placed s) (hroom : s.recorders.length ≤ latencyRingSize)
    (hdone : AllDone s) : s.metrics.latencyRingPos = s.recorders.length ∧
      (s.metrics.latencyRing.take s.recorders.length).Perm (s.recorders.map Recorder.us) := by
  have hall := map_us_of_done hdone h.stored
  have hperm := h.taken.map fun pos => s.metrics.latencyRing[pos]?.getD 0
  have hlength := h.taken.length_eq
  have hcount := congrArg List.length hall
  rw [List.length_map, List.length_map, hlength, List.length_range] at hcount
  rw [← hcount, map_range_getD (by rw [h.length]; omega), ← hall] at hperm
  exact ⟨hcount.symm, hperm.symm⟩

theorem mergeSort_eq_of_perm {as bs : List Nat} (h : as.Perm bs) :
    as.mergeSort (· ≤ ·) = bs.mergeSort (· ≤ ·) := by
  apply List.Perm.eq_of_pairwise' (r := (· ≤ ·))
  · exact List.pairwise_mergeSort' _ _
  · exact List.pairwise_mergeSort' _ _
  · exact (List.mergeSort_perm as _).trans (h.trans (List.mergeSort_perm bs _).symm)

theorem percentiles_of_done (places : PercentilePlaces) (h : Placed s)
    (hroom : s.recorders.length ≤ latencyRingSize) (hdone : AllDone s) :
    latencyPercentiles places s.metrics = percentilesOf places (s.recorders.map Recorder.us) := by
  obtain ⟨hpos, hperm⟩ := ring_perm h hroom hdone
  unfold latencyPercentiles percentilesOf
  dsimp only
  rw [hpos, List.length_map]
  by_cases hzero : s.recorders.length = 0
  · rw [if_pos hzero, List.length_eq_zero_iff.mp hzero, List.map_nil, List.mergeSort_nil]
    rfl
  · rw [if_neg hzero, Nat.min_eq_left hroom, mergeSort_eq_of_perm hperm]

theorem sum_of_done (h : Summed s) (hdone : AllDone s) :
    s.metrics.latencySumUs = (s.recorders.map Recorder.us).sum % 2 ^ 64 := by
  have hadded : s.recorders.map Recorder.added = s.recorders.map Recorder.us := by
    apply List.map_congr_left
    intro r hr
    obtain ⟨pos, hpos⟩ := phase_of_isDone (hdone r hr)
    exact if_neg (by rw [hpos]; nofun)
  rw [h, hadded]

end Recording

/-- What has been recorded when any number of the calls are done. -/
structure RecordsLatencies (places : PercentilePlaces) (values : List Nat) (s : Recording) :
    Prop where
  between : ∀ r ∈ s.recorders, r.isDone = true →
    s.metrics.latencyMinUs ≤ r.us ∧ r.us ≤ s.metrics.latencyMaxUs
  max : s.metrics.latencyMaxUs = 0 ∨ s.metrics.latencyMaxUs ∈ values
  min : s.metrics.latencyMinUs = 2 ^ 64 - 1 ∨ s.metrics.latencyMinUs ∈ values
  sum : s.AllDone → s.metrics.latencySumUs = values.sum % 2 ^ 64
  percentiles : s.AllDone → values.length ≤ latencyRingSize →
    latencyPercentiles places s.metrics = percentilesOf places values

open Recording in
theorem records_latencies (places : PercentilePlaces) (values : List Nat)
    (es : List (Nat × Bool)) : RecordsLatencies places values
      (run Recording.step (start values) es) := by
  have hmax := raised_max values es
  have hmin := raised_min values es
  have hus := map_us_run values es
  have hlength := length_run values es
  have hsummed : Summed (run Recording.step (start values) es) :=
    run_preserves summed_step (summed_start values) es
  constructor
  · intro r hr hdone
    obtain ⟨pos, hpos⟩ := phase_of_isDone hdone
    have hmaxDone : r.maxWriter.phase = .done := by rw [Recorder.maxWriter, hpos]
    have hminDone : r.minWriter.phase = .done := by rw [Recorder.minWriter, hpos]
    have hle := hmax.done_le r.maxWriter (List.mem_map_of_mem hr) hmaxDone
    have hge := hmin.done_le r.minWriter (List.mem_map_of_mem hr) hminDone
    exact ⟨Nat.le_of_not_lt hge, Nat.le_of_not_lt hle⟩
  · rcases hmax.held with heq | hmem
    · exact .inl heq
    · have hvalue : (run Recording.step (start values) es).metrics.latencyMaxUs ∈
          (run Recording.step (start values) es).recorders.map Recorder.us := by
        rw [maxCell, cell, List.map_map] at hmem
        exact hmem
      rw [hus] at hvalue
      exact .inr hvalue
  · rcases hmin.held with heq | hmem
    · exact .inl heq
    · have hvalue : (run Recording.step (start values) es).metrics.latencyMinUs ∈
          (run Recording.step (start values) es).recorders.map Recorder.us := by
        rw [minCell, cell, List.map_map] at hmem
        exact hmem
      rw [hus] at hvalue
      exact .inr hvalue
  · intro hdone
    rw [sum_of_done hsummed hdone, hus]
  · intro hdone hroom
    rw [percentiles_of_done places (placed_run hroom es) (hlength.trans_le hroom) hdone, hus]

/-! ## How long the calls can go on -/

namespace Recorder

/-- The operations of a call outside its loops that are still to come. -/
def rest (r : Recorder) : Nat :=
  match r.phase with
  | .addSum => 3
  | .storeSlot _ => 1
  | .done _ => 0
  | _ => 2

/-- An operation of a call that is not done, unless it is a swap that fails for no reason. -/
def counts (m : LatencyMetrics) (r : Recorder) (spurious : Bool) : Nat :=
  match r.phase with
  | .swapMax currentMax => if m.latencyMaxUs = currentMax ∧ spurious = true then 0 else 1
  | .swapMin currentMin => if m.latencyMinUs = currentMin ∧ spurious = true then 0 else 1
  | .done _ => 0
  | _ => 1

variable {m : LatencyMetrics} {r : Recorder} {spurious : Bool}

theorem counts_of_inMax (h : r.inMax = true) :
    r.counts m spurious = r.maxWriter.counts m.latencyMaxUs spurious ∧ r.inMin = false := by
  obtain ⟨us, phase⟩ := r
  cases phase with
  | loadMax => exact ⟨rfl, rfl⟩
  | swapMax currentMax => exact ⟨rfl, rfl⟩
  | addSum | loadMin | swapMin _ | takePos | storeSlot _ | done _ => cases h

theorem counts_of_inMin (h : r.inMin = true) :
    r.counts m spurious = r.minWriter.counts m.latencyMinUs spurious := by
  obtain ⟨us, phase⟩ := r
  cases phase with
  | loadMin => rfl
  | swapMin currentMin => rfl
  | addSum | loadMax | swapMax _ | takePos | storeSlot _ | done _ => cases h

/-- A call does not go back. -/
theorem rest_step_le (m : LatencyMetrics) (r : Recorder) (spurious : Bool) :
    (r.step m spurious).2.rest ≤ r.rest := by
  have hmove := r.move m spurious
  generalize r.step m spurious = result at hmove
  cases hmove with
  | addSum h =>
    rw [rest.eq_def r, h]
    exact Nat.le_succ 2
  | loop _ _ phase hold hnew =>
    obtain ⟨us, old⟩ := r
    have htwo {phase : RecorderPhase}
        (h : Recorder.taken ⟨us, phase⟩ = none ∧ phase ≠ .addSum) :
        Recorder.rest ⟨us, phase⟩ = 2 := by
      cases phase with
      | addSum => exact absurd rfl h.2
      | storeSlot pos => cases h.1
      | done pos => cases h.1
      | loadMax | swapMax _ | loadMin | swapMin _ | takePos => rfl
    rw [htwo hold, htwo hnew]
  | takePos h =>
    rw [rest.eq_def r, h]
    exact Nat.le_succ 1
  | storeSlot pos h =>
    rw [rest.eq_def r, h]
    exact Nat.zero_le 1
  | done h => exact Nat.le_refl _

theorem counts_add_rest_le (hmax : r.inMax = false) (hmin : r.inMin = false) :
    r.counts m spurious + (r.step m spurious).2.rest ≤ r.rest := by
  obtain ⟨us, phase⟩ := r
  cases phase with
  | addSum | takePos | storeSlot _ | done _ => exact Nat.le_refl _
  | loadMax | swapMax _ => cases hmax
  | loadMin | swapMin _ => cases hmin

end Recorder

namespace Recording

def counts (s : Recording) (e : Nat × Bool) : Nat :=
  match s.recorders[e.1]? with
  | none => 0
  | some r => r.counts s.metrics e.2

def potential (s : Recording) : Nat :=
  remaining Recorder.rest s.recorders + Extremum.potential s.maxCell +
    Extremum.potential s.minCell

section Cell

variable {value : LatencyMetrics → Nat} {writer : Recorder → Extremum.Writer Nat}
  {s : Recording} {e : Nat × Bool} {r : Recorder}

theorem counts_cell (h : s.recorders[e.1]? = some r) :
    Extremum.counts (cell value writer s) e = (writer r).counts (value s.metrics) e.2 := by
  have hwriter : (cell value writer s).writers[e.1]? = some (writer r) := by
    rw [cell, List.getElem?_map, h]
    rfl
  rw [Extremum.counts, hwriter]
  rfl

theorem stepsOf_of_some {inLoop : Recorder → Bool} (h : s.recorders[e.1]? = some r) :
    s.stepsOf inLoop e = if inLoop r then [e] else [] := by
  rw [stepsOf, h]
  rfl

end Cell

theorem counts_add_potential_le (s : Recording) (e : Nat × Bool) :
    s.counts e + (s.step e).potential ≤ s.potential := by
  have hmaxCell : (s.step e).maxCell = run (Extremum.step fun a b => a < b) s.maxCell
      (s.stepsOf Recorder.inMax e) := cell_step Recorder.maxWriter_step s e
  have hminCell : (s.step e).minCell = run (Extremum.step Above) s.minCell
      (s.stepsOf Recorder.inMin e) := cell_step Recorder.minWriter_step s e
  cases h : s.recorders[e.1]? with
  | none =>
    rw [step_of_none h, counts, h]
    exact Nat.le_of_eq (Nat.zero_add _)
  | some r =>
    have hrest := remaining_set Recorder.rest h (r.step s.metrics e.2).2
    have hback := r.rest_step_le s.metrics e.2
    have hrecorders : (s.step e).recorders = s.recorders.set e.1 (r.step s.metrics e.2).2 := by
      rw [step_of_some h]
    rw [stepsOf_of_some h] at hmaxCell hminCell
    rw [counts, h]
    unfold potential
    rw [hrecorders, hmaxCell, hminCell]
    dsimp only
    cases hmax : r.inMax with
    | true =>
      obtain ⟨hcounts, hmin⟩ := Recorder.counts_of_inMax hmax
      have hcell : Extremum.counts s.maxCell e = r.counts s.metrics e.2 :=
        (counts_cell h).trans hcounts.symm
      have hpays : Extremum.counts s.maxCell e +
          Extremum.potential (Extremum.step (fun a b => a < b) s.maxCell e) ≤ _ :=
        Extremum.counts_add_potential_le s.maxCell e
      rw [hmin, if_pos rfl, if_neg Bool.false_ne_true, run_cons, run_nil, run_nil]
      omega
    | false =>
      cases hmin : r.inMin with
      | true =>
        have hcell : Extremum.counts s.minCell e = r.counts s.metrics e.2 :=
          (counts_cell h).trans (Recorder.counts_of_inMin hmin).symm
        have hpays : Extremum.counts s.minCell e +
            Extremum.potential (Extremum.step Above s.minCell e) ≤ _ :=
          Extremum.counts_add_potential_le s.minCell e
        rw [if_pos rfl, if_neg Bool.false_ne_true, run_cons, run_nil, run_nil]
        omega
      | false =>
        have hpays : r.counts s.metrics e.2 + (r.step s.metrics e.2).2.rest ≤ _ :=
          Recorder.counts_add_rest_le hmax hmin
        rw [if_neg Bool.false_ne_true, run_nil, run_nil]
        omega

theorem potential_start (values : List Nat) :
    (start values).potential = values.length * (2 * values.length + 7) := by
  have hrest : remaining Recorder.rest (start values).recorders = 3 * values.length := by
    rw [start_recorders]
    induction values with
    | nil => rfl
    | cons us rest ih =>
      rw [List.map_cons, remaining, ih, List.length_cons, Nat.mul_succ, Nat.add_comm]
      rfl
  unfold potential
  rw [hrest, maxCell_start, minCell_start, Extremum.potential_start, Extremum.potential_start]
  have hsplit : values.length * (2 * values.length + 7) =
      2 * (values.length * (2 + values.length)) + 3 * values.length := by
    rw [Nat.mul_add, Nat.mul_add, Nat.mul_left_comm]
    omega
  omega

theorem allDone_of_counts {s : Recording} (h : ∀ i, s.counts (i, false) = 0) : s.AllDone := by
  intro r hr
  obtain ⟨i, hi⟩ := List.getElem?_of_mem hr
  have hzero := h i
  rw [counts, hi] at hzero
  obtain ⟨us, phase⟩ := r
  cases phase with
  | addSum | loadMax | loadMin | takePos | storeSlot _ => cases hzero
  | swapMax currentMax => simp [Recorder.counts] at hzero
  | swapMin currentMin => simp [Recorder.counts] at hzero
  | done pos => rfl

end Recording

open Recording in
/-- Lock-freedom: whatever the schedule, the calls take a bounded number of operations together,
beside the swaps that fail for no reason, and when none of them can take another one, all are
done. -/
theorem recorders_finish (values : List Nat) (es : List (Nat × Bool)) :
    total Recording.step counts (start values) es ≤
        values.length * (2 * values.length + 7) ∧
      ((∀ i, (run Recording.step (start values) es).counts (i, false) = 0) →
        (run Recording.step (start values) es).AllDone) := by
  have hpaid := total_add_potential_le counts_add_potential_le (start values) es
  rw [potential_start] at hpaid
  exact ⟨Nat.le_trans (Nat.le_add_right _ _) hpaid, allDone_of_counts⟩

end Conproxy
