import Mathlib.Algebra.Ring.Nat
import Mathlib.Data.Rat.Floor
import Conproxy.Lib.Trace
import Conproxy.Lib.Window
import Conproxy.Sections

/-!
# The adaptive timeout

The window of latencies of `adaptive.rs` and the timeout that is computed from it after every tenth
record. Everything is kept in microseconds, as a `u64`.
-/

namespace Conproxy

open Machine Window

set_option autoImplicit false

/-- `as_micros()`. -/
def wholeMicros (d : Duration) : Nat := d / 1000

/-- `as_micros() as u64`. -/
def asMicros (d : Duration) : Nat := wholeMicros d % 2 ^ 64

def fromMicros (us : Nat) : Duration := us * 1000

/-- The floating-point results: `(len as f64 * 0.99).ceil() as usize`, and the product of the
percentile and the multiplier as a `u64`. -/
structure LatencyArith where
  ceil99 : Nat → Nat
  scaled : Nat → F64 → Nat

structure AdaptiveTimeoutConfig where
  minTimeout : Duration
  maxTimeout : Duration
  latencyMultiplier : F64
  sampleSize : Nat
  initialTimeout : Duration

structure AdaptiveTimeout where
  config : AdaptiveTimeoutConfig
  samples : List Nat
  writePos : Nat
  sampleCount : Nat
  cachedP99 : Nat
  currentTimeout : Nat

namespace AdaptiveTimeout

def new (config : AdaptiveTimeoutConfig) : AdaptiveTimeout where
  config := config
  samples := []
  writePos := 0
  sampleCount := 0
  cachedP99 := 0
  currentTimeout := asMicros config.initialTimeout

def timeout (t : AdaptiveTimeout) : Duration := fromMicros t.currentTimeout

/-- `clamp` panics if the bounds are the wrong way round. -/
def clamp (us low high : Nat) : Option Nat :=
  if high < low then none else some (if us < low then low else if high < us then high else us)

variable (A : LatencyArith)

/-- The state that `recalculate` leaves: a panic in `clamp` comes after the percentile is stored. -/
def recalculate (t : AdaptiveTimeout) : AdaptiveTimeout :=
  if t.samples.isEmpty then t
  else
    let sorted := t.samples.mergeSort
    let index := min (A.ceil99 sorted.length - 1) (sorted.length - 1)
    let p99 := sorted.getD index 0
    let scaled := A.scaled p99 t.config.latencyMultiplier
    let clamped := clamp scaled (asMicros t.config.minTimeout) (asMicros t.config.maxTimeout)
    { t with cachedP99 := p99, currentTimeout := clamped.getD t.currentTimeout }

/-- The write under the lock; a remainder by zero is taken to be zero. -/
def push (t : AdaptiveTimeout) (us : Nat) : AdaptiveTimeout :=
  { t with
    samples :=
      if t.samples.length < t.config.sampleSize then t.samples ++ [us]
      else
        t.samples.set (if t.config.sampleSize = 0 then 0 else t.writePos % t.config.sampleSize) us
    writePos := (t.writePos + 1) % 2 ^ 64
    sampleCount := (t.sampleCount + 1) % 2 ^ 64 }

def record (t : AdaptiveTimeout) (latency : Duration) : AdaptiveTimeout :=
  let written := t.push (asMicros latency)
  if written.sampleCount % 10 = 0 then written.recalculate A else written

def reset (t : AdaptiveTimeout) : AdaptiveTimeout := new t.config

def step (t : AdaptiveTimeout) : RingCall Duration → AdaptiveTimeout
  | .write latency => t.record A latency
  | .reset => t.reset

def ring (t : AdaptiveTimeout) : RingState Nat := ⟨t.samples, t.writePos⟩

/-- At most as long as the longest timeout, and at least as long as the shortest one in whole
microseconds. -/
def InRange (config : AdaptiveTimeoutConfig) (timeout : Duration) : Prop :=
  fromMicros (wholeMicros config.minTimeout) ≤ timeout ∧ timeout ≤ config.maxTimeout

variable {A} {t : AdaptiveTimeout}

@[simp] theorem recalculate_ring : (t.recalculate A).ring = t.ring := by
  unfold recalculate
  split <;> rfl

@[simp] theorem recalculate_config : (t.recalculate A).config = t.config := by
  unfold recalculate
  split <;> rfl

theorem push_ring (hfit : t.samples.length ≤ t.config.sampleSize) (us : Nat) :
    (t.push us).ring = t.ring.step t.config.sampleSize (2 ^ 64) (.write us) := by
  unfold push ring RingState.step Window.write
  by_cases hzero : t.config.sampleSize = 0
  · -- a ring without cells stays empty, wherever the position points
    have hempty : t.samples = [] := List.eq_nil_of_length_eq_zero (by omega)
    simp [hzero, hempty]
  · simp [hzero]

theorem record_ring (hfit : t.samples.length ≤ t.config.sampleSize) (latency : Duration) :
    (t.record A latency).ring =
      t.ring.step t.config.sampleSize (2 ^ 64) (.write (asMicros latency)) := by
  rw [← push_ring hfit]
  unfold record
  by_cases hten : (t.push (asMicros latency)).sampleCount % 10 = 0
  · simp [hten]
  · simp [hten]

@[simp] theorem step_config (call : RingCall Duration) : (t.step A call).config = t.config := by
  cases call with
  | reset => rfl
  | write latency =>
    unfold step record
    by_cases hten : (t.push (asMicros latency)).sampleCount % 10 = 0
    · simp only [hten, if_true, recalculate_config]
      rfl
    · simp only [hten, if_false]
      rfl

@[simp] theorem run_config (calls : List (RingCall Duration)) :
    (run (step A) t calls).config = t.config := by
  induction calls generalizing t with
  | nil => rfl
  | cons call rest ih => exact ih.trans (step_config call)

theorem length_step_le (hfit : t.samples.length ≤ t.config.sampleSize)
    (call : RingCall Duration) :
    (t.step A call).samples.length ≤ t.config.sampleSize := by
  cases call with
  | reset => exact Nat.zero_le _
  | write latency =>
    have hcells : (t.record A latency).samples =
        Window.write t.config.sampleSize t.writePos (asMicros latency) t.samples :=
      congrArg RingState.cells (record_ring hfit latency)
    exact hcells ▸ length_write_le hfit _

theorem run_ring (hfit : t.samples.length ≤ t.config.sampleSize)
    (calls : List (RingCall Duration)) :
    (run (step A) t calls).ring =
      run (RingState.step t.config.sampleSize (2 ^ 64)) t.ring
        (calls.map (RingCall.map asMicros)) := by
  induction calls generalizing t with
  | nil => rfl
  | cons call rest ih =>
    have hfit' : (t.step A call).samples.length ≤ (t.step A call).config.sampleSize := by
      rw [step_config]
      exact length_step_le hfit call
    have hring : (t.step A call).ring =
        t.ring.step t.config.sampleSize (2 ^ 64) (call.map asMicros) := by
      cases call with
      | reset => rfl
      | write latency => exact record_ring hfit latency
    rw [run_cons, ih hfit', step_config, hring, List.map_cons, run_cons]

theorem exists_clamp {low high : Nat} (h : low ≤ high) (us : Nat) :
    ∃ clamped, clamp us low high = some clamped ∧ low ≤ clamped ∧ clamped ≤ high := by
  unfold clamp
  rw [if_neg (by omega)]
  refine ⟨_, rfl, ?_⟩
  split
  · omega
  · split <;> omega

/-- A recalculated timeout lies between the bounds that `clamp` is given. -/
theorem recalculate_bounds (hsamples : t.samples ≠ [])
    (hle : asMicros t.config.minTimeout ≤ asMicros t.config.maxTimeout) :
    fromMicros (asMicros t.config.minTimeout) ≤ (t.recalculate A).timeout ∧
      (t.recalculate A).timeout ≤ fromMicros (asMicros t.config.maxTimeout) := by
  unfold recalculate
  rw [if_neg (by simpa using hsamples)]
  obtain ⟨clamped, hclamp, hlow, hhigh⟩ := exists_clamp hle
    (A.scaled (t.samples.mergeSort.getD
      (min (A.ceil99 t.samples.mergeSort.length - 1) (t.samples.mergeSort.length - 1)) 0)
      t.config.latencyMultiplier)
  simp only [hclamp, timeout, Option.getD_some]
  exact ⟨Nat.mul_le_mul_right 1000 hlow, Nat.mul_le_mul_right 1000 hhigh⟩

theorem recalculate_inRange (hsamples : t.samples ≠ [])
    (hrange : wholeMicros t.config.minTimeout ≤ asMicros t.config.maxTimeout) :
    InRange t.config (t.recalculate A).timeout := by
  have hmax : asMicros t.config.maxTimeout < 2 ^ 64 := Nat.mod_lt _ (by decide)
  have hle : asMicros t.config.maxTimeout ≤ wholeMicros t.config.maxTimeout := Nat.mod_le _ _
  have hwhole : wholeMicros t.config.maxTimeout * 1000 ≤ t.config.maxTimeout :=
    Nat.div_mul_le_self _ _
  have hmin : asMicros t.config.minTimeout = wholeMicros t.config.minTimeout :=
    Nat.mod_eq_of_lt (by omega)
  obtain ⟨hlow, hhigh⟩ := recalculate_bounds (A := A) hsamples (hmin.symm ▸ hrange)
  rw [hmin] at hlow
  exact ⟨hlow, hhigh.trans ((Nat.mul_le_mul_right 1000 hle).trans hwhole)⟩

theorem timeout_new (config : AdaptiveTimeoutConfig) :
    (new config).timeout = fromMicros (asMicros config.initialTimeout) := by
  simp only [timeout, new]

/-- A record leaves the timeout alone or recalculates it over samples that are there. -/
theorem step_timeout (hrange : wholeMicros t.config.minTimeout ≤ asMicros t.config.maxTimeout)
    (h : t.timeout = fromMicros (asMicros t.config.initialTimeout) ∨ InRange t.config t.timeout)
    (call : RingCall Duration) :
    (t.step A call).timeout = fromMicros (asMicros t.config.initialTimeout) ∨
      InRange t.config (t.step A call).timeout := by
  cases call with
  | reset =>
    have hreset : t.step A .reset = new t.config := rfl
    rw [hreset]
    exact Or.inl (timeout_new t.config)
  | write latency =>
    unfold step record
    by_cases hten : (t.push (asMicros latency)).sampleCount % 10 = 0
    · simp only [hten, if_true]
      by_cases hsamples : (t.push (asMicros latency)).samples = []
      · have hsame : (t.push (asMicros latency)).recalculate A = t.push (asMicros latency) := by
          unfold recalculate
          rw [if_pos (by simp [hsamples])]
        rw [hsame]
        exact h
      · have hpush : (t.push (asMicros latency)).config = t.config := rfl
        rw [← hpush] at hrange ⊢
        exact Or.inr (recalculate_inRange hsamples hrange)
    · simp only [hten, if_false]
      exact h

theorem run_timeout (hrange : wholeMicros t.config.minTimeout ≤ asMicros t.config.maxTimeout)
    (h : t.timeout = fromMicros (asMicros t.config.initialTimeout) ∨ InRange t.config t.timeout)
    (calls : List (RingCall Duration)) :
    (run (step A) t calls).timeout = fromMicros (asMicros t.config.initialTimeout) ∨
      InRange t.config (run (step A) t calls).timeout := by
  induction calls generalizing t with
  | nil => exact h
  | cons call rest ih =>
    have hstep := step_timeout (A := A) hrange h call
    have hconfig : (t.step A call).config = t.config := step_config call
    rw [← hconfig] at hstep hrange ⊢
    exact ih hrange hstep

end AdaptiveTimeout

section Samples

variable {A : LatencyArith} {config : AdaptiveTimeoutConfig}

/-- Up to the first wrap of the position, the samples are a ring of the latencies. -/
theorem run_samples (calls : List (RingCall Duration))
    (hwrap : config.sampleSize ∣ 2 ^ 64 ∨ BeforeWrap (2 ^ 64) [] calls) :
    let t := run (AdaptiveTimeout.step A) (AdaptiveTimeout.new config) calls
    Holds config.sampleSize ((history [] calls).map asMicros) t.samples ∧
      t.writePos = (history [] calls).length % 2 ^ 64 := by
  intro t
  have hfit : (AdaptiveTimeout.new config).samples.length ≤ config.sampleSize := Nat.zero_le _
  have hring : t.ring = _ := AdaptiveTimeout.run_ring hfit calls
  have hmapped : config.sampleSize ∣ 2 ^ 64 ∨
      BeforeWrap (2 ^ 64) [] (calls.map (RingCall.map asMicros)) :=
    hwrap.imp_right beforeWrap_map
  have hstart : Holds config.sampleSize [] (AdaptiveTimeout.new config).ring.cells := holds_nil
  obtain ⟨hholds, hpos⟩ := run_holds hmapped hstart rfl
  have hhistory :
      history [] (calls.map (RingCall.map asMicros)) = (history [] calls).map asMicros :=
    history_map asMicros [] calls
  rw [hhistory] at hholds hpos
  rw [List.length_map] at hpos
  have hsamples : t.samples = _ := congrArg RingState.cells hring
  have hposition : t.writePos = _ := congrArg RingState.pos hring
  rw [hsamples, hposition]
  exact ⟨hholds, hpos⟩

/-- After any calls, up to the first wrap of the position, the samples are the last latencies, and
a timeout that has been recalculated is in the range of the configuration. -/
theorem adaptive_window (calls : List (RingCall Duration))
    (hwrap : config.sampleSize ∣ 2 ^ 64 ∨ BeforeWrap (2 ^ 64) [] calls)
    (hrange : wholeMicros config.minTimeout ≤ asMicros config.maxTimeout) :
    let t := run (AdaptiveTimeout.step A) (AdaptiveTimeout.new config) calls
    t.samples.Perm (((history [] calls).map asMicros).rtake config.sampleSize) ∧
      (t.timeout = fromMicros (asMicros config.initialTimeout) ∨
        AdaptiveTimeout.InRange config t.timeout) ∧
      (t.samples ≠ [] → AdaptiveTimeout.InRange config (t.recalculate A).timeout) := by
  intro t
  have hconfig : t.config = config := AdaptiveTimeout.run_config calls
  have hstart := AdaptiveTimeout.timeout_new config
  refine ⟨(run_samples calls hwrap).1.perm,
    AdaptiveTimeout.run_timeout hrange (Or.inl hstart) calls, fun hsamples => ?_⟩
  have hlast := AdaptiveTimeout.recalculate_inRange (A := A) hsamples (hconfig.symm ▸ hrange)
  rwa [hconfig] at hlast

end Samples

/-- The percentile without rounding, and the product rounded down. -/
def LatencyArith.exact : LatencyArith where
  ceil99 n := (n * 99 + 99) / 100
  scaled us multiplier :=
    match multiplier with
    | .finite q => (q * us).floor.toNat
    | _ => 0

def oneTimeout (d : Duration) : AdaptiveTimeoutConfig := ⟨d, d, .finite 1, 3, 0⟩

def afterOne (d : Duration) : AdaptiveTimeout :=
  run (AdaptiveTimeout.step LatencyArith.exact) (AdaptiveTimeout.new (oneTimeout d)) [.write 1000]

theorem afterOne_timeout_le (d : Duration) :
    ((afterOne d).recalculate LatencyArith.exact).timeout ≤ fromMicros (asMicros d) := by
  have hsamples : (afterOne d).samples ≠ [] := by
    change [asMicros 1000] ≠ []
    exact List.cons_ne_nil _ _
  exact (AdaptiveTimeout.recalculate_bounds hsamples (Nat.le_refl _)).2

/-- Of `n` and one more latencies, the last one is a microsecond and the others are nothing. -/
def microsecondLast (n : Nat) : List Duration := List.replicate n 0 ++ [1000]

theorem micros_microsecondLast (n : Nat) :
    (microsecondLast n).map asMicros = List.replicate n 0 ++ [1] := by
  rw [microsecondLast, List.map_append, List.map_replicate]
  rfl

theorem microsecondLast_get {n i : Nat} (hi : i < n) :
    ((microsecondLast n).map asMicros)[i]? = some 0 := by
  rw [micros_microsecondLast, List.getElem?_append_left (by rw [List.length_replicate]; exact hi),
    List.getElem?_replicate, if_pos hi]

def wrapping (n : Nat) : List (RingCall Duration) := (microsecondLast n ++ [0]).map RingCall.write

/-- The position wraps after the microsecond, and the next latency takes its place. -/
theorem newest_overwritten {n : Nat} (hn : n + 1 = 2 ^ 64) :
    1 ∉ (run (AdaptiveTimeout.step LatencyArith.exact)
      (AdaptiveTimeout.new (oneTimeout 1000)) (wrapping n)).samples := by
  let calls := (microsecondLast n).map RingCall.write
  let t := run (AdaptiveTimeout.step LatencyArith.exact)
    (AdaptiveTimeout.new (oneTimeout 1000)) calls
  have hcount : (microsecondLast n).length = n + 1 := by
    simp [microsecondLast]
  have hlength : calls.length = n + 1 := by
    rw [List.length_map, hcount]
  have hhistory : history [] calls = microsecondLast n := history_writes [] _
  have hwrap : (oneTimeout 1000).sampleSize ∣ 2 ^ 64 ∨ BeforeWrap (2 ^ 64) [] calls :=
    Or.inr (beforeWrap_of_length_le (by omega))
  have hsamples : Holds 3 ((history [] calls).map asMicros) t.samples ∧
      t.writePos = (history [] calls).length % 2 ^ 64 := run_samples calls hwrap
  rw [hhistory, hcount, hn, Nat.mod_self] at hsamples
  obtain ⟨hholds, hpos⟩ := hsamples
  have hfull : t.samples.length = 3 := by
    rw [hholds.length, List.length_map, hcount]
    omega
  have hlast : (run (AdaptiveTimeout.step LatencyArith.exact)
      (AdaptiveTimeout.new (oneTimeout 1000)) (wrapping n)).samples = t.samples.set 0 0 := by
    have hconfig : t.config = oneTimeout 1000 := AdaptiveTimeout.run_config calls
    have hring := AdaptiveTimeout.record_ring (A := LatencyArith.exact) (t := t)
      (by rw [hfull, hconfig]; exact Nat.le_refl _) 0
    rw [wrapping, List.map_append, run_append]
    refine (congrArg RingState.cells hring).trans ?_
    simp [AdaptiveTimeout.ring, RingState.step, Window.write, hconfig, hfull, hpos, oneTimeout,
      asMicros, wholeMicros]
  have hget (i : Nat) (hi : n ≤ i + 2) (hlt : i < n) : t.samples[i % 3]? = some 0 := by
    rw [hholds.get i (by rw [List.length_map]; omega) (by rw [List.length_map]; omega)]
    exact microsecondLast_get hlt
  rw [hlast]
  intro hmem
  obtain ⟨i, hone⟩ := List.mem_iff_getElem?.mp hmem
  have hi : i < 3 := by
    have hlt := (List.getElem?_eq_some_iff.mp hone).1
    rwa [List.length_set, hfull] at hlt
  obtain rfl | rfl | rfl : i = 0 ∨ i = 1 ∨ i = 2 := by omega
  · rw [List.getElem?_set_self (by omega)] at hone
    cases hone
  · have hone' := hget (n - 2) (by omega) (by omega)
    rw [show (n - 2) % 3 = 1 by omega] at hone'
    rw [List.getElem?_set_ne (by decide), hone'] at hone
    cases hone
  · have hone' := hget (n - 1) (by omega) (by omega)
    rw [show (n - 1) % 3 = 2 by omega] at hone'
    rw [List.getElem?_set_ne (by decide), hone'] at hone
    cases hone

theorem newest_belongs (n : Nat) :
    1 ∈ ((history [] (wrapping n)).map asMicros).rtake 3 := by
  have hhistory : (history [] (wrapping n)).map asMicros = List.replicate n 0 ++ [1, 0] := by
    rw [wrapping, history_writes, List.nil_append, List.map_append, micros_microsecondLast,
      List.append_assoc]
    rfl
  have hle : n + [1, 0].length - 3 ≤ (List.replicate n 0).length := by
    rw [List.length_replicate]
    exact Nat.sub_le_of_le_add (Nat.le_succ _)
  rw [hhistory, List.rtake, List.length_append, List.length_replicate,
    List.drop_append_of_le_length hle]
  exact List.mem_append_right _ List.mem_cons_self

/-- A range below the microsecond or above 64 bits of them is missed, and so is the last latency
but one after the wrap. -/
theorem adaptive_window_missed :
    ¬ 1500 ≤ ((afterOne 1500).recalculate LatencyArith.exact).timeout ∧
      ¬ 2 ^ 64 * 1000 ≤ ((afterOne (2 ^ 64 * 1000)).recalculate LatencyArith.exact).timeout ∧
      ¬ (run (AdaptiveTimeout.step LatencyArith.exact) (AdaptiveTimeout.new (oneTimeout 1000))
          (wrapping (2 ^ 64 - 1))).samples.Perm
        (((history [] (wrapping (2 ^ 64 - 1))).map asMicros).rtake 3) := by
  refine ⟨?_, ?_, ?_⟩
  · have hle := afterOne_timeout_le 1500
    have hmicros : fromMicros (asMicros 1500) < 1500 := by decide
    exact Nat.not_le.mpr (Nat.lt_of_le_of_lt hle hmicros)
  · have hle := afterOne_timeout_le (2 ^ 64 * 1000)
    have hmicros : fromMicros (asMicros (2 ^ 64 * 1000)) < 2 ^ 64 * 1000 := by decide
    exact Nat.not_le.mpr (Nat.lt_of_le_of_lt hle hmicros)
  · intro hperm
    have hn : 2 ^ 64 - 1 + 1 = 2 ^ 64 := by decide
    exact newest_overwritten hn (hperm.mem_iff.mpr (newest_belongs _))

/-- Four latencies for a window of three. -/
theorem window_of_three :
    let t := run (AdaptiveTimeout.step LatencyArith.exact)
      (AdaptiveTimeout.new ⟨2000, 9000, .finite 2, 3, 5000⟩)
      ([1000, 2000, 3000, 4000].map RingCall.write)
    t.samples.Perm [2, 3, 4] ∧
      (t.timeout = 5000 ∨ AdaptiveTimeout.InRange ⟨2000, 9000, .finite 2, 3, 5000⟩ t.timeout) ∧
      (t.samples ≠ [] → AdaptiveTimeout.InRange ⟨2000, 9000, .finite 2, 3, 5000⟩
        (t.recalculate LatencyArith.exact).timeout) :=
  adaptive_window _ (Or.inr (beforeWrap_of_length_le (by decide))) (by decide)

end Conproxy
