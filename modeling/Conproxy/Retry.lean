import Mathlib.Data.UInt
import Conproxy.Resilience
import Conproxy.Sections

/-!
# Retries

`RetryExecutor::execute` calls an operation again until it succeeds, fails for good or has been
retried often enough, and waits before every further call. The wait is computed in floating point:
a result that `Duration::from_secs_f64` does not take is a panic, after which nothing is called.
-/

namespace Conproxy

set_option autoImplicit false

structure RetryCondition where
  onNetworkError : Bool
  onTimeout : Bool
  onServerError : Bool
  onRateLimited : Bool
  onStatusCodes : List UInt16
deriving DecidableEq

def RetryCondition.default : RetryCondition := ⟨true, true, true, true, []⟩

def RetryCondition.shouldRetryStatus (c : RetryCondition) (status : UInt16) : Bool :=
  (c.onServerError && (500 ≤ status && status < 600)) || (c.onRateLimited && status == 429) ||
    c.onStatusCodes.contains status

/-- The trait `RetryableError`. -/
class RetryableError (E : Type) where
  isRetryable : E → RetryCondition → Bool

inductive RetryError
  | network (message : String)
  | timeout
  | status (code : UInt16) (message : String)
  | other (message : String)

instance : RetryableError RetryError where
  isRetryable
    | .network _, c => c.onNetworkError
    | .timeout, c => c.onTimeout
    | .status code _, c => c.shouldRetryStatus code
    | .other _, _ => false

structure RetryPolicy where
  maxRetries : UInt32
  initialDelay : Duration
  maxDelay : Duration
  backoffMultiplier : F64
  jitterFactor : F32
  retryOn : RetryCondition
deriving DecidableEq

/-- The floating-point operations of the back-off. -/
structure BackoffArith where
  asSecsF64 : Duration → F64
  powi : F64 → Int → F64
  mul : F64 → F64 → F64
  add : F64 → F64 → F64
  ofF32 : F32 → F64
  /-- `attempt as f32 * 0.618 % 1.0` -/
  jitterSeed : UInt32 → F32

/-- Arithmetic without rounding, for concrete runs. The constant is the `f32` next to 0.618. -/
def BackoffArith.exact : BackoffArith where
  asSecsF64 delay := .finite (delay / 10 ^ 9)
  powi
    | .finite base, exponent => .finite (base ^ exponent)
    | base, _ => base
  mul := F32Arith.exact.mul
  add := F32Arith.exact.add
  ofF32 value := value
  jitterSeed attempt :=
    let seed : ℚ := attempt.toNat * (10368319 / 16777216)
    .finite (seed - (seed.floor : ℚ))

/-- A finite number that is not negative and less than `2 ^ 64` seconds, to the nearest nanosecond
and to an even one between two. -/
def fromSecsF64 : F64 → Option Duration
  | .finite secs =>
    let nanos := secs * 10 ^ 9
    let rest := nanos - (nanos.floor : ℚ)
    if secs < 0 ∨ 2 ^ 64 ≤ secs then none
    else if 1 / 2 < rest ∨ (rest = 1 / 2 ∧ nanos.floor % 2 = 1) then some (nanos.floor.toNat + 1)
    else some nanos.floor.toNat
  | _ => none

/-- `as i32` of an attempt number. -/
def asI32Wrapping (n : UInt32) : Int := if n.toNat < 2 ^ 31 then n.toNat else n.toNat - 2 ^ 32

namespace RetryPolicy

/-- The wait before an attempt, if it is a duration. -/
def delayForAttempt (A : BackoffArith) (p : RetryPolicy) (attempt : UInt32) : Option Duration :=
  if attempt = 0 then some 0
  else
    let exponent := asI32Wrapping (attempt - 1)
    let baseDelay := A.mul (A.asSecsF64 p.initialDelay) (A.powi p.backoffMultiplier exponent)
    let delaySecs := F32.min baseDelay (A.asSecsF64 p.maxDelay)
    let jitter :=
      if F32.lt F32.zero p.jitterFactor then
        A.mul (A.ofF32 (A.jitterSeed attempt)) (A.mul delaySecs (A.ofF32 p.jitterFactor))
      else F32.zero
    fromSecsF64 (A.add delaySecs jitter)

def shouldRetry (p : RetryPolicy) (attempt : UInt32) : Bool := attempt < p.maxRetries

end RetryPolicy

structure RetryResult (T E : Type) where
  result : Except E T
  attempts : UInt32

/-- A call of the operation, with the wait before it. -/
structure RetryAttempt (T E : Type) where
  attempt : UInt32
  delay : Duration
  outcome : Except E T

/-- What was called, and what was returned unless the execution panicked. -/
structure Execution (T E : Type) where
  calls : List (RetryAttempt T E)
  returned : Option (RetryResult T E)

/-- `saturating_add(1)` -/
def nextAttempt (attempt : UInt32) : UInt32 :=
  if attempt = 2 ^ 32 - 1 then attempt else attempt + 1

theorem nextAttempt_toNat {attempt bound : UInt32} (h : attempt < bound) :
    (nextAttempt attempt).toNat = attempt.toNat + 1 := by
  have hlt : attempt.toNat < bound.toNat := UInt32.lt_iff_toNat_lt.mp h
  have hbound := bound.toNat_lt
  have hne : attempt ≠ 2 ^ 32 - 1 := by
    rintro rfl
    change 4294967295 < bound.toNat at hlt
    omega
  rw [nextAttempt, if_neg hne, UInt32.toNat_add]
  change (attempt.toNat + 1) % 2 ^ 32 = attempt.toNat + 1
  omega

namespace RetryPolicy

section Execute

variable {T E : Type} [RetryableError E] (A : BackoffArith) (p : RetryPolicy)
  (outcomes : Nat → Except E T)

def canRetry (attempt : UInt32) (outcome : Except E T) : Bool :=
  match outcome with
  | .ok _ => false
  | .error e => p.shouldRetry attempt && RetryableError.isRetryable e p.retryOn

/-- The loop of `execute` from an attempt on; `made` operations have completed before. -/
def loop (attempt : UInt32) (made : Nat) : Execution T E :=
  match p.delayForAttempt A attempt with
  | none => ⟨[], none⟩
  | some delay =>
    let call : RetryAttempt T E := ⟨attempt, delay, outcomes made⟩
    if h : p.canRetry attempt (outcomes made) = true then
      let rest := loop (nextAttempt attempt) (made + 1)
      ⟨call :: rest.calls, rest.returned⟩
    else ⟨[call], some ⟨outcomes made, nextAttempt attempt⟩⟩
termination_by p.maxRetries.toNat - attempt.toNat
decreasing_by
  have hlt : attempt < p.maxRetries := by
    cases hout : outcomes made with
    | ok value =>
      rw [hout] at h
      cases h
    | error e =>
      rw [hout] at h
      exact of_decide_eq_true (Bool.and_eq_true_iff.mp h).1
  have hnext := nextAttempt_toNat hlt
  have hnat := UInt32.lt_iff_toNat_lt.mp hlt
  omega

/-- The operation is called with the number of the attempt, and its `n`-th completion is
`outcomes n`. -/
def execute : Execution T E := p.loop A outcomes 0 0

def isFinal (outcome : Except E T) : Bool :=
  match outcome with
  | .ok _ => true
  | .error e => !RetryableError.isRetryable e p.retryOn

/-- The number of the last call: the first with a final outcome, or the last that is allowed. -/
def lastCall : Nat :=
  ((List.range p.maxRetries.toNat).find? fun k => p.isFinal (outcomes k)).getD p.maxRetries.toNat

theorem lastCall_le : p.lastCall outcomes ≤ p.maxRetries.toNat := by
  unfold lastCall
  cases hfind : (List.range p.maxRetries.toNat).find? fun k => p.isFinal (outcomes k) with
  | none => exact Nat.le_refl _
  | some k => exact Nat.le_of_lt (List.mem_range.mp (List.mem_of_find?_eq_some hfind))

theorem not_final_of_lt {k : Nat} (h : k < p.lastCall outcomes) :
    p.isFinal (outcomes k) = false := by
  apply Bool.eq_false_of_not_eq_true
  intro hfinal
  unfold lastCall at h
  cases hfind : (List.range p.maxRetries.toNat).find? fun k => p.isFinal (outcomes k) with
  | none =>
    rw [hfind] at h
    have hnot := List.find?_range_eq_none.mp hfind k h
    rw [hfinal] at hnot
    cases hnot
  | some last =>
    rw [hfind] at h
    have hnot := (List.find?_range_eq_some.mp hfind).2.2 k h
    rw [hfinal] at hnot
    cases hnot

theorem lastCall_final :
    p.isFinal (outcomes (p.lastCall outcomes)) = true ∨
      p.lastCall outcomes = p.maxRetries.toNat := by
  unfold lastCall
  cases hfind : (List.range p.maxRetries.toNat).find? fun k => p.isFinal (outcomes k) with
  | none => exact Or.inr rfl
  | some k => exact Or.inl (List.find?_range_eq_some.mp hfind).1

theorem toNat_attempt {k : Nat} (h : k ≤ p.maxRetries.toNat) : (UInt32.ofNat k).toNat = k :=
  UInt32.toNat_ofNat_of_lt' (Nat.lt_of_le_of_lt h p.maxRetries.toNat_lt)

theorem nextAttempt_ofNat {k : Nat} (h : k < p.maxRetries.toNat) :
    nextAttempt (.ofNat k) = .ofNat (k + 1) := by
  have hk := p.toNat_attempt (Nat.le_of_lt h)
  have hlt : UInt32.ofNat k < p.maxRetries := UInt32.lt_iff_toNat_lt.mpr (by omega)
  apply UInt32.toNat_inj.mp
  rw [nextAttempt_toNat hlt, hk, p.toNat_attempt h]

theorem canRetry_ofNat {k : Nat} (h : k ≤ p.maxRetries.toNat) (outcome : Except E T) :
    p.canRetry (.ofNat k) outcome =
      (decide (k < p.maxRetries.toNat) && !p.isFinal outcome) := by
  have hlt : p.shouldRetry (.ofNat k) = decide (k < p.maxRetries.toNat) := by
    unfold shouldRetry
    apply decide_eq_decide.mpr
    rw [UInt32.lt_iff_toNat_lt, p.toNat_attempt h]
  cases outcome with
  | ok value => exact (Bool.and_false _).symm
  | error e =>
    unfold canRetry isFinal
    rw [hlt, Bool.not_not]

variable {A p outcomes} {attempt : UInt32} {made : Nat}

theorem loop_panics (h : p.delayForAttempt A attempt = none) :
    p.loop A outcomes attempt made = ⟨[], none⟩ := by
  rw [loop, h]

theorem loop_stops {delay : Duration} (h : p.delayForAttempt A attempt = some delay)
    (hstop : p.canRetry attempt (outcomes made) = false) :
    p.loop A outcomes attempt made =
      ⟨[⟨attempt, delay, outcomes made⟩], some ⟨outcomes made, nextAttempt attempt⟩⟩ := by
  rw [loop, h]
  exact dif_neg (Bool.eq_false_iff.mp hstop)

theorem loop_retries {delay : Duration} (h : p.delayForAttempt A attempt = some delay)
    (hretry : p.canRetry attempt (outcomes made) = true) :
    p.loop A outcomes attempt made =
      ⟨⟨attempt, delay, outcomes made⟩ ::
          (p.loop A outcomes (nextAttempt attempt) (made + 1)).calls,
        (p.loop A outcomes (nextAttempt attempt) (made + 1)).returned⟩ := by
  rw [loop, h]
  exact dif_pos hretry

variable (p outcomes)

/-- The loop from the call `k` on makes the calls that are due. -/
structure MakesCalls (k : Nat) (x : Execution T E) : Prop where
  numbers : x.calls.map (·.attempt) = (List.range' k (p.lastCall outcomes + 1 - k)).map .ofNat
  results : x.calls.map (·.outcome) = (List.range' k (p.lastCall outcomes + 1 - k)).map outcomes
  returned : x.returned =
    some ⟨outcomes (p.lastCall outcomes), nextAttempt (.ofNat (p.lastCall outcomes))⟩

theorem canRetry_lastCall :
    p.canRetry (.ofNat (p.lastCall outcomes)) (outcomes (p.lastCall outcomes)) = false := by
  rw [p.canRetry_ofNat (p.lastCall_le outcomes)]
  rcases p.lastCall_final outcomes with hfinal | hlast
  · rw [hfinal, Bool.not_true, Bool.and_false]
  · rw [hlast, decide_eq_false (Nat.lt_irrefl _), Bool.false_and]

theorem canRetry_of_lt {k : Nat} (h : k < p.lastCall outcomes) :
    p.canRetry (.ofNat k) (outcomes k) = true := by
  have hmax := Nat.lt_of_lt_of_le h (p.lastCall_le outcomes)
  rw [p.canRetry_ofNat (Nat.le_of_lt hmax), p.not_final_of_lt outcomes h, decide_eq_true hmax]
  rfl

variable {p outcomes}

theorem loop_makesCalls {k : Nat} (hk : k ≤ p.lastCall outcomes)
    (hdelay : ∀ j, k ≤ j → j ≤ p.lastCall outcomes →
      (p.delayForAttempt A (.ofNat j)).isSome = true) :
    MakesCalls p outcomes k (p.loop A outcomes (.ofNat k) k) := by
  induction hn : p.lastCall outcomes - k generalizing k with
  | zero =>
    obtain rfl : k = p.lastCall outcomes := by omega
    obtain ⟨delay, hd⟩ := Option.isSome_iff_exists.mp (hdelay _ hk hk)
    rw [loop_stops hd (p.canRetry_lastCall outcomes)]
    have hone : p.lastCall outcomes + 1 - p.lastCall outcomes = 1 := by omega
    constructor
    · rw [hone]
      rfl
    · rw [hone]
      rfl
    · rfl
  | succ n ih =>
    have hlt : k < p.lastCall outcomes := by omega
    have hmax := Nat.lt_of_lt_of_le hlt (p.lastCall_le outcomes)
    obtain ⟨delay, hd⟩ := Option.isSome_iff_exists.mp (hdelay k (Nat.le_refl k) hk)
    have hrest := ih (k := k + 1) hlt (fun j hj => hdelay j (by omega)) (by omega)
    rw [loop_retries hd (p.canRetry_of_lt outcomes hlt), p.nextAttempt_ofNat hmax]
    have hcount : p.lastCall outcomes + 1 - k = p.lastCall outcomes + 1 - (k + 1) + 1 := by omega
    constructor
    · rw [hcount, List.range'_succ]
      exact congrArg (UInt32.ofNat k :: ·) hrest.numbers
    · rw [hcount, List.range'_succ]
      exact congrArg (outcomes k :: ·) hrest.results
    · exact hrest.returned

/-- A run that returns has computed the wait of every call that was due. -/
theorem delays_of_returned {k : Nat} (hk : k ≤ p.lastCall outcomes)
    (h : (p.loop A outcomes (.ofNat k) k).returned.isSome = true) {j : Nat} (hkj : k ≤ j)
    (hj : j ≤ p.lastCall outcomes) : (p.delayForAttempt A (.ofNat j)).isSome = true := by
  induction hn : j - k generalizing k with
  | zero =>
    obtain rfl : k = j := by omega
    cases hd : p.delayForAttempt A (.ofNat k) with
    | none =>
      rw [loop_panics hd] at h
      cases h
    | some delay => rfl
  | succ n ih =>
    have hlt : k < p.lastCall outcomes := by omega
    have hmax := Nat.lt_of_lt_of_le hlt (p.lastCall_le outcomes)
    cases hd : p.delayForAttempt A (.ofNat k) with
    | none =>
      rw [loop_panics hd] at h
      cases h
    | some delay =>
      rw [loop_retries hd (p.canRetry_of_lt outcomes hlt), p.nextAttempt_ofNat hmax] at h
      exact ih hlt h (by omega) (by omega)

variable (A p outcomes)

/-- The operation is called with 0, 1, 2, and so on, at most once more than `max_retries`. Every
call but the last fails with an error to retry, the last succeeds or fails for good or is the last
that is allowed, and its outcome is returned. -/
def ExecutesRetries (x : Execution T E) : Prop :=
  ∃ last ≤ p.maxRetries.toNat, (∀ k < last, p.isFinal (outcomes k) = false) ∧
    (p.isFinal (outcomes last) = true ∨ last = p.maxRetries.toNat) ∧
    x.calls.map (·.attempt) = (List.range (last + 1)).map .ofNat ∧
    x.calls.map (·.outcome) = (List.range (last + 1)).map outcomes ∧
    ∃ r, x.returned = some r ∧ r.result = outcomes last ∧
      r.attempts.toNat = min (last + 1) (2 ^ 32 - 1)

theorem nextAttempt_lastCall :
    (nextAttempt (.ofNat (p.lastCall outcomes))).toNat =
      min (p.lastCall outcomes + 1) (2 ^ 32 - 1) := by
  have hlast := p.toNat_attempt (p.lastCall_le outcomes)
  have hbound := (UInt32.ofNat (p.lastCall outcomes)).toNat_lt
  unfold nextAttempt
  split
  · rename_i hmax
    have hmax' : (UInt32.ofNat (p.lastCall outcomes)).toNat = 2 ^ 32 - 1 := by
      rw [hmax]
      rfl
    omega
  · rename_i hmax
    have hmax' : (UInt32.ofNat (p.lastCall outcomes)).toNat ≠ 2 ^ 32 - 1 := fun h =>
      hmax (UInt32.toNat_inj.mp h)
    rw [UInt32.toNat_add]
    change ((UInt32.ofNat (p.lastCall outcomes)).toNat + 1) % 2 ^ 32 = _
    omega

theorem executesRetries_of_delays
    (h : ∀ k ≤ p.lastCall outcomes, (p.delayForAttempt A (.ofNat k)).isSome = true) :
    p.ExecutesRetries outcomes (p.execute A outcomes) := by
  have hcalls := loop_makesCalls (Nat.zero_le _) fun j _ hj => h j hj
  refine ⟨p.lastCall outcomes, p.lastCall_le outcomes, fun k => p.not_final_of_lt outcomes,
    p.lastCall_final outcomes, ?_, ?_, _, hcalls.returned, rfl, p.nextAttempt_lastCall outcomes⟩
  · rw [List.range_eq_range']
    exact hcalls.numbers
  · rw [List.range_eq_range']
    exact hcalls.results

theorem delays_of_executesRetries (h : p.ExecutesRetries outcomes (p.execute A outcomes)) :
    ∀ k ≤ p.lastCall outcomes, (p.delayForAttempt A (.ofNat k)).isSome = true := by
  obtain ⟨last, -, -, -, -, -, r, hreturned, -⟩ := h
  intro k hk
  apply delays_of_returned (Nat.zero_le _) _ (Nat.zero_le k) hk
  exact Option.isSome_iff_exists.mpr ⟨r, hreturned⟩

/-- For every policy, every arithmetic and every sequence of outcomes, the retries are executed
exactly if the wait before every call that is due is a duration. -/
theorem executes_retries_iff :
    p.ExecutesRetries outcomes (p.execute A outcomes) ↔
      ∀ k ≤ p.lastCall outcomes, (p.delayForAttempt A (.ofNat k)).isSome = true :=
  ⟨delays_of_executesRetries A p outcomes, executesRetries_of_delays A p outcomes⟩

end Execute

/-- The wait starts at a second, doubles with every attempt, and has no cap but `Duration::MAX`. -/
def uncapped : RetryPolicy where
  maxRetries := 100
  initialDelay := 10 ^ 9
  maxDelay := 2 ^ 64 * 10 ^ 9 - 1
  backoffMultiplier := .finite 2
  jitterFactor := .finite (13421773 / 134217728)
  retryOn := .default

theorem uncapped_delay : uncapped.delayForAttempt .exact 65 = none := by
  decide +kernel

/-- Every call times out, and before the sixty-sixth the wait is no duration. -/
theorem uncapped_panics :
    ¬uncapped.ExecutesRetries (T := Unit) (fun _ => .error RetryError.timeout)
      (uncapped.execute .exact fun _ => .error RetryError.timeout) := by
  intro h
  have hlast : uncapped.lastCall (T := Unit) (fun _ => .error RetryError.timeout) = 100 := by
    decide +kernel
  have hdelay := delays_of_executesRetries .exact uncapped _ h 65 (by omega)
  change (uncapped.delayForAttempt .exact 65).isSome = true at hdelay
  rw [uncapped_delay] at hdelay
  cases hdelay

end RetryPolicy

end Conproxy
