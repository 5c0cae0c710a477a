import Mathlib.Algebra.Ring.Nat
import Conproxy.Agent
import Conproxy.Lib.Costs

/-!
# The rate limiter and its clock

`RateLimiter` of `middleware.rs` with the time of its last refill. The time that passed since
then is credited when it is a millisecond at least, in whole thousandths of a token; until then
it stays owed. The product of the seconds, the rate and a thousand, which the source takes in
floating point, is exact here.
-/

namespace Conproxy

open Machine

set_option autoImplicit false

def u64Max : Nat := 18446744073709551615

/-- The readings of the clock are nanoseconds. -/
structure ClockedRateLimiter extends RateLimiter where
  lastRefill : Nat
deriving DecidableEq

inductive LimiterCall where
  | tryAcquire (now : Nat)
  | availableTokens (now : Nat)
deriving DecidableEq

def LimiterCall.now : LimiterCall → Nat
  | .tryAcquire now => now
  | .availableTokens now => now

namespace ClockedRateLimiter

def new (requestsPerSecond burstSize now : Nat) : ClockedRateLimiter :=
  ⟨.new requestsPerSecond burstSize, now⟩

def maxTokens (l : ClockedRateLimiter) : Nat := min (l.capacity * 1000) u64Max

def tokensToAdd (l : ClockedRateLimiter) (elapsed : Nat) : Nat :=
  min (elapsed * l.refillRate / 1000000) u64Max

def credited (l : ClockedRateLimiter) (elapsed : Nat) : Nat :=
  min (min (l.tokens + l.tokensToAdd elapsed) u64Max) l.maxTokens

def refill (l : ClockedRateLimiter) (now : Nat) : ClockedRateLimiter :=
  if 1000000 ≤ now - l.lastRefill then
    { l with tokens := l.credited (now - l.lastRefill), lastRefill := now }
  else l

def tryAcquire (l : ClockedRateLimiter) (now : Nat) : Bool × ClockedRateLimiter :=
  let refilled := l.refill now
  if refilled.toRateLimiter.tryAcquire then
    (true, { refilled with tokens := refilled.tokens - 1000 })
  else (false, refilled)

/-- The count is cut to 32 bits. -/
def availableTokens (l : ClockedRateLimiter) (now : Nat) : Nat × ClockedRateLimiter :=
  ((l.refill now).tokens / 1000 % 2 ^ 32, l.refill now)

def call (l : ClockedRateLimiter) : LimiterCall → ClockedRateLimiter
  | .tryAcquire now => (l.tryAcquire now).2
  | .availableTokens now => (l.availableTokens now).2

def granted (l : ClockedRateLimiter) : LimiterCall → Bool
  | .tryAcquire now => (l.tryAcquire now).1
  | .availableTokens _ => false

/-- One for a grant at a time from `since` to `till`. -/
def grantWithin (since till : Nat) (l : ClockedRateLimiter) (c : LimiterCall) : Nat :=
  if l.granted c && decide (since ≤ c.now) && decide (c.now ≤ till) then 1 else 0

def grants (since till : Nat) (l : ClockedRateLimiter) (calls : List LimiterCall) : Nat :=
  total call (grantWithin since till) l calls

def before (l : ClockedRateLimiter) (calls : List LimiterCall) (time : Nat) :
    ClockedRateLimiter :=
  run call l (calls.takeWhile fun c => decide (c.now < time))

/-- The time at which nothing was credited yet and which a later refill still credits. -/
def owed (l : ClockedRateLimiter) (time : Nat) : Nat :=
  if time - l.lastRefill < 1000000 then time - l.lastRefill else 0

/-- The calls are made one after the other, none of them before the limiter exists. -/
def InOrder (start : Nat) (calls : List LimiterCall) : Prop :=
  (start :: calls.map LimiterCall.now).Pairwise (· ≤ ·)

instance (start : Nat) (calls : List LimiterCall) : Decidable (InOrder start calls) :=
  inferInstanceAs (Decidable (List.Pairwise _ _))

theorem owed_lt (l : ClockedRateLimiter) (time : Nat) : l.owed time < 1000000 := by
  unfold owed
  split <;> omega

variable {l : ClockedRateLimiter} {now : Nat}

theorem refill_of_lt (h : now - l.lastRefill < 1000000) : l.refill now = l :=
  if_neg (by omega)

theorem refill_of_le (h : 1000000 ≤ now - l.lastRefill) :
    l.refill now =
      { l with tokens := l.credited (now - l.lastRefill), lastRefill := now } :=
  if_pos h

theorem credited_le_capacity (l : ClockedRateLimiter) (elapsed : Nat) :
    l.credited elapsed ≤ l.capacity * 1000 :=
  le_trans (min_le_right _ _) (min_le_left _ _)

theorem credited_le (l : ClockedRateLimiter) (elapsed : Nat) :
    l.credited elapsed * 1000000 ≤ l.tokens * 1000000 + l.refillRate * elapsed := by
  have hfloor : elapsed * l.refillRate / 1000000 * 1000000 ≤ elapsed * l.refillRate :=
    Nat.div_mul_le_self _ _
  have hadd : l.credited elapsed ≤ l.tokens + elapsed * l.refillRate / 1000000 :=
    calc
      l.credited elapsed ≤ l.tokens + l.tokensToAdd elapsed :=
        le_trans (min_le_left _ _) (min_le_left _ _)
      _ ≤ l.tokens + elapsed * l.refillRate / 1000000 :=
        Nat.add_le_add_left (min_le_left _ _) _
  calc
    l.credited elapsed * 1000000
        ≤ (l.tokens + elapsed * l.refillRate / 1000000) * 1000000 :=
      Nat.mul_le_mul_right _ hadd
    _ = l.tokens * 1000000 + elapsed * l.refillRate / 1000000 * 1000000 := Nat.add_mul _ _ _
    _ ≤ l.tokens * 1000000 + elapsed * l.refillRate := Nat.add_le_add_left hfloor _
    _ = l.tokens * 1000000 + l.refillRate * elapsed := by rw [Nat.mul_comm elapsed]

@[simp] theorem capacity_refill (l : ClockedRateLimiter) (now : Nat) :
    (l.refill now).capacity = l.capacity := by
  unfold refill
  split <;> rfl

@[simp] theorem refillRate_refill (l : ClockedRateLimiter) (now : Nat) :
    (l.refill now).refillRate = l.refillRate := by
  unfold refill
  split <;> rfl

theorem call_eq (l : ClockedRateLimiter) (c : LimiterCall) :
    l.call c = { l.refill c.now with
      tokens := (l.refill c.now).tokens - if l.granted c then 1000 else 0 } := by
  cases c with
  | tryAcquire now =>
    simp only [call, granted, tryAcquire, LimiterCall.now]
    split <;> rfl
  | availableTokens now => rfl

theorem le_tokens_of_granted {c : LimiterCall} (h : l.granted c = true) :
    1000 ≤ (l.refill c.now).tokens := by
  cases c with
  | tryAcquire now =>
    simp only [granted, tryAcquire] at h
    split at h
    · rename_i hok
      exact of_decide_eq_true hok
    · cases h
  | availableTokens now => cases h

@[simp] theorem capacity_call (l : ClockedRateLimiter) (c : LimiterCall) :
    (l.call c).capacity = l.capacity := by
  simp [call_eq]

@[simp] theorem refillRate_call (l : ClockedRateLimiter) (c : LimiterCall) :
    (l.call c).refillRate = l.refillRate := by
  simp [call_eq]

@[simp] theorem lastRefill_call (l : ClockedRateLimiter) (c : LimiterCall) :
    (l.call c).lastRefill = (l.refill c.now).lastRefill := by
  simp [call_eq]

theorem granted_add_tokens (l : ClockedRateLimiter) (c : LimiterCall) :
    (if l.granted c then 1000 else 0) + (l.call c).tokens = (l.refill c.now).tokens := by
  rw [call_eq]
  by_cases hok : l.granted c = true
  · have hle := le_tokens_of_granted hok
    simp only [hok, if_true]
    omega
  · simp [hok]

theorem lastRefill_call_le {c : LimiterCall} (h : l.lastRefill ≤ c.now) :
    (l.call c).lastRefill ≤ c.now := by
  rw [lastRefill_call]
  by_cases hlong : 1000000 ≤ c.now - l.lastRefill
  · rw [refill_of_le hlong]
  · rw [refill_of_lt (by omega)]
    exact h

/-- No call is made before the last refill. -/
def Current (l : ClockedRateLimiter) (c : LimiterCall) : Prop := l.lastRefill ≤ c.now

/-- What can still be granted until a time, a thousand millionths of a token being one: the
tokens and what the rate gives from the last refill on. -/
def potential (till : Nat) (l : ClockedRateLimiter) : Nat :=
  if l.lastRefill ≤ till then l.tokens * 1000000 + l.refillRate * (till - l.lastRefill) else 0

theorem potential_of_le {till : Nat} (h : l.lastRefill ≤ till) :
    potential till l = l.tokens * 1000000 + l.refillRate * (till - l.lastRefill) := if_pos h

theorem potential_of_lt {till : Nat} (h : till < l.lastRefill) : potential till l = 0 :=
  if_neg (by omega)

theorem potential_refill_le {till : Nat} (h : l.lastRefill ≤ now) :
    potential till (l.refill now) ≤ potential till l := by
  by_cases hlong : 1000000 ≤ now - l.lastRefill
  · have hlast : (l.refill now).lastRefill = now := by rw [refill_of_le hlong]
    by_cases hnow : now ≤ till
    · have hcredit := l.credited_le (now - l.lastRefill)
      have htokens : (l.refill now).tokens = l.credited (now - l.lastRefill) := by
        rw [refill_of_le hlong]
      have hsplit : l.refillRate * (till - l.lastRefill) =
          l.refillRate * (now - l.lastRefill) + l.refillRate * (till - now) := by
        rw [← Nat.mul_add]
        congr 1
        omega
      rw [potential_of_le (by omega), potential_of_le (le_trans h hnow), hlast,
        htokens, refillRate_refill, hsplit, ← Nat.add_assoc]
      exact Nat.add_le_add_right hcredit _
    · rw [potential_of_lt (by omega)]
      exact Nat.zero_le _
  · rw [refill_of_lt (by omega)]

theorem grantWithin_mul_le (since till : Nat) (l : ClockedRateLimiter) (c : LimiterCall) :
    grantWithin since till l c * 1000 ≤ if l.granted c then 1000 else 0 := by
  unfold grantWithin
  cases l.granted c with
  | false => simp
  | true =>
    simp only [Bool.true_and, if_true]
    split <;> decide

theorem grantWithin_add_potential_le (since till : Nat) {c : LimiterCall} (h : l.Current c) :
    1000000000 * grantWithin since till l c + potential till (l.call c) ≤
      potential till (l.refill c.now) := by
  have hpaid := l.granted_add_tokens c
  have hlast := l.lastRefill_call c
  by_cases hin : (l.refill c.now).lastRefill ≤ till
  · have hone := grantWithin_mul_le since till l c
    rw [potential_of_le (by omega), potential_of_le hin, hlast, refillRate_call,
      refillRate_refill]
    omega
  · have hlate : ¬ c.now ≤ till := by
      have hle := lastRefill_call_le h
      omega
    have hnone : grantWithin since till l c = 0 := by simp [grantWithin, hlate]
    rw [potential_of_lt (by omega), hnone]
    exact Nat.zero_le _

theorem grants_cons (since till : Nat) (l : ClockedRateLimiter) (c : LimiterCall)
    (rest : List LimiterCall) :
    grants since till l (c :: rest) =
      grantWithin since till l c + grants since till (l.call c) rest := rfl

theorem mul_grants_le_potential (since till : Nat) {calls : List LimiterCall}
    (h : AllSteps call Current l calls) :
    1000000000 * grants since till l calls ≤ potential till l :=
  mul_total_le_potential (fun _ _ hcur =>
    le_trans (grantWithin_add_potential_le since till hcur) (potential_refill_le hcur)) h

/-- The bucket holds no more than its capacity. -/
def Within (l : ClockedRateLimiter) : Prop := l.tokens ≤ l.capacity * 1000

theorem within_refill (h : l.Within) (now : Nat) : (l.refill now).Within := by
  by_cases hlong : 1000000 ≤ now - l.lastRefill
  · rw [refill_of_le hlong]
    exact l.credited_le_capacity _
  · rw [refill_of_lt (by omega)]
    exact h

theorem within_call (h : l.Within) (c : LimiterCall) : (l.call c).Within := by
  have hpaid := l.granted_add_tokens c
  have hrefill := within_refill h c.now
  simp only [Within, capacity_call, capacity_refill] at hrefill ⊢
  omega

theorem within_run (h : l.Within) (calls : List LimiterCall) : (run call l calls).Within := by
  have hcall : ∀ (r : ClockedRateLimiter) c, r.Within → (r.call c).Within :=
    fun _ c hr => within_call hr c
  exact run_preserves hcall h calls

theorem capacity_run (l : ClockedRateLimiter) (calls : List LimiterCall) :
    (run call l calls).capacity = l.capacity := by
  induction calls generalizing l with
  | nil => rfl
  | cons c rest ih => rw [run_cons, ih, capacity_call]

theorem allSteps_current {start : Nat} {calls : List LimiterCall} (hl : l.lastRefill ≤ start)
    (horder : InOrder start calls) : AllSteps call Current l calls := by
  induction calls generalizing l start with
  | nil => trivial
  | cons c rest ih =>
    have hsplit := List.pairwise_cons.1 horder
    have hcur : l.Current c := le_trans hl (hsplit.1 c.now (by simp))
    exact ⟨hcur, ih (lastRefill_call_le hcur) hsplit.2⟩

theorem potential_le_full (since till : Nat) (hfull : l.Within) :
    potential till l ≤
      l.capacity * 1000000000 + l.refillRate * (till - since + (since - l.lastRefill)) := by
  have htokens : l.tokens ≤ l.capacity * 1000 := hfull
  by_cases hin : l.lastRefill ≤ till
  · have hrate : l.refillRate * (till - l.lastRefill) ≤
        l.refillRate * (till - since + (since - l.lastRefill)) :=
      Nat.mul_le_mul_left _ (by omega)
    rw [potential_of_le hin]
    omega
  · rw [potential_of_lt (by omega)]
    exact Nat.zero_le _

/-- Calls from a time on are granted what the bucket holds and what the rate gives, the time
that was owed then included. -/
theorem mul_grants_le_owed {since till : Nat} {c : LimiterCall} {rest : List LimiterCall}
    (hfull : l.Within) (hcur : AllSteps call Current l (c :: rest))
    (hsince : since ≤ c.now) :
    1000000000 * grants since till l (c :: rest) ≤
      l.capacity * 1000000000 + l.refillRate * (till - since + l.owed since) := by
  by_cases hshort : since - l.lastRefill < 1000000
  · have howed : l.owed since = since - l.lastRefill := if_pos hshort
    rw [howed]
    exact le_trans (mul_grants_le_potential since till hcur) (potential_le_full since till hfull)
  · -- The call refills the bucket, and nothing before the interval is credited in it.
    have hlast : (l.refill c.now).lastRefill = c.now := by rw [refill_of_le (by omega)]
    have hnone : since - (l.refill c.now).lastRefill = 0 := by omega
    have hrest := mul_grants_le_potential since till hcur.2
    have hpaid := grantWithin_add_potential_le since till hcur.1
    have hbound := potential_le_full since till (within_refill hfull c.now)
    have howed : l.owed since = 0 := if_neg hshort
    rw [hnone, capacity_refill, refillRate_refill] at hbound
    rw [howed, grants_cons, Nat.mul_add]
    have hsum := Nat.add_le_add_left hrest (1000000000 * grantWithin since till l c)
    exact le_trans hsum (le_trans hpaid hbound)

theorem mul_grants_le (since till : Nat) {start : Nat} {calls : List LimiterCall}
    (hfull : l.Within) (hl : l.lastRefill ≤ start)
    (horder : InOrder start calls) :
    1000000000 * grants since till l calls ≤
      l.capacity * 1000000000 +
        l.refillRate * (till - since + (l.before calls since).owed since) := by
  induction calls generalizing l start with
  | nil => exact Nat.zero_le _
  | cons c rest ih =>
    have hcur := allSteps_current hl horder
    by_cases hsince : c.now < since
    · have hfirst : grantWithin since till l c = 0 := by
        have hlate : ¬ since ≤ c.now := by omega
        simp [grantWithin, hlate]
      have hbefore : l.before (c :: rest) since = (l.call c).before rest since := by
        simp [before, hsince]
      have hsum : grants since till l (c :: rest) = grants since till (l.call c) rest := by
        rw [grants_cons, hfirst, Nat.zero_add]
      have hrest := ih (within_call hfull c) (lastRefill_call_le hcur.1)
        (List.pairwise_cons.1 horder).2
      rw [capacity_call, refillRate_call] at hrest
      rw [hbefore, hsum]
      exact hrest
    · have hbefore : l.before (c :: rest) since = l := by simp [before, hsince]
      rw [hbefore]
      exact mul_grants_le_owed hfull hcur (by omega)

/-- In an interval no more calls are granted than the capacity and what the rate gives in its
length and in the time, less than a millisecond, that was owed at its start. -/
theorem grants_bounded (requestsPerSecond burstSize start : Nat) (calls : List LimiterCall)
    (horder : InOrder start calls) (since length : Nat) :
    let l := new requestsPerSecond burstSize start
    1000000000 * grants since (since + length) l calls ≤
      burstSize * 1000000000 +
        requestsPerSecond * (length + (l.before calls since).owed since) ∧
    (l.before calls since).owed since < 1000000 ∧
    (run call l calls).tokens ≤ burstSize * 1000 := by
  intro l
  have hfull : l.Within := Nat.le_refl _
  have hgrants := mul_grants_le since (since + length) hfull (Nat.le_refl start) horder
  have hkept := within_run hfull calls
  rw [Nat.add_sub_cancel_left] at hgrants
  rw [Within, capacity_run] at hkept
  exact ⟨hgrants, owed_lt _ _, hkept⟩

/-- One request a second and a burst of one: the bucket is full at the first call, which is made
a nanosecond before the time since the start counts. The second call comes 999.000001 milliseconds
later and is granted too. -/
theorem grants_exceed_rate :
    let calls := [LimiterCall.tryAcquire 999999, LimiterCall.tryAcquire 1000000000]
    InOrder 0 calls ∧
    grants 999999 (999999 + 999000001) (new 1 1 0) calls = 2 ∧
    ¬ 1000000000 * grants 999999 (999999 + 999000001) (new 1 1 0) calls ≤
      1 * 1000000000 + 1 * 999000001 := by
  decide +kernel

theorem grants_bounded_one :
    1000000000 * grants 999999 (999999 + 999000001) (new 1 1 0)
      [LimiterCall.tryAcquire 999999, LimiterCall.tryAcquire 1000000000] ≤
    1 * 1000000000 + 1 * (999000001 + 999999) := by
  have h := (grants_bounded 1 1 0
    [LimiterCall.tryAcquire 999999, LimiterCall.tryAcquire 1000000000] (by decide +kernel)
    999999 999000001).1
  exact h

end ClockedRateLimiter

end Conproxy
