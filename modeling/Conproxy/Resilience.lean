import Conproxy.Lib.Machine
import Conproxy.Lib.Streaks
import Conproxy.Pool.Health

/-!
# The resilience state machine

`UpstreamStateManager` of `resilience.rs` under calls that come one after the other. The counter of
consecutive failures keeps its value when a healthy upstream becomes degraded, so failures from
before count towards the next transition.
-/

namespace Conproxy

open Machine Streaks

set_option autoImplicit false

inductive UpstreamState where
  | healthy
  | degraded
  | offline
deriving DecidableEq

structure ResilienceConfig where
  degradedAfterFailures : Nat
  offlineAfterConsecutive : Nat
  healthyAfterSuccesses : Nat
  failureWindow : Duration
  degradedRpsLimit : F32
  maxRps : F32
  rpsIncrement : F32
deriving DecidableEq

/-- `as u32`. -/
def F32.toU32 : F32 → Nat
  | .finite q => min q.floor.toNat (2 ^ 32 - 1)
  | .infinite negative => if negative then 0 else 2 ^ 32 - 1
  | .nan => 0

/-- `f32::min`: a `NaN` loses against any number. -/
def F32.min (a b : F32) : F32 :=
  if a = .nan then b else if b = .nan then a else if F32.lt b a then b else a

/-- Times are readings of the clock. -/
structure UpstreamStateManager where
  config : ResilienceConfig
  state : UpstreamState
  failureCount : Nat
  consecutiveFailures : Nat
  consecutiveSuccesses : Nat
  windowStart : Nat
  currentRps : Nat
  lastTransition : Nat
  -- 64 bits in the source, which would wrap after that many events
  transitions : Nat
  totalFailures : Nat
  totalSuccesses : Nat
deriving DecidableEq

inductive ManagerCall where
  | recordSuccess (now : Nat)
  | recordFailure (now : Nat)
deriving DecidableEq

namespace UpstreamStateManager

/-- Requests per second in hundredths. -/
def fixedPoint (A : F32Arith) (rps : F32) : Nat := (A.mul rps (.finite 100)).toU32

def new (A : F32Arith) (config : ResilienceConfig) (now : Nat) : UpstreamStateManager where
  config := config
  state := .healthy
  failureCount := 0
  consecutiveFailures := 0
  consecutiveSuccesses := 0
  windowStart := now
  currentRps := fixedPoint A config.degradedRpsLimit
  lastTransition := now
  transitions := 0
  totalFailures := 0
  totalSuccesses := 0

def transitionTo (A : F32Arith) (m : UpstreamStateManager) (newState : UpstreamState)
    (now : Nat) : UpstreamStateManager :=
  if m.state = newState then m
  else
    let m := { m with
      state := newState
      transitions := m.transitions + 1
      lastTransition := now }
    match newState with
    | .healthy =>
      { m with
        failureCount := 0
        consecutiveFailures := 0
        consecutiveSuccesses := 0
        windowStart := now
        currentRps := fixedPoint A m.config.degradedRpsLimit }
    | .degraded =>
      { m with
        consecutiveSuccesses := 0
        failureCount := 0
        currentRps := fixedPoint A m.config.degradedRpsLimit }
    | .offline => { m with consecutiveSuccesses := 0 }

def maybeResetWindow (m : UpstreamStateManager) (now : Nat) : UpstreamStateManager :=
  if m.config.failureWindow ≤ now - m.windowStart then
    { m with windowStart := now, failureCount := 0 }
  else m

def recordSuccess (A : F32Arith) (m : UpstreamStateManager) (now : Nat) : UpstreamStateManager :=
  let prev := m.consecutiveSuccesses
  let m := { m with
    totalSuccesses := m.totalSuccesses + 1
    consecutiveFailures := 0
    consecutiveSuccesses := fetchAddOne prev }
  match m.state with
  | .healthy => { m with failureCount := 0 }
  | .degraded =>
    let inc := fixedPoint A m.config.rpsIncrement
    let max := fixedPoint A m.config.maxRps
    let m := { m with currentRps := min (min (m.currentRps + inc) (2 ^ 32 - 1)) max }
    if m.config.healthyAfterSuccesses ≤ saturatingAddOne prev then m.transitionTo A .healthy now
    else m
  | .offline => m.transitionTo A .degraded now

def recordFailure (A : F32Arith) (m : UpstreamStateManager) (now : Nat) : UpstreamStateManager :=
  let m := { m with
    totalFailures := m.totalFailures + 1
    consecutiveSuccesses := 0
    consecutiveFailures := fetchAddOne m.consecutiveFailures }
  match m.state with
  | .healthy =>
    let m := m.maybeResetWindow now
    let failures := saturatingAddOne m.failureCount
    let m := { m with failureCount := fetchAddOne m.failureCount }
    if m.config.degradedAfterFailures ≤ failures then m.transitionTo A .degraded now else m
  | .degraded =>
    if m.config.offlineAfterConsecutive ≤ m.consecutiveFailures then
      m.transitionTo A .offline now
    else m
  | .offline => m

def call (A : F32Arith) (m : UpstreamStateManager) : ManagerCall → UpstreamStateManager
  | .recordSuccess now => m.recordSuccess A now
  | .recordFailure now => m.recordFailure A now

end UpstreamStateManager

structure CallRecord where
  before : UpstreamState
  success : Bool
  after : UpstreamState
deriving DecidableEq

namespace CallRecord

def failed (r : CallRecord) : Bool := !r.success

def failedDegraded (r : CallRecord) : Bool := !r.success && r.before = .degraded

def succeededDegraded (r : CallRecord) : Bool := r.success && r.before = .degraded

def changed (r : CallRecord) : Bool := r.before ≠ r.after

end CallRecord

def ManagerCall.succeeds : ManagerCall → Bool
  | .recordSuccess _ => true
  | .recordFailure _ => false

structure RecordedManager where
  manager : UpstreamStateManager
  past : List CallRecord

namespace RecordedManager

def new (A : F32Arith) (config : ResilienceConfig) (now : Nat) : RecordedManager :=
  ⟨.new A config now, []⟩

def callRecord (A : F32Arith) (r : RecordedManager) (c : ManagerCall) : CallRecord :=
  ⟨r.manager.state, c.succeeds, (r.manager.call A c).state⟩

def step (A : F32Arith) (r : RecordedManager) (c : ManagerCall) : RecordedManager :=
  ⟨r.manager.call A c, r.past ++ [r.callRecord A c]⟩

/-- A transition has the reason that the configuration gives for it, and all of them are counted. -/
structure Lawful (A : F32Arith) (r : RecordedManager) (c : ManagerCall) : Prop where
  toOffline : r.manager.state = .degraded → (r.step A c).manager.state = .offline →
    r.manager.config.offlineAfterConsecutive ≤ streak CallRecord.failedDegraded (r.step A c).past
  toHealthy : r.manager.state = .degraded → (r.step A c).manager.state = .healthy →
    r.manager.config.healthyAfterSuccesses ≤
      streak CallRecord.succeededDegraded (r.step A c).past
  fromOffline : r.manager.state = .offline → (r.step A c).manager.state ≠ .offline →
    (r.step A c).manager.state = .degraded
  counted : (r.step A c).manager.transitions = (r.step A c).past.countP CallRecord.changed

/-- If a failure of a degraded upstream reaches the threshold, the threshold is one at most or no
failure of the streak comes from before. -/
def StreakFresh (r : RecordedManager) (c : ManagerCall) : Prop :=
  c.succeeds = false → r.manager.state = .degraded →
    r.manager.config.offlineAfterConsecutive ≤ fetchAddOne r.manager.consecutiveFailures →
      r.manager.config.offlineAfterConsecutive ≤ 1 ∨
        streak CallRecord.failed r.past = streak CallRecord.failedDegraded r.past

end RecordedManager

namespace UpstreamStateManager

variable {A : F32Arith} {m : UpstreamStateManager}

/-- What one call does to the state and to the counters that decide about it. -/
structure Moves (m : UpstreamStateManager) (success : Bool) (m' : UpstreamStateManager) : Prop where
  config : m'.config = m.config
  failures : m'.consecutiveFailures = if success then 0 else fetchAddOne m.consecutiveFailures
  successes : m'.state = .degraded → m'.consecutiveSuccesses =
    if success ∧ m.state = .degraded then fetchAddOne m.consecutiveSuccesses else 0
  toOffline : m.state = .degraded → (m'.state = .offline ↔
    success = false ∧ m.config.offlineAfterConsecutive ≤ fetchAddOne m.consecutiveFailures)
  toHealthy : m.state = .degraded → (m'.state = .healthy ↔
    success = true ∧ m.config.healthyAfterSuccesses ≤ saturatingAddOne m.consecutiveSuccesses)
  fromOffline : m.state = .offline → m'.state = if success then .degraded else .offline
  transitions : m'.transitions = m.transitions + if m.state = m'.state then 0 else 1

theorem moves_recordSuccess (A : F32Arith) (m : UpstreamStateManager) (now : Nat) :
    Moves m true (m.recordSuccess A now) := by
  unfold recordSuccess
  cases hstate : m.state with
  | healthy =>
    constructor <;> simp [hstate]
  | degraded =>
    dsimp only
    split
    · constructor <;> simp_all [transitionTo]
    · constructor <;> simp_all
  | offline =>
    constructor <;> simp [hstate, transitionTo]

theorem moves_recordFailure (A : F32Arith) (m : UpstreamStateManager) (now : Nat) :
    Moves m false (m.recordFailure A now) := by
  unfold recordFailure
  cases hstate : m.state with
  | healthy =>
    -- The window may be reset before the failure is counted.
    dsimp only
    unfold maybeResetWindow
    split
    · dsimp only
      split
      · constructor <;> simp_all [transitionTo]
      · constructor <;> simp_all
    · dsimp only
      split
      · constructor <;> simp_all [transitionTo]
      · constructor <;> simp_all
  | degraded =>
    dsimp only
    split
    · constructor <;> simp_all [transitionTo]
    · constructor <;> simp_all
  | offline =>
    constructor <;> simp [hstate]

theorem moves_call (A : F32Arith) (m : UpstreamStateManager) (c : ManagerCall) :
    Moves m c.succeeds (m.call A c) := by
  cases c with
  | recordSuccess now => exact moves_recordSuccess A m now
  | recordFailure now => exact moves_recordFailure A m now

end UpstreamStateManager

namespace RecordedManager

variable {A : F32Arith} {r : RecordedManager}

/-- The counters follow the record. Behind a failure that left the upstream degraded the streak is
below the threshold, as long as the counter does not wrap. -/
structure Tracks (r : RecordedManager) : Prop where
  failures : r.manager.consecutiveFailures = streak CallRecord.failed r.past % 2 ^ 32
  successes : r.manager.state = .degraded →
    r.manager.consecutiveSuccesses = streak CallRecord.succeededDegraded r.past % 2 ^ 32
  transitions : r.manager.transitions = r.past.countP CallRecord.changed
  below : r.manager.state = .degraded → 0 < streak CallRecord.failedDegraded r.past →
    r.past.length < 2 ^ 32 →
      streak CallRecord.failed r.past < r.manager.config.offlineAfterConsecutive

theorem tracks_new (A : F32Arith) (config : ResilienceConfig) (now : Nat) :
    (new A config now).Tracks where
  failures := rfl
  successes := nofun
  transitions := rfl
  below := nofun

theorem fetchAddOne_mod (n : Nat) : fetchAddOne (n % 2 ^ 32) = (n + 1) % 2 ^ 32 :=
  Nat.mod_add_mod n (2 ^ 32) 1

theorem streak_failed_step (r : RecordedManager) (c : ManagerCall) :
    streak CallRecord.failed (r.step A c).past =
      if c.succeeds then 0 else streak CallRecord.failed r.past + 1 := by
  cases hc : c.succeeds with
  | true => exact streak_concat_neg (by simp [callRecord, CallRecord.failed, hc])
  | false => exact streak_concat_pos (by simp [callRecord, CallRecord.failed, hc])

theorem failedDegraded_iff {c : ManagerCall} : (r.callRecord A c).failedDegraded = true ↔
    c.succeeds = false ∧ r.manager.state = .degraded := by
  rw [CallRecord.failedDegraded, Bool.and_eq_true, Bool.not_eq_true', decide_eq_true_eq]
  rfl

theorem succeededDegraded_iff {c : ManagerCall} : (r.callRecord A c).succeededDegraded = true ↔
    c.succeeds = true ∧ r.manager.state = .degraded := by
  rw [CallRecord.succeededDegraded, Bool.and_eq_true, decide_eq_true_eq]
  rfl

theorem streak_failedDegraded_step (r : RecordedManager) (c : ManagerCall) :
    streak CallRecord.failedDegraded (r.step A c).past =
      if c.succeeds = false ∧ r.manager.state = .degraded then
        streak CallRecord.failedDegraded r.past + 1
      else 0 := by
  split
  · rename_i h
    exact streak_concat_pos (failedDegraded_iff.2 h)
  · rename_i h
    exact streak_concat_neg (Bool.eq_false_of_not_eq_true (mt failedDegraded_iff.1 h))

theorem streak_succeededDegraded_step (r : RecordedManager) (c : ManagerCall) :
    streak CallRecord.succeededDegraded (r.step A c).past =
      if c.succeeds = true ∧ r.manager.state = .degraded then
        streak CallRecord.succeededDegraded r.past + 1
      else 0 := by
  split
  · rename_i h
    exact streak_concat_pos (succeededDegraded_iff.2 h)
  · rename_i h
    exact streak_concat_neg (Bool.eq_false_of_not_eq_true (mt succeededDegraded_iff.1 h))

theorem Tracks.step (hr : r.Tracks) (c : ManagerCall) : (r.step A c).Tracks := by
  have hmoves := UpstreamStateManager.moves_call A r.manager c
  refine ⟨?_, fun hstate => ?_, ?_, fun hstate hpos hlength => ?_⟩
  · rw [streak_failed_step]
    refine hmoves.failures.trans ?_
    rw [hr.failures, fetchAddOne_mod]
    split <;> rfl
  · rw [streak_succeededDegraded_step]
    refine (hmoves.successes hstate).trans ?_
    split
    · rename_i h
      rw [hr.successes h.2, fetchAddOne_mod]
    · rfl
  · refine hmoves.transitions.trans ?_
    change _ = (r.past ++ [r.callRecord A c]).countP CallRecord.changed
    rw [hr.transitions, List.countP_append, List.countP_singleton]
    refine congrArg _ ?_
    by_cases hsame : r.manager.state = (r.manager.call A c).state
    · simp [CallRecord.changed, callRecord, hsame]
    · simp [CallRecord.changed, callRecord, hsame]
  · rw [streak_failedDegraded_step] at hpos
    split at hpos
    · rename_i h
      have hbound := streak_le_length CallRecord.failed (r.step A c).past
      rw [streak_failed_step, h.1, if_neg Bool.false_ne_true] at hbound ⊢
      -- The upstream would be offline had the counter reached the threshold.
      have hstays : ¬ (r.step A c).manager.state = .offline := by
        rw [hstate]
        nofun
      have hreached := mt (hmoves.toOffline h.2).2 hstays
      rw [not_and, hr.failures, fetchAddOne_mod] at hreached
      have hlt := Nat.lt_of_not_le (hreached h.1)
      rw [Nat.mod_eq_of_lt (hbound.trans_lt hlength)] at hlt
      exact hlt.trans_eq (congrArg ResilienceConfig.offlineAfterConsecutive hmoves.config.symm)
    · exact absurd hpos (Nat.lt_irrefl 0)

theorem streak_failedDegraded_le (past : List CallRecord) :
    streak CallRecord.failedDegraded past ≤ streak CallRecord.failed past := by
  induction past using List.reverseRecOn with
  | nil => exact le_rfl
  | append_singleton past entry ih =>
    cases hdegraded : entry.failedDegraded with
    | false =>
      rw [streak_concat_neg hdegraded]
      exact Nat.zero_le _
    | true =>
      have hfailed : entry.failed = true := by
        rw [CallRecord.failedDegraded, Bool.and_eq_true] at hdegraded
        exact hdegraded.1
      rw [streak_concat_pos hdegraded, streak_concat_pos hfailed]
      exact Nat.succ_le_succ ih

/-- All but the move from degraded to offline is lawful anyway. -/
theorem lawful_iff_toOffline (hr : r.Tracks) (c : ManagerCall) :
    r.Lawful A c ↔ (r.manager.state = .degraded → (r.step A c).manager.state = .offline →
      r.manager.config.offlineAfterConsecutive ≤
        streak CallRecord.failedDegraded (r.step A c).past) := by
  have hmoves := UpstreamStateManager.moves_call A r.manager c
  refine ⟨fun h => h.toOffline, fun h => ⟨h, fun hbefore hafter => ?_, fun hbefore hleft => ?_,
    (hr.step c).transitions⟩⟩
  · obtain ⟨hsuccess, hreached⟩ := (hmoves.toHealthy hbefore).1 hafter
    rw [streak_succeededDegraded_step, if_pos ⟨hsuccess, hbefore⟩]
    calc r.manager.config.healthyAfterSuccesses
        ≤ saturatingAddOne r.manager.consecutiveSuccesses := hreached
      _ ≤ r.manager.consecutiveSuccesses + 1 := Nat.min_le_left _ _
      _ ≤ streak CallRecord.succeededDegraded r.past + 1 := by
        rw [hr.successes hbefore]
        exact Nat.succ_le_succ (Nat.mod_le _ _)
  · have hstate : (r.step A c).manager.state = _ := hmoves.fromOffline hbefore
    rw [hstate] at hleft ⊢
    split
    · rfl
    · rename_i hfailure
      rw [if_neg hfailure] at hleft
      exact absurd rfl hleft

theorem Lawful.of_streakFresh (hr : r.Tracks) {c : ManagerCall} (h : r.StreakFresh c) :
    r.Lawful A c := by
  refine (lawful_iff_toOffline hr c).2 fun hbefore hafter => ?_
  have hmoves := UpstreamStateManager.moves_call A r.manager c
  obtain ⟨hfailure, hreached⟩ := (hmoves.toOffline hbefore).1 hafter
  rw [streak_failedDegraded_step, if_pos ⟨hfailure, hbefore⟩]
  rcases h hfailure hbefore hreached with hone | hfresh
  · exact hone.trans (Nat.le_add_left 1 _)
  · rw [← hfresh]
    rw [hr.failures, fetchAddOne_mod] at hreached
    exact hreached.trans (Nat.mod_le _ _)

theorem streakFresh_of_lawful (hr : r.Tracks) {c : ManagerCall}
    (hlength : r.past.length + 1 < 2 ^ 32) (h : r.Lawful A c) : r.StreakFresh c := by
  intro hfailure hbefore hreached
  have hmoves := UpstreamStateManager.moves_call A r.manager c
  have hafter := (hmoves.toOffline hbefore).2 ⟨hfailure, hreached⟩
  have hstreak := h.toOffline hbefore hafter
  rw [streak_failedDegraded_step, if_pos ⟨hfailure, hbefore⟩] at hstreak
  have hle := streak_failedDegraded_le r.past
  by_cases hzero : streak CallRecord.failedDegraded r.past = 0
  · rw [hzero] at hstreak
    exact .inl hstreak
  · have hbelow := hr.below hbefore (Nat.pos_of_ne_zero hzero) (Nat.lt_of_succ_lt hlength)
    exact .inr (by omega)

theorem length_past_step (r : RecordedManager) (c : ManagerCall) :
    (r.step A c).past.length = r.past.length + 1 := List.length_append

theorem streakFresh_of_allLawful (hr : r.Tracks) {calls : List ManagerCall}
    (hlength : r.past.length + calls.length < 2 ^ 32)
    (h : AllSteps (step A) (fun r c => r.Lawful A c) r calls) :
    AllSteps (step A) StreakFresh r calls := by
  induction calls generalizing r with
  | nil => trivial
  | cons c calls ih =>
    rw [List.length_cons] at hlength
    refine ⟨streakFresh_of_lawful hr (by omega) h.1, ih (hr.step c) ?_ h.2⟩
    rw [length_past_step]
    omega

/-- Every transition has its reason if no failure from before counts in a streak that takes the
upstream offline, and in runs of less than `2 ^ 32` calls only then. -/
theorem lawful_while_fresh (A : F32Arith) (config : ResilienceConfig) (now : Nat)
    (calls : List ManagerCall) :
    (AllSteps (step A) StreakFresh (new A config now) calls →
      AllSteps (step A) (fun r c => r.Lawful A c) (new A config now) calls) ∧
    (calls.length < 2 ^ 32 →
      AllSteps (step A) (fun r c => r.Lawful A c) (new A config now) calls →
        AllSteps (step A) StreakFresh (new A config now) calls) := by
  refine ⟨fun h => ?_, fun hlength h => ?_⟩
  · have hkept (r : RecordedManager) (c : ManagerCall) (_ : r.StreakFresh c) (hr : r.Tracks) :
        (r.step A c).Tracks := hr.step c
    have hlawful (r : RecordedManager) (c : ManagerCall) (hfresh : r.StreakFresh c)
        (hr : r.Tracks) : r.Lawful A c := .of_streakFresh hr hfresh
    exact allSteps_of_invariant hkept hlawful (tracks_new A config now) h
  · refine streakFresh_of_allLawful (tracks_new A config now) ?_ h
    rwa [new, List.length_nil, Nat.zero_add]

def quickConfig : ResilienceConfig where
  degradedAfterFailures := 2
  offlineAfterConsecutive := 3
  healthyAfterSuccesses := 1
  failureWindow := 60000000000
  degradedRpsLimit := .finite 10
  maxRps := .finite 1000
  rpsIncrement := .finite 5

instance (r : RecordedManager) (c : ManagerCall) : Decidable (r.StreakFresh c) :=
  inferInstanceAs (Decidable (_ → _ → _ → _))

/-- The success between the failures ends the streak that made the upstream degraded. -/
theorem lawful_after_success :
    let config := { quickConfig with healthyAfterSuccesses := 2 }
    let calls := [.recordFailure 0, .recordFailure 0, .recordSuccess 0, .recordFailure 0,
      .recordFailure 0, .recordFailure 0]
    AllSteps (step F32Arith.exact) (fun r c => r.Lawful F32Arith.exact c)
        (new F32Arith.exact config 0) calls ∧
      (run (step F32Arith.exact) (new F32Arith.exact config 0) calls).past.getLast? =
        some ⟨.degraded, false, .offline⟩ := by
  intro config calls
  exact ⟨(lawful_while_fresh F32Arith.exact config 0 calls).1 (by decide), by decide⟩

/-- Two failures make the upstream degraded, and the first one behind them takes it offline. -/
theorem failures_carried_over :
    (run (step F32Arith.exact) (new F32Arith.exact quickConfig 0)
        [.recordFailure 0, .recordFailure 0, .recordFailure 0]).past =
        [⟨.healthy, false, .healthy⟩, ⟨.healthy, false, .degraded⟩, ⟨.degraded, false, .offline⟩] ∧
      ¬ AllSteps (step F32Arith.exact) (fun r c => r.Lawful F32Arith.exact c)
        (new F32Arith.exact quickConfig 0)
        [.recordFailure 0, .recordFailure 0, .recordFailure 0] := by
  refine ⟨by decide, fun h => ?_⟩
  have hlast := h.2.2.1.toOffline (by decide) (by decide)
  revert hlast
  decide

end RecordedManager

end Conproxy
