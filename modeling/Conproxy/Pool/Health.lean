import Conproxy.Lib.Machine
import Conproxy.Lib.Streaks
import Conproxy.Cascade

/-!
# The health of an upstream

`HealthTracker` of `upstream.rs`: two streak counters, a latch for the offline state that one call
sets and the other clears, and the counts of the current window.
-/

namespace Conproxy

open Machine Streaks

set_option autoImplicit false

/-- Adds one to an `AtomicU32`. -/
def fetchAddOne (n : Nat) : Nat := (n + 1) % 2 ^ 32

def saturatingAddOne (n : Nat) : Nat := min (n + 1) (2 ^ 32 - 1)

structure HealthTracker where
  consecutiveFailures : Nat
  consecutiveSuccesses : Nat
  isOffline : Bool
  totalRequests : Nat
  failedRequests : Nat
  lastSuccessMs : Nat
  lastFailureMs : Nat
  offlineThreshold : Nat
  recoveryThreshold : Nat
  degradedThreshold : F32
deriving DecidableEq

inductive HealthEvent where
  | success (nowMs : Nat)
  | failure (nowMs : Nat)
  | resetWindow
deriving DecidableEq

namespace HealthTracker

def withThresholds (offlineThreshold recoveryThreshold : Nat) (degradedThreshold : F32) :
    HealthTracker where
  consecutiveFailures := 0
  consecutiveSuccesses := 0
  isOffline := false
  totalRequests := 0
  failedRequests := 0
  lastSuccessMs := 0
  lastFailureMs := 0
  offlineThreshold := offlineThreshold
  recoveryThreshold := recoveryThreshold
  degradedThreshold := degradedThreshold

def new : HealthTracker := withThresholds 3 2 (.finite (1 / 10))

def recordSuccess (t : HealthTracker) (nowMs : Nat) : HealthTracker :=
  let successes := saturatingAddOne t.consecutiveSuccesses
  { t with
    consecutiveFailures := 0
    consecutiveSuccesses := fetchAddOne t.consecutiveSuccesses
    totalRequests := fetchAddOne t.totalRequests
    isOffline := if t.isOffline ∧ t.recoveryThreshold ≤ successes then false else t.isOffline
    lastSuccessMs := nowMs }

def recordFailure (t : HealthTracker) (nowMs : Nat) : HealthTracker :=
  let failures := saturatingAddOne t.consecutiveFailures
  { t with
    consecutiveSuccesses := 0
    consecutiveFailures := fetchAddOne t.consecutiveFailures
    totalRequests := fetchAddOne t.totalRequests
    failedRequests := fetchAddOne t.failedRequests
    isOffline := if t.offlineThreshold ≤ failures then true else t.isOffline
    lastFailureMs := nowMs }

def resetWindow (t : HealthTracker) : HealthTracker :=
  { t with totalRequests := 0, failedRequests := 0 }

def status (A : F32Arith) (t : HealthTracker) : UpstreamStatus :=
  if t.isOffline then .offline
  else if 10 ≤ t.totalRequests ∧ t.consecutiveFailures = 0 ∧
      F32.lt t.degradedThreshold (A.div (A.ofNat t.failedRequests) (A.ofNat t.totalRequests)) then
    .degraded
  else .online

def step (t : HealthTracker) : HealthEvent → HealthTracker
  | .success nowMs => t.recordSuccess nowMs
  | .failure nowMs => t.recordFailure nowMs
  | .resetWindow => t.resetWindow

end HealthTracker

/-- Whether the requests of a history succeeded, in order. -/
def requestOutcomes (history : List HealthEvent) : List Bool :=
  history.filterMap fun
    | .success _ => some true
    | .failure _ => some false
    | .resetWindow => none

/-- Some run of consecutive failures reached the first threshold, and no later run of consecutive
successes the second one. -/
def Unhealed (offlineThreshold recoveryThreshold : Nat) (history : List HealthEvent) : Prop :=
  Unrecovered (fun ok => !ok) id offlineThreshold recoveryThreshold (requestOutcomes history)

namespace HealthTracker

variable {A : F32Arith} {t : HealthTracker} {history : List HealthEvent}

theorem status_eq_offline_iff : t.status A = .offline ↔ t.isOffline = true := by
  unfold status
  split
  · rename_i h
    exact iff_of_true rfl h
  · rename_i h
    split
    · exact iff_of_false nofun h
    · exact iff_of_false nofun h

theorem fetchAddOne_of_lt {n : Nat} (h : n + 1 < 2 ^ 32) : fetchAddOne n = n + 1 :=
  Nat.mod_eq_of_lt h

theorem saturatingAddOne_of_lt {n : Nat} (h : n + 1 < 2 ^ 32) : saturatingAddOne n = n + 1 :=
  Nat.min_eq_left (Nat.le_sub_one_of_lt h)

theorem requestOutcomes_concat (history : List HealthEvent) (e : HealthEvent) :
    requestOutcomes (history ++ [e]) = requestOutcomes history ++ requestOutcomes [e] :=
  List.filterMap_append

theorem length_requestOutcomes (history : List HealthEvent) :
    (requestOutcomes history).length ≤ history.length := List.length_filterMap_le _ _

/-- The tracker after a history: the counters are its streaks, and the latch says whether it is
unhealed. -/
structure Tracks (offlineThreshold recoveryThreshold : Nat) (t : HealthTracker)
    (history : List HealthEvent) : Prop where
  offlineAt : t.offlineThreshold = offlineThreshold
  recoveryAt : t.recoveryThreshold = recoveryThreshold
  failures : t.consecutiveFailures = streak (fun ok => !ok) (requestOutcomes history)
  successes : t.consecutiveSuccesses = streak id (requestOutcomes history)
  latch : t.isOffline = true ↔ Unhealed offlineThreshold recoveryThreshold history
  failed : t.failedRequests ≤ t.totalRequests
  total : t.totalRequests ≤ history.length

variable {offlineThreshold recoveryThreshold : Nat}

theorem tracks_withThresholds (degradedThreshold : F32) (hoffline : 1 ≤ offlineThreshold) :
    Tracks offlineThreshold recoveryThreshold
      (withThresholds offlineThreshold recoveryThreshold degradedThreshold) [] where
  offlineAt := rfl
  recoveryAt := rfl
  failures := rfl
  successes := rfl
  latch := iff_of_false Bool.false_ne_true (not_unrecovered_nil hoffline)
  failed := le_rfl
  total := le_rfl

theorem Tracks.room (ht : Tracks offlineThreshold recoveryThreshold t history)
    (hlength : history.length + 1 < 2 ^ 32) :
    t.consecutiveFailures + 1 < 2 ^ 32 ∧ t.consecutiveSuccesses + 1 < 2 ^ 32 ∧
      t.totalRequests + 1 < 2 ^ 32 ∧ t.failedRequests + 1 < 2 ^ 32 := by
  have houtcomes := length_requestOutcomes history
  have hfailures := streak_le_length (fun ok => !ok) (requestOutcomes history)
  have hsuccesses := streak_le_length id (requestOutcomes history)
  have htotal := ht.total
  have hfailed := ht.failed
  rw [ht.failures, ht.successes]
  omega

theorem unhealed_concat_iff (hoffline : 1 ≤ offlineThreshold) (hrecovery : 1 ≤ recoveryThreshold)
    {e : HealthEvent} {ok : Bool} (he : requestOutcomes [e] = [ok]) :
    Unhealed offlineThreshold recoveryThreshold (history ++ [e]) ↔
      offlineThreshold ≤ streak (fun ok => !ok) (requestOutcomes history ++ [ok]) ∨
        Unhealed offlineThreshold recoveryThreshold history ∧
          streak id (requestOutcomes history ++ [ok]) < recoveryThreshold := by
  have hexclusive : ∀ ok : Bool, (!ok) = true → id ok = false := by decide
  rw [Unhealed, requestOutcomes_concat, he]
  exact unrecovered_concat_iff hexclusive hoffline hrecovery

theorem Tracks.recordSuccess (ht : Tracks offlineThreshold recoveryThreshold t history)
    (hoffline : 1 ≤ offlineThreshold) (hrecovery : 1 ≤ recoveryThreshold)
    (hlength : history.length + 1 < 2 ^ 32) (nowMs : Nat) :
    Tracks offlineThreshold recoveryThreshold (t.recordSuccess nowMs)
      (history ++ [.success nowMs]) := by
  obtain ⟨-, hsuccesses, htotal, -⟩ := ht.room hlength
  have hcount : (history ++ [HealthEvent.success nowMs]).length = history.length + 1 :=
    List.length_append
  have hstreak : streak id (requestOutcomes history ++ [true]) = t.consecutiveSuccesses + 1 := by
    rw [streak_concat_pos rfl, ht.successes]
  have hbroken : streak (fun ok => !ok) (requestOutcomes history ++ [true]) = 0 :=
    streak_concat_neg rfl
  refine ⟨ht.offlineAt, ht.recoveryAt, ?_, ?_, ?_, ?_, ?_⟩
  · rw [requestOutcomes_concat]
    exact hbroken.symm
  · rw [requestOutcomes_concat]
    exact (fetchAddOne_of_lt hsuccesses).trans hstreak.symm
  · refine Iff.trans ?_ (unhealed_concat_iff hoffline hrecovery rfl).symm
    rw [hbroken, hstreak]
    change (if t.isOffline ∧ t.recoveryThreshold ≤ saturatingAddOne t.consecutiveSuccesses then
      false else t.isOffline) = true ↔ _
    rw [saturatingAddOne_of_lt hsuccesses, ht.recoveryAt, ← ht.latch]
    split <;> grind
  · change fetchAddOne t.totalRequests ≥ t.failedRequests
    rw [fetchAddOne_of_lt htotal]
    exact ht.failed.trans (Nat.le_succ _)
  · change fetchAddOne t.totalRequests ≤ _
    rw [fetchAddOne_of_lt htotal, hcount]
    exact Nat.succ_le_succ ht.total

theorem Tracks.recordFailure (ht : Tracks offlineThreshold recoveryThreshold t history)
    (hoffline : 1 ≤ offlineThreshold) (hrecovery : 1 ≤ recoveryThreshold)
    (hlength : history.length + 1 < 2 ^ 32) (nowMs : Nat) :
    Tracks offlineThreshold recoveryThreshold (t.recordFailure nowMs)
      (history ++ [.failure nowMs]) := by
  obtain ⟨hfailures, -, htotal, hfailed⟩ := ht.room hlength
  have hcount : (history ++ [HealthEvent.failure nowMs]).length = history.length + 1 :=
    List.length_append
  have hstreak : streak (fun ok => !ok) (requestOutcomes history ++ [false]) =
      t.consecutiveFailures + 1 := by
    rw [streak_concat_pos rfl, ht.failures]
  have hbroken : streak id (requestOutcomes history ++ [false]) = 0 := streak_concat_neg rfl
  refine ⟨ht.offlineAt, ht.recoveryAt, ?_, ?_, ?_, ?_, ?_⟩
  · rw [requestOutcomes_concat]
    exact (fetchAddOne_of_lt hfailures).trans hstreak.symm
  · rw [requestOutcomes_concat]
    exact hbroken.symm
  · refine Iff.trans ?_ (unhealed_concat_iff hoffline hrecovery rfl).symm
    rw [hbroken, hstreak]
    change (if t.offlineThreshold ≤ saturatingAddOne t.consecutiveFailures then true
      else t.isOffline) = true ↔ _
    rw [saturatingAddOne_of_lt hfailures, ht.offlineAt, ← ht.latch]
    split <;> grind
  · change fetchAddOne t.failedRequests ≤ fetchAddOne t.totalRequests
    rw [fetchAddOne_of_lt htotal, fetchAddOne_of_lt hfailed]
    exact Nat.succ_le_succ ht.failed
  · change fetchAddOne t.totalRequests ≤ _
    rw [fetchAddOne_of_lt htotal, hcount]
    exact Nat.succ_le_succ ht.total

theorem Tracks.resetWindow (ht : Tracks offlineThreshold recoveryThreshold t history) :
    Tracks offlineThreshold recoveryThreshold t.resetWindow (history ++ [.resetWindow]) := by
  have hsame : requestOutcomes (history ++ [.resetWindow]) = requestOutcomes history := by
    rw [requestOutcomes_concat]
    exact List.append_nil _
  refine ⟨ht.offlineAt, ht.recoveryAt, ?_, ?_, ?_, le_rfl, Nat.zero_le _⟩
  · rw [hsame]
    exact ht.failures
  · rw [hsame]
    exact ht.successes
  · rw [Unhealed, hsame]
    exact ht.latch

theorem Tracks.step (ht : Tracks offlineThreshold recoveryThreshold t history)
    (hoffline : 1 ≤ offlineThreshold) (hrecovery : 1 ≤ recoveryThreshold)
    (hlength : history.length + 1 < 2 ^ 32) (e : HealthEvent) :
    Tracks offlineThreshold recoveryThreshold (t.step e) (history ++ [e]) := by
  cases e with
  | success nowMs => exact ht.recordSuccess hoffline hrecovery hlength nowMs
  | failure nowMs => exact ht.recordFailure hoffline hrecovery hlength nowMs
  | resetWindow => exact ht.resetWindow

theorem tracks_run (degradedThreshold : F32) (hoffline : 1 ≤ offlineThreshold)
    (hrecovery : 1 ≤ recoveryThreshold) (history : List HealthEvent)
    (hlength : history.length < 2 ^ 32) :
    Tracks offlineThreshold recoveryThreshold
      (run step (withThresholds offlineThreshold recoveryThreshold degradedThreshold) history)
      history := by
  induction history using List.reverseRecOn with
  | nil => exact tracks_withThresholds degradedThreshold hoffline
  | append_singleton history e ih =>
    rw [List.length_append] at hlength
    rw [run_append]
    exact (ih (Nat.lt_of_succ_lt hlength)).step hoffline hrecovery hlength e

/-- An upstream is offline exactly while its history is unhealed, and never counts more failures
than requests. -/
theorem offline_iff_unhealed (A : F32Arith) (offlineThreshold recoveryThreshold : Nat)
    (degradedThreshold : F32) (hoffline : 1 ≤ offlineThreshold) (hrecovery : 1 ≤ recoveryThreshold)
    (history : List HealthEvent) (hlength : history.length < 2 ^ 32) :
    ((run step (withThresholds offlineThreshold recoveryThreshold degradedThreshold)
        history).status A = .offline ↔ Unhealed offlineThreshold recoveryThreshold history) ∧
      ∀ past, past <+: history →
        (run step (withThresholds offlineThreshold recoveryThreshold degradedThreshold)
            past).failedRequests ≤
          (run step (withThresholds offlineThreshold recoveryThreshold degradedThreshold)
            past).totalRequests := by
  refine ⟨?_, fun past hpast => ?_⟩
  · rw [status_eq_offline_iff]
    exact (tracks_run degradedThreshold hoffline hrecovery history hlength).latch
  · have hshort := hpast.length_le.trans_lt hlength
    exact (tracks_run degradedThreshold hoffline hrecovery past hshort).failed

/-- Three failures, with the window reset between them, and one success. -/
theorem three_failures_offline :
    Unhealed 3 2 [.failure 0, .resetWindow, .failure 0, .failure 0, .success 0] := by
  refine ((offline_iff_unhealed F32Arith.exact 3 2 (.finite (1 / 10)) (by decide) (by decide)
    [.failure 0, .resetWindow, .failure 0, .failure 0, .success 0] (by decide)).1).1 ?_
  decide

end HealthTracker

end Conproxy
