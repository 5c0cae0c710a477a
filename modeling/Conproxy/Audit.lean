import Mathlib.Algebra.Ring.Nat
import Conproxy.Lib.Trace
import Conproxy.Lib.Window
import Conproxy.Truncation

/-!
# The audit log

The ring of `audit.rs`. It grows by `push` until it is full and is overwritten afterwards; reading
goes backwards from the write position, by one formula when the position has reached the length and
by another one before.
-/

namespace Conproxy

open Machine Window

set_option autoImplicit false

/-- The entries behind the lock, with the counters that are written under it. -/
structure AuditLog where
  entries : List AuditEntry
  capacity : Nat
  writePos : Nat
  totalLogged : Nat

namespace AuditLog

def new (capacity : Nat) : AuditLog := ⟨[], capacity, 0, 0⟩

/-- A full log without a capacity divides by zero. -/
def log (l : AuditLog) (entry : AuditEntry) : Option AuditLog :=
  let logged (entries : List AuditEntry) : AuditLog :=
    { l with
      entries := entries
      writePos := (l.writePos + 1) % 2 ^ 64
      totalLogged := (l.totalLogged + 1) % 2 ^ 64 }
  if l.entries.length < l.capacity then some (logged (l.entries ++ [entry]))
  else if l.capacity = 0 then none
  else some (logged (l.entries.set (l.writePos % l.capacity) entry))

/-- The index of the entry that is `i` entries older than the newest one. -/
def recentIndex (l : AuditLog) (i : Nat) : Nat :=
  if 0 < l.writePos ∧ l.entries.length ≤ l.writePos then
    (l.writePos - 1 - i) % l.entries.length
  else l.entries.length - (1 + i)

def recent (l : AuditLog) (limit : Nat) : List AuditEntry :=
  (List.range (min l.entries.length limit)).filterMap fun i => l.entries[l.recentIndex i]?

def clear (l : AuditLog) : AuditLog := { l with entries := [], writePos := 0 }

/-- `log` is the write of the ring and `clear` its reset. -/
def step (l : AuditLog) : RingCall AuditEntry → Option AuditLog
  | .write entry => l.log entry
  | .reset => some l.clear

def ring (l : AuditLog) : RingState AuditEntry := ⟨l.entries, l.writePos⟩

theorem step_ring {l : AuditLog} (hcapacity : l.capacity ≠ 0) (call : RingCall AuditEntry) :
    ∃ l', l.step call = some l' ∧ l'.capacity = l.capacity ∧
      l'.ring = l.ring.step l.capacity (2 ^ 64) call := by
  cases call with
  | reset => exact ⟨l.clear, rfl, rfl, rfl⟩
  | write entry =>
    by_cases hroom : l.entries.length < l.capacity
    · simp [step, log, RingState.step, ring, Window.write, hroom]
    · simp [step, log, RingState.step, ring, Window.write, hroom, hcapacity]

theorem foldlM_ring {l : AuditLog} (hcapacity : l.capacity ≠ 0)
    (calls : List (RingCall AuditEntry)) :
    ∃ l', calls.foldlM step l = some l' ∧ l'.capacity = l.capacity ∧
      l'.ring = run (RingState.step l.capacity (2 ^ 64)) l.ring calls := by
  induction calls generalizing l with
  | nil => exact ⟨l, rfl, rfl, rfl⟩
  | cons call rest ih =>
    obtain ⟨l', hstep, hsame, hring⟩ := step_ring hcapacity call
    obtain ⟨l'', hrest, hsame', hlast⟩ := ih (hsame ▸ hcapacity)
    refine ⟨l'', ?_, hsame'.trans hsame, ?_⟩
    · rw [List.foldlM_cons, hstep]
      exact hrest
    · rw [hlast, hsame, hring, run_cons]

theorem recentIndex_eq {l : AuditLog} {xs : List AuditEntry}
    (h : Holds l.capacity xs l.entries) (hpos : l.writePos = xs.length) {i : Nat}
    (hi : i < l.entries.length) :
    l.recentIndex i = (xs.length - 1 - i) % l.entries.length := by
  have hlength := h.length
  unfold recentIndex
  rw [if_pos ⟨by omega, by omega⟩, hpos]

theorem recent_of_holds {l : AuditLog} {xs : List AuditEntry}
    (h : Holds l.capacity xs l.entries) (hpos : l.writePos = xs.length) (limit : Nat) :
    l.recent limit = xs.reverse.take (min limit l.capacity) := by
  have hlength := h.length
  have hread := h.read_newest (Nat.min_le_left l.entries.length limit)
  have hsame : l.recent limit = xs.reverse.take (min l.entries.length limit) := by
    rw [← hread]
    apply List.filterMap_congr
    intro i hi
    rw [recentIndex_eq h hpos (by have := List.mem_range.mp hi; omega)]
  rw [hsame, hlength]
  by_cases hle : min limit l.capacity ≤ xs.length
  · congr 1
    omega
  · rw [List.take_of_length_le (by rw [List.length_reverse]; omega),
      List.take_of_length_le (by rw [List.length_reverse]; omega)]

end AuditLog

/-- After any calls, the log answers with the newest entries since the last `clear`. -/
theorem recent_is_newest {capacity : Nat} (hcapacity : 1 ≤ capacity)
    (calls : List (RingCall AuditEntry)) (hcalls : calls.length < 2 ^ 64) :
    ∃ l, calls.foldlM AuditLog.step (AuditLog.new capacity) = some l ∧ ∀ limit,
      l.recent limit = (history [] calls).reverse.take (min limit capacity) ∧
        (l.recent limit).length = min (min limit capacity) (history [] calls).length := by
  have hpositive : (AuditLog.new capacity).capacity ≠ 0 := Nat.ne_of_gt hcapacity
  obtain ⟨l, hrun, hsame, hring⟩ := AuditLog.foldlM_ring hpositive calls
  have hwrap : BeforeWrap (2 ^ 64) [] calls := beforeWrap_of_length_le hcalls.le
  have hstart : Holds capacity [] (AuditLog.new capacity).ring.cells := holds_nil
  obtain ⟨hholds, hpos⟩ := run_holds (Or.inr hwrap) hstart rfl
  have hlength : (history [] calls).length < 2 ^ 64 := by
    have hle := length_history_le [] calls
    rw [List.length_nil] at hle
    omega
  have hring : l.ring = run (RingState.step capacity (2 ^ 64)) (AuditLog.new capacity).ring calls :=
    hring
  rw [← hring] at hholds hpos
  rw [Nat.mod_eq_of_lt hlength] at hpos
  have hsame : l.capacity = capacity := hsame
  refine ⟨l, hrun, fun limit => ?_⟩
  have hrecent := AuditLog.recent_of_holds (hsame.symm ▸ hholds) hpos limit
  rw [hsame] at hrecent
  exact ⟨hrecent, by rw [hrecent, List.length_take, List.length_reverse]⟩

/-- Five requests are logged, and a `clear` comes after the first one. -/
def loggedFive : List (RingCall AuditEntry) :=
  [.write (.ofQuery 1 0 none "a"), .reset, .write (.ofQuery 2 0 none "b"),
    .write (.ofQuery 3 0 none "c"), .write (.ofQuery 4 0 none "d"),
    .write (.ofQuery 5 0 none "e")]

theorem recent_after_wrap :
    ∃ l, loggedFive.foldlM AuditLog.step (AuditLog.new 3) = some l ∧
      (l.recent 3).map AuditEntry.requestId = [5, 4, 3] ∧
      (l.recent 9).map AuditEntry.requestId = [5, 4, 3] := by
  have hcapacity : 1 ≤ 3 := by decide
  obtain ⟨l, hrun, hrecent⟩ := recent_is_newest hcapacity loggedFive (by decide)
  refine ⟨l, hrun, ?_, ?_⟩
  · rw [(hrecent 3).1]
    decide
  · rw [(hrecent 9).1]
    decide

end Conproxy
