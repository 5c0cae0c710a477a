import Conproxy.Lib.Machine
import Conproxy.Types

/-!
# The circuit breaker

`CircuitBreaker` of `circuit.rs` under calls that come one after the other. The move from open
to half-open is made lazily, by the next query after the open duration. The specification is
an automaton on three phases with a log of its openings and resets; the breaker refines it, and
what the breaker answers is read off the log.
-/

namespace Conproxy

set_option autoImplicit false

inductive CircuitState where
  | closed
  | opened
  | halfOpen
deriving DecidableEq

structure CircuitBreakerConfig where
  failureThreshold : Nat
  successThreshold : Nat
  openDuration : Duration
  failureWindow : Duration
deriving DecidableEq

structure CircuitBreaker where
  config : CircuitBreakerConfig
  state : CircuitState
  -- 32 bits in the source, and never above a threshold of 32 bits
  failureCount : Nat
  halfOpenSuccesses : Nat
  openedAt : Option Nat
  windowStart : Nat
  -- 64 bits in the source, which would wrap after that many openings
  timesOpened : Nat
  timesTripped : Nat
deriving DecidableEq

namespace CircuitBreaker

def new (config : CircuitBreakerConfig) (now : Nat) : CircuitBreaker where
  config := config
  state := .closed
  failureCount := 0
  halfOpenSuccesses := 0
  openedAt := none
  windowStart := now
  timesOpened := 0
  timesTripped := 0

def openCircuit (b : CircuitBreaker) (now : Nat) : CircuitBreaker :=
  if b.state = .opened then b
  else
    { b with
      state := .opened
      openedAt := some now
      timesOpened := b.timesOpened + 1
      halfOpenSuccesses := 0 }

def close (b : CircuitBreaker) (now : Nat) : CircuitBreaker :=
  { b with
    state := .closed
    openedAt := none
    failureCount := 0
    halfOpenSuccesses := 0
    windowStart := now }

def halfOpen (b : CircuitBreaker) : CircuitBreaker :=
  if b.state = .opened then { b with state := .halfOpen, halfOpenSuccesses := 0 } else b

def maybeTransition (b : CircuitBreaker) (now : Nat) : CircuitBreaker :=
  if b.state = .opened then
    match b.openedAt with
    | some opened => if b.config.openDuration ≤ now - opened then b.halfOpen else b
    | none => b
  else b

def maybeResetWindow (b : CircuitBreaker) (now : Nat) : CircuitBreaker :=
  if b.config.failureWindow ≤ now - b.windowStart then
    { b with windowStart := now, failureCount := 0 }
  else b

/-- `state`: the answer, and the breaker after the lazy transition. -/
def currentState (b : CircuitBreaker) (now : Nat) : CircuitState × CircuitBreaker :=
  ((b.maybeTransition now).state, b.maybeTransition now)

def allowRequest (b : CircuitBreaker) (now : Nat) : Bool × CircuitBreaker :=
  let b := b.maybeTransition now
  match b.state with
  | .closed => (true, b)
  | .opened => (false, { b with timesTripped := b.timesTripped + 1 })
  | .halfOpen => (true, b)

def recordSuccess (b : CircuitBreaker) (now : Nat) : CircuitBreaker :=
  match b.state with
  | .closed => { b with failureCount := 0 }
  | .halfOpen =>
    let b := { b with halfOpenSuccesses := b.halfOpenSuccesses + 1 }
    if b.config.successThreshold ≤ b.halfOpenSuccesses then b.close now else b
  | .opened => b

def recordFailure (b : CircuitBreaker) (now : Nat) : CircuitBreaker :=
  match b.state with
  | .closed =>
    let b := b.maybeResetWindow now
    let b := { b with failureCount := b.failureCount + 1 }
    if b.config.failureThreshold ≤ b.failureCount then b.openCircuit now else b
  | .halfOpen => b.openCircuit now
  | .opened => b

def reset (b : CircuitBreaker) (now : Nat) : CircuitBreaker := b.close now

end CircuitBreaker

inductive CircuitCall where
  | allowRequest
  | state
  | recordSuccess
  | recordFailure
  | reset
deriving DecidableEq

structure TimedCall where
  now : Nat
  call : CircuitCall
deriving DecidableEq

def CircuitBreaker.step (b : CircuitBreaker) (c : TimedCall) : CircuitBreaker :=
  match c.call with
  | .allowRequest => (b.allowRequest c.now).2
  | .state => (b.currentState c.now).2
  | .recordSuccess => b.recordSuccess c.now
  | .recordFailure => b.recordFailure c.now
  | .reset => b.reset c.now

/-- `closed` counts the failures since the last success, close or window restart and knows when
the window began; `halfOpen` counts its successes. -/
inductive Phase where
  | closed (failures windowStart : Nat)
  | opened (since : Nat)
  | halfOpen (successes : Nat)
deriving DecidableEq

inductive Mark where
  | opening (time : Nat)
  | reset
deriving DecidableEq

/-- The specification automaton; its log has the latest mark first. -/
structure CircuitSpec where
  phase : Phase
  log : List Mark
deriving DecidableEq

namespace CircuitSpec

def init (start : Nat) : CircuitSpec := ⟨.closed 0 start, []⟩

/-- The last opening, if no reset came after it. -/
def lastOpening (s : CircuitSpec) : Option Nat :=
  match s.log with
  | .opening time :: _ => some time
  | _ => none

def isOpening : Mark → Bool
  | .opening _ => true
  | .reset => false

def openings (s : CircuitSpec) : Nat := (s.log.filter isOpening).length

def opens (s : CircuitSpec) (now : Nat) : CircuitSpec := ⟨.opened now, .opening now :: s.log⟩

/-- A failure while closed: a window that is over restarts first. A threshold of 0 acts as 1. -/
def failClosed (c : CircuitBreakerConfig) (s : CircuitSpec) (now failures windowStart : Nat) :
    CircuitSpec :=
  let restart := windowStart + c.failureWindow ≤ now
  let nth := if restart then 1 else failures + 1
  if nth = max c.failureThreshold 1 then s.opens now
  else { s with phase := .closed nth (if restart then now else windowStart) }

def step (c : CircuitBreakerConfig) (s : CircuitSpec) (t : TimedCall) : CircuitSpec :=
  match s.phase, t.call with
  | _, .reset => ⟨.closed 0 t.now, .reset :: s.log⟩
  | .closed failures windowStart, .recordFailure => failClosed c s t.now failures windowStart
  | .closed _ windowStart, .recordSuccess => { s with phase := .closed 0 windowStart }
  | .opened since, .allowRequest | .opened since, .state =>
    if since + c.openDuration ≤ t.now then { s with phase := .halfOpen 0 } else s
  | .halfOpen _, .recordFailure => s.opens t.now
  | .halfOpen successes, .recordSuccess =>
    if successes + 1 = max c.successThreshold 1 then { s with phase := .closed 0 t.now }
    else { s with phase := .halfOpen (successes + 1) }
  | _, _ => s

end CircuitSpec

/-! ## Refinement -/

namespace CircuitBreaker

def phase (b : CircuitBreaker) : Option Phase :=
  match b.state, b.openedAt with
  | .closed, none => some (.closed b.failureCount b.windowStart)
  | .opened, some since => some (.opened since)
  | .halfOpen, some _ => some (.halfOpen b.halfOpenSuccesses)
  | _, _ => none

/-- The breaker is in the phase of the automaton, at a time `last`. The counts are below their
thresholds, and an opening that no reset followed is over unless the phase is open. -/
structure Refines (c : CircuitBreakerConfig) (last : Nat) (b : CircuitBreaker)
    (s : CircuitSpec) : Prop where
  config_eq : b.config = c
  phase_eq : b.phase = some s.phase
  timesOpened_eq : b.timesOpened = s.openings
  closed : ∀ n w, s.phase = .closed n w → n < max c.failureThreshold 1 ∧ w ≤ last
  halfOpen : ∀ n, s.phase = .halfOpen n → n < max c.successThreshold 1
  opened : ∀ since, s.phase = .opened since → s.lastOpening = some since ∧ since ≤ last
  elapsed : (∀ since, s.phase ≠ .opened since) →
    ∀ since, s.lastOpening = some since → since + c.openDuration ≤ last

variable {c : CircuitBreakerConfig} {last : Nat} {b : CircuitBreaker} {s : CircuitSpec}

theorem refines_new (c : CircuitBreakerConfig) (start : Nat) :
    Refines c start (new c start) (CircuitSpec.init start) where
  config_eq := rfl
  phase_eq := rfl
  timesOpened_eq := rfl
  closed := by
    intro n w h
    cases h
    exact ⟨by omega, le_rfl⟩
  halfOpen := by
    intro n h
    cases h
  opened := by
    intro since h
    cases h
  elapsed := by
    intro _ since h
    cases h

theorem Refines.later (h : Refines c last b s) {now : Nat} (hle : last ≤ now) :
    Refines c now b s where
  config_eq := h.config_eq
  phase_eq := h.phase_eq
  timesOpened_eq := h.timesOpened_eq
  closed n w hp := ⟨(h.closed n w hp).1, (h.closed n w hp).2.trans hle⟩
  halfOpen := h.halfOpen
  opened since hp := ⟨(h.opened since hp).1, (h.opened since hp).2.trans hle⟩
  elapsed hp since hs := (h.elapsed hp since hs).trans hle

theorem Refines.cases (h : Refines c last b s) :
    (b.state = .closed ∧ b.openedAt = none ∧
      s.phase = .closed b.failureCount b.windowStart) ∨
    (∃ since, b.state = .opened ∧ b.openedAt = some since ∧ s.phase = .opened since) ∨
    (∃ since, b.state = .halfOpen ∧ b.openedAt = some since ∧
      s.phase = .halfOpen b.halfOpenSuccesses) := by
  have hphase := h.phase_eq
  unfold phase at hphase
  split at hphase
  · rename_i hstate hat
    exact .inl ⟨hstate, hat, (Option.some.inj hphase).symm⟩
  · rename_i since hstate hat
    exact .inr (.inl ⟨since, hstate, hat, (Option.some.inj hphase).symm⟩)
  · rename_i since hstate hat
    exact .inr (.inr ⟨since, hstate, hat, (Option.some.inj hphase).symm⟩)
  · cases hphase

theorem Refines.openCircuit (h : Refines c last b s) {b' : CircuitBreaker}
    (hconfig : b'.config = b.config) (hopened : b'.timesOpened = b.timesOpened)
    (hstate : b'.state ≠ .opened) : Refines c last (b'.openCircuit last) (s.opens last) := by
  unfold CircuitBreaker.openCircuit
  rw [if_neg hstate]
  refine ⟨hconfig.trans h.config_eq, rfl, ?_, ?_, ?_, ?_, ?_⟩
  · have hcount := h.timesOpened_eq
    simp only [CircuitSpec.openings, CircuitSpec.opens, List.filter_cons, CircuitSpec.isOpening,
      if_true, List.length_cons] at hcount ⊢
    rw [hopened, hcount]
  · intro n w hp
    cases hp
  · intro n hp
    cases hp
  · intro since hp
    cases hp
    exact ⟨rfl, le_rfl⟩
  · intro hp
    exact absurd rfl (hp last)

theorem Refines.close (h : Refines c last b s) {s' : CircuitSpec}
    (hphase : s'.phase = .closed 0 last) (hopenings : s'.openings = s.openings)
    (hover : ∀ since, s'.lastOpening = some since → since + c.openDuration ≤ last) :
    Refines c last (b.close last) s' := by
  refine ⟨h.config_eq, ?_, h.timesOpened_eq.trans hopenings.symm, ?_, ?_, ?_, fun _ => hover⟩
  · rw [hphase]
    rfl
  · intro n w hp
    rw [hphase] at hp
    cases hp
    exact ⟨by omega, le_rfl⟩
  · intro n hp
    rw [hphase] at hp
    cases hp
  · intro since hp
    rw [hphase] at hp
    cases hp

theorem Refines.move (h : Refines c last b s) {b' : CircuitBreaker} {ph : Phase}
    (hconfig : b'.config = b.config) (hopened : b'.timesOpened = b.timesOpened)
    (hphase : b'.phase = some ph)
    (hclosed : ∀ n w, ph = .closed n w → n < max c.failureThreshold 1 ∧ w ≤ last)
    (hhalf : ∀ n, ph = .halfOpen n → n < max c.successThreshold 1)
    (hopen : ∀ since, ph ≠ .opened since)
    (hover : ∀ since, s.lastOpening = some since → since + c.openDuration ≤ last) :
    Refines c last b' { s with phase := ph } where
  config_eq := hconfig.trans h.config_eq
  phase_eq := hphase
  timesOpened_eq := hopened.trans h.timesOpened_eq
  closed := hclosed
  halfOpen := hhalf
  opened since hp := absurd hp (hopen since)
  elapsed _ := hover

theorem Refines.over_of_closed (h : Refines c last b s) {n w : Nat}
    (hphase : s.phase = .closed n w) :
    ∀ since, s.lastOpening = some since → since + c.openDuration ≤ last := by
  apply h.elapsed
  intro since hp
  rw [hphase] at hp
  cases hp

theorem Refines.over_of_halfOpen (h : Refines c last b s) {n : Nat}
    (hphase : s.phase = .halfOpen n) :
    ∀ since, s.lastOpening = some since → since + c.openDuration ≤ last := by
  apply h.elapsed
  intro since hp
  rw [hphase] at hp
  cases hp

theorem Refines.maybeTransition (h : Refines c last b s) :
    Refines c last (b.maybeTransition last) (s.step c ⟨last, .state⟩) := by
  obtain rfl := h.config_eq
  rcases h.cases with ⟨hstate, hat, hphase⟩ | ⟨since, hstate, hat, hphase⟩ |
    ⟨since, hstate, hat, hphase⟩
  · simp only [CircuitBreaker.maybeTransition, hstate, CircuitSpec.step, hphase, reduceCtorEq,
      if_false]
    exact h
  · obtain ⟨hlast, hle⟩ := h.opened since hphase
    have hwait : b.config.openDuration ≤ last - since ↔
        since + b.config.openDuration ≤ last := Nat.le_sub_iff_add_le' hle
    simp only [CircuitBreaker.maybeTransition, CircuitBreaker.halfOpen, hstate, hat,
      CircuitSpec.step, hphase, hwait, if_true]
    split
    · rename_i hover
      refine h.move rfl rfl rfl ?_ ?_ ?_ ?_
      · intro n w hp
        cases hp
      · intro n hp
        cases hp
        omega
      · intro since' hp
        cases hp
      · intro since' hs
        rw [hlast] at hs
        cases hs
        exact hover
    · exact h
  · simp only [CircuitBreaker.maybeTransition, hstate, CircuitSpec.step, hphase, reduceCtorEq,
      if_false]
    exact h

theorem Refines.allowRequest (h : Refines c last b s) :
    Refines c last (b.allowRequest last).2 (s.step c ⟨last, .allowRequest⟩) := by
  have hmove := h.maybeTransition
  have hstep : s.step c ⟨last, .allowRequest⟩ = s.step c ⟨last, .state⟩ := by
    unfold CircuitSpec.step
    cases s.phase <;> rfl
  rw [hstep]
  unfold CircuitBreaker.allowRequest
  dsimp only
  split
  · exact hmove
  · exact ⟨hmove.config_eq, hmove.phase_eq, hmove.timesOpened_eq, hmove.closed, hmove.halfOpen,
      hmove.opened, hmove.elapsed⟩
  · exact hmove

theorem Refines.recordSuccess (h : Refines c last b s) :
    Refines c last (b.recordSuccess last) (s.step c ⟨last, .recordSuccess⟩) := by
  obtain rfl := h.config_eq
  rcases h.cases with ⟨hstate, hat, hphase⟩ | ⟨since, hstate, hat, hphase⟩ |
    ⟨since, hstate, hat, hphase⟩
  · obtain ⟨-, hle⟩ := h.closed _ _ hphase
    simp only [CircuitBreaker.recordSuccess, hstate, CircuitSpec.step, hphase]
    refine h.move rfl rfl ?_ ?_ ?_ ?_ (h.over_of_closed hphase)
    · simp only [CircuitBreaker.phase, hat]
    · intro n w hp
      cases hp
      exact ⟨by omega, hle⟩
    · intro n hp
      cases hp
    · intro since hp
      cases hp
  · simp only [CircuitBreaker.recordSuccess, hstate, CircuitSpec.step, hphase]
    exact h
  · -- The count is below the threshold, so reaching it and passing it are the same.
    have hcount := h.halfOpen _ hphase
    have hlast : b.config.successThreshold ≤ b.halfOpenSuccesses + 1 ↔
        b.halfOpenSuccesses + 1 = max b.config.successThreshold 1 := by omega
    simp only [CircuitBreaker.recordSuccess, hstate, CircuitSpec.step, hphase, hlast]
    split
    · exact h.close rfl rfl (h.over_of_halfOpen hphase)
    · refine h.move rfl rfl ?_ ?_ ?_ ?_ (h.over_of_halfOpen hphase)
      · simp only [CircuitBreaker.phase, hat]
      · intro n w hp
        cases hp
      · intro n hp
        cases hp
        omega
      · intro since hp
        cases hp

/-- The end of a failure while closed, with the count and the window as the restart left them. -/
theorem Refines.countFailure (h : Refines c last b s) (hstate : b.state = .closed)
    (hat : b.openedAt = none) (hphase : s.phase = .closed b.failureCount b.windowStart)
    {n w : Nat} (hn : n < max c.failureThreshold 1) (hw : w ≤ last) :
    Refines c last
      (if c.failureThreshold ≤ n + 1 then
        ({ b with failureCount := n + 1, windowStart := w } : CircuitBreaker).openCircuit last
      else { b with failureCount := n + 1, windowStart := w })
      (if n + 1 = max c.failureThreshold 1 then s.opens last
      else { s with phase := .closed (n + 1) w }) := by
  have hlast : c.failureThreshold ≤ n + 1 ↔ n + 1 = max c.failureThreshold 1 := by omega
  simp only [hlast]
  split
  · exact h.openCircuit rfl rfl (by simp [hstate])
  · refine h.move rfl rfl ?_ ?_ ?_ ?_ (h.over_of_closed hphase)
    · simp only [CircuitBreaker.phase, hstate, hat]
    · intro n w hp
      cases hp
      exact ⟨by omega, hw⟩
    · intro n hp
      cases hp
    · intro since hp
      cases hp

theorem Refines.recordFailure (h : Refines c last b s) :
    Refines c last (b.recordFailure last) (s.step c ⟨last, .recordFailure⟩) := by
  obtain rfl := h.config_eq
  rcases h.cases with ⟨hstate, hat, hphase⟩ | ⟨since, hstate, hat, hphase⟩ |
    ⟨since, hstate, hat, hphase⟩
  · obtain ⟨hcount, hle⟩ := h.closed _ _ hphase
    have hwindow : b.config.failureWindow ≤ last - b.windowStart ↔
        b.windowStart + b.config.failureWindow ≤ last := Nat.le_sub_iff_add_le' hle
    simp only [CircuitSpec.step, hphase, CircuitSpec.failClosed]
    simp only [CircuitBreaker.recordFailure, hstate, CircuitBreaker.maybeResetWindow, hwindow]
    by_cases hrestart : b.windowStart + b.config.failureWindow ≤ last
    · have hend := h.countFailure hstate hat hphase (n := 0) (by omega) (le_refl last)
      simp only [hrestart, if_true]
      simpa only [hstate, Nat.zero_add] using hend
    · have hend := h.countFailure hstate hat hphase hcount hle
      simp only [hrestart, if_false]
      exact hend
  · simp only [CircuitBreaker.recordFailure, hstate, CircuitSpec.step, hphase]
    exact h
  · simp only [CircuitBreaker.recordFailure, hstate, CircuitSpec.step, hphase]
    exact h.openCircuit rfl rfl (by simp [hstate])

theorem Refines.step (h : Refines c last b s) {t : TimedCall} (hle : last ≤ t.now) :
    Refines c t.now (b.step t) (s.step c t) := by
  have hnow := h.later hle
  rcases t with ⟨now, call⟩
  cases call with
  | allowRequest => exact hnow.allowRequest
  | state => exact hnow.maybeTransition
  | recordSuccess => exact hnow.recordSuccess
  | recordFailure => exact hnow.recordFailure
  | reset =>
    have hstep : s.step c ⟨now, .reset⟩ = ⟨.closed 0 now, .reset :: s.log⟩ := by
      unfold CircuitSpec.step
      cases s.phase <;> rfl
    rw [hstep]
    refine hnow.close rfl rfl ?_
    intro since hs
    cases hs

theorem Refines.run (h : Refines c last b s) {calls : List TimedCall}
    (hordered : (last :: calls.map TimedCall.now).Pairwise (· ≤ ·)) :
    ∃ final ∈ last :: calls.map TimedCall.now,
      Refines c final (Machine.run CircuitBreaker.step b calls)
        (Machine.run (CircuitSpec.step c) s calls) := by
  induction calls generalizing last b s with
  | nil => exact ⟨last, List.mem_cons_self, h⟩
  | cons t rest ih =>
    obtain ⟨hle, hrest⟩ := List.pairwise_cons.mp hordered
    obtain ⟨final, hmem, hfinal⟩ := ih (h.step (hle t.now List.mem_cons_self)) hrest
    exact ⟨final, List.mem_cons_of_mem _ hmem, hfinal⟩

theorem Refines.refuses_iff (h : Refines c last b s) :
    (b.allowRequest last).1 = false ↔
      ∃ since, s.lastOpening = some since ∧ last - since < c.openDuration := by
  have hrefused : (b.allowRequest last).1 = false ↔ (b.maybeTransition last).state = .opened := by
    unfold CircuitBreaker.allowRequest
    dsimp only
    split <;> simp_all
  have hover : (∀ since, s.phase ≠ .opened since) →
      ¬ ∃ since, s.lastOpening = some since ∧ last - since < c.openDuration := by
    rintro hphase ⟨since, hlast, hlt⟩
    have hle := h.elapsed hphase since hlast
    exact absurd (Nat.le_sub_of_add_le' hle) (Nat.not_le.mpr hlt)
  obtain rfl := h.config_eq
  rw [hrefused]
  rcases h.cases with ⟨hstate, hat, hphase⟩ | ⟨since, hstate, hat, hphase⟩ |
    ⟨since, hstate, hat, hphase⟩
  · simp only [CircuitBreaker.maybeTransition, hstate, reduceCtorEq, if_false, false_iff]
    exact hover (by simp [hphase])
  · obtain ⟨hlast, -⟩ := h.opened since hphase
    simp only [CircuitBreaker.maybeTransition, CircuitBreaker.halfOpen, hstate, hat, if_true,
      hlast, Option.some.injEq, exists_eq_left']
    split
    · rename_i hwait
      simp [hwait]
    · rename_i hwait
      simp [hstate, Nat.not_le.mp hwait]
  · simp only [CircuitBreaker.maybeTransition, hstate, reduceCtorEq, if_false, false_iff]
    exact hover (by simp [hphase])

theorem state_of_phase {ph : Phase} (h : b.phase = some ph) :
    (b.state = .closed ↔ ∃ n w, ph = .closed n w) ∧
      (b.state = .halfOpen ↔ ∃ n, ph = .halfOpen n) ∧
      (b.openedAt.isSome = true ↔ b.state ≠ .closed) := by
  unfold phase at h
  split at h <;> simp_all <;> cases h <;> simp

theorem Refines.closes_iff (h : Refines c last b s) (call : CircuitCall) :
    (b.state = .halfOpen ∧ (b.step ⟨last, call⟩).state = .closed) ↔
      ∃ n, s.phase = .halfOpen n ∧
        (call = .recordSuccess ∧ n + 1 = max c.successThreshold 1 ∨ call = .reset) := by
  have hnext := h.step (t := ⟨last, call⟩) le_rfl
  rw [(state_of_phase h.phase_eq).2.1, (state_of_phase hnext.phase_eq).1]
  constructor
  · rintro ⟨⟨n, hphase⟩, m, w, hclosed⟩
    refine ⟨n, hphase, ?_⟩
    cases call with
    | reset => exact .inr rfl
    | recordSuccess =>
      refine .inl ⟨rfl, ?_⟩
      simp only [CircuitSpec.step, hphase] at hclosed
      by_contra hn
      rw [if_neg hn] at hclosed
      cases hclosed
    | recordFailure =>
      simp only [CircuitSpec.step, hphase, CircuitSpec.opens] at hclosed
      cases hclosed
    | allowRequest | state =>
      simp only [CircuitSpec.step, hphase] at hclosed
      cases hclosed
  · rintro ⟨n, hphase, ⟨rfl, hn⟩ | rfl⟩
    · exact ⟨⟨n, hphase⟩, 0, last, by simp only [CircuitSpec.step, hphase, if_pos hn]⟩
    · exact ⟨⟨n, hphase⟩, 0, last, by simp only [CircuitSpec.step]⟩

end CircuitBreaker

/-- For every sequence of calls at non-decreasing times: the breaker is in the phase of the
automaton; it refuses a request exactly when the last opening is less than the open duration ago
and no reset came after it; it goes from half-open to closed exactly on the success that
completes the threshold, or by a reset; `opened_at` is set exactly when it is not closed; and
it counts the openings. -/
theorem circuit_breaker_refines (c : CircuitBreakerConfig) (start : Nat) (calls : List TimedCall)
    (now : Nat) (hordered : (start :: (calls.map TimedCall.now ++ [now])).Pairwise (· ≤ ·)) :
    let b := Machine.run CircuitBreaker.step (CircuitBreaker.new c start) calls
    let s := Machine.run (CircuitSpec.step c) (CircuitSpec.init start) calls
    b.phase = some s.phase ∧
      ((b.allowRequest now).1 = false ↔
        ∃ since, s.lastOpening = some since ∧ now - since < c.openDuration) ∧
      (∀ call, (b.state = .halfOpen ∧ (b.step ⟨now, call⟩).state = .closed) ↔
        ∃ n, s.phase = .halfOpen n ∧
          (call = .recordSuccess ∧ n + 1 = max c.successThreshold 1 ∨ call = .reset)) ∧
      (b.openedAt.isSome = true ↔ b.state ≠ .closed) ∧ b.timesOpened = s.openings := by
  intro b s
  rw [← List.cons_append, List.pairwise_append] at hordered
  obtain ⟨hcalls, -, hlast⟩ := hordered
  obtain ⟨final, hmem, hfinal⟩ := (CircuitBreaker.refines_new c start).run hcalls
  have hnow := hfinal.later (hlast final hmem now (by simp))
  exact ⟨hnow.phase_eq, hnow.refuses_iff, hnow.closes_iff,
    (CircuitBreaker.state_of_phase hnow.phase_eq).2.2, hnow.timesOpened_eq⟩

/-- The second failure opens the circuit at 2, and a request at 5 is refused. -/
theorem refused_after_second_failure :
    ((Machine.run CircuitBreaker.step (CircuitBreaker.new ⟨2, 1, 10, 60⟩ 0)
      [⟨1, .recordFailure⟩, ⟨2, .recordFailure⟩]).allowRequest 5).1 = false :=
  (circuit_breaker_refines ⟨2, 1, 10, 60⟩ 0 [⟨1, .recordFailure⟩, ⟨2, .recordFailure⟩] 5
    (by decide)).2.1.mpr ⟨2, by decide, by decide⟩

namespace CircuitBreaker

def trip (b : CircuitBreaker) (now : Nat) : CircuitBreaker := b.openCircuit now

def setConfig (b : CircuitBreaker) (newConfig : CircuitBreakerConfig) : CircuitBreaker :=
  { b with config := newConfig }

end CircuitBreaker

/-- The calls of the request path and the administrative ones. -/
inductive BreakerCall where
  | request (call : CircuitCall)
  | trip
  | setConfig (newConfig : CircuitBreakerConfig)
deriving DecidableEq

structure TimedBreakerCall where
  now : Nat
  call : BreakerCall
deriving DecidableEq

/-- The call neither resets the breaker nor changes its configuration. -/
def TimedBreakerCall.Ordinary (c : TimedBreakerCall) : Prop :=
  c.call ≠ .request .reset ∧ ∀ newConfig, c.call ≠ .setConfig newConfig

namespace CircuitBreaker

def stepAny (b : CircuitBreaker) (c : TimedBreakerCall) : CircuitBreaker :=
  match c.call with
  | .request call => b.step ⟨c.now, call⟩
  | .trip => b.trip c.now
  | .setConfig newConfig => b.setConfig newConfig

/-- After `trip` at `t`, no request is allowed before the open duration is over. -/
def TripHolds (b : CircuitBreaker) (t : Nat) : Prop :=
  ∀ (between : List TimedBreakerCall) (now : Nat),
    (t :: (between.map TimedBreakerCall.now ++ [now])).Pairwise (· ≤ ·) →
    (∀ c ∈ between, c.Ordinary) → now < t + b.config.openDuration →
    ((Machine.run stepAny (b.trip t) between).allowRequest now).1 = false

/-- An open breaker knows since when. -/
def Dated (last : Nat) (b : CircuitBreaker) : Prop :=
  b.state = .opened → ∃ since ≤ last, b.openedAt = some since

structure OpenSince (t openDuration : Nat) (b : CircuitBreaker) : Prop where
  state_eq : b.state = .opened
  openedAt_eq : b.openedAt = some t
  duration_eq : b.config.openDuration = openDuration

variable {b : CircuitBreaker} {last now t openDuration : Nat}

theorem Dated.later (h : Dated last b) (hle : last ≤ now) : Dated now b := by
  intro hopen
  obtain ⟨since, hsince, hat⟩ := h hopen
  exact ⟨since, hsince.trans hle, hat⟩

theorem dated_of_ne (h : b.state ≠ .opened) : Dated now b := fun hopen => absurd hopen h

theorem dated_close : Dated now (b.close now) := dated_of_ne nofun

theorem Dated.openCircuit (h : b.state = .opened → Dated now b) :
    Dated now (b.openCircuit now) := by
  unfold CircuitBreaker.openCircuit
  split
  · rename_i hopen
    exact h hopen
  · exact fun _ => ⟨now, le_rfl, rfl⟩

theorem Dated.maybeTransition (h : Dated now b) : Dated now (b.maybeTransition now) := by
  unfold CircuitBreaker.maybeTransition CircuitBreaker.halfOpen
  split
  · split
    · split
      · exact dated_of_ne nofun
      · exact h
    · exact h
  · exact h

theorem Dated.allowRequest (h : Dated now b) : Dated now (b.allowRequest now).2 := by
  unfold CircuitBreaker.allowRequest
  dsimp only
  split
  · exact h.maybeTransition
  · exact h.maybeTransition
  · exact h.maybeTransition

theorem Dated.recordSuccess (h : Dated now b) : Dated now (b.recordSuccess now) := by
  unfold CircuitBreaker.recordSuccess
  split
  · exact h
  · dsimp only
    split
    · exact dated_close
    · exact h
  · exact h

theorem Dated.recordFailure (h : Dated now b) : Dated now (b.recordFailure now) := by
  unfold CircuitBreaker.recordFailure
  split
  · rename_i hclosed
    have hstate : (b.maybeResetWindow now).state = .closed := by
      unfold CircuitBreaker.maybeResetWindow
      split <;> exact hclosed
    have hcounted (n : Nat) :
        Dated now { b.maybeResetWindow now with failureCount := n } :=
      dated_of_ne (by simp [hstate])
    dsimp only
    split
    · exact .openCircuit fun _ => hcounted _
    · exact hcounted _
  · exact .openCircuit fun _ => h
  · exact h

theorem Dated.stepAny {c : TimedBreakerCall} (h : Dated last b) (hle : last ≤ c.now) :
    Dated c.now (b.stepAny c) := by
  have hnow := h.later hle
  obtain ⟨time, call⟩ := c
  cases call with
  | trip => exact .openCircuit fun _ => hnow
  | setConfig newConfig => exact hnow
  | request call =>
    cases call with
    | allowRequest => exact hnow.allowRequest
    | state => exact hnow.maybeTransition
    | recordSuccess => exact hnow.recordSuccess
    | recordFailure => exact hnow.recordFailure
    | reset => exact dated_close

theorem Dated.run {calls : List TimedBreakerCall} (h : Dated last b)
    (hordered : (last :: (calls.map TimedBreakerCall.now ++ [now])).Pairwise (· ≤ ·)) :
    Dated now (Machine.run CircuitBreaker.stepAny b calls) := by
  induction calls generalizing last b with
  | nil => exact h.later ((List.pairwise_cons.mp hordered).1 now (by simp))
  | cons c rest ih =>
    obtain ⟨hle, hrest⟩ := List.pairwise_cons.mp hordered
    exact ih (h.stepAny (hle c.now (by simp))) hrest

theorem OpenSince.maybeTransition (h : OpenSince t openDuration b)
    (hnow : now < t + openDuration) (hle : t ≤ now) : b.maybeTransition now = b := by
  have hwait : ¬ openDuration ≤ now - t := by omega
  unfold CircuitBreaker.maybeTransition
  simp only [h.state_eq, h.openedAt_eq, h.duration_eq, hwait, if_true, if_false]

theorem OpenSince.refuses (h : OpenSince t openDuration b) (hnow : now < t + openDuration)
    (hle : t ≤ now) : (b.allowRequest now).1 = false := by
  unfold CircuitBreaker.allowRequest
  simp only [h.maybeTransition hnow hle, h.state_eq]

/-- An ordinary call leaves the breaker open while its time has not come. -/
theorem OpenSince.stepAny {c : TimedBreakerCall} (h : OpenSince t openDuration b)
    (hnow : c.now < t + openDuration) (hle : t ≤ c.now) (hordinary : c.Ordinary) :
    OpenSince t openDuration (b.stepAny c) := by
  have hstays := h.maybeTransition hnow hle
  obtain ⟨time, call⟩ := c
  cases call with
  | setConfig newConfig => exact absurd rfl (hordinary.2 newConfig)
  | trip =>
    unfold CircuitBreaker.stepAny trip CircuitBreaker.openCircuit
    dsimp only
    rw [if_pos h.state_eq]
    exact h
  | request call =>
    cases call with
    | reset => exact absurd rfl hordinary.1
    | state =>
      unfold CircuitBreaker.stepAny CircuitBreaker.step currentState
      dsimp only
      rw [hstays]
      exact h
    | allowRequest =>
      unfold CircuitBreaker.stepAny CircuitBreaker.step CircuitBreaker.allowRequest
      simp only [hstays, h.state_eq]
      exact ⟨rfl, h.openedAt_eq, h.duration_eq⟩
    | recordSuccess =>
      unfold CircuitBreaker.stepAny CircuitBreaker.step CircuitBreaker.recordSuccess
      simp only [h.state_eq]
      exact h
    | recordFailure =>
      unfold CircuitBreaker.stepAny CircuitBreaker.step CircuitBreaker.recordFailure
      simp only [h.state_eq]
      exact h

theorem OpenSince.run {between : List TimedBreakerCall} (h : OpenSince t openDuration b)
    (hbetween : ∀ c ∈ between, (t ≤ c.now ∧ c.now < t + openDuration) ∧ c.Ordinary) :
    OpenSince t openDuration (Machine.run CircuitBreaker.stepAny b between) :=
  Machine.run_invariant
    (fun _ _ hc hs => hs.stepAny hc.1.2 hc.1.1 hc.2) h
    (Machine.allSteps_of_forall (fun c hc _ => hbetween c hc) b)

theorem OpenSince.tripHolds (h : OpenSince t b.config.openDuration (b.trip t)) :
    b.TripHolds t := by
  intro between now hordered hordinary hnow
  rw [List.pairwise_cons, List.pairwise_append] at hordered
  obtain ⟨hstart, -, -, hend⟩ := hordered
  have hbetween : ∀ c ∈ between,
      (t ≤ c.now ∧ c.now < t + b.config.openDuration) ∧ c.Ordinary := by
    intro c hc
    have hmem : c.now ∈ between.map TimedBreakerCall.now := List.mem_map_of_mem hc
    have hle : c.now ≤ now := hend c.now hmem now (by simp)
    exact ⟨⟨hstart c.now (List.mem_append_left _ hmem), hle.trans_lt hnow⟩, hordinary c hc⟩
  exact (h.run hbetween).refuses hnow (hstart now (by simp))

/-- A breaker that is open since an earlier time ignores the trip, and lets a request through
when that time is over. -/
theorem not_tripHolds (hopen : b.state = .opened) {since : Nat} (hat : b.openedAt = some since)
    (hlt : since < t) (hduration : 0 < b.config.openDuration) : ¬ b.TripHolds t := by
  intro h
  have hbefore : max t (since + b.config.openDuration) < t + b.config.openDuration :=
    max_lt (Nat.lt_add_of_pos_right hduration) (Nat.add_lt_add_right hlt _)
  have hrefused := h [] (max t (since + b.config.openDuration)) (by simp) (by simp) hbefore
  have hwait : b.config.openDuration ≤ max t (since + b.config.openDuration) - since :=
    Nat.le_sub_of_add_le' (le_max_right _ _)
  have htrip : b.trip t = b := if_pos hopen
  simp [htrip, CircuitBreaker.allowRequest, CircuitBreaker.maybeTransition,
    CircuitBreaker.halfOpen, hopen, hat, hwait] at hrefused

end CircuitBreaker

/-- In every reachable state a forced trip takes effect exactly if the breaker is not already
open since an earlier time, or has no open duration. -/
theorem trip_takes_effect_iff (c : CircuitBreakerConfig) (start : Nat)
    (history : List TimedBreakerCall) (t : Nat)
    (hordered : (start :: (history.map TimedBreakerCall.now ++ [t])).Pairwise (· ≤ ·)) :
    let b := Machine.run CircuitBreaker.stepAny (CircuitBreaker.new c start) history
    b.TripHolds t ↔
      (b.state = .opened → b.openedAt = some t ∨ b.config.openDuration = 0) := by
  intro b
  have hdated : b.Dated t := CircuitBreaker.Dated.run (CircuitBreaker.dated_of_ne nofun) hordered
  constructor
  · intro hholds hopen
    obtain ⟨since, hle, hat⟩ := hdated hopen
    by_contra hnot
    obtain ⟨hne, hduration⟩ := not_or.mp hnot
    have hlt : since < t := by
      refine lt_of_le_of_ne hle ?_
      rintro rfl
      exact hne hat
    exact CircuitBreaker.not_tripHolds hopen hat hlt (Nat.pos_of_ne_zero hduration) hholds
  · intro hcond
    by_cases hopen : b.state = .opened
    · have htrip : b.trip t = b := if_pos hopen
      rcases hcond hopen with hat | hzero
      · apply CircuitBreaker.OpenSince.tripHolds
        rw [htrip]
        exact ⟨hopen, hat, rfl⟩
      · intro between now hord _ hnow
        have hle : t ≤ now := (List.pairwise_cons.mp hord).1 now (by simp)
        rw [hzero] at hnow
        exact absurd hnow (Nat.not_lt.mpr hle)
    · apply CircuitBreaker.OpenSince.tripHolds
      rw [show b.trip t = _ from if_neg hopen]
      exact ⟨rfl, rfl, rfl⟩

/-- A trip of a closed breaker at 5 takes effect. -/
theorem trip_of_closed :
    (CircuitBreaker.new ⟨2, 1, 10, 60⟩ 0).TripHolds 5 :=
  (trip_takes_effect_iff ⟨2, 1, 10, 60⟩ 0 [] 5 (by decide)).mpr nofun

/-- The breaker opens at 1 for 10; a trip at 11 does nothing, and the next request is allowed. -/
theorem trip_ignored :
    ¬ ∀ (c : CircuitBreakerConfig) (start : Nat) (history : List TimedBreakerCall) (t : Nat),
      (start :: (history.map TimedBreakerCall.now ++ [t])).Pairwise (· ≤ ·) →
      (Machine.run CircuitBreaker.stepAny (CircuitBreaker.new c start) history).TripHolds t := by
  intro h
  have hrefused := h ⟨1, 1, 10, 60⟩ 0 [⟨1, .request .recordFailure⟩] 11 (by decide) [] 11
    (by decide) (by simp) (by decide)
  exact absurd hrefused (by decide)

end Conproxy
