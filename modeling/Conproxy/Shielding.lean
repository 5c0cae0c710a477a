import Conproxy.Lib.Costs
import Conproxy.Circuit

/-!
# What reaches a failing upstream

The request path of `execute_query` around the breaker: `allow_request` comes before the upstream
query and `record_success` or `record_failure` after it, and other queries come in between. A query
that was allowed is in flight until its outcome is recorded. A `state` event only reads the state:
the circuit endpoint does, and a query that passes `allow_request` and then waits for the leader of
its key, which sends nothing itself and is no request here. While every outcome is a failure, the
failures that a window lets through and the queries that a half-open circuit lets in bound what
reaches the upstream.
-/

namespace Conproxy

open Machine

set_option autoImplicit false

inductive PathEvent where
  | request
  | state
  | finished (success : Bool)
deriving DecidableEq

structure TimedPathEvent where
  now : Nat
  event : PathEvent
deriving DecidableEq

structure UpstreamPath where
  breaker : CircuitBreaker
  inFlight : Nat

namespace UpstreamPath

def new (c : CircuitBreakerConfig) (start : Nat) : UpstreamPath := ⟨.new c start, 0⟩

/-- The outcome of a query that is not in flight does not occur. -/
def step (u : UpstreamPath) (e : TimedPathEvent) : UpstreamPath :=
  match e.event with
  | .request =>
    match u.breaker.allowRequest e.now with
    | (true, breaker) => ⟨breaker, u.inFlight + 1⟩
    | (false, breaker) => ⟨breaker, u.inFlight⟩
  | .state => ⟨(u.breaker.currentState e.now).2, u.inFlight⟩
  | .finished success =>
    match u.inFlight with
    | 0 => u
    | n + 1 =>
      ⟨if success then u.breaker.recordSuccess e.now else u.breaker.recordFailure e.now, n⟩

/-- A request that reaches the upstream. -/
def sends (u : UpstreamPath) (e : TimedPathEvent) : Nat :=
  if e.event = .request ∧ (u.breaker.allowRequest e.now).1 = true then 1 else 0

/-- An outcome that is recorded. -/
def finishes (u : UpstreamPath) (e : TimedPathEvent) : Nat :=
  match e.event with
  | .request | .state => 0
  | .finished _ => min 1 u.inFlight

/-- The call of the breaker that an event makes. -/
def call (u : UpstreamPath) (e : TimedPathEvent) : Option CircuitCall :=
  match e.event with
  | .request => some .allowRequest
  | .state => some .state
  | .finished success =>
    if u.inFlight = 0 then none
    else some (if success then .recordSuccess else .recordFailure)

variable {c : CircuitBreakerConfig} {u : UpstreamPath} {e : TimedPathEvent} {last n : Nat}

theorem breaker_step (u : UpstreamPath) (e : TimedPathEvent) :
    (u.step e).breaker =
      match u.call e with
      | some call => u.breaker.step ⟨e.now, call⟩
      | none => u.breaker := by
  rcases e with ⟨now, _ | _ | success⟩
  · simp only [step, call, CircuitBreaker.step]
    split
    · rename_i h
      rw [h]
    · rename_i h
      rw [h]
  · rfl
  · rcases u with ⟨breaker, _ | n⟩
    · rfl
    · cases success <;> rfl

theorem inFlight_step (u : UpstreamPath) (e : TimedPathEvent) :
    (u.step e).inFlight + u.finishes e = u.inFlight + u.sends e := by
  rcases e with ⟨now, _ | _ | success⟩
  · simp only [step, sends, finishes, true_and]
    split
    · rename_i h
      simp [h]
    · rename_i h
      simp [h]
  · simp [step, sends, finishes]
  · rcases u with ⟨breaker, _ | n⟩ <;> simp [step, sends, finishes]

theorem inFlight_run (u : UpstreamPath) (events : List TimedPathEvent) :
    (run step u events).inFlight + total step finishes u events =
      u.inFlight + total step sends u events := by
  induction events generalizing u with
  | nil => rfl
  | cons e rest ih =>
    have hstep := inFlight_step u e
    have hrest := ih (u.step e)
    rw [total_cons, total_cons, run_cons]
    omega

end UpstreamPath

/-! ## What a phase still lets through -/

namespace CircuitBreakerConfig

/-- The failures that open the circuit. -/
def threshold (c : CircuitBreakerConfig) : Nat := max c.failureThreshold 1

/-- What one outcome weighs: the bounds are counted in products of the two durations. -/
def weight (c : CircuitBreakerConfig) : Nat := c.failureWindow * c.openDuration

/-- What comes in with the time: a window's failures in every window, and the queries in flight in
every open duration. -/
def rate (c : CircuitBreakerConfig) (n : Nat) : Nat :=
  c.threshold * c.openDuration + n * c.failureWindow

theorem window_mul_threshold (c : CircuitBreakerConfig) :
    c.threshold * c.openDuration * c.failureWindow = c.weight * c.threshold := by
  rw [weight, Nat.mul_assoc, Nat.mul_comm, Nat.mul_comm c.openDuration]

end CircuitBreakerConfig

/-- The failed outcomes that can still be recorded, `m` queries being in flight and `n` at most. A
closed circuit counts up to its threshold and opens; an open one waits for the queries in flight,
and a half-open one lets others in until the first outcome. -/
def Phase.charge (c : CircuitBreakerConfig) (n now m : Nat) : Phase → Nat
  | .closed failures windowStart =>
    c.weight * (c.threshold - failures + n) +
      c.threshold * c.openDuration * min (now - windowStart) c.failureWindow
  | .opened since => c.weight * m + n * c.failureWindow * min (now - since) c.openDuration
  | .halfOpen _ => c.weight * n

namespace Phase

variable {c : CircuitBreakerConfig} {n now m last : Nat}

theorem charge_later (ph : Phase) (hle : last ≤ now) :
    ph.charge c n now m ≤ ph.charge c n last m + (now - last) * c.rate n := by
  have hscaled (a b since bound : Nat) : a * min (now - since) bound ≤
      a * min (last - since) bound + (now - last) * (a + b) := by
    have hmin : min (now - since) bound ≤ min (last - since) bound + (now - last) := by omega
    calc a * min (now - since) bound
        ≤ a * (min (last - since) bound + (now - last)) := Nat.mul_le_mul_left a hmin
      _ = a * min (last - since) bound + (now - last) * a := by
        rw [Nat.mul_add, Nat.mul_comm a (now - last)]
      _ ≤ _ := Nat.add_le_add_left (Nat.mul_le_mul_left _ (Nat.le_add_right a b)) _
  cases ph with
  | closed failures windowStart =>
    have hwindow := hscaled (c.threshold * c.openDuration) (n * c.failureWindow) windowStart
      c.failureWindow
    simp only [charge, CircuitBreakerConfig.rate]
    omega
  | opened since =>
    have hopen := hscaled (n * c.failureWindow) (c.threshold * c.openDuration) since
      c.openDuration
    rw [Nat.add_comm (n * c.failureWindow) (c.threshold * c.openDuration)] at hopen
    simp only [charge, CircuitBreakerConfig.rate]
    omega
  | halfOpen successes => exact Nat.le_add_right _ _

theorem charge_of_not_opened {ph : Phase} (h : ∀ since, ph ≠ .opened since) (m' : Nat) :
    ph.charge c n now m = ph.charge c n now m' := by
  cases ph with
  | closed failures windowStart => rfl
  | opened since => exact absurd rfl (h since)
  | halfOpen successes => rfl

end Phase

namespace CircuitSpec

variable {c : CircuitBreakerConfig} {s : CircuitSpec} {n now m : Nat}

theorem charge_state (s : CircuitSpec) :
    (s.step c ⟨now, .state⟩).phase.charge c n now m ≤ s.phase.charge c n now m := by
  cases hphase : s.phase with
  | closed failures windowStart =>
    simp only [step, hphase]
    exact Nat.le_refl _
  | opened since =>
    simp only [step, hphase]
    split
    · rename_i hover
      -- The open duration has brought in a charge for every query in flight.
      have hfull : min (now - since) c.openDuration = c.openDuration := by omega
      simp only [Phase.charge, hfull, CircuitBreakerConfig.weight]
      rw [Nat.mul_assoc n, Nat.mul_comm n]
      exact Nat.le_add_left _ _
    · rw [hphase]
  | halfOpen successes =>
    simp only [step, hphase]
    exact Nat.le_refl _

/-- A recorded failure is paid for. -/
theorem charge_recordFailure (hm : m + 1 ≤ n)
    (hclosed : ∀ f w, s.phase = .closed f w → f < c.threshold ∧ w ≤ now) :
    c.weight + (s.step c ⟨now, .recordFailure⟩).phase.charge c n now m ≤
      s.phase.charge c n now (m + 1) := by
  have hone (k : Nat) : c.weight + c.weight * k = c.weight * (k + 1) := by
    rw [Nat.mul_succ, Nat.add_comm]
  have hopens (k : Nat) (hk : m + 1 ≤ k) :
      c.weight + (s.opens now).phase.charge c n now m ≤ c.weight * k := by
    simp only [opens, Phase.charge, Nat.sub_self, Nat.zero_min, Nat.mul_zero, Nat.add_zero]
    exact (hone m).le.trans (Nat.mul_le_mul_left _ hk)
  cases hphase : s.phase with
  | closed failures windowStart =>
    obtain ⟨hfailures, hstart⟩ := hclosed failures windowStart hphase
    have hopened : c.weight + (s.opens now).phase.charge c n now m ≤
        (Phase.closed failures windowStart).charge c n now (m + 1) :=
      (hopens (c.threshold - failures + n) (by omega)).trans (Nat.le_add_right _ _)
    simp only [step, hphase, failClosed]
    by_cases hrestart : windowStart + c.failureWindow ≤ now
    · -- The window that is over has brought in a charge for every failure of the next one.
      have hfull : min (now - windowStart) c.failureWindow = c.failureWindow := by omega
      simp only [hrestart, if_true]
      split
      · exact hopened
      · simp only [Phase.charge, hfull, c.window_mul_threshold, Nat.sub_self, Nat.zero_min,
          Nat.mul_zero, Nat.add_zero]
        rw [← Nat.mul_add, hone]
        exact Nat.mul_le_mul_left _ (by omega)
    · simp only [hrestart, if_false]
      split
      · exact hopened
      · simp only [Phase.charge]
        rw [← Nat.add_assoc, hone]
        exact Nat.add_le_add_right (Nat.mul_le_mul_left _ (by omega)) _
  | opened since =>
    simp only [step, hphase, Phase.charge]
    rw [Nat.mul_succ]
    omega
  | halfOpen successes =>
    simp only [step, hphase]
    exact hopens n hm

end CircuitSpec

namespace UpstreamPath

variable {c : CircuitBreakerConfig} {u : UpstreamPath} {e : TimedPathEvent} {last n : Nat}

/-- The breaker is in a phase of its specification, and at most `n` queries are in flight. -/
structure Tracks (c : CircuitBreakerConfig) (n last : Nat) (u : UpstreamPath) : Prop where
  refines : ∃ s, u.breaker.Refines c last s
  inFlight_le : u.inFlight ≤ n

def charge (c : CircuitBreakerConfig) (n now : Nat) (u : UpstreamPath) : Nat :=
  (u.breaker.phase.map (Phase.charge c n now u.inFlight)).getD 0

theorem charge_eq {s : CircuitSpec} (h : u.breaker.Refines c last s) (now : Nat) :
    u.charge c n now = s.phase.charge c n now u.inFlight := by
  rw [charge, h.phase_eq]
  rfl

theorem refines_step {s : CircuitSpec} (h : u.breaker.Refines c last s) (hle : last ≤ e.now) :
    ∃ s', (u.step e).breaker.Refines c e.now s' := by
  rw [breaker_step]
  cases u.call e with
  | none => exact ⟨s, h.later hle⟩
  | some call => exact ⟨_, h.step (t := ⟨e.now, call⟩) hle⟩

theorem Tracks.step (h : Tracks c n last u) (hle : last ≤ e.now) (hn : (u.step e).inFlight ≤ n) :
    Tracks c n e.now (u.step e) := by
  obtain ⟨s, hs⟩ := h.refines
  exact ⟨refines_step hs hle, hn⟩

theorem refines_run {s : CircuitSpec} (h : u.breaker.Refines c last s)
    {events : List TimedPathEvent} {till : Nat}
    (hordered : (last :: (events.map TimedPathEvent.now ++ [till])).Pairwise (· ≤ ·)) :
    ∃ s', (run UpstreamPath.step u events).breaker.Refines c till s' := by
  induction events generalizing last u s with
  | nil => exact ⟨s, h.later ((List.pairwise_cons.mp hordered).1 till (by simp))⟩
  | cons e rest ih =>
    obtain ⟨hfirst, hrest⟩ := List.pairwise_cons.mp hordered
    obtain ⟨s', hs'⟩ := refines_step (e := e) h (hfirst e.now (by simp))
    exact ih hs' hrest

/-- A request that is allowed does not find the circuit open. -/
theorem not_opened_of_sends {s : CircuitSpec} (h : u.breaker.Refines c e.now s)
    (hsends : (u.breaker.allowRequest e.now).1 = true) (since : Nat) :
    (s.step c ⟨e.now, .allowRequest⟩).phase ≠ .opened since := by
  intro hopen
  have hphase := (h.step (t := ⟨e.now, .allowRequest⟩) le_rfl).phase_eq
  rw [hopen] at hphase
  have hstate : (u.breaker.allowRequest e.now).2.state = .opened := by
    have hclosed := CircuitBreaker.state_of_phase hphase
    cases hstate : (u.breaker.allowRequest e.now).2.state with
    | opened => rfl
    | closed =>
      obtain ⟨_, _, hp⟩ := hclosed.1.mp hstate
      cases hp
    | halfOpen =>
      obtain ⟨_, hp⟩ := hclosed.2.1.mp hstate
      cases hp
  unfold CircuitBreaker.allowRequest at hsends hstate
  dsimp only at hsends hstate
  split at hsends
  · rename_i hs
    simp only [hs] at hstate
    cases hstate
  · cases hsends
  · rename_i hs
    simp only [hs] at hstate
    cases hstate

/-- Every outcome that is recorded is paid for, as long as it is a failure. -/
theorem charge_step (h : Tracks c n last u) (hle : last ≤ e.now)
    (hfails : e.event ≠ .finished true) :
    c.weight * u.finishes e + (u.step e).charge c n e.now ≤
      u.charge c n last + (e.now - last) * c.rate n := by
  obtain ⟨⟨s, hs⟩, hn⟩ := h
  have hnow := hs.later hle
  have hlater := s.phase.charge_later (c := c) (n := n) (m := u.inFlight) hle
  rw [charge_eq hs]
  refine le_trans ?_ hlater
  have hafter (call : CircuitCall) (hcall : u.call e = some call) :
      (u.step e).charge c n e.now =
        (s.step c ⟨e.now, call⟩).phase.charge c n e.now (u.step e).inFlight := by
    have hstep : (u.step e).breaker.Refines c e.now (s.step c ⟨e.now, call⟩) := by
      rw [breaker_step, hcall]
      exact hnow.step (t := ⟨e.now, call⟩) le_rfl
    exact charge_eq hstep e.now
  obtain ⟨now, event⟩ := e
  cases event with
  | request =>
    rw [hafter .allowRequest rfl]
    have hstate : s.step c ⟨now, .allowRequest⟩ = s.step c ⟨now, .state⟩ := by
      unfold CircuitSpec.step
      cases s.phase <;> rfl
    have hmove : (s.step c ⟨now, .state⟩).phase.charge c n now u.inFlight ≤
        s.phase.charge c n now u.inFlight := s.charge_state
    rw [← hstate] at hmove
    cases hsent : (u.breaker.allowRequest now).1 with
    | false =>
      have hflight : (u.step ⟨now, .request⟩).inFlight = u.inFlight := by
        have := inFlight_step u ⟨now, .request⟩
        simpa [sends, finishes, hsent] using this
      rw [hflight]
      simpa [finishes] using hmove
    | true =>
      rw [Phase.charge_of_not_opened (not_opened_of_sends (e := ⟨now, .request⟩) hnow hsent)
        u.inFlight]
      simpa [finishes] using hmove
  | state =>
    have hmove : (s.step c ⟨now, .state⟩).phase.charge c n now u.inFlight ≤
        s.phase.charge c n now u.inFlight := s.charge_state
    have hflight : (u.step ⟨now, .state⟩).inFlight = u.inFlight := rfl
    rw [hafter .state rfl, hflight]
    simpa [finishes] using hmove
  | finished success =>
    cases success with
    | true => exact absurd rfl hfails
    | false =>
      obtain ⟨breaker, m⟩ := u
      cases m with
      | zero =>
        have hsame : (UpstreamPath.mk breaker 0).step ⟨now, .finished false⟩ = ⟨breaker, 0⟩ := rfl
        rw [hsame, charge_eq hs]
        simp [finishes]
      | succ m =>
        rw [hafter .recordFailure rfl]
        have hpaid : c.weight + (s.step c ⟨now, .recordFailure⟩).phase.charge c n now m ≤
            s.phase.charge c n now (m + 1) := CircuitSpec.charge_recordFailure hn hnow.closed
        simpa [finishes, UpstreamPath.step] using hpaid

theorem charge_le (h : Tracks c n last u) :
    u.charge c n last ≤ c.weight * (2 * c.threshold + 2 * n) := by
  obtain ⟨⟨s, hs⟩, hn⟩ := h
  rw [charge_eq hs]
  cases s.phase with
  | closed failures windowStart =>
    have hwindow : c.threshold * c.openDuration * min (last - windowStart) c.failureWindow ≤
        c.weight * c.threshold := by
      rw [c.window_mul_threshold.symm]
      exact Nat.mul_le_mul_left _ (Nat.min_le_right _ _)
    calc _ ≤ c.weight * (c.threshold - failures + n) + c.weight * c.threshold :=
          Nat.add_le_add_left hwindow _
      _ = c.weight * (c.threshold - failures + n + c.threshold) := (Nat.mul_add _ _ _).symm
      _ ≤ _ := Nat.mul_le_mul_left _ (by omega)
  | opened since =>
    have hopen : n * c.failureWindow * min (last - since) c.openDuration ≤ c.weight * n := by
      rw [CircuitBreakerConfig.weight, Nat.mul_comm (c.failureWindow * _), ← Nat.mul_assoc]
      exact Nat.mul_le_mul_left _ (Nat.min_le_right _ _)
    calc _ ≤ c.weight * u.inFlight + c.weight * n := Nat.add_le_add_left hopen _
      _ = c.weight * (u.inFlight + n) := (Nat.mul_add _ _ _).symm
      _ ≤ _ := Nat.mul_le_mul_left _ (by omega)
  | halfOpen successes => exact Nat.mul_le_mul_left _ (by omega)

end UpstreamPath

open UpstreamPath in
/-- After any run, while every outcome is a failure and at most `n` queries are in flight at a time,
what is sent to the upstream is at most twice the threshold and three times `n`, and with the time a
threshold in every failure window and `n` in every open duration. -/
theorem failing_upstream_shielded (c : CircuitBreakerConfig) (start n since till : Nat)
    (before during : List TimedPathEvent)
    (hbefore : (start :: (before.map TimedPathEvent.now ++ [since])).Pairwise (· ≤ ·))
    (hduring : (since :: (during.map TimedPathEvent.now ++ [till])).Pairwise (· ≤ ·))
    (hfails : ∀ e ∈ during, e.event ≠ .finished true)
    (hfirst : (run step (new c start) before).inFlight ≤ n)
    (hflight : AllSteps step (fun u e => (u.step e).inFlight ≤ n)
      (run step (new c start) before) during) :
    let u := run step (new c start) before
    c.weight * total step sends u during ≤
      c.weight * (2 * c.threshold + 3 * n) + (till - since) * c.rate n := by
  intro u
  have htracks : Tracks c n since u :=
    ⟨refines_run (CircuitBreaker.refines_new c start) hbefore, hfirst⟩
  have hall := allSteps_and hflight (allSteps_of_forall (fun e he _ => hfails e he) u)
  have hkeep (last : Nat) (v : UpstreamPath) (e : TimedPathEvent) (hle : last ≤ e.now)
      (h : Tracks c n last v) (hok : (v.step e).inFlight ≤ n ∧ e.event ≠ .finished true) :
      Tracks c n e.now (v.step e) := h.step hle hok.1
  have hfinished : c.weight * total step finishes u during ≤
      u.charge c n since + (till - since) * c.rate n :=
    mul_total_le_of_rate hkeep (fun _ _ _ hle h hok => charge_step h hle hok.2) htracks hall
      hduring
  have hend : (run step u during).inFlight ≤ n := by
    have hkeep (v : UpstreamPath) (e : TimedPathEvent) (hv : (v.step e).inFlight ≤ n)
        (_ : v.inFlight ≤ n) : (v.step e).inFlight ≤ n := hv
    exact run_invariant hkeep hfirst hflight
  have hsent : total step sends u during ≤ total step finishes u during + n := by
    have hflow := inFlight_run u during
    omega
  calc c.weight * total step sends u during
      ≤ c.weight * (total step finishes u during + n) := Nat.mul_le_mul_left _ hsent
    _ = c.weight * total step finishes u during + c.weight * n := Nat.mul_add _ _ _
    _ ≤ u.charge c n since + (till - since) * c.rate n + c.weight * n :=
      Nat.add_le_add_right hfinished _
    _ ≤ c.weight * (2 * c.threshold + 2 * n) + (till - since) * c.rate n + c.weight * n := by
      have := charge_le htracks
      omega
    _ = _ := by
      rw [Nat.add_right_comm, ← Nat.mul_add]
      congr 2
      omega

/-- With a threshold of 2, a window of 60 and an open duration of 10, the first two failures reach
the upstream, and one more in every open duration. -/
theorem failing_upstream_three_sent :
    600 * total UpstreamPath.step UpstreamPath.sends (UpstreamPath.new ⟨2, 1, 10, 60⟩ 0)
      [⟨1, .request⟩, ⟨2, .finished false⟩, ⟨3, .request⟩, ⟨4, .finished false⟩, ⟨5, .request⟩,
        ⟨14, .request⟩, ⟨15, .finished false⟩, ⟨16, .request⟩] ≤ 600 * (2 * 2 + 3) + 20 * 80 :=
  failing_upstream_shielded ⟨2, 1, 10, 60⟩ 0 1 0 20 []
    [⟨1, .request⟩, ⟨2, .finished false⟩, ⟨3, .request⟩, ⟨4, .finished false⟩, ⟨5, .request⟩,
      ⟨14, .request⟩, ⟨15, .finished false⟩, ⟨16, .request⟩]
    (by decide) (by decide) (by decide) (by decide) (by decide)

/-! ## An upstream that works again -/

namespace CircuitSpec

variable {c : CircuitBreakerConfig} {s : CircuitSpec} {now : Nat}

theorem log_step {call : CircuitCall} (hfails : call ≠ .recordFailure) (hreset : call ≠ .reset) :
    (s.step c ⟨now, call⟩).log = s.log := by
  cases call with
  | recordFailure => exact absurd rfl hfails
  | reset => exact absurd rfl hreset
  | allowRequest | state =>
    cases hphase : s.phase with
    | closed | halfOpen => simp only [step, hphase]
    | opened =>
      simp only [step, hphase]
      split <;> rfl
  | recordSuccess =>
    cases hphase : s.phase with
    | closed | opened => simp only [step, hphase]
    | halfOpen =>
      simp only [step, hphase]
      split <;> rfl

/-- The circuit is closed, or half-open with this many successes at least. -/
def Healing (successes : Nat) (s : CircuitSpec) : Prop :=
  (∃ failures windowStart, s.phase = .closed failures windowStart) ∨
    ∃ n, successes ≤ n ∧ s.phase = .halfOpen n

theorem Healing.state {j : Nat} (h : Healing j s) : Healing j (s.step c ⟨now, .state⟩) := by
  have hsame : s.step c ⟨now, .state⟩ = s := by
    rcases h with ⟨f, w, hphase⟩ | ⟨n, -, hphase⟩
    · simp only [step, hphase]
    · simp only [step, hphase]
  rwa [hsame]

theorem Healing.recordSuccess {j : Nat} (h : Healing j s) :
    Healing (j + 1) (s.step c ⟨now, .recordSuccess⟩) := by
  rcases h with ⟨f, w, hphase⟩ | ⟨n, hn, hphase⟩
  · refine .inl ⟨0, w, ?_⟩
    simp only [step, hphase]
  · simp only [step, hphase]
    split
    · exact .inl ⟨0, now, rfl⟩
    · exact .inr ⟨n + 1, Nat.succ_le_succ hn, rfl⟩

end CircuitSpec

namespace UpstreamPath

variable {c : CircuitBreakerConfig} {u : UpstreamPath} {e : TimedPathEvent} {last : Nat}

theorem call_of_success (hfails : e.event ≠ .finished false) {call : CircuitCall}
    (hcall : u.call e = some call) : call ≠ .recordFailure ∧ call ≠ .reset := by
  obtain ⟨now, event⟩ := e
  cases event with
  | request =>
    cases hcall
    exact ⟨nofun, nofun⟩
  | state =>
    cases hcall
    exact ⟨nofun, nofun⟩
  | finished success =>
    cases success with
    | false => exact absurd rfl hfails
    | true =>
      simp only [UpstreamPath.call, if_true] at hcall
      split at hcall
      · cases hcall
      · cases hcall
        exact ⟨nofun, nofun⟩

theorem log_run {s : CircuitSpec} (h : u.breaker.Refines c last s) {events : List TimedPathEvent}
    (hfails : ∀ e ∈ events, e.event ≠ .finished false) {till : Nat}
    (hordered : (last :: (events.map TimedPathEvent.now ++ [till])).Pairwise (· ≤ ·)) :
    ∃ s', (run step u events).breaker.Refines c till s' ∧ s'.log = s.log := by
  induction events generalizing last u s with
  | nil => exact ⟨s, h.later ((List.pairwise_cons.mp hordered).1 till (by simp)), rfl⟩
  | cons e rest ih =>
    obtain ⟨hfirst, hrest⟩ := List.pairwise_cons.mp hordered
    have hnow := h.later (hfirst e.now (by simp))
    have hstep : ∃ s', (u.step e).breaker.Refines c e.now s' ∧ s'.log = s.log := by
      rw [breaker_step]
      cases hcall : u.call e with
      | none => exact ⟨s, hnow, rfl⟩
      | some call =>
        obtain ⟨hfail, hreset⟩ := call_of_success (hfails e (by simp)) hcall
        exact ⟨_, hnow.step (t := ⟨e.now, call⟩) le_rfl, CircuitSpec.log_step hfail hreset⟩
    obtain ⟨s', hs', hlog⟩ := hstep
    obtain ⟨s'', hs'', hlog'⟩ := ih hs' (fun e he => hfails e (by simp [he])) hrest
    exact ⟨s'', hs'', hlog'.trans hlog⟩

theorem healing_step {s : CircuitSpec} {j : Nat} (h : u.breaker.Refines c last s)
    (hheal : s.Healing j) (hle : last ≤ e.now) (hfails : e.event ≠ .finished false) :
    ∃ s', (u.step e).breaker.Refines c e.now s' ∧ s'.Healing (j + u.finishes e) := by
  have hnow := h.later hle
  rw [breaker_step]
  obtain ⟨now, event⟩ := e
  cases event with
  | request =>
    refine ⟨_, hnow.step (t := ⟨now, .allowRequest⟩) le_rfl, ?_⟩
    have hstate : s.step c ⟨now, .allowRequest⟩ = s.step c ⟨now, .state⟩ := by
      unfold CircuitSpec.step
      cases s.phase <;> rfl
    rw [hstate]
    exact hheal.state
  | state => exact ⟨_, hnow.step (t := ⟨now, .state⟩) le_rfl, hheal.state⟩
  | finished success =>
    cases success with
    | false => exact absurd rfl hfails
    | true =>
      obtain ⟨breaker, m⟩ := u
      cases m with
      | zero => exact ⟨s, hnow, by simpa [finishes] using hheal⟩
      | succ m =>
        refine ⟨_, hnow.step (t := ⟨now, .recordSuccess⟩) le_rfl, ?_⟩
        simpa [finishes] using hheal.recordSuccess

theorem healing_run {s : CircuitSpec} {j : Nat} (h : u.breaker.Refines c last s)
    (hheal : s.Healing j) {events : List TimedPathEvent}
    (hfails : ∀ e ∈ events, e.event ≠ .finished false) {till : Nat}
    (hordered : (last :: (events.map TimedPathEvent.now ++ [till])).Pairwise (· ≤ ·)) :
    ∃ s', (run step u events).breaker.Refines c till s' ∧
      s'.Healing (j + total step finishes u events) := by
  induction events generalizing last u s j with
  | nil => exact ⟨s, h.later ((List.pairwise_cons.mp hordered).1 till (by simp)), hheal⟩
  | cons e rest ih =>
    obtain ⟨hfirst, hrest⟩ := List.pairwise_cons.mp hordered
    obtain ⟨s', hs', hheal'⟩ :=
      healing_step h hheal (hfirst e.now (by simp)) (hfails e (by simp))
    obtain ⟨s'', hs'', hheal''⟩ := ih hs' hheal' (fun e he => hfails e (by simp [he])) hrest
    rw [total_cons, ← Nat.add_assoc]
    exact ⟨s'', hs'', hheal''⟩

theorem lastOpening_le {s : CircuitSpec} (h : u.breaker.Refines c last s) {since : Nat}
    (hopening : s.lastOpening = some since) : since ≤ last := by
  by_cases hopen : ∃ t, s.phase = .opened t
  · obtain ⟨t, hphase⟩ := hopen
    obtain ⟨hlast, hle⟩ := h.opened t hphase
    rw [hopening] at hlast
    cases hlast
    exact hle
  · have hover := h.elapsed (fun t hphase => hopen ⟨t, hphase⟩) since hopening
    omega

end UpstreamPath

open UpstreamPath in
/-- After any run, when no outcome after a time is a failure: a request that comes the open duration
after that time or later is allowed, and once as many outcomes as the success threshold asks for
have been recorded after it the circuit is closed. -/
theorem recovered_upstream_reopened (c : CircuitBreakerConfig) (start since now till : Nat)
    (before waiting during : List TimedPathEvent)
    (hbefore : (start :: (before.map TimedPathEvent.now ++ [since])).Pairwise (· ≤ ·))
    (hwaiting : (since :: (waiting.map TimedPathEvent.now ++ [now])).Pairwise (· ≤ ·))
    (hduring : (now :: (during.map TimedPathEvent.now ++ [till])).Pairwise (· ≤ ·))
    (hfails : ∀ e ∈ waiting ++ during, e.event ≠ .finished false)
    (hover : since + c.openDuration ≤ now) :
    let u := run step (new c start) (before ++ waiting)
    u.sends ⟨now, .request⟩ = 1 ∧
      (max c.successThreshold 1 ≤ total step finishes (u.step ⟨now, .request⟩) during →
        (run step (u.step ⟨now, .request⟩) during).breaker.state = .closed) := by
  intro u
  obtain ⟨s, hs⟩ := refines_run (u := new c start) (CircuitBreaker.refines_new c start) hbefore
  obtain ⟨s', hs', hlog⟩ := log_run hs (fun e he => hfails e (by simp [he])) hwaiting
  rw [← run_append] at hs'
  have hallowed : (u.breaker.allowRequest now).1 = true := by
    by_contra hrefused
    rw [Bool.not_eq_true] at hrefused
    obtain ⟨t, hopening, hlt⟩ := hs'.refuses_iff.mp hrefused
    have hbefore' : s.lastOpening = some t := by
      rw [← hopening, CircuitSpec.lastOpening, CircuitSpec.lastOpening, hlog]
    have hle := lastOpening_le hs hbefore'
    omega
  refine ⟨by simp [sends, hallowed], fun hmany => ?_⟩
  have hstep : (u.step ⟨now, .request⟩).breaker.Refines c now
      (s'.step c ⟨now, .allowRequest⟩) := by
    rw [breaker_step]
    exact hs'.step (t := ⟨now, .allowRequest⟩) le_rfl
  have hheal : (s'.step c ⟨now, .allowRequest⟩).Healing 0 := by
    have hnot := not_opened_of_sends (e := ⟨now, .request⟩) hs' hallowed
    cases hphase : (s'.step c ⟨now, .allowRequest⟩).phase with
    | closed f w => exact .inl ⟨f, w, hphase⟩
    | opened t => exact absurd hphase (hnot t)
    | halfOpen n => exact .inr ⟨n, Nat.zero_le n, hphase⟩
  obtain ⟨final, hfinal, hhealed⟩ :=
    healing_run hstep hheal (fun e he => hfails e (by simp [he])) hduring
  rcases hhealed with hclosed | ⟨n, hn, hphase⟩
  · exact (CircuitBreaker.state_of_phase hfinal.phase_eq).1.mpr hclosed
  · have hlt := hfinal.halfOpen n hphase
    omega

open UpstreamPath in
/-- The circuit that the first failure opens at 2 lets a request through at 12, and its success
closes it. -/
theorem recovered_upstream_one_probe :
    let u := run step (new ⟨1, 1, 10, 60⟩ 0) [⟨1, .request⟩, ⟨2, .finished false⟩]
    u.sends ⟨12, .request⟩ = 1 ∧
      (run step (u.step ⟨12, .request⟩) [⟨13, .finished true⟩]).breaker.state = .closed := by
  intro u
  have hprobe := recovered_upstream_reopened ⟨1, 1, 10, 60⟩ 0 2 12 13
    [⟨1, .request⟩, ⟨2, .finished false⟩] [] [⟨13, .finished true⟩] (by decide) (by decide)
    (by decide) (by decide) (by decide)
  exact ⟨hprobe.1, hprobe.2 (by decide)⟩

end Conproxy
