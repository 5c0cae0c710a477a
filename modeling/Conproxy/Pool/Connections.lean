import Mathlib.Data.Finset.Card
import Conproxy.Lib.Machine
import Conproxy.Types

/-!
# The connection pool

`ConnectionPool` of `connection_pool.rs` under every interleaving of its callers. A step is a part
of a call that no other call can split: a `try_acquire`, what is done under the lock of the queue,
what a woken waiter does, the return of a permit. The drop of a connection is two steps, since
`drop` wakes the next waiter before the permit of the connection is given back.
-/

namespace Conproxy

set_option autoImplicit false

structure ConnectionPoolConfig where
  maxConnections : UInt64
  maxQueueSize : UInt64
  queueTimeoutMs : UInt64
deriving DecidableEq

def ConnectionPoolConfig.queueTimeout (config : ConnectionPoolConfig) : Duration :=
  config.queueTimeoutMs.toNat * 1000000

inductive PoolError where
  | queueFull
  | timeout
  | shutdown
deriving DecidableEq

/-- The counters wrap around. -/
structure ConnectionPoolStats where
  active : UInt64
  queued : UInt64
  totalRequests : UInt64
  immediatePermits : UInt64
  queuedRequests : UInt64
  queueTimeouts : UInt64
  queueRejections : UInt64
  waitTimeUs : UInt64
  maxWaitTimeUs : UInt64
deriving DecidableEq

def ConnectionPoolStats.recordWaitTime (stats : ConnectionPoolStats) (duration : Duration) :
    ConnectionPoolStats :=
  let us := UInt64.ofNat (duration / 1000)
  { stats with
    waitTimeUs := stats.waitTimeUs + us
    maxWaitTimeUs := max stats.maxWaitTimeUs us }

/-- The sender is the number of the `acquire` that holds the receiver. -/
structure WaitingRequest where
  readyTx : Nat
  enqueuedAt : Nat
deriving DecidableEq

structure ConnectionPool where
  permits : Nat
  waiting : List WaitingRequest
  config : ConnectionPoolConfig
  stats : ConnectionPoolStats
deriving DecidableEq

/-- Where a call of `acquire` is. It has found no permit; it has read the clock; it is in the
queue; its channel has the signal, or has lost its sender; its timer has fired and its receiver
is gone; it has returned a connection or an error. -/
inductive AcquirePhase where
  | exhausted
  | stamped
  | waiting
  | signalled
  | closed
  | expired
  | returned (error : Option PoolError)
deriving DecidableEq

structure Acquire where
  phase : AcquirePhase
  enqueuedAt : Nat
deriving DecidableEq

/-- The pool with the calls on it: every `acquire` so far, the number of connections, and the
connections that are being dropped, each with the waiter that its drop has signalled. -/
structure PoolState extends ConnectionPool where
  now : Nat
  acquires : List Acquire
  connections : Nat
  releasing : List (Option Nat)
deriving DecidableEq

namespace PoolState

def new (config : ConnectionPoolConfig) : PoolState where
  permits := config.maxConnections.toNat
  waiting := []
  config := config
  stats := ⟨0, 0, 0, 0, 0, 0, 0, 0, 0⟩
  now := 0
  acquires := []
  connections := 0
  releasing := []

def phaseOf (s : PoolState) (i : Nat) : Option AcquirePhase := s.acquires[i]?.map Acquire.phase

def setPhase (s : PoolState) (i : Nat) (phase : AcquirePhase) : PoolState :=
  { s with acquires := s.acquires.modify i fun a => { a with phase := phase } }

/-- A permit becomes a connection. -/
def connect (s : PoolState) : PoolState :=
  { s with
    permits := s.permits - 1
    connections := s.connections + 1
    stats := { s.stats with active := s.stats.active + 1 } }

/-- The first `try_acquire` of a call. -/
def acquire (s : PoolState) : PoolState :=
  let s := { s with stats := { s.stats with totalRequests := s.stats.totalRequests + 1 } }
  if 0 < s.permits then
    let s := { s with stats := { s.stats with immediatePermits := s.stats.immediatePermits + 1 } }
    { s.connect with acquires := s.acquires ++ [⟨.returned none, s.now⟩] }
  else { s with acquires := s.acquires ++ [⟨.exhausted, s.now⟩] }

/-- `enqueued_at` is read before the lock is taken. -/
def stamp (s : PoolState) (i : Nat) : PoolState :=
  { s with acquires := s.acquires.modify i fun _ => ⟨.stamped, s.now⟩ }

def enqueue (s : PoolState) (i : Nat) (enqueuedAt : Nat) : PoolState :=
  if s.config.maxQueueSize.toNat ≤ s.waiting.length then
    { s.setPhase i (.returned (some .queueFull)) with
      stats := { s.stats with queueRejections := s.stats.queueRejections + 1 } }
  else
    { s.setPhase i .waiting with
      waiting := s.waiting ++ [⟨i, enqueuedAt⟩]
      stats := { s.stats with
        queued := s.stats.queued + 1
        queuedRequests := s.stats.queuedRequests + 1 } }

def countTimeout (s : PoolState) : PoolState :=
  { s with stats := { s.stats with queueTimeouts := s.stats.queueTimeouts + 1 } }

def uncount (s : PoolState) : PoolState :=
  { s with stats := { s.stats with queued := s.stats.queued - 1 } }

/-- A signalled waiter tries again. -/
def retry (s : PoolState) (i : Nat) (enqueuedAt : Nat) : PoolState :=
  let s := { s with stats := s.stats.recordWaitTime (s.now - enqueuedAt) }
  if 0 < s.permits then s.connect.setPhase i (.returned none)
  else s.countTimeout.setPhase i (.returned (some .timeout))

/-- What follows the await, by its outcome. -/
def resume (s : PoolState) (i : Nat) (a : Acquire) : PoolState :=
  match a.phase with
  | .signalled => s.retry i a.enqueuedAt
  | .closed => s.uncount.setPhase i (.returned (some .shutdown))
  | .expired => s.countTimeout.uncount.setPhase i (.returned (some .timeout))
  | _ => s

/-- The sender is dropped without a signal. -/
def dropSender (s : PoolState) (i : Nat) : PoolState :=
  if s.phaseOf i = some .waiting then s.setPhase i .closed else s

def popFront (s : PoolState) (rest : List WaitingRequest) : PoolState :=
  { s.uncount with waiting := rest }

def stale (s : PoolState) (w : WaitingRequest) : Bool :=
  s.config.queueTimeout < s.now - w.enqueuedAt

/-- The loop of `wake_next_waiter`, with the waiter that it has signalled. -/
def wakeLoop (s : PoolState) : List WaitingRequest → Option Nat × PoolState
  | [] => (none, s)
  | w :: rest =>
    let s := s.popFront rest
    if s.stale w = true then wakeLoop (s.dropSender w.readyTx) rest
    else if s.phaseOf w.readyTx = some .waiting then
      (some w.readyTx, s.setPhase w.readyTx .signalled)
    else wakeLoop s rest

def wakeNextWaiter (s : PoolState) : Option Nat × PoolState := s.wakeLoop s.waiting

def drainLoop (s : PoolState) : List WaitingRequest → PoolState
  | [] => s
  | w :: rest => drainLoop ((s.popFront rest).dropSender w.readyTx) rest

def drainQueue (s : PoolState) : PoolState := s.drainLoop s.waiting

def deactivate (s : PoolState) : PoolState :=
  { s with
    connections := s.connections - 1
    stats := { s.stats with active := s.stats.active - 1 } }

/-- The body of `drop`. -/
def dropConnection (s : PoolState) : PoolState :=
  { s.deactivate.wakeNextWaiter.2 with
    releasing := s.releasing ++ [s.deactivate.wakeNextWaiter.1] }

/-- The permit of the connection is dropped after the body. -/
def releasePermit (s : PoolState) (j : Nat) : PoolState :=
  { s with permits := s.permits + 1, releasing := s.releasing.eraseIdx j }

end PoolState

inductive PoolStep where
  | tick (elapsed : Duration)
  | acquire
  | stamp (i : Nat)
  | enqueue (i : Nat)
  | expire (i : Nat)
  | resume (i : Nat)
  | dropConnection
  | releasePermit (j : Nat)
  | drainQueue
deriving DecidableEq

namespace PoolState

/-- A step that the state does not allow changes nothing. The timer of a waiter fires when the
timeout is over, unless the channel has an outcome by then. -/
def step (s : PoolState) : PoolStep → PoolState
  | .tick elapsed => { s with now := s.now + elapsed }
  | .acquire => s.acquire
  | .stamp i => if s.phaseOf i = some .exhausted then s.stamp i else s
  | .enqueue i =>
    match s.acquires[i]? with
    | some a => if a.phase = .stamped then s.enqueue i a.enqueuedAt else s
    | none => s
  | .expire i =>
    match s.acquires[i]? with
    | some a =>
      if a.phase = .waiting ∧ s.config.queueTimeout ≤ s.now - a.enqueuedAt then
        s.setPhase i .expired
      else s
    | none => s
  | .resume i =>
    match s.acquires[i]? with
    | some a => s.resume i a
    | none => s
  | .dropConnection => if 0 < s.connections then s.dropConnection else s
  | .releasePermit j => if j < s.releasing.length then s.releasePermit j else s
  | .drainQueue => s.drainQueue

/-- Everything that a step can do. -/
inductive Moves (s : PoolState) : PoolStep → PoolState → Prop where
  | tick (elapsed : Duration) : Moves s (.tick elapsed) { s with now := s.now + elapsed }
  | acquire : Moves s .acquire s.acquire
  | stamp {i : Nat} (hi : s.phaseOf i = some .exhausted) : Moves s (.stamp i) (s.stamp i)
  | enqueue {i : Nat} {a : Acquire} (ha : s.acquires[i]? = some a)
      (hi : s.phaseOf i = some .stamped) : Moves s (.enqueue i) (s.enqueue i a.enqueuedAt)
  | expire {i : Nat} {a : Acquire} (ha : s.acquires[i]? = some a)
      (hi : s.phaseOf i = some .waiting) (hover : s.config.queueTimeout ≤ s.now - a.enqueuedAt) :
      Moves s (.expire i) (s.setPhase i .expired)
  | retry {i : Nat} {a : Acquire} (ha : s.acquires[i]? = some a)
      (hi : s.phaseOf i = some .signalled) : Moves s (.resume i) (s.retry i a.enqueuedAt)
  | shutdown {i : Nat} (hi : s.phaseOf i = some .closed) :
      Moves s (.resume i) (s.uncount.setPhase i (.returned (some .shutdown)))
  | timeout {i : Nat} (hi : s.phaseOf i = some .expired) :
      Moves s (.resume i) (s.countTimeout.uncount.setPhase i (.returned (some .timeout)))
  | dropConnection (hc : 0 < s.connections) : Moves s .dropConnection s.dropConnection
  | releasePermit {j : Nat} (hj : j < s.releasing.length) :
      Moves s (.releasePermit j) (s.releasePermit j)
  | drainQueue : Moves s .drainQueue s.drainQueue

theorem phaseOf_of_getElem {s : PoolState} {i : Nat} {a : Acquire} (h : s.acquires[i]? = some a) :
    s.phaseOf i = some a.phase := by
  rw [phaseOf, h]
  rfl

theorem step_moves (s : PoolState) (x : PoolStep) : s.step x = s ∨ Moves s x (s.step x) := by
  cases x with
  | tick elapsed => exact Or.inr (.tick elapsed)
  | acquire => exact Or.inr .acquire
  | stamp i =>
    simp only [step]
    split
    · rename_i hi
      exact Or.inr (.stamp hi)
    · exact Or.inl rfl
  | enqueue i =>
    simp only [step]
    split
    · rename_i a ha
      split
      · rename_i hp
        exact Or.inr (.enqueue ha (hp ▸ phaseOf_of_getElem ha))
      · exact Or.inl rfl
    · exact Or.inl rfl
  | expire i =>
    simp only [step]
    split
    · rename_i a ha
      split
      · rename_i hp
        exact Or.inr (.expire ha (hp.1 ▸ phaseOf_of_getElem ha) hp.2)
      · exact Or.inl rfl
    · exact Or.inl rfl
  | resume i =>
    simp only [step]
    split
    · rename_i a ha
      have hi := phaseOf_of_getElem ha
      unfold resume
      split
      · rename_i hp
        exact Or.inr (.retry ha (hp ▸ hi))
      · rename_i hp
        exact Or.inr (.shutdown (hp ▸ hi))
      · rename_i hp
        exact Or.inr (.timeout (hp ▸ hi))
      · exact Or.inl rfl
    · exact Or.inl rfl
  | dropConnection =>
    simp only [step]
    split
    · rename_i hc
      exact Or.inr (.dropConnection hc)
    · exact Or.inl rfl
  | releasePermit j =>
    simp only [step]
    split
    · rename_i hj
      exact Or.inr (.releasePermit hj)
    · exact Or.inl rfl
  | drainQueue => exact Or.inr .drainQueue

theorem step_invariant {Inv : PoolState → Prop} {s : PoolState} {x : PoolStep} (hs : Inv s)
    (h : ∀ s', Moves s x s' → Inv s') : Inv (s.step x) := by
  rcases step_moves s x with heq | hmove
  · rw [heq]
    exact hs
  · exact h _ hmove

theorem phaseOf_setPhase {s : PoolState} {i : Nat} {old : AcquirePhase}
    (hi : s.phaseOf i = some old) (phase : AcquirePhase) (j : Nat) :
    (s.setPhase i phase).phaseOf j = if j = i then some phase else s.phaseOf j := by
  obtain ⟨a, ha, -⟩ := Option.map_eq_some_iff.mp hi
  simp only [phaseOf, setPhase, List.getElem?_modify]
  by_cases hj : j = i
  · simp [hj, ha]
  · simp [hj, Ne.symm hj]

theorem phaseOf_stamp (s : PoolState) (i : Nat) :
    (s.stamp i).phaseOf = (s.setPhase i .stamped).phaseOf := by
  funext j
  simp only [phaseOf, stamp, setPhase, List.getElem?_modify]
  by_cases hj : i = j
  · simp [hj, Function.comp_def]
  · simp [hj]

theorem acquire_cases (s : PoolState) :
    (0 < s.permits ∧ ∃ stats : ConnectionPoolStats, stats.queued = s.stats.queued ∧ s.acquire =
      { s with
        permits := s.permits - 1
        connections := s.connections + 1
        acquires := s.acquires ++ [⟨.returned none, s.now⟩]
        stats := stats }) ∨
    (s.permits = 0 ∧ ∃ stats : ConnectionPoolStats, stats.queued = s.stats.queued ∧ s.acquire =
      { s with acquires := s.acquires ++ [⟨.exhausted, s.now⟩], stats := stats }) := by
  by_cases hfree : 0 < s.permits
  · refine Or.inl ⟨hfree, s.acquire.stats, ?_, ?_⟩ <;> simp only [acquire, if_pos hfree] <;> rfl
  · refine Or.inr ⟨Nat.eq_zero_of_not_pos hfree, s.acquire.stats, ?_, ?_⟩ <;>
      simp only [acquire, if_neg hfree]

theorem acquire_frame (s : PoolState) :
    s.acquire.waiting = s.waiting ∧ s.acquire.config = s.config ∧ s.acquire.now = s.now ∧
      s.acquire.stats.queued = s.stats.queued ∧ s.connections ≤ s.acquire.connections := by
  rcases acquire_cases s with ⟨-, stats, hqueued, heq⟩ | ⟨-, stats, hqueued, heq⟩
  · rw [heq]
    exact ⟨rfl, rfl, rfl, hqueued, Nat.le_succ _⟩
  · rw [heq]
    exact ⟨rfl, rfl, rfl, hqueued, le_rfl⟩

theorem phaseOf_acquire (s : PoolState) (j : Nat) :
    s.acquire.phaseOf j = s.phaseOf j ∨
      s.acquire.phaseOf j = some (if 0 < s.permits then .returned none else .exhausted) ∧
        s.phaseOf j = none := by
  have happend (a : Acquire) : (s.acquires ++ [a])[j]?.map Acquire.phase = s.phaseOf j ∨
      (s.acquires ++ [a])[j]?.map Acquire.phase = some a.phase ∧ s.phaseOf j = none := by
    by_cases hj : j < s.acquires.length
    · exact Or.inl (by rw [List.getElem?_append_left hj, phaseOf])
    · have hnone : s.phaseOf j = none := by
        rw [phaseOf, List.getElem?_eq_none (Nat.le_of_not_lt hj), Option.map_none]
      rcases Nat.eq_or_lt_of_le (Nat.le_of_not_lt hj) with heq | hlt
      · exact Or.inr ⟨by rw [← heq, List.getElem?_concat_length, Option.map_some], hnone⟩
      · refine Or.inl ?_
        rw [hnone, List.getElem?_eq_none (by rw [List.length_append]; exact hlt), Option.map_none]
  rcases acquire_cases s with ⟨hfree, stats, -, heq⟩ | ⟨hnone, stats, -, heq⟩
  · rw [heq, if_pos hfree]
    exact happend _
  · rw [heq, if_neg (by omega)]
    exact happend _

/-- When a call read the clock. -/
def stampOf (s : PoolState) (i : Nat) : Option Nat := s.acquires[i]?.map Acquire.enqueuedAt

theorem stampOf_of_getElem {s : PoolState} {i : Nat} {a : Acquire} (h : s.acquires[i]? = some a) :
    s.stampOf i = some a.enqueuedAt := by
  rw [stampOf, h]
  rfl

@[simp] theorem stampOf_setPhase (s : PoolState) (i : Nat) (phase : AcquirePhase) (j : Nat) :
    (s.setPhase i phase).stampOf j = s.stampOf j := by
  simp only [stampOf, setPhase, List.getElem?_modify]
  by_cases hj : i = j
  · simp [hj, Function.comp_def]
  · simp [hj]

theorem stampOf_acquire {s : PoolState} {j : Nat} {phase : AcquirePhase}
    (hj : s.phaseOf j = some phase) : s.acquire.stampOf j = s.stampOf j := by
  obtain ⟨a, ha, -⟩ := Option.map_eq_some_iff.mp hj
  have hlt : j < s.acquires.length := (List.getElem?_eq_some_iff.mp ha).1
  rcases acquire_cases s with ⟨-, stats, -, heq⟩ | ⟨-, stats, -, heq⟩
  · rw [heq]
    exact congrArg (Option.map Acquire.enqueuedAt) (List.getElem?_append_left hlt)
  · rw [heq]
    exact congrArg (Option.map Acquire.enqueuedAt) (List.getElem?_append_left hlt)

/-- The calls whose phase is as `p` says. -/
def inPhase (s : PoolState) (p : AcquirePhase → Bool) : Finset Nat :=
  (Finset.range s.acquires.length).filter fun i => (s.phaseOf i).any p = true

theorem mem_inPhase {s : PoolState} {p : AcquirePhase → Bool} {i : Nat} :
    i ∈ s.inPhase p ↔ ∃ phase, s.phaseOf i = some phase ∧ p phase = true := by
  rw [inPhase, Finset.mem_filter, Finset.mem_range, Option.any_eq_true]
  constructor
  · rintro ⟨-, phase, hi, hp⟩
    exact ⟨phase, hi, hp⟩
  · rintro ⟨phase, hi, hp⟩
    obtain ⟨a, ha, -⟩ := Option.map_eq_some_iff.mp hi
    exact ⟨(List.getElem?_eq_some_iff.mp ha).1, phase, hi, hp⟩

theorem inPhase_congr {s s' : PoolState} {p : AcquirePhase → Bool}
    (h : ∀ j, (s'.phaseOf j).any p = (s.phaseOf j).any p) : s'.inPhase p = s.inPhase p := by
  ext j
  simp only [mem_inPhase, ← Option.any_eq_true, h]

theorem inPhase_acquire (s : PoolState) {p : AcquirePhase → Bool}
    (hnone : p (.returned none) = false) (hexhausted : p .exhausted = false) :
    s.acquire.inPhase p = s.inPhase p := by
  apply inPhase_congr
  intro j
  rcases phaseOf_acquire s j with heq | ⟨hnew, hold⟩
  · rw [heq]
  · rw [hnew, hold]
    split
    · exact hnone
    · exact hexhausted

/-- One call goes from a phase to another, and the permits stay where they are. -/
structure Rephases (s s' : PoolState) (i : Nat) (old phase : AcquirePhase) : Prop where
  permits : s'.permits = s.permits
  connections : s'.connections = s.connections
  releasing : s'.releasing = s.releasing
  config : s'.config = s.config
  now : s'.now = s.now
  before : s.phaseOf i = some old
  phaseOf : ∀ j, s'.phaseOf j = if j = i then some phase else s.phaseOf j
  stampOf : ∀ j, (j = i → phase ≠ .stamped) → s'.stampOf j = s.stampOf j

theorem rephases_setPhase {s : PoolState} {i : Nat} {old : AcquirePhase}
    (hi : s.phaseOf i = some old) (phase : AcquirePhase) :
    Rephases s (s.setPhase i phase) i old phase :=
  ⟨rfl, rfl, rfl, rfl, rfl, hi, phaseOf_setPhase hi phase,
    fun j _ => stampOf_setPhase s i phase j⟩

theorem rephases_stamp {s : PoolState} {i : Nat} (hi : s.phaseOf i = some .exhausted) :
    Rephases s (s.stamp i) i .exhausted .stamped := by
  refine ⟨rfl, rfl, rfl, rfl, rfl, hi, fun j => ?_, fun j hj => ?_⟩
  · rw [phaseOf_stamp, phaseOf_setPhase hi]
  · have hne : i ≠ j := fun h => hj h.symm rfl
    simp [stampOf, stamp, hne]

theorem Rephases.with {s t : PoolState} {i : Nat} {old phase : AcquirePhase}
    (h : Rephases s t i old phase) (waiting : List WaitingRequest) (stats : ConnectionPoolStats) :
    Rephases s { t with waiting := waiting, stats := stats } i old phase :=
  ⟨h.permits, h.connections, h.releasing, h.config, h.now, h.before, h.phaseOf, h.stampOf⟩

theorem rephases_enqueue {s : PoolState} {i : Nat} (hi : s.phaseOf i = some .stamped)
    (enqueuedAt : Nat) :
    (s.config.maxQueueSize.toNat ≤ s.waiting.length ∧
      Rephases s (s.enqueue i enqueuedAt) i .stamped (.returned (some .queueFull)) ∧
      (s.enqueue i enqueuedAt).waiting = s.waiting ∧
      (s.enqueue i enqueuedAt).stats.queued = s.stats.queued) ∨
    (s.waiting.length < s.config.maxQueueSize.toNat ∧
      Rephases s (s.enqueue i enqueuedAt) i .stamped .waiting ∧
      (s.enqueue i enqueuedAt).waiting = s.waiting ++ [⟨i, enqueuedAt⟩] ∧
      (s.enqueue i enqueuedAt).stats.queued = s.stats.queued + 1) := by
  unfold enqueue
  split
  · rename_i hfull
    exact Or.inl ⟨hfull, (rephases_setPhase hi _).with _ _, rfl, rfl⟩
  · rename_i hroom
    exact Or.inr ⟨Nat.lt_of_not_le hroom, (rephases_setPhase hi _).with _ _, rfl, rfl⟩

theorem rephases_shutdown {s : PoolState} {i : Nat} (hi : s.phaseOf i = some .closed) :
    Rephases s (s.uncount.setPhase i (.returned (some .shutdown))) i .closed
      (.returned (some .shutdown)) :=
  (rephases_setPhase hi _).with _ _

theorem rephases_timeout {s : PoolState} {i : Nat} (hi : s.phaseOf i = some .expired) :
    Rephases s (s.countTimeout.uncount.setPhase i (.returned (some .timeout))) i .expired
      (.returned (some .timeout)) :=
  (rephases_setPhase hi _).with _ _

theorem Rephases.inPhase {s s' : PoolState} {i : Nat} {old phase : AcquirePhase}
    (h : Rephases s s' i old phase) {p : AcquirePhase → Bool} (hp : p phase = p old) :
    s'.inPhase p = s.inPhase p := by
  apply inPhase_congr
  intro j
  rw [h.phaseOf]
  split
  · rename_i hj
    rw [hj, h.before]
    exact hp
  · rfl

theorem Rephases.inPhase_eq {s s' : PoolState} {i : Nat} {old phase : AcquirePhase}
    (h : Rephases s s' i old phase) (p : AcquirePhase → Bool) :
    s'.inPhase p = if p phase = true then insert i (s.inPhase p) else (s.inPhase p).erase i := by
  ext j
  split
  · rename_i hp
    simp only [mem_inPhase, h.phaseOf, Finset.mem_insert]
    by_cases hj : j = i
    · simp [hj, hp]
    · simp [hj]
  · rename_i hp
    simp only [mem_inPhase, h.phaseOf, Finset.mem_erase]
    by_cases hj : j = i
    · simp [hj, hp]
    · simp [hj]

theorem retry_eq {s : PoolState} (hfree : 0 < s.permits) (i enqueuedAt : Nat) :
    ∃ stats : ConnectionPoolStats, stats.queued = s.stats.queued ∧ s.retry i enqueuedAt =
      { s.setPhase i (.returned none) with
        permits := s.permits - 1
        connections := s.connections + 1
        stats := stats } := by
  refine ⟨(s.retry i enqueuedAt).stats, ?_, ?_⟩
  · simp only [retry, if_pos hfree]
    rfl
  · simp only [retry, if_pos hfree]
    rfl

theorem retry_exhausted {s : PoolState} (hnone : ¬ 0 < s.permits) (i enqueuedAt : Nat) :
    ∃ stats : ConnectionPoolStats, stats.queued = s.stats.queued ∧ s.retry i enqueuedAt =
      { s.setPhase i (.returned (some .timeout)) with stats := stats } := by
  refine ⟨(s.retry i enqueuedAt).stats, ?_, ?_⟩
  · simp only [retry, if_neg hnone]
    rfl
  · simp only [retry, if_neg hnone]
    rfl

/-- Waiters lose their senders, and entries leave the queue. -/
structure Closes (s s' : PoolState) : Prop where
  permits : s'.permits = s.permits
  connections : s'.connections = s.connections
  releasing : s'.releasing = s.releasing
  config : s'.config = s.config
  now : s'.now = s.now
  stampOf : ∀ j, s'.stampOf j = s.stampOf j
  phaseOf : ∀ j, s'.phaseOf j = s.phaseOf j ∨
    s.phaseOf j = some .waiting ∧ s'.phaseOf j = some .closed

theorem Closes.refl (s : PoolState) : Closes s s :=
  ⟨rfl, rfl, rfl, rfl, rfl, fun _ => rfl, fun _ => Or.inl rfl⟩

theorem Closes.trans {s t u : PoolState} (h : Closes s t) (h' : Closes t u) : Closes s u where
  permits := h'.permits.trans h.permits
  connections := h'.connections.trans h.connections
  releasing := h'.releasing.trans h.releasing
  config := h'.config.trans h.config
  now := h'.now.trans h.now
  stampOf j := (h'.stampOf j).trans (h.stampOf j)
  phaseOf j := by
    rcases h.phaseOf j with heq | ⟨hw, hc⟩
    · rcases h'.phaseOf j with heq' | ⟨hw', hc'⟩
      · exact Or.inl (heq'.trans heq)
      · exact Or.inr ⟨heq.symm.trans hw', hc'⟩
    · rcases h'.phaseOf j with heq' | ⟨hw', -⟩
      · exact Or.inr ⟨hw, heq'.trans hc⟩
      · rw [hc] at hw'
        cases hw'

theorem closes_popFront (s : PoolState) (rest : List WaitingRequest) : Closes s (s.popFront rest) :=
  ⟨rfl, rfl, rfl, rfl, rfl, fun _ => rfl, fun _ => Or.inl rfl⟩

theorem closes_dropSender (s : PoolState) (i : Nat) : Closes s (s.dropSender i) := by
  unfold dropSender
  split
  · rename_i hi
    refine ⟨rfl, rfl, rfl, rfl, rfl, stampOf_setPhase s i .closed, fun j => ?_⟩
    rw [phaseOf_setPhase hi]
    by_cases hj : j = i
    · exact Or.inr ⟨hj ▸ hi, if_pos hj⟩
    · exact Or.inl (if_neg hj)
  · exact .refl s

theorem waiting_dropSender (s : PoolState) (i : Nat) : (s.dropSender i).waiting = s.waiting := by
  unfold dropSender
  split <;> rfl

theorem Closes.inPhase {s s' : PoolState} (h : Closes s s') {p : AcquirePhase → Bool}
    (hp : p .closed = p .waiting) : s'.inPhase p = s.inPhase p := by
  apply inPhase_congr
  intro j
  rcases h.phaseOf j with heq | ⟨hw, hc⟩
  · rw [heq]
  · rw [hw, hc]
    exact hp

/-- The loop empties the queue, or it signals a waiter. -/
theorem wakeLoop_cases (s : PoolState) (ws : List WaitingRequest) (hws : s.waiting = ws) :
    ((s.wakeLoop ws).1 = none ∧ Closes s (s.wakeLoop ws).2 ∧ (s.wakeLoop ws).2.waiting = []) ∨
    ∃ i t, Closes s t ∧ t.phaseOf i = some .waiting ∧
      s.wakeLoop ws = (some i, t.setPhase i .signalled) := by
  induction ws generalizing s with
  | nil => exact Or.inl ⟨rfl, .refl s, hws⟩
  | cons w rest ih =>
    have hpop := closes_popFront s rest
    by_cases hstale : (s.popFront rest).stale w = true
    · have hloop : s.wakeLoop (w :: rest) =
          ((s.popFront rest).dropSender w.readyTx).wakeLoop rest := by
        rw [wakeLoop, if_pos hstale]
      have hclose := hpop.trans (closes_dropSender (s.popFront rest) w.readyTx)
      have hrest := waiting_dropSender (s.popFront rest) w.readyTx
      rw [hloop]
      rcases ih ((s.popFront rest).dropSender w.readyTx) hrest with
        ⟨hnone, hall, hempty⟩ | ⟨i, t, ht, hi, heq⟩
      · exact Or.inl ⟨hnone, hclose.trans hall, hempty⟩
      · exact Or.inr ⟨i, t, hclose.trans ht, hi, heq⟩
    · by_cases hi : (s.popFront rest).phaseOf w.readyTx = some .waiting
      · have hloop : s.wakeLoop (w :: rest) =
            (some w.readyTx, (s.popFront rest).setPhase w.readyTx .signalled) := by
          rw [wakeLoop, if_neg hstale, if_pos hi]
        exact Or.inr ⟨w.readyTx, s.popFront rest, hpop, hi, hloop⟩
      · have hloop : s.wakeLoop (w :: rest) = (s.popFront rest).wakeLoop rest := by
          rw [wakeLoop, if_neg hstale, if_neg hi]
        rw [hloop]
        rcases ih (s.popFront rest) rfl with ⟨hnone, hall, hempty⟩ | ⟨i, t, ht, hi, heq⟩
        · exact Or.inl ⟨hnone, hpop.trans hall, hempty⟩
        · exact Or.inr ⟨i, t, hpop.trans ht, hi, heq⟩

theorem closes_drainLoop (s : PoolState) (ws : List WaitingRequest) (hws : s.waiting = ws) :
    Closes s (s.drainLoop ws) ∧ (s.drainLoop ws).waiting = [] := by
  induction ws generalizing s with
  | nil => exact ⟨.refl s, hws⟩
  | cons w rest ih =>
    have hclose := (closes_popFront s rest).trans
      (closes_dropSender (s.popFront rest) w.readyTx)
    obtain ⟨hall, hempty⟩ := ih ((s.popFront rest).dropSender w.readyTx) (waiting_dropSender _ _)
    exact ⟨hclose.trans hall, hempty⟩

theorem dropConnection_cases (s : PoolState) :
    (∃ t, Closes s.deactivate t ∧ t.waiting = [] ∧
      s.dropConnection = { t with releasing := s.releasing ++ [none] }) ∨
    ∃ i t, Closes s.deactivate t ∧ t.phaseOf i = some .waiting ∧
      s.dropConnection =
        { t.setPhase i .signalled with releasing := s.releasing ++ [some i] } := by
  unfold dropConnection wakeNextWaiter
  rcases wakeLoop_cases s.deactivate s.deactivate.waiting rfl with
    ⟨hnone, hall, hempty⟩ | ⟨i, t, ht, hi, heq⟩
  · rw [hnone]
    exact Or.inl ⟨_, hall, hempty, rfl⟩
  · rw [heq]
    exact Or.inr ⟨i, t, ht, hi, rfl⟩

end PoolState

end Conproxy
