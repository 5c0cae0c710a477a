import Conproxy.Pool.Connections

/-!
# The count of the waiters

`stats.queued` is taken down by whoever pops an entry and again by the waiter, when the waiter
has timed out or lost its sender; and an entry outlives its waiter in the queue. The count is
right in the runs in which no entry is popped without a signal to its waiter, and a full queue
then means as many waiters if it holds no entry of a call that has returned.
-/

namespace Conproxy

namespace PoolState

set_option autoImplicit false

variable {s s' : PoolState} {x : PoolStep}

/-- Until it is signalled or has taken itself off the count. -/
def waits : AcquirePhase → Bool
  | .waiting | .expired => true
  | _ => false

def waiters (s : PoolState) : Finset Nat := s.inPhase waits

/-- The call has been to the queue, or has returned without. -/
def joined : AcquirePhase → Bool
  | .exhausted | .stamped => false
  | _ => true

def ids (ws : List WaitingRequest) : List Nat := ws.map WaitingRequest.readyTx

/-- The first entry of the queue is that of a waiter, and in time, when a connection is dropped;
the queue is empty when it is drained; and a call is turned away by entries of waiters only. -/
def CountsOnce (s : PoolState) : PoolStep → Prop
  | .dropConnection => 0 < s.connections →
    ∀ w ∈ s.waiting.head?, s.phaseOf w.readyTx = some .waiting ∧ s.stale w = false
  | .drainQueue => s.waiting = []
  | .enqueue i => s.phaseOf i = some .stamped →
    s.config.maxQueueSize.toNat ≤ s.waiting.length → ∀ w ∈ s.waiting, w.readyTx ∈ s.waiters
  | _ => True

instance (s : PoolState) : (x : PoolStep) → Decidable (s.CountsOnce x)
  | .dropConnection => inferInstanceAs (Decidable (_ → ∀ w ∈ _, _))
  | .drainQueue => inferInstanceAs (Decidable (_ = _))
  | .enqueue _ => inferInstanceAs (Decidable (_ → _ → ∀ w ∈ _, _))
  | .tick _ | .acquire | .stamp _ | .expire _ | .resume _ | .releasePermit _ =>
    inferInstanceAs (Decidable True)

structure Counted (s : PoolState) : Prop where
  queued : s.stats.queued.toNat = s.waiters.card
  bounded : s.waiting.length ≤ s.config.maxQueueSize.toNat
  listed : ∀ i ∈ s.waiters, i ∈ ids s.waiting
  distinct : (ids s.waiting).Nodup
  entered : ∀ i ∈ ids s.waiting, i ∈ s.inPhase joined
  unclosed : ∀ i, s.phaseOf i ≠ some .closed

theorem mem_waiters {i : Nat} {phase : AcquirePhase} (hi : s.phaseOf i = some phase) :
    i ∈ s.waiters ↔ waits phase = true := by
  rw [waiters, mem_inPhase, hi]
  simp

theorem Counted.card_le (hs : Counted s) : s.waiters.card ≤ s.waiting.length := by
  have hsub : s.waiters ⊆ (ids s.waiting).toFinset := by
    intro i hi
    exact List.mem_toFinset.mpr (hs.listed i hi)
  refine (Finset.card_le_card hsub).trans ((List.toFinset_card_le _).trans ?_)
  rw [ids, List.length_map]

theorem Counted.same (hs : Counted s) (hacquires : s'.acquires = s.acquires)
    (hwaiting : s'.waiting = s.waiting) (hconfig : s'.config = s.config)
    (hqueued : s'.stats.queued = s.stats.queued) : Counted s' := by
  have hphases (p : AcquirePhase → Bool) : s'.inPhase p = s.inPhase p :=
    inPhase_congr fun j => by rw [phaseOf, phaseOf, hacquires]
  refine ⟨?_, ?_, ?_, ?_, ?_, ?_⟩
  · rw [hqueued, waiters, hphases]
    exact hs.queued
  · rw [hwaiting, hconfig]
    exact hs.bounded
  · rw [hwaiting, waiters, hphases]
    exact hs.listed
  · rw [hwaiting]
    exact hs.distinct
  · rw [hwaiting, hphases]
    exact hs.entered
  · simp only [phaseOf, hacquires]
    exact hs.unclosed

theorem Rephases.joined {i : Nat} {old phase : AcquirePhase} (h : Rephases s s' i old phase)
    (hjoined : joined old = true → joined phase = true) {j : Nat} (hj : j ∈ s.inPhase joined) :
    j ∈ s'.inPhase joined := by
  obtain ⟨before, hbefore, hyes⟩ := mem_inPhase.mp hj
  rw [mem_inPhase, h.phaseOf]
  by_cases hji : j = i
  · rw [hji, h.before] at hbefore
    cases hbefore
    exact ⟨phase, if_pos hji, hjoined hyes⟩
  · exact ⟨before, (if_neg hji).trans hbefore, hyes⟩

theorem Rephases.unclosed {i : Nat} {old phase : AcquirePhase} (h : Rephases s s' i old phase)
    (hopen : phase ≠ .closed) (hs : ∀ j, s.phaseOf j ≠ some .closed) (j : Nat) :
    s'.phaseOf j ≠ some .closed := by
  rw [h.phaseOf]
  split
  · exact fun heq => hopen (Option.some.inj heq)
  · exact hs j

theorem Counted.rephases (hs : Counted s) {i : Nat} {old phase : AcquirePhase}
    (h : Rephases s s' i old phase) (hwaiting : s'.waiting = s.waiting)
    (hqueued : s'.stats.queued = s.stats.queued) (hp : waits phase = waits old)
    (hjoined : joined old = true → joined phase = true) (hopen : phase ≠ .closed) :
    Counted s' := by
  have hsame : s'.waiters = s.waiters := h.inPhase hp
  refine ⟨?_, ?_, ?_, ?_, ?_, h.unclosed hopen hs.unclosed⟩
  · rw [hqueued, hsame]
    exact hs.queued
  · rw [hwaiting, h.config]
    exact hs.bounded
  · rw [hwaiting, hsame]
    exact hs.listed
  · rw [hwaiting]
    exact hs.distinct
  · rw [hwaiting]
    exact fun j hj => h.joined hjoined (hs.entered j hj)

/-- A waiter goes off the count. -/
theorem Counted.leave (hs : Counted s) {i : Nat} {old phase : AcquirePhase}
    (h : Rephases s s' i old phase) (hold : waits old = true) (hphase : waits phase = false)
    (hjoined : joined phase = true) (hopen : phase ≠ .closed)
    (hqueued : s'.stats.queued = s.stats.queued - 1) (hsub : s'.waiting.Sublist s.waiting)
    (hlisted : ∀ j ∈ ids s.waiting, j ≠ i → j ∈ ids s'.waiting) : Counted s' := by
  have hmem : i ∈ s.waiters := (mem_waiters h.before).mpr hold
  have herase : s'.waiters = s.waiters.erase i := by
    rw [waiters, h.inPhase_eq, if_neg (by simp [hphase])]
    rfl
  have hids : (ids s'.waiting).Sublist (ids s.waiting) := hsub.map _
  refine ⟨?_, ?_, ?_, hs.distinct.sublist hids, ?_, h.unclosed hopen hs.unclosed⟩
  · have hpos : 1 ≤ s.stats.queued.toNat := by
      rw [hs.queued]
      exact Finset.card_pos.mpr ⟨i, hmem⟩
    have hle : (1 : UInt64) ≤ s.stats.queued := hpos
    rw [hqueued, UInt64.toNat_sub_of_le _ _ hle, herase, Finset.card_erase_of_mem hmem, hs.queued]
    rfl
  · rw [h.config]
    exact hsub.length_le.trans hs.bounded
  · rw [herase]
    intro j hj
    rw [Finset.mem_erase] at hj
    exact hlisted j (hs.listed j hj.2) hj.1
  · intro j hj
    exact h.joined (fun _ => hjoined) (hs.entered j (hids.subset hj))

/-- A call joins the queue. -/
theorem Counted.enter (hs : Counted s) {i enqueuedAt : Nat}
    (h : Rephases s s' i .stamped .waiting) (hroom : s.waiting.length < s.config.maxQueueSize.toNat)
    (hwaiting : s'.waiting = s.waiting ++ [⟨i, enqueuedAt⟩])
    (hqueued : s'.stats.queued = s.stats.queued + 1) : Counted s' := by
  have hnot : i ∉ ids s.waiting := by
    intro hmem
    obtain ⟨before, hbefore, hyes⟩ := mem_inPhase.mp (hs.entered i hmem)
    rw [h.before] at hbefore
    cases hbefore
    cases hyes
  have hids : ids s'.waiting = ids s.waiting ++ [i] := by
    rw [hwaiting, ids, List.map_append]
    rfl
  have hinsert : s'.waiters = insert i s.waiters := h.inPhase_eq waits
  refine ⟨?_, ?_, ?_, ?_, ?_, h.unclosed (by decide) hs.unclosed⟩
  · have hcard := hs.card_le
    have hmax := s.config.maxQueueSize.toNat_lt
    have hadd : (s.stats.queued + 1).toNat = s.stats.queued.toNat + 1 := by
      rw [UInt64.toNat_add, hs.queued]
      exact Nat.mod_eq_of_lt (by change s.waiters.card + 1 < 2 ^ 64; omega)
    rw [hqueued, hadd, hs.queued, hinsert,
      Finset.card_insert_of_notMem fun hmem => hnot (hs.listed i hmem)]
  · rw [hwaiting, h.config, List.length_append]
    exact hroom
  · rw [hinsert, hids]
    intro j hj
    rcases Finset.mem_insert.mp hj with rfl | hj
    · exact List.mem_append_right _ (List.mem_singleton.mpr rfl)
    · exact List.mem_append_left _ (hs.listed j hj)
  · rw [hids]
    exact List.nodup_append.mpr ⟨hs.distinct, List.nodup_singleton i, by
      intro j hj k hk
      rw [List.mem_singleton] at hk
      exact fun heq => hnot (hk ▸ heq ▸ hj)⟩
  · rw [hids]
    intro j hj
    rcases List.mem_append.mp hj with hj | hj
    · exact h.joined (fun _ => rfl) (hs.entered j hj)
    · rw [mem_inPhase, h.phaseOf]
      exact ⟨.waiting, if_pos (List.mem_singleton.mp hj), rfl⟩

theorem Counted.acquire (hs : Counted s) : Counted s.acquire := by
  have hwaiters : s.acquire.waiters = s.waiters := inPhase_acquire s rfl rfl
  have hkept : ∀ i ∈ s.inPhase joined, i ∈ s.acquire.inPhase joined := by
    intro i hi
    obtain ⟨phase, hphase, hyes⟩ := mem_inPhase.mp hi
    rcases phaseOf_acquire s i with heq | ⟨-, hnone⟩
    · exact mem_inPhase.mpr ⟨phase, heq.trans hphase, hyes⟩
    · rw [hnone] at hphase
      cases hphase
  have hunclosed (i : Nat) : s.acquire.phaseOf i ≠ some .closed := by
    rcases phaseOf_acquire s i with heq | ⟨hnew, -⟩
    · exact heq ▸ hs.unclosed i
    · rw [hnew]
      split <;> exact fun heq => by cases heq
  obtain ⟨hwaiting, hconfig, -, hqueued, -⟩ := acquire_frame s
  refine ⟨?_, ?_, ?_, ?_, ?_, hunclosed⟩
  · rw [hqueued, hwaiters]
    exact hs.queued
  · rw [hwaiting, hconfig]
    exact hs.bounded
  · rw [hwaiting, hwaiters]
    exact hs.listed
  · rw [hwaiting]
    exact hs.distinct
  · rw [hwaiting]
    exact fun i hi => hkept i (hs.entered i hi)

/-- A drop that finds a waiter in time at the front signals it and pops nothing else. -/
theorem dropConnection_front {w : WaitingRequest} {rest : List WaitingRequest}
    (hwaiting : s.waiting = w :: rest) (hlive : s.phaseOf w.readyTx = some .waiting)
    (htime : s.stale w = false) :
    ∃ stats : ConnectionPoolStats, stats.queued = s.stats.queued - 1 ∧ s.dropConnection =
      { s.setPhase w.readyTx .signalled with
        waiting := rest
        connections := s.connections - 1
        releasing := s.releasing ++ [some w.readyTx]
        stats := stats } := by
  have hfront : s.deactivate.waiting = w :: rest := hwaiting
  have hin : ¬ (s.deactivate.popFront rest).stale w = true := by
    rw [Bool.not_eq_true]
    exact htime
  have hloop : s.deactivate.wakeNextWaiter =
      (some w.readyTx, (s.deactivate.popFront rest).setPhase w.readyTx .signalled) := by
    rw [wakeNextWaiter, hfront, wakeLoop, if_neg hin, if_pos]
    exact hlive
  refine ⟨s.dropConnection.stats, ?_, ?_⟩
  · rw [dropConnection, hloop]
    rfl
  · rw [dropConnection, hloop]
    rfl

theorem dropConnection_empty (hwaiting : s.waiting = []) :
    s.dropConnection = { s.deactivate with releasing := s.releasing ++ [none] } := by
  have hfront : s.deactivate.waiting = [] := hwaiting
  rw [dropConnection, wakeNextWaiter, hfront, wakeLoop]

theorem Counted.moves (hs : Counted s) (hok : s.CountsOnce x) (h : Moves s x s') : Counted s' := by
  cases h with
  | tick elapsed => exact hs.same rfl rfl rfl rfl
  | acquire => exact hs.acquire
  | stamp hi =>
    exact hs.rephases (rephases_stamp hi) rfl rfl rfl (by intro h; cases h) (by decide)
  | enqueue ha hi =>
    rcases rephases_enqueue hi _ with ⟨-, h, hwaiting, hqueued⟩ | ⟨hroom, h, hwaiting, hqueued⟩
    · exact hs.rephases h hwaiting hqueued rfl (fun _ => rfl) (by decide)
    · exact hs.enter h hroom hwaiting hqueued
  | expire ha hi hover =>
    exact hs.rephases (rephases_setPhase hi .expired) rfl rfl rfl (fun _ => rfl) (by decide)
  | @retry i a ha hi =>
    by_cases hfree : 0 < s.permits
    · obtain ⟨stats, hqueued, heq⟩ := retry_eq hfree i a.enqueuedAt
      have hafter := hs.rephases ((rephases_setPhase hi (.returned none)).with s.waiting stats) rfl
        hqueued rfl (fun _ => rfl) (by decide)
      rw [heq]
      exact hafter.same rfl rfl rfl rfl
    · obtain ⟨stats, hqueued, heq⟩ := retry_exhausted hfree i a.enqueuedAt
      rw [heq]
      exact hs.rephases
        ((rephases_setPhase hi (.returned (some .timeout))).with s.waiting stats) rfl
        hqueued rfl (fun _ => rfl) (by decide)
  | shutdown hi => exact absurd hi (hs.unclosed _)
  | timeout hi =>
    exact hs.leave (rephases_timeout hi) rfl rfl rfl (by decide) rfl (List.Sublist.refl _)
      fun _ hj _ => hj
  | dropConnection hc =>
    cases hwaiting : s.waiting with
    | nil =>
      rw [dropConnection_empty hwaiting]
      exact hs.same rfl rfl rfl rfl
    | cons w rest =>
      obtain ⟨hlive, htime⟩ := hok hc w (by rw [hwaiting]; rfl)
      obtain ⟨stats, hqueued, heq⟩ := dropConnection_front hwaiting hlive htime
      have hleft := hs.leave ((rephases_setPhase hlive .signalled).with rest stats) rfl rfl rfl
        (by decide) hqueued (hwaiting ▸ List.sublist_cons_self w rest) (fun j hj hne => by
          rw [hwaiting] at hj
          exact (List.mem_cons.mp hj).resolve_left hne)
      rw [heq]
      exact hleft.same rfl rfl rfl rfl
  | releasePermit hj => exact hs.same rfl rfl rfl rfl
  | drainQueue =>
    have hempty : s.waiting = [] := hok
    rw [drainQueue, hempty, drainLoop]
    exact hs

theorem counted_new (config : ConnectionPoolConfig) : Counted (new config) where
  queued := rfl
  bounded := Nat.zero_le _
  listed i hi := by cases hi
  distinct := List.nodup_nil
  entered i hi := by cases hi
  unclosed i := by exact fun heq => by cases heq

theorem Counted.step (hs : Counted s) (hok : s.CountsOnce x) : Counted (s.step x) :=
  step_invariant hs fun _ h => hs.moves hok h

/-- A call is turned away by a queue of waiters. -/
def RejectsWhenFull (s : PoolState) : PoolStep → Prop
  | .enqueue i => s.phaseOf i = some .stamped →
    (s.step (.enqueue i)).phaseOf i = some (.returned (some .queueFull)) →
      s.waiters.card = s.config.maxQueueSize.toNat
  | _ => True

theorem Counted.rejectsWhenFull (hs : Counted s) (hok : s.CountsOnce x) : s.RejectsWhenFull x := by
  cases x with
  | enqueue i =>
    intro hi hrejected
    obtain ⟨a, ha, hphase⟩ := Option.map_eq_some_iff.mp hi
    have hstep : s.step (.enqueue i) = s.enqueue i a.enqueuedAt := by
      simp only [PoolState.step, ha, hphase, if_true]
    rw [hstep] at hrejected
    rcases rephases_enqueue hi a.enqueuedAt with ⟨hfull, -⟩ | ⟨-, h, -⟩
    · have hsub : (ids s.waiting).toFinset ⊆ s.waiters := by
        intro j hj
        obtain ⟨w, hw, rfl⟩ := List.mem_map.mp (List.mem_toFinset.mp hj)
        exact hok hi hfull w hw
      have hcard := Finset.card_le_card hsub
      rw [List.toFinset_card_of_nodup hs.distinct, ids, List.length_map] at hcard
      have hmost := hs.card_le
      have hbounded := hs.bounded
      omega
    · rw [h.phaseOf, if_pos rfl] at hrejected
      cases hrejected
  | _ => trivial

def hasReturned : AcquirePhase → Bool
  | .returned _ => true
  | _ => false

/-- The counter is the number of waiters, and zero when every call has returned. -/
structure QueueCounted (s : PoolState) : Prop where
  counted : s.stats.queued.toNat = s.waiters.card
  idle : (∀ a ∈ s.acquires, hasReturned a.phase = true) → s.stats.queued = 0

theorem Counted.queueCounted (hs : Counted s) : QueueCounted s := by
  refine ⟨hs.queued, fun hreturned => ?_⟩
  have hnone : s.waiters = ∅ := by
    rw [Finset.eq_empty_iff_forall_notMem]
    intro i hi
    obtain ⟨phase, hphase, hyes⟩ := mem_inPhase.mp hi
    obtain ⟨a, ha, rfl⟩ := Option.map_eq_some_iff.mp hphase
    have hdone := hreturned a (List.mem_of_getElem? ha)
    cases hp : a.phase with
    | returned error =>
      rw [hp] at hyes
      cases hyes
    | _ =>
      rw [hp] at hdone
      cases hdone
  have hzero := hs.queued
  rw [hnone, Finset.card_empty] at hzero
  exact UInt64.toNat_inj.mp hzero

/-- A run whose steps count every waiter once keeps the counter right, and turns a call away only
when there are as many waiters as the queue may hold. -/
theorem queue_counted (config : ConnectionPoolConfig) (steps : List PoolStep)
    (hok : Machine.AllSteps step CountsOnce (new config) steps) :
    (Machine.run step (new config) steps).QueueCounted ∧
      Machine.AllSteps step RejectsWhenFull (new config) steps := by
  have hstep : ∀ s x, CountsOnce s x → Counted s → Counted (s.step x) := fun _ _ h hs => hs.step h
  constructor
  · exact (Machine.run_invariant hstep (counted_new config) hok).queueCounted
  · exact Machine.allSteps_of_invariant hstep (fun _ _ h hs => hs.rejectsWhenFull h)
      (counted_new config) hok

/-- One connection and one waiter, with a timeout of a millisecond. -/
def oneWaiter : ConnectionPoolConfig := ⟨1, 1, 1⟩

/-- The second call waits, the third is turned away, and the second is signalled. -/
theorem waiter_counted :
    let steps := [.acquire, .acquire, .stamp 1, .enqueue 1, .acquire, .stamp 2, .enqueue 2,
      .dropConnection, .releasePermit 0, .resume 1]
    (Machine.run step (new oneWaiter) steps).QueueCounted ∧
      Machine.AllSteps step RejectsWhenFull (new oneWaiter) steps := by
  intro steps
  have hok : Machine.AllSteps step CountsOnce (new oneWaiter) steps := by decide +kernel
  exact queue_counted oneWaiter steps hok

/-- A waiter that has timed out is taken off the count again when its entry is popped, and the
counter wraps around with nobody waiting; before that, its entry turns the next call away. -/
theorem waiter_counted_twice :
    ¬ (Machine.run step (new oneWaiter) [.acquire, .acquire, .stamp 1, .enqueue 1, .tick 1000000,
      .expire 1, .resume 1, .dropConnection]).QueueCounted ∧
    ¬ Machine.AllSteps step RejectsWhenFull (new oneWaiter) [.acquire, .acquire, .stamp 1,
      .enqueue 1, .tick 1000000, .expire 1, .resume 1, .acquire, .stamp 2, .enqueue 2] := by
  constructor
  · intro hcounted
    have hzero := hcounted.idle (by decide +kernel)
    revert hzero
    decide +kernel
  · rintro ⟨-, -, -, -, -, -, -, -, -, hrejects, -⟩
    have hfull := hrejects (by decide +kernel) (by decide +kernel)
    revert hfull
    decide +kernel

end PoolState

end Conproxy
