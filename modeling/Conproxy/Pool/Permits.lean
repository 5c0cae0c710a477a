import Conproxy.Pool.Connections

/-!
# Permits and waiters

The permits are never more than configured, whatever the order of the steps. A signalled waiter
finds its permit, and a queued one has a connection left to wake it, in the runs in which permits
are handed over in order: the waker returns the permit before the waiter looks for it, no newcomer
takes it in between, and no call joins the queue after the last drop has looked at it.
-/

namespace Conproxy

namespace PoolState

set_option autoImplicit false

variable {s s' : PoolState} {x : PoolStep}

def allPermits (s : PoolState) : Nat := s.permits + s.connections + s.releasing.length

theorem Moves.conserves (h : Moves s x s') :
    s'.config = s.config ∧ s'.allPermits = s.allPermits := by
  cases h with
  | tick elapsed => exact ⟨rfl, rfl⟩
  | acquire =>
    rcases acquire_cases s with ⟨hfree, stats, -, heq⟩ | ⟨-, stats, -, heq⟩
    · rw [heq]
      simp only [allPermits]
      exact ⟨trivial, by omega⟩
    · rw [heq]
      exact ⟨rfl, rfl⟩
  | stamp hi => exact ⟨rfl, rfl⟩
  | enqueue ha hi =>
    unfold PoolState.enqueue
    split <;> exact ⟨rfl, rfl⟩
  | expire ha hi hover => exact ⟨rfl, rfl⟩
  | retry ha hi =>
    unfold PoolState.retry
    dsimp only
    split
    · simp only [connect, setPhase, allPermits]
      exact ⟨trivial, by omega⟩
    · exact ⟨rfl, rfl⟩
  | shutdown hi => exact ⟨rfl, rfl⟩
  | timeout hi => exact ⟨rfl, rfl⟩
  | dropConnection hc =>
    have hmoved : ∀ t : PoolState, Closes s.deactivate t → ∀ w : Option Nat,
        t.config = s.config ∧
          t.permits + t.connections + (s.releasing ++ [w]).length = s.allPermits := by
      intro t ht w
      have hconnections : t.connections = s.connections - 1 := ht.connections
      have hpermits : t.permits = s.permits := ht.permits
      rw [List.length_append, List.length_singleton, allPermits]
      exact ⟨ht.config, by omega⟩
    rcases dropConnection_cases s with ⟨t, ht, -, heq⟩ | ⟨i, t, ht, -, heq⟩
    · rw [heq]
      exact hmoved t ht none
    · rw [heq]
      exact hmoved t ht (some i)
  | releasePermit hj =>
    simp only [PoolState.releasePermit, allPermits, List.length_eraseIdx_of_lt hj]
    exact ⟨trivial, by omega⟩
  | drainQueue =>
    have hclose := (closes_drainLoop s s.waiting rfl).1
    refine ⟨hclose.config, ?_⟩
    rw [PoolState.drainQueue, allPermits, hclose.permits, hclose.connections, hclose.releasing,
      allPermits]

/-- All permits of the configuration are there. -/
def Conserved (config : ConnectionPoolConfig) (s : PoolState) : Prop :=
  s.config = config ∧ s.allPermits = config.maxConnections.toNat

theorem run_conserved (config : ConnectionPoolConfig) (steps : List PoolStep) :
    Conserved config (Machine.run step (new config) steps) := by
  have hnew : Conserved config (new config) := ⟨rfl, rfl⟩
  refine Machine.run_preserves (fun s x hs => step_invariant hs fun s' hmove => ?_) hnew steps
  exact ⟨hmove.conserves.1.trans hs.1, hmove.conserves.2.trans hs.2⟩

def isSignalled : AcquirePhase → Bool
  | .signalled => true
  | _ => false

def signalled (s : PoolState) : Finset Nat := s.inPhase isSignalled

/-- The signalled waiters whose waker has returned its permit. -/
def promised (s : PoolState) : Finset Nat := s.signalled.filter fun i => some i ∉ s.releasing

/-- A newcomer leaves the promised permits alone, a call joins the queue only while there is a
connection to be dropped or a signalled waiter that will get one, and a signalled waiter goes on
after its waker has returned the permit. -/
def HandsOver (s : PoolState) : PoolStep → Prop
  | .acquire => 0 < s.permits → s.promised.card < s.permits
  | .enqueue i => s.phaseOf i = some .stamped →
    s.waiting.length < s.config.maxQueueSize.toNat → 0 < s.connections + s.signalled.card
  | .resume i => s.phaseOf i = some .signalled → some i ∉ s.releasing
  | _ => True

instance (s : PoolState) : (x : PoolStep) → Decidable (s.HandsOver x)
  | .acquire => inferInstanceAs (Decidable (_ → _))
  | .enqueue _ => inferInstanceAs (Decidable (_ → _ → _))
  | .resume _ => inferInstanceAs (Decidable (_ → _))
  | .tick _ | .stamp _ | .expire _ | .dropConnection | .releasePermit _ | .drainQueue =>
    inferInstanceAs (Decidable True)

theorem mem_signalled {i : Nat} : i ∈ s.signalled ↔ s.phaseOf i = some .signalled := by
  rw [signalled, mem_inPhase]
  constructor
  · rintro ⟨phase, hi, hp⟩
    cases phase <;> first | exact hi | cases hp
  · intro hi
    exact ⟨.signalled, hi, rfl⟩

theorem mem_promised {i : Nat} :
    i ∈ s.promised ↔ s.phaseOf i = some .signalled ∧ some i ∉ s.releasing := by
  rw [promised, Finset.mem_filter, mem_signalled]

/-- No more waiters are promised a permit than permits are free. -/
def Covered (s : PoolState) : Prop := s.promised.card ≤ s.permits

theorem Covered.free (hs : Covered s) {i : Nat} (hi : s.phaseOf i = some .signalled)
    (hreleased : some i ∉ s.releasing) : 0 < s.permits := by
  have hmem : i ∈ s.promised := mem_promised.mpr ⟨hi, hreleased⟩
  exact (Finset.card_pos.mpr ⟨i, hmem⟩).trans_le hs

theorem promised_congr (hsignalled : s'.signalled = s.signalled)
    (hreleasing : s'.releasing = s.releasing) : s'.promised = s.promised := by
  rw [promised, promised, hsignalled, hreleasing]

theorem Closes.signalled {t : PoolState} (h : Closes s t) : t.signalled = s.signalled :=
  h.inPhase rfl

theorem Covered.of_subset (hs : Covered s) (hpermits : s.permits ≤ s'.permits)
    (hsub : s'.promised ⊆ s.promised) : Covered s' :=
  ((Finset.card_le_card hsub).trans hs).trans hpermits

theorem Covered.same (hs : Covered s) (hpermits : s'.permits = s.permits)
    (hreleasing : s'.releasing = s.releasing) (hsignalled : s'.signalled = s.signalled) :
    Covered s' :=
  hs.of_subset hpermits.ge (promised_congr hsignalled hreleasing).le

theorem Covered.rephases (hs : Covered s) {i : Nat} {old phase : AcquirePhase}
    (h : Rephases s s' i old phase) (hp : isSignalled phase = isSignalled old) : Covered s' :=
  hs.same h.permits h.releasing (h.inPhase hp)

theorem Covered.retry (hs : Covered s) {i : Nat} (hi : s.phaseOf i = some .signalled)
    (hreleased : some i ∉ s.releasing) (enqueuedAt : Nat) : Covered (s.retry i enqueuedAt) := by
  obtain ⟨stats, -, heq⟩ := retry_eq (hs.free hi hreleased) i enqueuedAt
  have herase : (s.setPhase i (.returned none)).signalled = s.signalled.erase i :=
    (rephases_setPhase hi (.returned none)).inPhase_eq isSignalled
  have hpromised : (s.setPhase i (.returned none)).promised = s.promised.erase i := by
    rw [promised, herase, Finset.filter_erase]
    rfl
  have hmem : i ∈ s.promised := mem_promised.mpr ⟨hi, hreleased⟩
  have hcard : (s.setPhase i (.returned none)).promised.card = s.promised.card - 1 := by
    rw [hpromised, Finset.card_erase_of_mem hmem]
  rw [heq]
  exact hcard.trans_le (Nat.sub_le_sub_right hs 1)

theorem Covered.dropConnection (hs : Covered s) : Covered s.dropConnection := by
  rcases dropConnection_cases s with ⟨t, ht, -, heq⟩ | ⟨i, t, ht, hi, heq⟩
  · rw [heq]
    refine hs.of_subset ht.permits.ge fun j hj => ?_
    obtain ⟨hj, hfree⟩ := mem_promised.mp hj
    have hold : j ∈ s.signalled := ht.signalled ▸ mem_signalled.mpr hj
    exact mem_promised.mpr ⟨mem_signalled.mp hold, fun h => hfree (List.mem_append_left _ h)⟩
  · rw [heq]
    refine hs.of_subset ht.permits.ge fun j hj => ?_
    obtain ⟨hj, hfree⟩ := mem_promised.mp hj
    have hne : j ≠ i := by
      rintro rfl
      exact hfree (List.mem_append_right _ (List.mem_singleton.mpr rfl))
    have hold : (t.setPhase i .signalled).phaseOf j = some .signalled := hj
    rw [phaseOf_setPhase hi, if_neg hne] at hold
    have hbefore : j ∈ s.signalled := ht.signalled ▸ mem_signalled.mpr hold
    exact mem_promised.mpr ⟨mem_signalled.mp hbefore, fun h => hfree (List.mem_append_left _ h)⟩

theorem Covered.releasePermit (hs : Covered s) {j : Nat} (hj : j < s.releasing.length) :
    Covered (s.releasePermit j) := by
  have hsub : (s.releasePermit j).promised ⊆
      s.promised ∪ s.signalled.filter fun i => some i = s.releasing[j] := by
    intro i hi
    obtain ⟨hphase, hfree⟩ := mem_promised.mp hi
    by_cases hown : some i = s.releasing[j]
    · exact Finset.mem_union_right _ (Finset.mem_filter.mpr ⟨mem_signalled.mpr hphase, hown⟩)
    · refine Finset.mem_union_left _ (mem_promised.mpr ⟨hphase, fun hmem => hfree ?_⟩)
      have hperm := List.getElem_cons_eraseIdx_perm hj
      exact (List.mem_cons.mp (hperm.mem_iff.mpr hmem)).resolve_left hown
  have hone : (s.signalled.filter fun i => some i = s.releasing[j]).card ≤ 1 := by
    refine Finset.card_le_one.mpr fun i hi k hk => ?_
    exact Option.some.inj ((Finset.mem_filter.mp hi).2.trans (Finset.mem_filter.mp hk).2.symm)
  calc (s.releasePermit j).promised.card
      ≤ (s.promised ∪ s.signalled.filter fun i => some i = s.releasing[j]).card :=
        Finset.card_le_card hsub
    _ ≤ s.promised.card + (s.signalled.filter fun i => some i = s.releasing[j]).card :=
        Finset.card_union_le _ _
    _ ≤ s.permits + 1 := Nat.add_le_add hs hone

theorem Covered.moves (hs : Covered s) (hok : s.HandsOver x) (h : Moves s x s') : Covered s' := by
  cases h with
  | tick elapsed => exact hs
  | acquire =>
    have hsame : s.acquire.signalled = s.signalled := inPhase_acquire s rfl rfl
    rcases acquire_cases s with ⟨hfree, stats, -, heq⟩ | ⟨-, stats, -, heq⟩
    · have hlt := hok hfree
      rw [Covered, promised_congr hsame (by rw [heq]), heq]
      exact Nat.le_sub_one_of_lt hlt
    · exact hs.same (by rw [heq]) (by rw [heq]) hsame
  | stamp hi => exact hs.rephases (rephases_stamp hi) rfl
  | enqueue ha hi =>
    rcases rephases_enqueue hi _ with ⟨-, h, -⟩ | ⟨-, h, -⟩
    · exact hs.rephases h rfl
    · exact hs.rephases h rfl
  | expire ha hi hover => exact hs.rephases (rephases_setPhase hi .expired) rfl
  | retry ha hi => exact hs.retry hi (hok hi) _
  | shutdown hi => exact hs.rephases (rephases_shutdown hi) rfl
  | timeout hi => exact hs.rephases (rephases_timeout hi) rfl
  | dropConnection hc => exact hs.dropConnection
  | releasePermit hj => exact hs.releasePermit hj
  | drainQueue =>
    have hclose := (closes_drainLoop s s.waiting rfl).1
    exact hs.same hclose.permits hclose.releasing hclose.signalled

def timedOut : AcquirePhase → Bool
  | .expired | .returned (some .timeout) => true
  | _ => false

/-- The queue timeout was over for every call that has timed out. -/
def Late (s : PoolState) : Prop :=
  ∀ i t phase, s.stampOf i = some t → s.phaseOf i = some phase → timedOut phase = true →
    s.config.queueTimeout ≤ s.now - t

theorem Late.rephases (hs : Late s) {i : Nat} {old phase : AcquirePhase}
    (h : Rephases s s' i old phase)
    (hi : timedOut phase = true → ∀ t, s.stampOf i = some t → s.config.queueTimeout ≤ s.now - t) :
    Late s' := by
  intro j t phase' ht hphase hlate
  rw [h.phaseOf] at hphase
  rw [h.config, h.now]
  split at hphase
  · rename_i hj
    cases hphase
    rw [hj, h.stampOf i (fun _ => by rintro rfl; cases hlate)] at ht
    exact hi hlate t ht
  · rename_i hj
    rw [h.stampOf j (fun heq => absurd heq hj)] at ht
    exact hs j t phase' ht hphase hlate

theorem Late.closes (hs : Late s) {t : PoolState} (h : Closes s t) : Late t := by
  intro j u phase hu hphase hlate
  rw [h.stampOf] at hu
  rw [h.config, h.now]
  rcases h.phaseOf j with heq | ⟨-, hclosed⟩
  · exact hs j u phase hu (heq ▸ hphase) hlate
  · rw [hclosed] at hphase
    cases hphase
    cases hlate

theorem Late.moves (hs : Late s) (hcovered : Covered s) (hok : s.HandsOver x) (h : Moves s x s') :
    Late s' := by
  cases h with
  | tick elapsed =>
    intro i t phase ht hphase hlate
    have hbefore := hs i t phase ht hphase hlate
    exact hbefore.trans (Nat.sub_le_sub_right (Nat.le_add_right _ _) t)
  | acquire =>
    intro i t phase ht hphase hlate
    have hsame : s.phaseOf i = some phase := by
      rcases phaseOf_acquire s i with heq | ⟨hnew, -⟩
      · exact heq ▸ hphase
      · rw [hnew] at hphase
        cases hphase
        split at hlate <;> cases hlate
    rw [stampOf_acquire hsame] at ht
    obtain ⟨-, hconfig, hnow, -⟩ := acquire_frame s
    rw [hconfig, hnow]
    exact hs i t phase ht hsame hlate
  | stamp hi => exact hs.rephases (rephases_stamp hi) (by intro h; cases h)
  | enqueue ha hi =>
    rcases rephases_enqueue hi _ with ⟨-, h, -⟩ | ⟨-, h, -⟩
    · exact hs.rephases h (by intro h; cases h)
    · exact hs.rephases h (by intro h; cases h)
  | expire ha hi hover =>
    refine hs.rephases (rephases_setPhase hi .expired) fun _ t ht => ?_
    rw [stampOf_of_getElem ha] at ht
    cases ht
    exact hover
  | @retry i a ha hi =>
    obtain ⟨stats, -, heq⟩ := retry_eq (hcovered.free hi (hok hi)) i a.enqueuedAt
    have hafter := hs.rephases (rephases_setPhase hi (.returned none)) (by intro h; cases h)
    rw [heq]
    exact hafter
  | shutdown hi => exact hs.rephases (rephases_shutdown hi) (by intro h; cases h)
  | timeout hi => exact hs.rephases (rephases_timeout hi) fun _ t ht => hs _ t _ ht hi rfl
  | dropConnection hc =>
    have hstart : Late s.deactivate := hs
    rcases dropConnection_cases s with ⟨t, ht, -, heq⟩ | ⟨i, t, ht, hi, heq⟩
    · have hafter := hstart.closes ht
      rw [heq]
      exact hafter
    · have hafter := (hstart.closes ht).rephases (rephases_setPhase hi .signalled)
        (by intro h; cases h)
      rw [heq]
      exact hafter
  | releasePermit hj => exact hs
  | drainQueue => exact hs.closes (closes_drainLoop s s.waiting rfl).1

/-- An unsignalled waiter in the queue whose receiver is alive. -/
def LiveWaiter (s : PoolState) : Prop := ∃ w ∈ s.waiting, s.phaseOf w.readyTx = some .waiting

/-- While somebody waits, there is a connection to be dropped or a signalled waiter. -/
def Served (s : PoolState) : Prop := s.LiveWaiter → 0 < s.connections + s.signalled.card

theorem Served.mono (hs : Served s) (hlive : s'.LiveWaiter → s.LiveWaiter)
    (hconnections : s.connections ≤ s'.connections) (hsignalled : s'.signalled = s.signalled) :
    Served s' := by
  intro hwaiter
  have hbefore := hs (hlive hwaiter)
  rw [hsignalled]
  omega

theorem Served.rephases (hs : Served s) {i : Nat} {old phase : AcquirePhase}
    (h : Rephases s s' i old phase) (hwaiting : s'.waiting = s.waiting)
    (hp : isSignalled phase = isSignalled old) (hphase : phase ≠ .waiting) : Served s' := by
  refine hs.mono ?_ h.connections.ge (h.inPhase hp)
  rintro ⟨w, hw, hlive⟩
  rw [h.phaseOf] at hlive
  split at hlive
  · exact absurd (Option.some.inj hlive) hphase
  · exact ⟨w, hwaiting ▸ hw, hlive⟩

theorem not_liveWaiter (h : s.waiting = []) : ¬ s.LiveWaiter := by
  rintro ⟨w, hw, -⟩
  rw [h] at hw
  cases hw

theorem Served.moves (hs : Served s) (hcovered : Covered s) (hok : s.HandsOver x)
    (h : Moves s x s') : Served s' := by
  cases h with
  | tick elapsed => exact hs
  | acquire =>
    have hsame : s.acquire.signalled = s.signalled := inPhase_acquire s rfl rfl
    have hphases (j : Nat) (hj : s.acquire.phaseOf j = some .waiting) :
        s.phaseOf j = some .waiting := by
      rcases phaseOf_acquire s j with heq | ⟨hnew, -⟩
      · exact heq ▸ hj
      · rw [hnew] at hj
        split at hj <;> cases hj
    obtain ⟨hwaiting, -, -, -, hconnections⟩ := acquire_frame s
    refine hs.mono ?_ hconnections hsame
    rintro ⟨w, hw, hlive⟩
    exact ⟨w, hwaiting ▸ hw, hphases _ hlive⟩
  | stamp hi => exact hs.rephases (rephases_stamp hi) rfl rfl (by decide)
  | enqueue ha hi =>
    rcases rephases_enqueue hi _ with ⟨-, h, hwaiting, -⟩ | ⟨hroom, h, -, -⟩
    · exact hs.rephases h hwaiting rfl (by decide)
    · intro _
      have hsame := h.inPhase (p := isSignalled) rfl
      rw [h.connections, signalled, hsame]
      exact hok hi hroom
  | expire ha hi hover => exact hs.rephases (rephases_setPhase hi .expired) rfl rfl (by decide)
  | @retry i a ha hi =>
    obtain ⟨stats, -, heq⟩ := retry_eq (hcovered.free hi (hok hi)) i a.enqueuedAt
    intro _
    rw [heq]
    exact Nat.add_pos_left (Nat.succ_pos _) _
  | shutdown hi => exact hs.rephases (rephases_shutdown hi) rfl rfl (by decide)
  | timeout hi => exact hs.rephases (rephases_timeout hi) rfl rfl (by decide)
  | dropConnection hc =>
    rcases dropConnection_cases s with ⟨t, ht, hempty, heq⟩ | ⟨i, t, ht, hi, heq⟩
    · rw [heq]
      intro hlive
      exact absurd hlive (not_liveWaiter hempty)
    · intro _
      have hmem : i ∈ s.dropConnection.signalled := by
        rw [mem_signalled, heq]
        exact (phaseOf_setPhase hi .signalled i).trans (if_pos rfl)
      exact Nat.add_pos_right _ (Finset.card_pos.mpr ⟨i, hmem⟩)
  | releasePermit hj => exact hs
  | drainQueue =>
    intro hlive
    exact absurd hlive (not_liveWaiter (closes_drainLoop s s.waiting rfl).2)

structure Orderly (s : PoolState) : Prop where
  covered : Covered s
  late : Late s
  served : Served s

theorem orderly_new (config : ConnectionPoolConfig) : Orderly (new config) where
  covered := Nat.zero_le _
  late i t phase ht := by cases ht
  served hlive := absurd hlive (not_liveWaiter rfl)

theorem Orderly.step (hs : Orderly s) (hok : s.HandsOver x) : Orderly (s.step x) :=
  step_invariant hs fun _ h =>
    ⟨hs.covered.moves hok h, hs.late.moves hs.covered hok h, hs.served.moves hs.covered hok h⟩

/-- A signalled waiter that goes on gets a connection. -/
def ObtainsPermit (s : PoolState) : PoolStep → Prop
  | .resume i => s.phaseOf i = some .signalled →
    (s.step (.resume i)).phaseOf i = some (.returned none)
  | _ => True

theorem Orderly.obtainsPermit (hs : Orderly s) (hok : s.HandsOver x) : s.ObtainsPermit x := by
  cases x with
  | resume i =>
    intro hi
    have hfree := hs.covered.free hi (hok hi)
    obtain ⟨a, ha, hphase⟩ := Option.map_eq_some_iff.mp hi
    obtain ⟨stats, -, heq⟩ := retry_eq hfree i a.enqueuedAt
    have hstep : s.step (.resume i) = s.retry i a.enqueuedAt := by
      simp only [PoolState.step, ha, resume, hphase]
    rw [hstep, heq]
    exact (phaseOf_setPhase hi (.returned none) i).trans (if_pos rfl)
  | _ => trivial

/-- A call that has returned `Timeout` was enqueued at least the queue timeout ago. -/
def TimeoutsElapsed (s : PoolState) : Prop :=
  ∀ i t, s.stampOf i = some t → s.phaseOf i = some (.returned (some .timeout)) →
    s.config.queueTimeout ≤ s.now - t

/-- A permit is free and a waiter waits, and no connection is left to wake it, nor a signalled
waiter that will have one. -/
structure Stranded (s : PoolState) : Prop where
  free : 0 < s.permits
  waiter : s.LiveWaiter
  connections : s.connections = 0
  signalled : s.signalled = ∅

/-- In every run there are at most the configured connections. If all steps hand the permits over
in order, `Timeout` comes only after the queue timeout, signalled waiters get a connection, and
no waiter is stranded. -/
theorem permits_handed_over (config : ConnectionPoolConfig) (steps : List PoolStep) :
    let s := Machine.run step (new config) steps
    s.connections + s.releasing.length ≤ config.maxConnections.toNat ∧
    (Machine.AllSteps step HandsOver (new config) steps →
      s.TimeoutsElapsed ∧ Machine.AllSteps step ObtainsPermit (new config) steps ∧
        ¬ s.Stranded) := by
  intro s
  constructor
  · have hall : s.allPermits = config.maxConnections.toNat := (run_conserved config steps).2
    rw [allPermits] at hall
    omega
  · intro hok
    have hstep : ∀ s x, HandsOver s x → Orderly s → Orderly (s.step x) := fun _ _ h hs => hs.step h
    have hend : Orderly s := Machine.run_invariant hstep (orderly_new config) hok
    refine ⟨fun i t ht hi => hend.late i t _ ht hi rfl, ?_, ?_⟩
    · exact Machine.allSteps_of_invariant hstep (fun _ _ h hs => hs.obtainsPermit h)
        (orderly_new config) hok
    · intro hstranded
      have hserved := hend.served hstranded.waiter
      rw [hstranded.connections, hstranded.signalled] at hserved
      cases hserved

/-- One connection at most, four waiters, a timeout of thirty seconds. -/
def oneConnection : ConnectionPoolConfig := ⟨1, 4, 30000⟩

/-- A second call waits for the connection of the first, and gets it. -/
theorem waiter_handed_over :
    let steps := [.acquire, .acquire, .stamp 1, .enqueue 1, .dropConnection, .releasePermit 0,
      .resume 1]
    Machine.AllSteps step ObtainsPermit (new oneConnection) steps ∧
      ¬ (Machine.run step (new oneConnection) steps).Stranded := by
  intro steps
  have hok : Machine.AllSteps step HandsOver (new oneConnection) steps := by decide +kernel
  exact ((permits_handed_over oneConnection steps).2 hok).2

/-- The waiter looks for the permit before its waker has returned it, and times out at once; a
call that joins the queue after the only connection is gone waits beside a free permit. -/
theorem permits_not_handed_over :
    ¬ (Machine.run step (new oneConnection)
      [.acquire, .acquire, .stamp 1, .enqueue 1, .dropConnection, .resume 1]).TimeoutsElapsed ∧
    (Machine.run step (new oneConnection)
      [.acquire, .acquire, .stamp 1, .dropConnection, .releasePermit 0, .enqueue 1]).Stranded := by
  constructor
  · intro helapsed
    have hnow := helapsed 1 0 (by decide +kernel) (by decide +kernel)
    revert hnow
    decide +kernel
  · exact ⟨by decide +kernel, ⟨⟨1, 0⟩, by decide +kernel, by decide +kernel⟩, by decide +kernel,
      by decide +kernel⟩

end PoolState

end Conproxy
