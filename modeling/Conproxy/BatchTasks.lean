import Conproxy.Batch

/-!
# Batches in parallel

What the response says about the tasks, in whatever order they run, and when the contract of a batch
is kept in every order. A task that is skipped counts as an error, and the batch as complete.
-/

namespace Conproxy

open Machine

set_option autoImplicit false

def TaskPhase.isFinished : TaskPhase → Bool
  | .finished _ => true
  | _ => false

theorem TaskPhase.isDone_of_isFinished {phase : TaskPhase} (h : phase.isFinished = true) :
    phase.isDone = true := by
  cases phase <;> first | rfl | cases h

theorem TaskPhase.isDone_cases {phase : TaskPhase} (h : phase.isDone = true) :
    (∃ result, phase = .finished result) ∨ phase = .skipped ∨ phase = .panicked := by
  cases phase with
  | finished result => exact .inl ⟨result, rfl⟩
  | skipped => exact .inr (.inl rfl)
  | panicked => exact .inr (.inr rfl)
  | spawned => cases h
  | waiting => cases h
  | running => cases h

namespace ParallelBatch

variable {queryFn : QueryFn} {request : BatchRequest} {s s' : ParallelBatch}

inductive Moves (queryFn : QueryFn) (request : BatchRequest) (s : ParallelBatch) :
    ParallelBatch → Prop where
  | stays : Moves queryFn request s s
  | checked {i : Nat} (hphase : s.phase i = .spawned) :
    Moves queryFn request s
      (s.setPhase i (if request.failFast && s.failed then .skipped else .waiting))
  | acquired {i : Nat} (hphase : s.phase i = .waiting) (hfree : 0 < s.permits) :
    Moves queryFn request s
      { s.setPhase i .running with permits := s.permits - 1, log := s.log ++ [.started i] }
  | succeeded {i : Nat} {q : BatchQuery} {response : QueryResponse} (hphase : s.phase i = .running)
      (hq : request.queries[i]? = some q) (hok : queryFn i q.toRequest = .ok response) :
    Moves queryFn request s
      { s.setPhase i (.finished (.ofResponse response)) with
        permits := s.permits + 1
        log := s.log ++ [.succeeded i] }
  | erred {i : Nat} {q : BatchQuery} {message : String} {tookMs : Nat}
      (hphase : s.phase i = .running) (hq : request.queries[i]? = some q)
      (herr : queryFn i q.toRequest = .err message) :
    Moves queryFn request s
      { s.setPhase i (.finished (.ofError message tookMs)) with
        permits := s.permits + 1
        failed := s.failed || request.failFast
        log := s.log ++ [.failed i] }
  | panicked {i : Nat} {q : BatchQuery} (hphase : s.phase i = .running)
      (hq : request.queries[i]? = some q) (hpanic : queryFn i q.toRequest = .panic) :
    Moves queryFn request s { s.setPhase i .panicked with permits := s.permits + 1 }
  | awaited {q : BatchQuery} {result : BatchQueryResult} (hq : request.queries[s.next]? = some q)
      (houtput : (s.phase s.next).output = some result) :
    Moves queryFn request s
      { s with next := s.next + 1, progress := s.progress.record q.id result }
  | lost (hnext : s.next < request.queries.length) (hphase : s.phase s.next = .panicked) :
    Moves queryFn request s
      { s with
        next := s.next + 1
        progress := { s.progress.abort with errorCount := s.progress.errorCount + 1 } }
  | timedOut (hphase : (s.phase s.next).isDone = false) :
    Moves queryFn request s { s with progress := s.progress.abort, timedOut := true }

theorem step_of_reported (h : s.reported request = true) (x : BatchStep) :
    step queryFn request s x = s :=
  if_pos h

theorem moves_check (i : Nat) : Moves queryFn request s (s.check request.failFast i) := by
  unfold check
  split
  · rename_i hphase
    exact .checked hphase
  · exact .stays

theorem moves_acquire (i : Nat) : Moves queryFn request s (s.acquire i) := by
  unfold acquire
  split
  · rename_i hphase
    split
    · rename_i hfree
      exact .acquired hphase hfree
    · exact .stays
  · exact .stays

theorem moves_finish {i : Nat} {q : BatchQuery} (hq : request.queries[i]? = some q)
    (tookMs : Nat) : Moves queryFn request s (s.finish queryFn request.failFast i q tookMs) := by
  unfold finish
  split
  · rename_i hphase
    dsimp only
    split
    · rename_i response hok
      exact .succeeded hphase hq hok
    · rename_i message herr
      exact .erred hphase hq herr
    · rename_i hpanic
      exact .panicked hphase hq hpanic
  · exact .stays

theorem moves_await {q : BatchQuery} (hq : request.queries[s.next]? = some q) :
    Moves queryFn request s (s.await q) := by
  unfold await
  split
  · rename_i hphase
    exact .lost (List.getElem?_eq_some_iff.1 hq).1 hphase
  · split
    · rename_i result houtput
      exact .awaited hq houtput
    · exact .stays

theorem moves_timeout : Moves queryFn request s s.timeout := by
  unfold timeout
  split
  · exact .stays
  · rename_i hphase
    exact .timedOut (Bool.eq_false_of_not_eq_true hphase)

theorem moves_step (queryFn : QueryFn) (request : BatchRequest) (s : ParallelBatch)
    (x : BatchStep) : Moves queryFn request s (step queryFn request s x) := by
  unfold step
  split
  · exact .stays
  · cases x with
    | check i =>
      dsimp only
      split
      · exact moves_check i
      · exact .stays
    | acquire i => exact moves_acquire i
    | finish i tookMs =>
      dsimp only
      split
      · rename_i q hq
        exact moves_finish hq tookMs
      · exact .stays
    | await =>
      dsimp only
      split
      · rename_i q hq
        exact moves_await hq
      · exact .stays
    | timeout => exact moves_timeout

/-! ## What the response says -/

/-- The response accounts for the tasks that have been awaited. -/
structure Accounts (request : BatchRequest) (s : ParallelBatch) : Prop where
  bound : s.next ≤ request.queries.length
  awaited : ∀ i < s.next, (s.phase i).isDone = true
  keys : ∀ id, id ∈ s.progress.results ↔ ∃ i < s.next, ∃ q, request.queries[i]? = some q ∧
    q.id = id ∧ (s.phase i).isPanicked = false
  size : s.progress.results.keys.length =
    (List.range s.next).countP fun i => !(s.phase i).isPanicked
  total : s.progress.successCount + s.progress.errorCount = s.next
  complete : s.progress.complete = true ↔
    s.timedOut = false ∧ ∀ i < s.next, (s.phase i).isPanicked = false
  late : s.timedOut = true →
    s.next < request.queries.length ∧ (s.phase s.next).isDone = false

/-- The queries that have returned are those of the tasks that ran to their end. -/
def Logged (s : ParallelBatch) : Prop :=
  ∀ i, Executed s.log i ↔ (s.phase i).isFinished = true

theorem accounts_start (request : BatchRequest) (maxParallel : Nat) :
    Accounts request (start maxParallel) where
  bound := Nat.zero_le _
  awaited := by simp [start]
  keys := by simp [start, BatchProgress.start]
  size := rfl
  total := rfl
  complete := by simp [start, BatchProgress.start]
  late h := by cases h

theorem logged_start (maxParallel : Nat) : Logged (start maxParallel) := by
  intro i
  exact iff_of_false (by simp [start, Executed]) Bool.false_ne_true

/-- Nothing changes for the response with a task that is not done. -/
theorem Accounts.update (h : Accounts request s) {i : Nat} {phase : TaskPhase}
    (hrunning : (s.phase i).isDone = false) (hopen : s.timedOut = false)
    (hphase : s'.phase = Function.update s.phase i phase) (hnext : s'.next = s.next)
    (hprogress : s'.progress = s.progress) (htimedOut : s'.timedOut = s.timedOut) :
    Accounts request s' := by
  have hsame : ∀ j < s.next, s'.phase j = s.phase j := by
    intro j hj
    rw [hphase, Function.update_of_ne]
    rintro rfl
    rw [h.awaited j hj] at hrunning
    cases hrunning
  constructor
  · exact hnext ▸ h.bound
  · rw [hnext]
    intro j hj
    rw [hsame j hj, h.awaited j hj]
  · rw [hnext, hprogress]
    intro id
    rw [h.keys]
    refine exists_congr fun j => and_congr_right fun hj => ?_
    rw [hsame j hj]
  · rw [hnext, hprogress, h.size]
    refine List.countP_congr fun j hj => ?_
    rw [hsame j (List.mem_range.1 hj)]
  · rw [hnext, hprogress, h.total]
  · rw [hnext, hprogress, htimedOut, h.complete]
    refine and_congr_right fun _ => forall₂_congr fun j hj => ?_
    rw [hsame j hj]
  · rw [htimedOut, hopen]
    exact nofun

theorem id_inj (hnodup : (request.queries.map BatchQuery.id).Nodup) {i j : Nat}
    {q r : BatchQuery} (hq : request.queries[i]? = some q) (hr : request.queries[j]? = some r)
    (hsame : q.id = r.id) : i = j := by
  have hi := (List.getElem?_eq_some_iff.1 hq).1
  refine (List.getElem?_inj (by rwa [List.length_map]) hnodup).1 ?_
  rw [List.getElem?_map, List.getElem?_map, hq, hr, Option.map_some, Option.map_some, hsame]

theorem Accounts.awaited_step (hnodup : (request.queries.map BatchQuery.id).Nodup)
    (h : Accounts request s) (hopen : s.timedOut = false) {q : BatchQuery}
    {result : BatchQueryResult} (hq : request.queries[s.next]? = some q)
    (houtput : (s.phase s.next).output = some result) :
    Accounts request
      { s with next := s.next + 1, progress := s.progress.record q.id result } := by
  have hnext := (List.getElem?_eq_some_iff.1 hq).1
  have hdone : (s.phase s.next).isDone = true := by simp [TaskPhase.isDone, houtput]
  have hkept : (s.phase s.next).isPanicked = false := by
    cases hphase : s.phase s.next <;> simp_all [TaskPhase.output, TaskPhase.isPanicked]
  have hnew : q.id ∉ s.progress.results := by
    rw [h.keys]
    rintro ⟨i, hi, r, hr, hsame, -⟩
    exact hi.ne (id_inj hnodup hr hq hsame)
  constructor
  · exact hnext
  · exact Nat.forall_lt_succ_right.2 ⟨h.awaited, hdone⟩
  · intro id
    dsimp only
    rw [mem_record, h.keys, Nat.exists_lt_succ_right, or_comm]
    refine or_congr_right ?_
    simp [hq, hkept, eq_comm]
  · rw [length_record hnew, h.size, List.range_succ, List.countP_append]
    simp [hkept]
  · rw [count_record, h.total]
  · change s.progress.complete = true ↔ _
    rw [h.complete, Nat.forall_lt_succ_right]
    simp [hkept]
  · intro hlate
    change s.timedOut = true at hlate
    rw [hopen] at hlate
    cases hlate

theorem Accounts.lost_step (h : Accounts request s) (hopen : s.timedOut = false)
    (hnext : s.next < request.queries.length) (hphase : s.phase s.next = .panicked) :
    Accounts request
      { s with
        next := s.next + 1
        progress := { s.progress.abort with errorCount := s.progress.errorCount + 1 } } := by
  have hlost : (s.phase s.next).isPanicked = true := by rw [hphase]; rfl
  constructor
  · exact hnext
  · exact Nat.forall_lt_succ_right.2 ⟨h.awaited, by rw [hphase]; rfl⟩
  · intro id
    refine (h.keys id).trans ?_
    dsimp only
    rw [Nat.exists_lt_succ_right]
    simp [hlost]
  · refine h.size.trans ?_
    rw [List.range_succ, List.countP_append]
    simp [hlost]
  · dsimp only [BatchProgress.abort]
    rw [← add_assoc, h.total]
  · refine iff_of_false Bool.false_ne_true fun hall => ?_
    have hkept := hall.2 s.next (Nat.lt_succ_self _)
    dsimp only at hkept
    rw [hlost] at hkept
    cases hkept
  · intro hlate
    change s.timedOut = true at hlate
    rw [hopen] at hlate
    cases hlate

theorem Accounts.timedOut_step (h : Accounts request s)
    (hnext : s.next < request.queries.length) (hphase : (s.phase s.next).isDone = false) :
    Accounts request { s with progress := s.progress.abort, timedOut := true } where
  bound := h.bound
  awaited := h.awaited
  keys := h.keys
  size := h.size
  total := h.total
  complete := iff_of_false Bool.false_ne_true fun hall => Bool.noConfusion hall.1
  late _ := ⟨hnext, hphase⟩

theorem accounts_step (hnodup : (request.queries.map BatchQuery.id).Nodup)
    (h : Accounts request s) (x : BatchStep) : Accounts request (step queryFn request s x) := by
  by_cases hreported : s.reported request = true
  · rwa [step_of_reported hreported]
  · obtain ⟨hlate, hend⟩ : ¬ s.timedOut = true ∧ ¬ s.next = request.queries.length := by
      simpa [reported] using hreported
    have hopen := Bool.eq_false_of_not_eq_true hlate
    have hnext := lt_of_le_of_ne h.bound hend
    have hmoves := moves_step queryFn request s x
    generalize step queryFn request s x = s' at hmoves ⊢
    cases hmoves with
    | stays => exact h
    | checked hphase => exact h.update (by rw [hphase]; rfl) hopen rfl rfl rfl rfl
    | acquired hphase hfree => exact h.update (by rw [hphase]; rfl) hopen rfl rfl rfl rfl
    | succeeded hphase hq hok => exact h.update (by rw [hphase]; rfl) hopen rfl rfl rfl rfl
    | erred hphase hq herr => exact h.update (by rw [hphase]; rfl) hopen rfl rfl rfl rfl
    | panicked hphase hq hpanic => exact h.update (by rw [hphase]; rfl) hopen rfl rfl rfl rfl
    | awaited hq houtput => exact h.awaited_step hnodup hopen hq houtput
    | lost _ hphase => exact h.lost_step hopen hnext hphase
    | timedOut hphase => exact h.timedOut_step hnext hphase

theorem Logged.update (h : Logged s) {i : Nat} {phase : TaskPhase} {events : List BatchEvent}
    (hbefore : (s.phase i).isFinished = false)
    (hphase : s'.phase = Function.update s.phase i phase) (hlog : s'.log = s.log ++ events)
    (hevents : ∀ j, Executed events j ↔ j = i ∧ phase.isFinished = true) : Logged s' := by
  intro j
  rw [hphase, hlog, executed_append, h, hevents]
  by_cases hj : j = i
  · rw [hj, Function.update_self, hbefore]
    simp
  · rw [Function.update_of_ne hj]
    simp [hj]

theorem logged_step (h : Logged s) (x : BatchStep) : Logged (step queryFn request s x) := by
  have hmoves := moves_step queryFn request s x
  generalize step queryFn request s x = s' at hmoves ⊢
  cases hmoves with
  | checked hphase =>
    refine h.update (by rw [hphase]; rfl) rfl (List.append_nil _).symm fun j => ?_
    split <;> simp [Executed, TaskPhase.isFinished]
  | acquired hphase hfree =>
    refine h.update (by rw [hphase]; rfl) rfl rfl fun j => ?_
    simp [Executed, TaskPhase.isFinished]
  | succeeded hphase hq hok =>
    refine h.update (by rw [hphase]; rfl) rfl rfl fun j => ?_
    simp [Executed, TaskPhase.isFinished]
  | erred hphase hq herr =>
    refine h.update (by rw [hphase]; rfl) rfl rfl fun j => ?_
    simp [Executed, TaskPhase.isFinished]
  | panicked hphase hq hpanic =>
    refine h.update (by rw [hphase]; rfl) rfl (List.append_nil _).symm fun j => ?_
    simp [Executed, TaskPhase.isFinished]
  | stays => exact h
  | awaited hq houtput => exact h
  | lost hnext hphase => exact h
  | timedOut hphase => exact h

/-- At the report the contract is a matter of how the tasks ended. -/
theorem contract_iff (h : Accounts request s) (hlogged : Logged s)
    (hreported : s.reported request = true) (tookMs : Nat) :
    BatchContract request (s.progress.toRun s.log tookMs) ↔
      (∀ i < s.next, (s.phase i).isPanicked = false) ∧
        (s.timedOut = false → ∀ i < request.queries.length, (s.phase i).isFinished = true) ∧
        (request.failFast = true → Quiet s.log) := by
  have hcounted : s.progress.successCount + s.progress.errorCount =
      s.progress.results.keys.length ↔ ∀ i < s.next, (s.phase i).isPanicked = false := by
    rw [h.total, h.size]
    conv_lhs => lhs; rw [← List.length_range (n := s.next)]
    rw [eq_comm, List.countP_eq_length]
    simp
  constructor
  · intro hcontract
    have hkept := hcounted.1 hcontract.counted
    refine ⟨hkept, fun hopen i hi => ?_, hcontract.quiet⟩
    have hcomplete := h.complete.2 ⟨hopen, hkept⟩
    exact (hlogged i).1 (hcontract.complete.1 hcomplete i hi)
  · rintro ⟨hkept, hfinished, hquiet⟩
    have hend (hcomplete : s.progress.complete = true) : s.timedOut = false ∧
        s.next = request.queries.length := by
      have hopen := (h.complete.1 hcomplete).1
      simpa [reported, hopen] using hreported
    refine ⟨⟨fun hcomplete i hi => ?_, fun hall => ?_⟩, fun hcomplete id => ?_,
      hcounted.2 hkept, hquiet⟩
    · exact (hlogged i).2 (hfinished (hend hcomplete).1 i hi)
    · refine h.complete.2 ⟨Bool.eq_false_of_not_eq_true fun hlate => ?_, hkept⟩
      obtain ⟨hnext, hrunning⟩ := h.late hlate
      have hdone := TaskPhase.isDone_of_isFinished ((hlogged s.next).1 (hall s.next hnext))
      rw [hrunning] at hdone
      cases hdone
    · refine (h.keys id).trans ?_
      rw [(hend hcomplete).2]
      constructor
      · rintro ⟨i, -, q, hq, hid, -⟩
        exact ⟨q, List.mem_of_getElem? hq, hid⟩
      · rintro ⟨q, hq, hid⟩
        obtain ⟨i, hi⟩ := List.mem_iff_getElem?.1 hq
        have hlt := (List.getElem?_eq_some_iff.1 hi).1
        exact ⟨i, hlt, q, hi, hid, hkept i ((hend hcomplete).2 ▸ hlt)⟩

structure Smooth (request : BatchRequest) (maxParallel : Nat) (s : ParallelBatch) : Prop where
  kept : ∀ i, (s.phase i).isPanicked = false
  unskipped : ∀ i, s.phase i ≠ .skipped
  unflagged : s.failed = false
  quiet : request.failFast = true → ∀ e ∈ s.log, e.isFailed = false
  starved : maxParallel = 0 → s.permits = 0 ∧ ∀ i, s.phase i ≠ .running

theorem smooth_start (request : BatchRequest) (maxParallel : Nat) :
    Smooth request maxParallel (start maxParallel) where
  kept _ := rfl
  unskipped _ := TaskPhase.noConfusion
  unflagged := rfl
  quiet := by simp [start]
  starved h := ⟨h, fun _ => TaskPhase.noConfusion⟩

variable {maxParallel : Nat}

/-- A task goes on, and nothing but an error of a patient batch is added to the log. -/
theorem Smooth.update (h : Smooth request maxParallel s) {i : Nat} {phase : TaskPhase}
    {events : List BatchEvent} (hphase : s'.phase = Function.update s.phase i phase)
    (hkept : phase.isPanicked = false) (hunskipped : phase ≠ .skipped)
    (hunflagged : s'.failed = false) (hlog : s'.log = s.log ++ events)
    (hevents : request.failFast = true → ∀ e ∈ events, e.isFailed = false)
    (hstarved : maxParallel = 0 → s'.permits = 0 ∧ phase ≠ .running) :
    Smooth request maxParallel s' where
  kept j := by
    rw [hphase]
    by_cases hj : j = i
    · rwa [hj, Function.update_self]
    · rw [Function.update_of_ne hj]
      exact h.kept j
  unskipped j := by
    rw [hphase]
    by_cases hj : j = i
    · rwa [hj, Function.update_self]
    · rw [Function.update_of_ne hj]
      exact h.unskipped j
  unflagged := hunflagged
  quiet hfast e he := by
    rw [hlog] at he
    rcases List.mem_append.1 he with he | he
    · exact h.quiet hfast e he
    · exact hevents hfast e he
  starved hzero := by
    refine ⟨(hstarved hzero).1, fun j => ?_⟩
    rw [hphase]
    by_cases hj : j = i
    · rw [hj, Function.update_self]
      exact (hstarved hzero).2
    · rw [Function.update_of_ne hj]
      exact (h.starved hzero).2 j

theorem smooth_step (hharmless : maxParallel = 0 ∨ ∀ i q, request.queries[i]? = some q →
    Harmless request.failFast (queryFn i q.toRequest))
    (h : Smooth request maxParallel s) (x : BatchStep) :
    Smooth request maxParallel (step queryFn request s x) := by
  have hran {i : Nat} {q : BatchQuery} (hphase : s.phase i = .running)
      (hq : request.queries[i]? = some q) :
      maxParallel ≠ 0 ∧ Harmless request.failFast (queryFn i q.toRequest) := by
    have hpositive : maxParallel ≠ 0 := fun hzero => (h.starved hzero).2 i hphase
    exact ⟨hpositive, hharmless.resolve_left hpositive i q hq⟩
  have hmoves := moves_step queryFn request s x
  generalize step queryFn request s x = s' at hmoves ⊢
  cases hmoves with
  | checked hphase =>
    rw [h.unflagged, Bool.and_false]
    exact h.update rfl rfl TaskPhase.noConfusion h.unflagged (List.append_nil _).symm (by simp)
      fun hzero => ⟨(h.starved hzero).1, TaskPhase.noConfusion⟩
  | acquired hphase hfree =>
    refine h.update rfl rfl TaskPhase.noConfusion h.unflagged rfl ?_ fun hzero => ?_
    · simp [BatchEvent.isFailed]
    · exact absurd (h.starved hzero).1 hfree.ne'
  | succeeded hphase hq hok =>
    refine h.update rfl rfl TaskPhase.noConfusion h.unflagged rfl ?_ fun hzero => ?_
    · simp [BatchEvent.isFailed]
    · exact absurd hzero (hran hphase hq).1
  | erred hphase hq herr =>
    obtain ⟨hpositive, hallowed⟩ := hran hphase hq
    rw [herr] at hallowed
    cases hfast : request.failFast with
    | true => simp [Harmless, hfast, QueryOutcome.isOk] at hallowed
    | false =>
      have hunflagged : (s.failed || false) = false := by rw [h.unflagged]; rfl
      refine h.update rfl rfl TaskPhase.noConfusion hunflagged rfl ?_ fun hzero => ?_
      · rw [hfast]
        intro hfalse
        cases hfalse
      · exact absurd hzero hpositive
  | panicked hphase hq hpanic =>
    have hallowed := (hran hphase hq).2
    rw [hpanic] at hallowed
    simp [Harmless, QueryOutcome.isOk, QueryOutcome.isErr] at hallowed
  | stays => exact h
  | awaited hq houtput => exact ⟨h.kept, h.unskipped, h.unflagged, h.quiet, h.starved⟩
  | lost hnext hphase => exact ⟨h.kept, h.unskipped, h.unflagged, h.quiet, h.starved⟩
  | timedOut hphase => exact ⟨h.kept, h.unskipped, h.unflagged, h.quiet, h.starved⟩

theorem Smooth.contract (h : Smooth request maxParallel s) (haccounts : Accounts request s)
    (hlogged : Logged s) (hreported : s.reported request = true) (tookMs : Nat) :
    BatchContract request (s.progress.toRun s.log tookMs) := by
  refine (contract_iff haccounts hlogged hreported tookMs).2
    ⟨fun i _ => h.kept i, fun hopen i hi => ?_, fun hfast => quiet_of_no_failure (h.quiet hfast)⟩
  have hend : s.next = request.queries.length := by simpa [reported, hopen] using hreported
  have hdone := haccounts.awaited i (hend ▸ hi)
  have hkept := h.kept i
  have hunskipped := h.unskipped i
  cases hphase : s.phase i <;> simp_all [TaskPhase.isDone, TaskPhase.output, TaskPhase.isPanicked,
    TaskPhase.isFinished]

theorem run_accounts (hnodup : (request.queries.map BatchQuery.id).Nodup)
    (schedule : List BatchStep) :
    Accounts request (run (step queryFn request) (start maxParallel) schedule) ∧
      Logged (run (step queryFn request) (start maxParallel) schedule) := by
  constructor
  · exact run_preserves (fun s x (h : Accounts request s) => accounts_step hnodup h x)
      (accounts_start request maxParallel) schedule
  · exact run_preserves (fun s x (h : Logged s) => logged_step h x) (logged_start maxParallel)
      schedule

theorem run_smooth (hharmless : maxParallel = 0 ∨ ∀ i q, request.queries[i]? = some q →
    Harmless request.failFast (queryFn i q.toRequest)) (schedule : List BatchStep) :
    Smooth request maxParallel (run (step queryFn request) (start maxParallel) schedule) :=
  run_preserves (fun s x (h : Smooth request maxParallel s) => smooth_step hharmless h x)
    (smooth_start request maxParallel) schedule

/-! ## A run with a disturbance -/

/-- The steps of a task that does not have to wait for the others. -/
def serve (i : Nat) : List BatchStep := [.check i, .acquire i, .finish i 0]

/-- Nothing has been awaited, and no task is between its first step and its end. -/
structure Serving (s : ParallelBatch) : Prop where
  next : s.next = 0
  untimed : s.timedOut = false
  free : 0 < s.permits
  settled : ∀ i, s.phase i = .spawned ∨ (s.phase i).isDone = true

theorem serving_start (hpermits : 0 < maxParallel) : Serving (start maxParallel) :=
  ⟨rfl, rfl, hpermits, fun _ => .inl rfl⟩

theorem Serving.reported (h : Serving s) (hqueries : 0 < request.queries.length) :
    s.reported request = false := by
  simp [ParallelBatch.reported, h.next, h.untimed, hqueries.ne]

/-- How a task that is served ends. -/
inductive Served (queryFn : QueryFn) (request : BatchRequest) (s : ParallelBatch) (i : Nat)
    (q : BatchQuery) : ParallelBatch → Prop where
  | before (hdone : (s.phase i).isDone = true) : Served queryFn request s i q s
  | skipped (hphase : s.phase i = .spawned)
      (hflag : (request.failFast && s.failed) = true) :
    Served queryFn request s i q (s.setPhase i .skipped)
  | succeeded {response : QueryResponse} (hphase : s.phase i = .spawned)
      (hflag : (request.failFast && s.failed) = false)
      (hok : queryFn i q.toRequest = .ok response) :
    Served queryFn request s i q
      { s.setPhase i (.finished (.ofResponse response)) with
        log := s.log ++ [.started i, .succeeded i] }
  | erred {message : String} (hphase : s.phase i = .spawned)
      (hflag : (request.failFast && s.failed) = false)
      (herr : queryFn i q.toRequest = .err message) :
    Served queryFn request s i q
      { s.setPhase i (.finished (.ofError message 0)) with
        failed := s.failed || request.failFast
        log := s.log ++ [.started i, .failed i] }
  | panicked (hphase : s.phase i = .spawned)
      (hflag : (request.failFast && s.failed) = false)
      (hpanic : queryFn i q.toRequest = .panic) :
    Served queryFn request s i q
      { s.setPhase i .panicked with log := s.log ++ [.started i] }

theorem reported_check {failFast : Bool} (i : Nat) :
    (s.check failFast i).reported request = s.reported request := by
  unfold check
  split <;> rfl

theorem reported_acquire (i : Nat) : (s.acquire i).reported request = s.reported request := by
  unfold acquire
  split
  · split <;> rfl
  · rfl

theorem run_serve (hopen : s.reported request = false) {i : Nat} {q : BatchQuery}
    (hq : request.queries[i]? = some q) :
    run (step queryFn request) s (serve i) =
      ((s.check request.failFast i).acquire i).finish queryFn request.failFast i q 0 := by
  have hi := (List.getElem?_eq_some_iff.1 hq).1
  have hcheck : step queryFn request s (.check i) = s.check request.failFast i := by
    simp [step, hopen, hi]
  have hacquire : step queryFn request (s.check request.failFast i) (.acquire i) =
      (s.check request.failFast i).acquire i := by
    simp [step, reported_check, hopen]
  rw [serve, run_cons, run_cons, run_cons, run_nil, hcheck, hacquire, step, reported_acquire,
    reported_check, hopen, if_neg Bool.false_ne_true, hq]

theorem served_run (queryFn : QueryFn) (h : Serving s) {i : Nat} {q : BatchQuery}
    (hq : request.queries[i]? = some q) :
    Served queryFn request s i q (run (step queryFn request) s (serve i)) := by
  rw [run_serve (h.reported (by have := (List.getElem?_eq_some_iff.1 hq).1; omega)) hq]
  rcases h.settled i with hphase | hdone
  · cases hflag : request.failFast && s.failed with
    | true =>
      have hskipped : s.check request.failFast i = s.setPhase i .skipped := by
        simp [check, hphase, hflag]
      rw [hskipped]
      have hserved : Served queryFn request s i q (s.setPhase i .skipped) := .skipped hphase hflag
      simpa [acquire, finish, setPhase] using hserved
    | false =>
      have hran : (s.check request.failFast i).acquire i =
          { s.setPhase i .running with
            permits := s.permits - 1
            log := s.log ++ [.started i] } := by
        simp [check, acquire, setPhase, hphase, hflag, h.free]
      have hpermits : s.permits - 1 + 1 = s.permits := Nat.succ_pred_eq_of_pos h.free
      rw [hran]
      cases houtcome : queryFn i q.toRequest with
      | ok response =>
        simpa [finish, setPhase, houtcome, hpermits] using
          Served.succeeded hphase hflag houtcome
      | err message =>
        simpa [finish, setPhase, houtcome, hpermits] using
          Served.erred hphase hflag houtcome
      | panic =>
        simpa [finish, setPhase, houtcome, hpermits] using
          Served.panicked hphase hflag houtcome
  · have hsame : ((s.check request.failFast i).acquire i).finish queryFn request.failFast i q 0 =
        s := by
      rcases TaskPhase.isDone_cases hdone with ⟨result, hphase⟩ | hphase | hphase <;>
        simp [check, acquire, finish, hphase]
    rw [hsame]
    exact .before hdone

theorem Served.phase_of_ne {i j : Nat} {q : BatchQuery} (h : Served queryFn request s i q s')
    (hj : j ≠ i) : s'.phase j = s.phase j := by
  cases h with
  | before hdone => rfl
  | skipped hphase hflag => exact Function.update_of_ne hj _ _
  | succeeded hphase hflag hok => exact Function.update_of_ne hj _ _
  | erred hphase hflag herr => exact Function.update_of_ne hj _ _
  | panicked hphase hflag hpanic => exact Function.update_of_ne hj _ _

theorem Served.isDone {i : Nat} {q : BatchQuery} (h : Served queryFn request s i q s') :
    (s'.phase i).isDone = true := by
  cases h with
  | before hdone => exact hdone
  | skipped hphase hflag => simp [setPhase, TaskPhase.isDone, TaskPhase.output]
  | succeeded hphase hflag hok => simp [setPhase, TaskPhase.isDone, TaskPhase.output]
  | erred hphase hflag herr => simp [setPhase, TaskPhase.isDone, TaskPhase.output]
  | panicked hphase hflag hpanic => simp [setPhase, TaskPhase.isDone, TaskPhase.isPanicked]

theorem Served.keeps {i j : Nat} {q : BatchQuery} (h : Served queryFn request s i q s')
    (hdone : (s.phase j).isDone = true) : s'.phase j = s.phase j := by
  by_cases hj : j = i
  · subst hj
    cases h with
    | before => rfl
    | skipped hphase hflag =>
      rw [hphase] at hdone
      cases hdone
    | succeeded hphase hflag hok =>
      rw [hphase] at hdone
      cases hdone
    | erred hphase hflag herr =>
      rw [hphase] at hdone
      cases hdone
    | panicked hphase hflag hpanic =>
      rw [hphase] at hdone
      cases hdone
  · exact h.phase_of_ne hj

theorem Served.serving {i : Nat} {q : BatchQuery} (h : Served queryFn request s i q s')
    (hs : Serving s) : Serving s' := by
  have hsettled (j : Nat) : s'.phase j = .spawned ∨ (s'.phase j).isDone = true := by
    by_cases hj : j = i
    · rw [hj]
      exact .inr h.isDone
    · rw [h.phase_of_ne hj]
      exact hs.settled j
  cases h with
  | before hdone => exact hs
  | skipped hphase hflag => exact ⟨hs.next, hs.untimed, hs.free, hsettled⟩
  | succeeded hphase hflag hok => exact ⟨hs.next, hs.untimed, hs.free, hsettled⟩
  | erred hphase hflag herr => exact ⟨hs.next, hs.untimed, hs.free, hsettled⟩
  | panicked hphase hflag hpanic => exact ⟨hs.next, hs.untimed, hs.free, hsettled⟩

theorem serve_all (queryFn : QueryFn) (hs : Serving s) {order : List Nat}
    (horder : ∀ i ∈ order, i < request.queries.length) :
    Serving (run (step queryFn request) s (order.flatMap serve)) ∧
      (∀ i ∈ order,
        ((run (step queryFn request) s (order.flatMap serve)).phase i).isDone = true) ∧
      ∀ i, (s.phase i).isDone = true →
        (run (step queryFn request) s (order.flatMap serve)).phase i = s.phase i := by
  induction order generalizing s with
  | nil => exact ⟨hs, by simp, fun _ _ => rfl⟩
  | cons i order ih =>
    obtain ⟨hi, horder⟩ := List.forall_mem_cons.1 horder
    have hserved := served_run queryFn hs (List.getElem?_eq_getElem hi)
    obtain ⟨hserving, hdone, hkept⟩ := ih (hserved.serving hs) horder
    rw [List.flatMap_cons, run_append]
    refine ⟨hserving, List.forall_mem_cons.2 ⟨?_, hdone⟩, fun j hj => ?_⟩
    · rw [hkept i hserved.isDone]
      exact hserved.isDone
    · have hsame := hserved.keeps hj
      rw [hkept j (by rwa [hsame]), hsame]

theorem step_await (queryFn : QueryFn) (hopen : s.reported request = false)
    (hnext : s.next < request.queries.length)
    (hdone : (s.phase s.next).isDone = true) :
    (step queryFn request s .await).next = s.next + 1 ∧
      (step queryFn request s .await).timedOut = s.timedOut ∧
      (step queryFn request s .await).phase = s.phase := by
  rw [step, hopen, if_neg Bool.false_ne_true, List.getElem?_eq_getElem hnext]
  dsimp only
  unfold await
  rcases TaskPhase.isDone_cases hdone with ⟨result, hphase⟩ | hphase | hphase
  · rw [hphase]
    exact ⟨rfl, rfl, rfl⟩
  · rw [hphase]
    exact ⟨rfl, rfl, rfl⟩
  · rw [hphase]
    exact ⟨rfl, rfl, rfl⟩

theorem run_awaits (queryFn : QueryFn)
    (hdone : ∀ i < request.queries.length, (s.phase i).isDone = true)
    (huntimed : s.timedOut = false) {m : Nat} (hm : s.next + m = request.queries.length) :
    (run (step queryFn request) s (List.replicate m .await)).next = request.queries.length ∧
      (run (step queryFn request) s (List.replicate m .await)).timedOut = false ∧
      (run (step queryFn request) s (List.replicate m .await)).phase = s.phase := by
  induction m generalizing s with
  | zero => exact ⟨hm, huntimed, rfl⟩
  | succ m ih =>
    have hnext : s.next < request.queries.length := by omega
    have hopen : s.reported request = false := by simp [reported, huntimed, hnext.ne]
    obtain ⟨hstep, htime, hphase⟩ :=
      step_await queryFn hopen hnext (hdone s.next hnext)
    rw [List.replicate_succ, run_cons]
    have hrest := ih (s := step queryFn request s .await) (by rwa [hphase])
      (by rw [htime, huntimed]) (by omega)
    rwa [hphase] at hrest

/-- In some order of the steps the report comes with all tasks done, and the one of this place has
not run its query to the end. -/
def LeavesUnfinished (queryFn : QueryFn) (request : BatchRequest) (maxParallel i : Nat) : Prop :=
  ∃ schedule,
    (run (step queryFn request) (start maxParallel) schedule).reported request = true ∧
    (run (step queryFn request) (start maxParallel) schedule).timedOut = false ∧
    ((run (step queryFn request) (start maxParallel) schedule).phase i).isFinished = false

theorem leavesUnfinished_of_served (hpermits : 0 < maxParallel) (first : List Nat)
    (hfirst : ∀ i ∈ first, i < request.queries.length) {i : Nat}
    (hdone : ((run (step queryFn request) (start maxParallel) (first.flatMap serve)).phase
      i).isDone = true)
    (hunfinished : ((run (step queryFn request) (start maxParallel) (first.flatMap serve)).phase
      i).isFinished = false) :
    LeavesUnfinished queryFn request maxParallel i := by
  have hs := (serve_all queryFn (serving_start hpermits) hfirst).1
  have hrange : ∀ j ∈ List.range request.queries.length, j < request.queries.length :=
    fun _ => List.mem_range.1
  obtain ⟨hserving, hall, hkept⟩ := serve_all queryFn hs hrange
  obtain ⟨hnext, huntimed, hphase⟩ := run_awaits queryFn
    (fun j hj => hall j (List.mem_range.2 hj)) hserving.untimed
    (m := request.queries.length) (by rw [hserving.next, Nat.zero_add])
  refine ⟨first.flatMap serve ++ (List.range request.queries.length).flatMap serve ++
    List.replicate request.queries.length .await, ?_⟩
  rw [run_append, run_append]
  refine ⟨?_, huntimed, ?_⟩
  · simp [reported, hnext]
  · rw [hphase, hkept i hdone, hunfinished]

theorem leavesUnfinished_of_panic (hpermits : 0 < maxParallel) {i : Nat} {q : BatchQuery}
    (hq : request.queries[i]? = some q) (hpanic : queryFn i q.toRequest = .panic) :
    LeavesUnfinished queryFn request maxParallel i := by
  have hi := (List.getElem?_eq_some_iff.1 hq).1
  have hserved := served_run queryFn (serving_start hpermits) hq
  refine leavesUnfinished_of_served hpermits [i] (by simpa using hi) ?_ ?_
  · simpa using hserved.isDone
  · rw [List.flatMap_singleton]
    generalize run (step queryFn request) (start maxParallel) (serve i) = s' at hserved ⊢
    cases hserved with
    | before hdone => rfl
    | skipped hphase hflag => simp [start] at hflag
    | succeeded hphase hflag hok =>
      rw [hpanic] at hok
      cases hok
    | erred hphase hflag herr =>
      rw [hpanic] at herr
      cases herr
    | panicked hphase hflag hpanic => simp [setPhase, TaskPhase.isFinished]

/-- In a batch that is to fail fast the others are skipped behind an error. -/
theorem leavesUnfinished_of_err (hpermits : 0 < maxParallel) (hfast : request.failFast = true)
    {i j : Nat} {q : BatchQuery} {message : String} (hq : request.queries[i]? = some q)
    (herr : queryFn i q.toRequest = .err message) (hj : j < request.queries.length)
    (hij : j ≠ i) :
    LeavesUnfinished queryFn request maxParallel j := by
  have hi := (List.getElem?_eq_some_iff.1 hq).1
  have hserved := served_run queryFn (serving_start hpermits) hq
  have hserving := hserved.serving (serving_start hpermits)
  have hspawned := hserved.phase_of_ne hij
  have hrun : run (step queryFn request) (start maxParallel) ([i, j].flatMap serve) =
      run (step queryFn request) (run (step queryFn request) (start maxParallel) (serve i))
        (serve j) := by
    rw [← run_append]
    simp
  have hflag : (run (step queryFn request) (start maxParallel) (serve i)).failed = true := by
    generalize run (step queryFn request) (start maxParallel) (serve i) = s' at hserved ⊢
    cases hserved with
    | before hdone => cases hdone
    | skipped hphase hflag => simp [start] at hflag
    | succeeded hphase hflag hok =>
      rw [herr] at hok
      cases hok
    | erred hphase hflag herr => simp [hfast]
    | panicked hphase hflag hpanic =>
      rw [herr] at hpanic
      cases hpanic
  have hnext := served_run queryFn hserving (List.getElem?_eq_getElem hj)
  refine leavesUnfinished_of_served hpermits [i, j] (by simp [hi, hj]) ?_ ?_
  · rw [hrun]
    exact hnext.isDone
  · rw [hrun]
    generalize run (step queryFn request) (start maxParallel) (serve i) = s at *
    generalize run (step queryFn request) s (serve j) = s' at hnext ⊢
    cases hnext with
    | before hdone =>
      rw [hspawned] at hdone
      cases hdone
    | skipped hphase hskip => simp [setPhase, TaskPhase.isFinished]
    | succeeded hphase hgo hok => simp [hfast, hflag] at hgo
    | erred hphase hgo herr => simp [hfast, hflag] at hgo
    | panicked hphase hgo hpanic => simp [hfast, hflag] at hgo

theorem contract_processInParallel (hnodup : (request.queries.map BatchQuery.id).Nodup)
    {timeout : Duration}
    (hharmless : maxParallel = 0 ∨ maxPermits < maxParallel ∨ instantEnd ≤ timeout ∨
      ∀ o ∈ queryOutcomes queryFn request.queries.zipIdx, Harmless request.failFast o)
    {env : BatchEnv} {run : BatchRun}
    (hrun : processInParallel queryFn maxParallel timeout request env = some run) :
    BatchContract request run := by
  unfold processInParallel at hrun
  split at hrun
  · cases hrun
  · rename_i hstarts
    obtain ⟨hpermits, hdeadline⟩ := not_or.1 hstarts
    have htimeout : ¬ instantEnd ≤ timeout := fun h => hdeadline (h.trans (Nat.le_add_left _ _))
    dsimp only at hrun
    split at hrun
    · rename_i hreported
      rw [Option.some.injEq] at hrun
      rw [← hrun]
      have hplaces := hharmless.imp_right fun h i q hq =>
        ((h.resolve_left hpermits).resolve_left htimeout) _ (mem_queryOutcomes.2 ⟨i, q, hq, rfl⟩)
      obtain ⟨haccounts, hlogged⟩ := run_accounts hnodup env.schedule
      exact (run_smooth hplaces env.schedule).contract haccounts hlogged hreported _
    · cases hrun

theorem exists_leavesUnfinished (hpermits : 0 < maxParallel)
    (hmany : 1 < request.queries.length) {o : QueryOutcome}
    (ho : o ∈ queryOutcomes queryFn request.queries.zipIdx)
    (hharm : ¬ Harmless request.failFast o) :
    ∃ i < request.queries.length, LeavesUnfinished queryFn request maxParallel i := by
  obtain ⟨i, q, hq, rfl⟩ := mem_queryOutcomes.1 ho
  have hi := (List.getElem?_eq_some_iff.1 hq).1
  cases houtcome : queryFn i q.toRequest with
  | ok response => simp [Harmless, houtcome, QueryOutcome.isOk] at hharm
  | err message =>
    have hfast : request.failFast = true := by
      simpa [Harmless, houtcome, QueryOutcome.isOk, QueryOutcome.isErr] using hharm
    obtain ⟨j, hj, hij⟩ : ∃ j < request.queries.length, j ≠ i := by
      by_cases hzero : i = 0
      · exact ⟨1, hmany, by omega⟩
      · exact ⟨0, by omega, by omega⟩
    exact ⟨j, hj, leavesUnfinished_of_err hpermits hfast hq houtcome hj hij⟩
  | panic => exact ⟨i, hi, leavesUnfinished_of_panic hpermits hq houtcome⟩

end ParallelBatch

namespace BatchConfig

variable {config : BatchConfig} {queryFn : QueryFn} {request : BatchRequest}

theorem process_of_validate (hvalid : config.validate request = .ok ()) (env : BatchEnv) :
    config.process queryFn request env =
      .ok (if config.inParallel request then
          processInParallel queryFn config.maxParallel (config.batchTimeout request) request env
        else
          processSequentially queryFn request.failFast (config.batchTimeout request) env.clock
            request.queries.zipIdx .start []) := by
  unfold process
  rw [hvalid]
  dsimp only
  split <;> rfl

theorem validate_of_process {env : BatchEnv} {run : Option BatchRun}
    (hrun : config.process queryFn request env = .ok run) : config.validate request = .ok () := by
  unfold process at hrun
  split at hrun
  · cases hrun
  · assumption

theorem contract_of_undisturbed (hundisturbed : config.Undisturbed queryFn request)
    {env : BatchEnv} {run : BatchRun}
    (hrun : config.process queryFn request env = .ok (some run)) : BatchContract request run := by
  have hvalid := validate_of_process hrun
  have hcondition := hundisturbed hvalid
  have hnodup := nodup_of_validate hvalid
  rw [process_of_validate hvalid, Except.ok.injEq] at hrun
  split at hrun
  · rename_i hparallel
    rw [if_pos hparallel] at hcondition
    exact ParallelBatch.contract_processInParallel hnodup hcondition hrun
  · rename_i hsequential
    rw [if_neg hsequential] at hcondition
    exact contract_processSequentially rfl hnodup (returned_start _) hcondition hrun

theorem harmless_of_contract (hnodup : (request.queries.map BatchQuery.id).Nodup)
    (hmany : 1 < request.queries.length) {maxParallel : Nat} {timeout : Duration}
    (hcontract : ∀ env run, processInParallel queryFn maxParallel timeout request env = some run →
      BatchContract request run) :
    maxParallel = 0 ∨ maxPermits < maxParallel ∨ instantEnd ≤ timeout ∨
      ∀ o ∈ queryOutcomes queryFn request.queries.zipIdx, Harmless request.failFast o := by
  by_contra hcondition
  obtain ⟨hzero, hcondition⟩ := not_or.1 hcondition
  obtain ⟨hpermits, hcondition⟩ := not_or.1 hcondition
  obtain ⟨htimeout, hcondition⟩ := not_or.1 hcondition
  obtain ⟨o, ho, hharm⟩ : ∃ o ∈ queryOutcomes queryFn request.queries.zipIdx,
      ¬ Harmless request.failFast o := by
    simpa only [not_forall, exists_prop] using hcondition
  obtain ⟨i, hi, schedule, hreported, huntimed, hunfinished⟩ :=
    ParallelBatch.exists_leavesUnfinished (Nat.pos_of_ne_zero hzero) hmany ho hharm
  have hstarts : ¬ (maxPermits < maxParallel ∨ instantEnd ≤ 0 + timeout) := by
    rw [Nat.zero_add]
    exact not_or.2 ⟨hpermits, htimeout⟩
  have hrun := hcontract ⟨.still, 0, schedule⟩ _
    (by rw [processInParallel, if_neg hstarts]; exact if_pos hreported)
  obtain ⟨haccounts, hlogged⟩ := ParallelBatch.run_accounts hnodup schedule
  have hfinished := ((ParallelBatch.contract_iff haccounts hlogged hreported _).1 hrun).2.1
  rw [hfinished huntimed i hi] at hunfinished
  cases hunfinished

theorem not_failsLast_of_contract (timeout : Duration)
    (hcontract : ∀ env : BatchEnv, ∀ run, processSequentially queryFn request.failFast timeout
      env.clock request.queries.zipIdx .start [] = some run → BatchContract request run) :
    ¬ FailsLast request.failFast (queryOutcomes queryFn request.queries.zipIdx) := by
  intro hlast
  have hnone : ∀ i < 0, Executed [] i := by simp
  obtain ⟨run, hrun, hincomplete, hall⟩ := aborted_after_last timeout .start hnone hlast
  rw [Nat.zero_add] at hall
  have hcomplete := (hcontract ⟨.still, 0, []⟩ run hrun).complete.2 hall
  rw [hincomplete] at hcomplete
  cases hcomplete

def failsFast : BatchRequest := ⟨[⟨"a", "", none, none⟩, ⟨"b", "", none, none⟩], true, none⟩

def failsFirst : QueryFn := fun i _ =>
  if i = 0 then .err "down" else .ok ⟨[], .miss, 0, none, none⟩

end BatchConfig

end Conproxy
