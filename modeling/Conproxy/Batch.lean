import Mathlib.Data.List.AList
import Mathlib.Logic.Function.Basic
import Conproxy.Lib.Machine
import Conproxy.Types

/-!
# Batches

`BatchProcessor` of `batch.rs`. A query is known by its place in the batch: the query function
answers for a place, and the log says which queries were started and which returned.
-/

namespace Conproxy

open Machine

set_option autoImplicit false

structure BatchQuery where
  id : String
  query : String
  topK : Option Nat
  priority : Option Nat
deriving DecidableEq

def BatchQuery.toRequest (q : BatchQuery) : QueryRequest :=
  ⟨q.query, q.topK, q.priority, none, none⟩

inductive BatchError where
  | emptyBatch
  | tooManyQueries (count max : Nat)
  | duplicateId (id : String)
deriving DecidableEq

def firstDuplicate : List String → List String → Option String
  | _, [] => none
  | seen, id :: rest => if id ∈ seen then some id else firstDuplicate (id :: seen) rest

/-- `BatchProcessor::validate`. -/
def validateBatch (maxQueries : Nat) (queries : List BatchQuery) : Except BatchError Unit :=
  if queries = [] then .error .emptyBatch
  else if maxQueries < queries.length then .error (.tooManyQueries queries.length maxQueries)
  else
    match firstDuplicate [] (queries.map BatchQuery.id) with
    | some id => .error (.duplicateId id)
    | none => .ok ()

structure BatchRequest where
  queries : List BatchQuery
  failFast : Bool
  timeoutMs : Option Nat
deriving DecidableEq

structure BatchQueryResult where
  success : Bool
  response : Option QueryResponse
  error : Option String
  tookMs : Nat

def BatchQueryResult.ofResponse (response : QueryResponse) : BatchQueryResult :=
  ⟨true, some response, none, response.tookMs⟩

def BatchQueryResult.ofError (message : String) (tookMs : Nat) : BatchQueryResult :=
  ⟨false, none, some message, tookMs⟩

structure BatchResponse where
  results : AList fun _ : String => BatchQueryResult
  tookMs : Nat
  successCount : Nat
  errorCount : Nat
  complete : Bool

structure BatchConfig where
  maxQueries : Nat
  maxBatchTimeout : Duration
  parallel : Bool
  maxParallel : Nat

/-- What a call of the query function comes to. -/
inductive QueryOutcome where
  | ok (response : QueryResponse)
  | err (message : String)
  | panic

def QueryOutcome.isOk : QueryOutcome → Bool
  | .ok _ => true
  | _ => false

def QueryOutcome.isErr : QueryOutcome → Bool
  | .err _ => true
  | _ => false

abbrev QueryFn := Nat → QueryRequest → QueryOutcome

inductive BatchEvent where
  | started (i : Nat)
  | succeeded (i : Nat)
  | failed (i : Nat)
deriving DecidableEq

/-- The variables of `process` from which the response is made. -/
structure BatchProgress where
  results : AList fun _ : String => BatchQueryResult
  successCount : Nat
  errorCount : Nat
  complete : Bool

def BatchProgress.start : BatchProgress := ⟨∅, 0, 0, true⟩

/-- Counts a result and stores it under the id of its query. -/
def BatchProgress.record (p : BatchProgress) (id : String) (result : BatchQueryResult) :
    BatchProgress :=
  { p with
    results := p.results.insert id result
    successCount := if result.success then p.successCount + 1 else p.successCount
    errorCount := if result.success then p.errorCount else p.errorCount + 1 }

def BatchProgress.abort (p : BatchProgress) : BatchProgress := { p with complete := false }

structure BatchRun where
  response : BatchResponse
  log : List BatchEvent

def BatchProgress.toRun (p : BatchProgress) (log : List BatchEvent) (tookMs : Nat) : BatchRun :=
  ⟨⟨p.results, tookMs, p.successCount, p.errorCount, p.complete⟩, log⟩

/-- The readings of the clock before and in every query, and at the end. -/
structure BatchClock where
  elapsed : Nat → Duration
  queryMs : Nat → Nat
  tookMs : Nat

/-- A panic of the query function is one of the whole call. -/
def processSequentially (queryFn : QueryFn) (failFast : Bool) (timeout : Duration)
    (clock : BatchClock) : List (BatchQuery × Nat) → BatchProgress → List BatchEvent →
      Option BatchRun
  | [], p, log => some (p.toRun log clock.tookMs)
  | (q, i) :: rest, p, log =>
    if timeout < clock.elapsed i then some (p.abort.toRun log clock.tookMs)
    else
      match queryFn i q.toRequest with
      | .ok response =>
        processSequentially queryFn failFast timeout clock rest
          (p.record q.id (.ofResponse response)) (log ++ [.started i, .succeeded i])
      | .err message =>
        let p := p.record q.id (.ofError message (clock.queryMs i))
        let log := log ++ [.started i, .failed i]
        if failFast then some (p.abort.toRun log clock.tookMs)
        else processSequentially queryFn failFast timeout clock rest p log
      | .panic => none

/-- A task looks at the flag of the batch, waits for a permit and then runs its query. -/
inductive TaskPhase where
  | spawned
  | waiting
  | running
  | finished (result : BatchQueryResult)
  | skipped
  | panicked

/-- What the handle of the task yields, `none` before its end and after a panic. -/
def TaskPhase.output : TaskPhase → Option BatchQueryResult
  | .finished result => some result
  | .skipped => some (.ofError "Skipped due to fail-fast" 0)
  | _ => none

def TaskPhase.isPanicked : TaskPhase → Bool
  | .panicked => true
  | _ => false

def TaskPhase.isDone (phase : TaskPhase) : Bool := phase.output.isSome || phase.isPanicked

structure ParallelBatch where
  phase : Nat → TaskPhase
  failed : Bool
  permits : Nat
  log : List BatchEvent
  /-- The place of the handle that is awaited. -/
  next : Nat
  progress : BatchProgress
  timedOut : Bool

inductive BatchStep where
  | check (i : Nat)
  | acquire (i : Nat)
  | finish (i tookMs : Nat)
  | await
  | timeout
deriving DecidableEq

namespace ParallelBatch

def start (maxParallel : Nat) : ParallelBatch where
  phase := fun _ => .spawned
  failed := false
  permits := maxParallel
  log := []
  next := 0
  progress := .start
  timedOut := false

def setPhase (s : ParallelBatch) (i : Nat) (phase : TaskPhase) : ParallelBatch :=
  { s with phase := Function.update s.phase i phase }

def check (failFast : Bool) (s : ParallelBatch) (i : Nat) : ParallelBatch :=
  match s.phase i with
  | .spawned => s.setPhase i (if failFast && s.failed then .skipped else .waiting)
  | _ => s

def acquire (s : ParallelBatch) (i : Nat) : ParallelBatch :=
  match s.phase i with
  | .waiting =>
    if 0 < s.permits then
      { s.setPhase i .running with permits := s.permits - 1, log := s.log ++ [.started i] }
    else s
  | _ => s

/-- The permit goes back in every case. -/
def finish (queryFn : QueryFn) (failFast : Bool) (s : ParallelBatch) (i : Nat) (q : BatchQuery)
    (tookMs : Nat) : ParallelBatch :=
  match s.phase i with
  | .running =>
    let s := { s with permits := s.permits + 1 }
    match queryFn i q.toRequest with
    | .ok response =>
      { s.setPhase i (.finished (.ofResponse response)) with log := s.log ++ [.succeeded i] }
    | .err message =>
      { s.setPhase i (.finished (.ofError message tookMs)) with
        failed := s.failed || failFast
        log := s.log ++ [.failed i] }
    | .panic => s.setPhase i .panicked
  | _ => s

def await (s : ParallelBatch) (q : BatchQuery) : ParallelBatch :=
  match s.phase s.next with
  | .panicked =>
    { s with
      next := s.next + 1
      progress := { s.progress.abort with errorCount := s.progress.errorCount + 1 } }
  | phase =>
    match phase.output with
    | some result => { s with next := s.next + 1, progress := s.progress.record q.id result }
    | none => s

def timeout (s : ParallelBatch) : ParallelBatch :=
  if (s.phase s.next).isDone then s
  else { s with progress := s.progress.abort, timedOut := true }

/-- With the response made, what becomes of the other tasks is not seen any more. -/
def reported (request : BatchRequest) (s : ParallelBatch) : Bool :=
  s.timedOut || s.next = request.queries.length

def step (queryFn : QueryFn) (request : BatchRequest) (s : ParallelBatch) (x : BatchStep) :
    ParallelBatch :=
  if s.reported request then s
  else
    match x with
    | .check i => if i < request.queries.length then s.check request.failFast i else s
    | .acquire i => s.acquire i
    | .finish i tookMs =>
      match request.queries[i]? with
      | some q => s.finish queryFn request.failFast i q tookMs
      | none => s
    | .await =>
      match request.queries[s.next]? with
      | some q => s.await q
      | none => s
    | .timeout => s.timeout

end ParallelBatch

/-- The order of the steps of the tasks is that of the schedule, and `now` is the reading of the
clock that the deadline is made from. -/
structure BatchEnv where
  clock : BatchClock
  now : Nat
  schedule : List BatchStep

/-- `Semaphore::MAX_PERMITS`. -/
def maxPermits : Nat := 2 ^ 61 - 1

/-- The seconds of an `Instant` are signed and of 64 bits. -/
def instantEnd : Nat := 2 ^ 63 * 1000000000

/-- More permits are a panic, and so is a deadline that is no `Instant`. -/
def processInParallel (queryFn : QueryFn) (maxParallel : Nat) (timeout : Duration)
    (request : BatchRequest) (env : BatchEnv) : Option BatchRun :=
  if maxPermits < maxParallel ∨ instantEnd ≤ env.now + timeout then none
  else
    let s := run (ParallelBatch.step queryFn request) (.start maxParallel) env.schedule
    if s.reported request then some (s.progress.toRun s.log env.clock.tookMs) else none

namespace BatchConfig

def validate (config : BatchConfig) (request : BatchRequest) : Except BatchError Unit :=
  validateBatch config.maxQueries request.queries

def inParallel (config : BatchConfig) (request : BatchRequest) : Bool :=
  config.parallel && 1 < request.queries.length

def batchTimeout (config : BatchConfig) (request : BatchRequest) : Duration :=
  match request.timeoutMs with
  | some ms => ms * 1000000
  | none => config.maxBatchTimeout

/-- Nothing comes back from a call that panics or does not end. -/
def process (config : BatchConfig) (queryFn : QueryFn) (request : BatchRequest)
    (env : BatchEnv) : Except BatchError (Option BatchRun) :=
  match config.validate request with
  | .error e => .error e
  | .ok () =>
    if config.inParallel request then
      .ok (processInParallel queryFn config.maxParallel (config.batchTimeout request) request env)
    else
      .ok (processSequentially queryFn request.failFast (config.batchTimeout request) env.clock
        request.queries.zipIdx .start [])

end BatchConfig

def BatchEvent.isFailed : BatchEvent → Bool
  | .failed _ => true
  | _ => false

def BatchEvent.isStarted : BatchEvent → Bool
  | .started _ => true
  | _ => false

/-- The query has returned. -/
def Executed (log : List BatchEvent) (i : Nat) : Prop := .succeeded i ∈ log ∨ .failed i ∈ log

/-- Behind a failure nothing is started. -/
def Quiet (log : List BatchEvent) : Prop :=
  log.Pairwise fun a b => a.isFailed = true → b.isStarted = false

structure BatchContract (request : BatchRequest) (run : BatchRun) : Prop where
  complete : run.response.complete = true ↔ ∀ i < request.queries.length, Executed run.log i
  keys : run.response.complete = true →
    ∀ id, id ∈ run.response.results ↔ ∃ q ∈ request.queries, q.id = id
  counted : run.response.successCount + run.response.errorCount =
    run.response.results.keys.length
  quiet : request.failFast = true → Quiet run.log

def queryOutcomes (queryFn : QueryFn) (queries : List (BatchQuery × Nat)) : List QueryOutcome :=
  queries.map fun x => queryFn x.2 x.1.toRequest

def FailsLast (failFast : Bool) (outcomes : List QueryOutcome) : Prop :=
  failFast = true ∧ ∃ before last, outcomes = before ++ [last] ∧
    (∀ o ∈ before, o.isOk = true) ∧ last.isErr = true

/-- The outcome lets the other tasks go on. -/
def Harmless (failFast : Bool) (o : QueryOutcome) : Prop :=
  if failFast then o.isOk = true else o.isOk = true ∨ o.isErr = true

/-- Tasks fare well with no permits, with too many, with a deadline that is never an `Instant`, or
if none panics and, where the batch is to fail fast, none fails. -/
def BatchConfig.Undisturbed (config : BatchConfig) (queryFn : QueryFn) (request : BatchRequest) :
    Prop :=
  config.validate request = .ok () →
    if config.inParallel request then
      config.maxParallel = 0 ∨ maxPermits < config.maxParallel ∨
        instantEnd ≤ config.batchTimeout request ∨
        ∀ o ∈ queryOutcomes queryFn request.queries.zipIdx, Harmless request.failFast o
    else
      ¬ FailsLast request.failFast (queryOutcomes queryFn request.queries.zipIdx)

theorem firstDuplicate_eq_none_iff {seen ids : List String} :
    firstDuplicate seen ids = none ↔ ids.Nodup ∧ ∀ id ∈ ids, id ∉ seen := by
  induction ids generalizing seen with
  | nil => simp [firstDuplicate]
  | cons id rest ih =>
    rw [firstDuplicate]
    split
    · rename_i hseen
      refine iff_of_false (Option.some_ne_none _) fun h => ?_
      exact h.2 id List.mem_cons_self hseen
    · rename_i hnew
      rw [ih, List.nodup_cons, List.forall_mem_cons]
      simp only [List.mem_cons, not_or]
      constructor
      · rintro ⟨hnodup, hrest⟩
        refine ⟨⟨fun hmem => ?_, hnodup⟩, hnew, fun r hr => (hrest r hr).2⟩
        exact (hrest id hmem).1 rfl
      · rintro ⟨⟨hfresh, hnodup⟩, -, hrest⟩
        refine ⟨hnodup, fun r hr => ⟨?_, hrest r hr⟩⟩
        rintro rfl
        exact hfresh hr

theorem nodup_of_validate {config : BatchConfig} {request : BatchRequest}
    (h : config.validate request = .ok ()) : (request.queries.map BatchQuery.id).Nodup := by
  unfold BatchConfig.validate validateBatch at h
  split at h
  · cases h
  · split at h
    · cases h
    · split at h
      · cases h
      · rename_i hnone
        exact (firstDuplicate_eq_none_iff.1 hnone).1

theorem mem_queryOutcomes {queryFn : QueryFn} {queries : List BatchQuery} {o : QueryOutcome} :
    o ∈ queryOutcomes queryFn queries.zipIdx ↔
      ∃ i q, queries[i]? = some q ∧ queryFn i q.toRequest = o := by
  simp only [queryOutcomes, List.mem_map, Prod.exists, List.mk_mem_zipIdx_iff_getElem?]
  exact exists_comm

@[simp] theorem executed_append {log events : List BatchEvent} {i : Nat} :
    Executed (log ++ events) i ↔ Executed log i ∨ Executed events i := by
  simp only [Executed, List.mem_append]
  exact or_or_or_comm

theorem quiet_append {log events : List BatchEvent} (hlog : ∀ e ∈ log, e.isFailed = false)
    (hevents : Quiet events) : Quiet (log ++ events) := by
  refine List.pairwise_append.2 ⟨?_, hevents, fun a ha b _ hfailed => ?_⟩
  · refine List.pairwise_of_forall_mem_list fun a ha b _ hfailed => ?_
    rw [hlog a ha] at hfailed
    cases hfailed
  · rw [hlog a ha] at hfailed
    cases hfailed

theorem quiet_of_no_failure {log : List BatchEvent} (hlog : ∀ e ∈ log, e.isFailed = false) :
    Quiet log := by
  rw [← List.append_nil log]
  exact quiet_append hlog .nil

theorem mem_record {p : BatchProgress} {id id' : String} {result : BatchQueryResult} :
    id' ∈ (p.record id result).results ↔ id' = id ∨ id' ∈ p.results :=
  AList.mem_insert _

theorem length_record {p : BatchProgress} {id : String} {result : BatchQueryResult}
    (hnew : id ∉ p.results) :
    (p.record id result).results.keys.length = p.results.keys.length + 1 := by
  have hkeys : (p.record id result).results.keys = id :: p.results.keys := by
    rw [BatchProgress.record, AList.keys_insert, List.erase_of_not_mem (mt AList.mem_keys.1 hnew)]
  rw [hkeys, List.length_cons]

theorem count_record (p : BatchProgress) (id : String) (result : BatchQueryResult) :
    (p.record id result).successCount + (p.record id result).errorCount =
      p.successCount + p.errorCount + 1 := by
  unfold BatchProgress.record
  dsimp only
  split <;> omega

/-! ## One after the other -/

section Sequential

variable {queryFn : QueryFn} {request : BatchRequest} {failFast : Bool} {timeout : Duration}
  {clock : BatchClock} {before rest : List BatchQuery} {p : BatchProgress}
  {log : List BatchEvent} {q : BatchQuery} {run : BatchRun}

structure Returned (failFast : Bool) (before : List BatchQuery) (p : BatchProgress)
    (log : List BatchEvent) : Prop where
  complete : p.complete = true
  keys : ∀ id, id ∈ p.results ↔ ∃ q ∈ before, q.id = id
  counted : p.successCount + p.errorCount = p.results.keys.length
  executed : ∀ i, Executed log i ↔ i < before.length
  quiet : failFast = true → ∀ e ∈ log, e.isFailed = false

theorem returned_start (failFast : Bool) : Returned failFast [] .start [] where
  complete := rfl
  keys := by simp [BatchProgress.start]
  counted := rfl
  executed := by simp [Executed]
  quiet := by simp

theorem Returned.counted_record (h : Returned failFast before p log)
    (hnew : ∀ r ∈ before, r.id ≠ q.id) (result : BatchQueryResult) :
    (p.record q.id result).successCount + (p.record q.id result).errorCount =
      (p.record q.id result).results.keys.length := by
  have hfresh : q.id ∉ p.results := by
    rw [h.keys]
    rintro ⟨r, hr, hsame⟩
    exact hnew r hr hsame
  rw [count_record, length_record hfresh, h.counted]

theorem Returned.record (h : Returned failFast before p log) {result : BatchQueryResult}
    {events : List BatchEvent} (hnew : ∀ r ∈ before, r.id ≠ q.id)
    (hexecuted : ∀ i, Executed events i ↔ i = before.length)
    (hquiet : failFast = true → ∀ e ∈ events, e.isFailed = false) :
    Returned failFast (before ++ [q]) (p.record q.id result) (log ++ events) where
  complete := h.complete
  keys id := by
    rw [mem_record, h.keys]
    simp [or_comm, eq_comm]
  counted := h.counted_record hnew result
  executed i := by
    rw [executed_append, h.executed, hexecuted, List.length_append, List.length_singleton]
    omega
  quiet hfast e he := by
    rcases List.mem_append.1 he with he | he
    · exact h.quiet hfast e he
    · exact hquiet hfast e he

theorem executed_pair (i j : Nat) (e : BatchEvent) (he : e = .succeeded i ∨ e = .failed i) :
    Executed [.started i, e] j ↔ j = i := by
  rcases he with rfl | rfl <;> simp [Executed]

theorem contract_of_incomplete (hincomplete : run.response.complete = false)
    (hmissing : ∃ i < request.queries.length, ¬ Executed run.log i)
    (hcounted : run.response.successCount + run.response.errorCount =
      run.response.results.keys.length)
    (hquiet : request.failFast = true → Quiet run.log) : BatchContract request run where
  complete := by
    obtain ⟨i, hi, hnot⟩ := hmissing
    rw [hincomplete]
    exact iff_of_false Bool.false_ne_true fun h => hnot (h i hi)
  keys h := by
    rw [hincomplete] at h
    cases h
  counted := hcounted
  quiet := hquiet

theorem Returned.contract (h : Returned request.failFast request.queries p log) (tookMs : Nat) :
    BatchContract request (p.toRun log tookMs) where
  complete := iff_of_true h.complete fun i hi => (h.executed i).2 hi
  keys _ := h.keys
  counted := h.counted
  quiet hfast := quiet_of_no_failure (h.quiet hfast)

theorem Returned.contract_late (h : Returned request.failFast before p log)
    (hmore : before.length < request.queries.length) (tookMs : Nat) :
    BatchContract request (p.abort.toRun log tookMs) := by
  refine contract_of_incomplete rfl ⟨before.length, hmore, ?_⟩ h.counted ?_
  · exact fun hexecuted => Nat.lt_irrefl _ ((h.executed _).1 hexecuted)
  · exact fun hfast => quiet_of_no_failure (h.quiet hfast)

theorem Returned.contract_failed (h : Returned request.failFast before p log)
    (hfast : request.failFast = true) (hnew : ∀ r ∈ before, r.id ≠ q.id)
    (hmore : before.length + 1 < request.queries.length) (result : BatchQueryResult)
    (tookMs : Nat) :
    BatchContract request ((p.record q.id result).abort.toRun
      (log ++ [.started before.length, .failed before.length]) tookMs) := by
  refine contract_of_incomplete rfl ⟨before.length + 1, hmore, ?_⟩
    (h.counted_record hnew result) fun _ => ?_
  · change ¬ Executed (log ++ _) _
    rw [executed_append, h.executed, executed_pair _ _ _ (.inr rfl)]
    omega
  · exact quiet_append (h.quiet hfast) (by simp [Quiet, BatchEvent.isFailed])

theorem id_ne_of_nodup (hnodup : ((before ++ q :: rest).map BatchQuery.id).Nodup) :
    ∀ r ∈ before, r.id ≠ q.id := by
  rw [List.map_append, List.map_cons] at hnodup
  have hdisjoint := (List.nodup_append.1 hnodup).2.2
  exact fun r hr => hdisjoint _ (List.mem_map_of_mem hr) _ List.mem_cons_self

theorem failsLast_cons {o : QueryOutcome} {rest : List QueryOutcome} (ho : o.isOk = true)
    (h : FailsLast failFast rest) : FailsLast failFast (o :: rest) := by
  obtain ⟨hfast, before, last, rfl, hbefore, hlast⟩ := h
  exact ⟨hfast, o :: before, last, rfl, List.forall_mem_cons.2 ⟨ho, hbefore⟩, hlast⟩

theorem contract_processSequentially (hqueries : request.queries = before ++ rest)
    (hnodup : (request.queries.map BatchQuery.id).Nodup)
    (hreturned : Returned request.failFast before p log)
    (hlast : ¬ FailsLast request.failFast (queryOutcomes queryFn (rest.zipIdx before.length)))
    (hrun : processSequentially queryFn request.failFast timeout clock
      (rest.zipIdx before.length) p log = some run) : BatchContract request run := by
  induction rest generalizing before p log with
  | nil =>
    rw [List.append_nil] at hqueries
    subst hqueries
    rw [List.zipIdx_nil, processSequentially, Option.some.injEq] at hrun
    rw [← hrun]
    exact hreturned.contract clock.tookMs
  | cons q rest ih =>
    have hlength : request.queries.length = before.length + (rest.length + 1) := by
      rw [hqueries, List.length_append, List.length_cons]
    have hnew := id_ne_of_nodup (hqueries ▸ hnodup)
    have hqueries' : request.queries = (before ++ [q]) ++ rest := by rw [hqueries]; simp
    have hplace : before.length + 1 = (before ++ [q]).length := by simp
    rw [List.zipIdx_cons, processSequentially] at hrun
    rw [List.zipIdx_cons, queryOutcomes, List.map_cons] at hlast
    split at hrun
    · rw [Option.some.injEq] at hrun
      rw [← hrun]
      exact hreturned.contract_late (by omega) clock.tookMs
    · split at hrun
      · rename_i response hok
        rw [hplace] at hrun hlast
        refine ih hqueries' (hreturned.record hnew ?_ ?_) (fun h => hlast ?_) hrun
        · exact fun i => executed_pair _ i _ (.inl rfl)
        · simp [BatchEvent.isFailed]
        · exact failsLast_cons (by rw [hok]; rfl) h
      · rename_i message herr
        dsimp only at hrun
        split at hrun
        · rename_i hfast
          rw [Option.some.injEq] at hrun
          rw [← hrun]
          have hmore : rest ≠ [] := by
            rintro rfl
            exact hlast ⟨hfast, [], _, rfl, by simp, by rw [herr]; rfl⟩
          have hpos := List.length_pos_iff.2 hmore
          exact hreturned.contract_failed hfast hnew (by omega) _ clock.tookMs
        · rename_i hslow
          rw [hplace] at hrun
          refine ih hqueries' (hreturned.record hnew ?_ ?_) (fun h => hslow h.1) hrun
          · exact fun i => executed_pair _ i _ (.inr rfl)
          · exact fun hfast => absurd hfast hslow
      · cases hrun

/-- The clock of a call that takes no time. -/
def BatchClock.still : BatchClock := ⟨fun _ => 0, fun _ => 0, 0⟩

theorem lt_succ_executed {k : Nat} {e : BatchEvent} (he : e = .succeeded k ∨ e = .failed k)
    (hexecuted : ∀ i < k, Executed log i) :
    ∀ i < k + 1, Executed (log ++ [.started k, e]) i := by
  intro i hi
  rw [executed_append, executed_pair _ _ _ he]
  rcases Nat.lt_succ_iff_lt_or_eq.1 hi with hi | hi
  · exact .inl (hexecuted i hi)
  · exact .inr hi

/-- If only the last query fails, all have returned when the batch is aborted. -/
theorem aborted_after_last (timeout : Duration) (p : BatchProgress) {k : Nat}
    (hexecuted : ∀ i < k, Executed log i)
    (hlast : FailsLast failFast (queryOutcomes queryFn (rest.zipIdx k))) :
    ∃ run, processSequentially queryFn failFast timeout .still (rest.zipIdx k) p log = some run ∧
      run.response.complete = false ∧ ∀ i < k + rest.length, Executed run.log i := by
  induction rest generalizing k p log with
  | nil =>
    obtain ⟨-, before, last, hsplit, -⟩ := hlast
    exact absurd hsplit.symm (by simp [queryOutcomes])
  | cons q rest ih =>
    obtain ⟨rfl, before, last, hsplit, hbefore, herr⟩ := hlast
    rw [List.zipIdx_cons, queryOutcomes, List.map_cons] at hsplit
    have hintime : ¬ timeout < BatchClock.still.elapsed k := Nat.not_lt_zero timeout
    rw [List.zipIdx_cons, processSequentially, if_neg hintime]
    cases before with
    | nil =>
      obtain ⟨hfirst, hrest⟩ := List.cons.inj hsplit
      obtain rfl : rest = [] := by simpa using hrest
      dsimp only at hfirst ⊢
      rw [hfirst]
      cases last with
      | err message =>
        refine ⟨_, rfl, rfl, ?_⟩
        exact lt_succ_executed (.inr rfl) hexecuted
      | ok response => cases herr
      | panic => cases herr
    | cons o before =>
      obtain ⟨hfirst, hrest⟩ := List.cons.inj hsplit
      obtain ⟨ho, hothers⟩ := List.forall_mem_cons.1 hbefore
      dsimp only at hfirst ⊢
      rw [hfirst]
      cases o with
      | ok response =>
        obtain ⟨run, hrun, hincomplete, hall⟩ :=
          ih _ (lt_succ_executed (.inl rfl) hexecuted) ⟨rfl, before, last, hrest, hothers, herr⟩
        refine ⟨run, hrun, hincomplete, fun i hi => hall i ?_⟩
        rw [List.length_cons] at hi
        omega
      | err message => cases ho
      | panic => cases ho

end Sequential

end Conproxy
