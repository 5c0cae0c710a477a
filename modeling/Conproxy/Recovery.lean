import Conproxy.Cache.Freshness
import Conproxy.Resilience

/-!
# Recovery of an upstream

`RecoveryWorker` of `workers/recovery.rs` refreshes stale entries after an outage, batch by batch.
A batch is cut off before the entries without a known query are skipped, and a batch that asked for
nothing counts as a success.
-/

namespace Conproxy

open CacheStore Machine Streaks

set_option autoImplicit false

structure RecoveryConfig where
  initialRps : F32
  maxRps : F32
  rpsIncrement : F32
  batchSize : Nat
  batchDelay : Duration
  stabilityPeriod : Duration

inductive RecoveryState where
  | stable
  | recovering
  | paused
  | offline
deriving DecidableEq

/-- The limit is stored in hundredths of a request per second. -/
structure RecoveryTracker where
  state : RecoveryState
  currentRps : Nat
  isRecovering : Bool
  successfulBatches : Nat
  requiredBatches : Nat
deriving DecidableEq

namespace RecoveryTracker

variable (A : F32Arith)

/-- `secs` is `as_secs_f32`. -/
def new (secs : Duration → F32) (config : RecoveryConfig) : RecoveryTracker where
  state := .stable
  currentRps := UpstreamStateManager.fixedPoint A config.initialRps
  isRecovering := false
  successfulBatches := 0
  requiredBatches :=
    max
      (if F32.lt F32.zero (secs config.batchDelay) then
        (A.div (secs config.stabilityPeriod) (secs config.batchDelay)).toU32
      else 10) 1

def rps (t : RecoveryTracker) : F32 := A.div (A.ofNat t.currentRps) (.finite 100)

def setRps (t : RecoveryTracker) (rps : F32) : RecoveryTracker :=
  { t with currentRps := UpstreamStateManager.fixedPoint A rps }

def startRecovery (t : RecoveryTracker) (initialRps : F32) : RecoveryTracker :=
  { ({ t with isRecovering := true, state := .recovering } : RecoveryTracker).setRps A initialRps
    with successfulBatches := 0 }

def completeRecovery (t : RecoveryTracker) : RecoveryTracker :=
  { t with isRecovering := false, state := .stable }

def recordSuccess (t : RecoveryTracker) (rpsIncrement maxRps : F32) : RecoveryTracker :=
  let batches := saturatingAddOne t.successfulBatches
  let t := ({ t with successfulBatches := fetchAddOne t.successfulBatches } :
    RecoveryTracker).setRps A (F32.min (A.add (t.rps A) rpsIncrement) maxRps)
  if t.requiredBatches ≤ batches then t.completeRecovery else t

def recordFailure (t : RecoveryTracker) : RecoveryTracker :=
  { t with successfulBatches := 0, state := .paused }

def goOffline (t : RecoveryTracker) : RecoveryTracker :=
  { t with isRecovering := false, state := .offline }

end RecoveryTracker

/-- `baseUrl` is that of the upstream adapter. -/
structure RecoveryWorker where
  cache : CacheStore
  baseUrl : String
  health : HealthTracker
  tracker : RecoveryTracker
  config : RecoveryConfig
  queryMap : QueryHash → Option String

/-- What the upstream returns to a refresh, and the clocks when the answer is stored. -/
structure RefreshAnswer where
  result : Except String QueryResponse
  now : Clock
  scan : Scan
  nowMs : Nat

/-- The refreshes of a batch. -/
structure BatchCounts where
  attempted : List QueryHash
  succeeded : Nat
  failed : Nat

/-- What a batch did to the tracker: recovery was complete, or a success or a failure was
recorded. -/
inductive BatchEnd where
  | complete
  | success
  | failure
deriving DecidableEq

structure BatchReport where
  counts : BatchCounts
  outcome : BatchEnd

namespace RecoveryWorker

variable (A : F32Arith) (p : Platform)

/-- The entry is stored under its hash, with the default limit of ten results. -/
def refreshEntry (w : RecoveryWorker) (hash : QueryHash) (query : String)
    (answer : RefreshAnswer) : RecoveryWorker × Bool :=
  match answer.result with
  | .ok response =>
    ({ w with
      cache := w.cache.insertByHash p answer.scan answer.now hash response w.baseUrl
        (some query) }, true)
  | .error _ => (w, false)

/-- The loop over the stale hashes. `Duration::from_secs_f32(1.0 / 0.0)` panics. -/
def refreshAll (answers : Nat → RefreshAnswer) :
    List QueryHash → RecoveryWorker → BatchCounts → Option (RecoveryWorker × BatchCounts)
  | [], w, n => some (w, n)
  | hash :: rest, w, n =>
    match w.queryMap hash with
    | none => refreshAll answers rest w n
    | some query =>
      if w.tracker.currentRps = 0 then none
      else
        let answer := answers n.attempted.length
        match w.refreshEntry p hash query answer with
        | (w, true) =>
          refreshAll answers rest { w with health := w.health.recordSuccess answer.nowMs }
            { n with attempted := n.attempted ++ [hash], succeeded := n.succeeded + 1 }
        | (w, false) =>
          refreshAll answers rest { w with health := w.health.recordFailure answer.nowMs }
            { n with attempted := n.attempted ++ [hash], failed := n.failed + 1 }

def staleHashes (w : RecoveryWorker) (scan : Scan) (now : Clock) : List QueryHash :=
  w.cache.getStaleHashes p scan now

/-- `process_recovery_batch`, or `none` for a panic. -/
def processRecoveryBatch (w : RecoveryWorker) (scan : Scan) (now : Clock)
    (answers : Nat → RefreshAnswer) : Option (RecoveryWorker × BatchReport) :=
  match (w.staleHashes p scan now).take w.config.batchSize with
  | [] => some ({ w with tracker := w.tracker.completeRecovery }, ⟨⟨[], 0, 0⟩, .complete⟩)
  | stale =>
    match refreshAll p answers stale w ⟨[], 0, 0⟩ with
    | none => none
    | some (w, n) =>
      if n.succeeded < n.failed then
        some ({ w with tracker := w.tracker.recordFailure }, ⟨n, .failure⟩)
      else
        some ({ w with
          tracker := w.tracker.recordSuccess A w.config.rpsIncrement w.config.maxRps },
          ⟨n, .success⟩)

def new (secs : Duration → F32) (cache : CacheStore) (baseUrl : String) (health : HealthTracker)
    (queryMap : QueryHash → Option String) (config : RecoveryConfig) : RecoveryWorker where
  cache := cache
  baseUrl := baseUrl
  health := health
  tracker := .new A secs config
  config := config
  queryMap := queryMap

end RecoveryWorker

/-- `history` has the reports of the batches with stale entries. -/
structure Recovering where
  worker : RecoveryWorker
  wasOffline : Bool
  running : Bool
  history : List BatchReport

/-- Between two ticks the cache, the known queries and the health change in any way. -/
inductive RecoveryEvent where
  | tick (scan : Scan) (now : Clock) (answers : Nat → RefreshAnswer)
  | outside (cache : CacheStore) (queryMap : QueryHash → Option String) (health : HealthTracker)
  | cancel

def BatchReport.refreshed (report : BatchReport) : Bool :=
  report.outcome = .success && 0 < report.counts.succeeded

namespace Recovering

variable (A : F32Arith) (p : Platform)

def start (worker : RecoveryWorker) : Recovering := ⟨worker, false, true, []⟩

/-- Recovery starts once the upstream is back. -/
def begun (s : Recovering) : Recovering :=
  if s.wasOffline && !s.worker.tracker.isRecovering then
    { s with
      wasOffline := false
      worker := { s.worker with
        tracker := s.worker.tracker.startRecovery A s.worker.config.initialRps } }
  else s

/-- The tick runs a batch. -/
def Due (s : Recovering) : Prop :=
  s.running = true ∧ s.worker.health.status A ≠ .offline ∧
    (s.begun A).worker.tracker.isRecovering = true

/-- A panic ends the task of the worker. -/
def runBatch (s : Recovering) (scan : Scan) (now : Clock) (answers : Nat → RefreshAnswer) :
    Recovering :=
  match s.worker.processRecoveryBatch A p scan now answers with
  | none => { s with running := false }
  | some (worker, report) =>
    { s with
      worker := worker
      history := if report.outcome = .complete then s.history else s.history ++ [report] }

def step (s : Recovering) : RecoveryEvent → Recovering
  | .tick scan now answers =>
    if s.running then
      if s.worker.health.status A = .offline then
        { s with
          wasOffline := true
          worker := { s.worker with tracker := s.worker.tracker.goOffline } }
      else if (s.begun A).worker.tracker.isRecovering then
        (s.begun A).runBatch A p scan now answers
      else s.begun A
    else s
  | .outside cache queryMap health =>
    { s with worker := { s.worker with cache := cache, queryMap := queryMap, health := health } }
  | .cancel => { s with running := false }

/-- A batch asks for an entry if it can, counts as a success only with a refresh, and completes the
recovery by counting only as the last of enough such batches. -/
structure Honest (s : Recovering) (scan : Scan) (now : Clock) (answers : Nat → RefreshAnswer) :
    Prop where
  progress : (∃ h ∈ s.worker.staleHashes p scan now, (s.worker.queryMap h).isSome = true) →
    ∃ worker report, s.worker.processRecoveryBatch A p scan now answers = some (worker, report) ∧
      report.counts.attempted ≠ []
  success : ∀ worker report,
    s.worker.processRecoveryBatch A p scan now answers = some (worker, report) →
      report.outcome = .success → 0 < report.counts.succeeded
  completes : ∀ worker report,
    s.worker.processRecoveryBatch A p scan now answers = some (worker, report) →
      report.outcome = .success → worker.tracker.isRecovering = false →
        s.worker.tracker.requiredBatches ≤
          streak BatchReport.refreshed (s.history ++ [report])

/-- No entry is stale, or one of the first ones has a known query and the limit is not zero. -/
def Refreshable (s : Recovering) (scan : Scan) (now : Clock) : Prop :=
  s.worker.staleHashes p scan now = [] ∨
    (∃ h ∈ (s.worker.staleHashes p scan now).take s.worker.config.batchSize,
      (s.worker.queryMap h).isSome = true) ∧ s.worker.tracker.currentRps ≠ 0

def HonestStep (s : Recovering) : RecoveryEvent → Prop
  | .tick scan now answers => s.Due A → (s.begun A).Honest A p scan now answers
  | _ => True

def RefreshableStep (s : Recovering) : RecoveryEvent → Prop
  | .tick scan now _ => s.Due A → (s.begun A).Refreshable p scan now
  | _ => True

end Recovering

/-! ## One batch -/

namespace RecoveryWorker

variable {A : F32Arith} {p : Platform} {w : RecoveryWorker} (answers : Nat → RefreshAnswer)

theorem refreshAll_of_unknown {stale : List QueryHash}
    (hunknown : ∀ h ∈ stale, (w.queryMap h).isSome = false) (n : BatchCounts) :
    refreshAll p answers stale w n = some (w, n) := by
  induction stale with
  | nil => rfl
  | cons hash rest ih =>
    have hnone : w.queryMap hash = none :=
      Option.isNone_iff_eq_none.1 (by simpa using hunknown hash List.mem_cons_self)
    rw [refreshAll, hnone]
    exact ih fun h hh => hunknown h (List.mem_cons_of_mem _ hh)

theorem refreshAll_of_zero {stale : List QueryHash} (hzero : w.tracker.currentRps = 0)
    (hknown : ∃ h ∈ stale, (w.queryMap h).isSome = true) (n : BatchCounts) :
    refreshAll p answers stale w n = none := by
  induction stale with
  | nil =>
    obtain ⟨h, hh, -⟩ := hknown
    cases hh
  | cons hash rest ih =>
    rw [refreshAll]
    cases hquery : w.queryMap hash with
    | some query => exact if_pos hzero
    | none =>
      apply ih
      obtain ⟨h, hh, hsome⟩ := hknown
      rcases List.mem_cons.1 hh with rfl | hrest
      · rw [hquery] at hsome
        cases hsome
      · exact ⟨h, hrest, hsome⟩

/-- Otherwise every entry with a known query is asked for, and each answer is counted. -/
theorem refreshAll_of_pos (stale : List QueryHash) (hpos : w.tracker.currentRps ≠ 0)
    (n : BatchCounts) :
    ∃ w' n', refreshAll p answers stale w n = some (w', n') ∧ w'.tracker = w.tracker ∧
      w'.config = w.config ∧
      n'.attempted = n.attempted ++ stale.filter (fun h => (w.queryMap h).isSome) ∧
      n'.succeeded + n'.failed =
        n.succeeded + n.failed + (stale.filter fun h => (w.queryMap h).isSome).length := by
  induction stale generalizing w n with
  | nil => exact ⟨w, n, rfl, rfl, rfl, (List.append_nil _).symm, rfl⟩
  | cons hash rest ih =>
    rw [refreshAll]
    cases hquery : w.queryMap hash with
    | none =>
      have hfilter : (hash :: rest).filter (fun h => (w.queryMap h).isSome) =
          rest.filter fun h => (w.queryMap h).isSome :=
        List.filter_cons_of_neg (by simp [hquery])
      rw [hfilter]
      exact ih hpos n
    | some query =>
      have hfilter : (hash :: rest).filter (fun h => (w.queryMap h).isSome) =
          hash :: rest.filter fun h => (w.queryMap h).isSome :=
        List.filter_cons_of_pos (by simp [hquery])
      dsimp only
      rw [if_neg hpos, hfilter]
      unfold refreshEntry
      cases (answers n.attempted.length).result with
      | ok response =>
        obtain ⟨w', n', hrun, htracker, hconfig, hattempted, hcounts⟩ :=
          ih (w := { w with
            cache := w.cache.insertByHash p (answers n.attempted.length).scan
              (answers n.attempted.length).now hash response w.baseUrl (some query)
            health := w.health.recordSuccess (answers n.attempted.length).nowMs }) hpos
            { n with attempted := n.attempted ++ [hash], succeeded := n.succeeded + 1 }
        refine ⟨w', n', hrun, htracker, hconfig, ?_, ?_⟩
        · rw [hattempted, List.append_assoc]
          rfl
        · rw [hcounts, List.length_cons]
          dsimp only
          omega
      | error e =>
        obtain ⟨w', n', hrun, htracker, hconfig, hattempted, hcounts⟩ :=
          ih (w := { w with
            health := w.health.recordFailure (answers n.attempted.length).nowMs }) hpos
            { n with attempted := n.attempted ++ [hash], failed := n.failed + 1 }
        refine ⟨w', n', hrun, htracker, hconfig, ?_, ?_⟩
        · rw [hattempted, List.append_assoc]
          rfl
        · rw [hcounts, List.length_cons]
          dsimp only
          omega

theorem processRecoveryBatch_of_nil {scan : Scan} {now : Clock}
    (hnil : w.staleHashes p scan now = []) :
    w.processRecoveryBatch A p scan now answers =
      some ({ w with tracker := w.tracker.completeRecovery }, ⟨⟨[], 0, 0⟩, .complete⟩) := by
  unfold processRecoveryBatch
  rw [hnil, List.take_nil]

/-- What the counts of a batch with stale entries lead to. -/
theorem processRecoveryBatch_of_refreshAll {scan : Scan} {now : Clock}
    (hne : (w.staleHashes p scan now).take w.config.batchSize ≠ []) :
    w.processRecoveryBatch A p scan now answers =
      (refreshAll p answers ((w.staleHashes p scan now).take w.config.batchSize) w
        ⟨[], 0, 0⟩).map fun done =>
          if done.2.succeeded < done.2.failed then
            ({ done.1 with tracker := done.1.tracker.recordFailure }, ⟨done.2, .failure⟩)
          else
            ({ done.1 with
              tracker :=
                done.1.tracker.recordSuccess A done.1.config.rpsIncrement done.1.config.maxRps },
              ⟨done.2, .success⟩) := by
  unfold processRecoveryBatch
  obtain ⟨hash, rest, hcons⟩ := List.exists_cons_of_ne_nil hne
  rw [hcons]
  dsimp only
  cases refreshAll p answers (hash :: rest) w ⟨[], 0, 0⟩ with
  | none => rfl
  | some done =>
    dsimp only [Option.map_some]
    split <;> rfl

/-- A batch that asks for its known queries counts each of them. -/
theorem processRecoveryBatch_of_known {scan : Scan} {now : Clock}
    (hknown : ∃ h ∈ (w.staleHashes p scan now).take w.config.batchSize,
      (w.queryMap h).isSome = true)
    (hpos : w.tracker.currentRps ≠ 0) :
    ∃ w' report, w.processRecoveryBatch A p scan now answers = some (w', report) ∧
      w'.config = w.config ∧ report.counts.attempted ≠ [] ∧
      (report.outcome = .success ∧ 0 < report.counts.succeeded ∧
          w'.tracker =
            w.tracker.recordSuccess A w.config.rpsIncrement w.config.maxRps ∨
        report.outcome = .failure ∧ w'.tracker = w.tracker.recordFailure) := by
  obtain ⟨h, hh, hsome⟩ := hknown
  have hmem : h ∈ ((w.staleHashes p scan now).take w.config.batchSize).filter fun h =>
      (w.queryMap h).isSome := List.mem_filter.2 ⟨hh, hsome⟩
  have hlength := List.length_pos_of_mem hmem
  obtain ⟨w', n', hrun, htracker, hconfig, hattempted, hcounts⟩ :=
    refreshAll_of_pos (p := p) answers ((w.staleHashes p scan now).take w.config.batchSize) hpos
      ⟨[], 0, 0⟩
  rw [processRecoveryBatch_of_refreshAll answers (List.ne_nil_of_mem hh), hrun, Option.map_some]
  dsimp only at hattempted hcounts ⊢
  have hne : n'.attempted ≠ [] := by
    rw [hattempted]
    exact List.ne_nil_of_mem hmem
  split
  · exact ⟨_, _, rfl, hconfig, hne, .inr ⟨rfl, congrArg RecoveryTracker.recordFailure htracker⟩⟩
  · rename_i hmost
    refine ⟨_, _, rfl, hconfig, hne, .inl ⟨rfl, ?_, ?_⟩⟩
    · dsimp only
      omega
    · dsimp only
      rw [htracker, hconfig]

theorem processRecoveryBatch_of_unknown {scan : Scan} {now : Clock}
    (hne : (w.staleHashes p scan now).take w.config.batchSize ≠ [])
    (hunknown : ∀ h ∈ (w.staleHashes p scan now).take w.config.batchSize,
      (w.queryMap h).isSome = false) :
    ∃ w', w.processRecoveryBatch A p scan now answers =
      some (w', ⟨⟨[], 0, 0⟩, .success⟩) := by
  rw [processRecoveryBatch_of_refreshAll answers hne, refreshAll_of_unknown answers hunknown]
  exact ⟨_, rfl⟩

theorem processRecoveryBatch_of_zero {scan : Scan} {now : Clock}
    (hknown : ∃ h ∈ (w.staleHashes p scan now).take w.config.batchSize,
      (w.queryMap h).isSome = true)
    (hzero : w.tracker.currentRps = 0) :
    w.processRecoveryBatch A p scan now answers = none := by
  have hne : (w.staleHashes p scan now).take w.config.batchSize ≠ [] := by
    obtain ⟨h, hh, -⟩ := hknown
    exact List.ne_nil_of_mem hh
  rw [processRecoveryBatch_of_refreshAll answers hne, refreshAll_of_zero answers hzero hknown]
  rfl

end RecoveryWorker

namespace RecoveryTracker

variable {A : F32Arith} {t : RecoveryTracker} {rpsIncrement maxRps : F32}

theorem successfulBatches_recordSuccess :
    (t.recordSuccess A rpsIncrement maxRps).successfulBatches =
      fetchAddOne t.successfulBatches := by
  unfold recordSuccess
  dsimp only
  split <;> rfl

theorem required_of_completed (hrecovering : t.isRecovering = true)
    (hcompleted : (t.recordSuccess A rpsIncrement maxRps).isRecovering = false) :
    t.requiredBatches ≤ saturatingAddOne t.successfulBatches := by
  unfold recordSuccess at hcompleted
  dsimp only at hcompleted
  split at hcompleted
  · rename_i henough
    exact henough
  · rw [show _ = t.isRecovering from rfl, hrecovering] at hcompleted
    cases hcompleted

end RecoveryTracker

/-! ## The run -/

namespace Recovering

variable {A : F32Arith} {p : Platform} {s : Recovering} {scan : Scan} {now : Clock}
  {answers : Nat → RefreshAnswer}

/-- The counter of the tracker does not count more than the batches that refreshed an entry. -/
structure Counted (s : Recovering) : Prop where
  batchSize : 1 ≤ s.worker.config.batchSize
  counter : s.worker.tracker.successfulBatches ≤ streak BatchReport.refreshed s.history

theorem Counted.begun (hs : s.Counted) : (s.begun A).Counted := by
  unfold Recovering.begun
  split
  · exact ⟨hs.batchSize, Nat.zero_le _⟩
  · exact hs

theorem take_ne_nil (hs : s.Counted) (hne : s.worker.staleHashes p scan now ≠ []) :
    (s.worker.staleHashes p scan now).take s.worker.config.batchSize ≠ [] := by
  have hsize := hs.batchSize
  intro hnil
  rcases List.take_eq_nil_iff.1 hnil with hzero | hempty
  · omega
  · exact hne hempty

theorem refreshed_of_success {report : BatchReport} (hsuccess : report.outcome = .success)
    (hpos : 0 < report.counts.succeeded) : report.refreshed = true := by
  unfold BatchReport.refreshed
  rw [hsuccess, decide_eq_true hpos]
  rfl

theorem saturatingAddOne_le (n : Nat) : saturatingAddOne n ≤ n + 1 := Nat.min_le_left _ _

theorem fetchAddOne_le (n : Nat) : fetchAddOne n ≤ n + 1 := Nat.mod_le _ _

theorem honest_of_refreshable (hs : s.Counted)
    (hrecovering : s.worker.tracker.isRecovering = true) (h : s.Refreshable p scan now) :
    s.Honest A p scan now answers := by
  rcases h with hnil | ⟨hknown, hpos⟩
  · have hrun := RecoveryWorker.processRecoveryBatch_of_nil (A := A) answers hnil
    refine ⟨?_, ?_, ?_⟩
    · rintro ⟨h, hh, -⟩
      rw [hnil] at hh
      cases hh
    · intro worker report hreport hsuccess
      obtain ⟨-, rfl⟩ := Prod.mk.inj (Option.some.inj (hrun.symm.trans hreport))
      cases hsuccess
    · intro worker report hreport hsuccess
      obtain ⟨-, rfl⟩ := Prod.mk.inj (Option.some.inj (hrun.symm.trans hreport))
      cases hsuccess
  · obtain ⟨w', report', hrun, -, hne, hend⟩ :=
      RecoveryWorker.processRecoveryBatch_of_known (A := A) answers hknown hpos
    refine ⟨fun _ => ⟨w', report', hrun, hne⟩, ?_, ?_⟩
    · intro worker report hreport hsuccess
      obtain ⟨rfl, rfl⟩ := Prod.mk.inj (Option.some.inj (hrun.symm.trans hreport))
      rcases hend with ⟨-, hpositive, -⟩ | ⟨hfailure, -⟩
      · exact hpositive
      · rw [hfailure] at hsuccess
        cases hsuccess
    · intro worker report hreport hsuccess hcompleted
      obtain ⟨rfl, rfl⟩ := Prod.mk.inj (Option.some.inj (hrun.symm.trans hreport))
      rcases hend with ⟨-, hpositive, htracker⟩ | ⟨hfailure, -⟩
      · rw [htracker] at hcompleted
        have hrequired := RecoveryTracker.required_of_completed hrecovering hcompleted
        have hsaturated := saturatingAddOne_le s.worker.tracker.successfulBatches
        have hcounter := hs.counter
        rw [streak_concat_pos (refreshed_of_success hsuccess hpositive)]
        omega
      · rw [hfailure] at hsuccess
        cases hsuccess

theorem refreshable_of_honest (hs : s.Counted) (h : s.Honest A p scan now answers) :
    s.Refreshable p scan now := by
  by_cases hnil : s.worker.staleHashes p scan now = []
  · exact .inl hnil
  · right
    have hne := take_ne_nil hs hnil
    by_cases hknown : ∃ h ∈ (s.worker.staleHashes p scan now).take s.worker.config.batchSize,
        (s.worker.queryMap h).isSome = true
    · refine ⟨hknown, ?_⟩
      intro hzero
      have hpanic := RecoveryWorker.processRecoveryBatch_of_zero (A := A) answers hknown hzero
      obtain ⟨hash, hhash, hsome⟩ := hknown
      obtain ⟨worker, report, hrun, -⟩ := h.progress ⟨hash, List.mem_of_mem_take hhash, hsome⟩
      rw [hpanic] at hrun
      cases hrun
    · exfalso
      obtain ⟨worker, hrun⟩ := RecoveryWorker.processRecoveryBatch_of_unknown (A := A) answers
        hne (by simpa using hknown)
      exact absurd (h.success worker _ hrun rfl) (Nat.lt_irrefl 0)

theorem Counted.runBatch (hs : s.Counted) (h : s.Refreshable p scan now) :
    (s.runBatch A p scan now answers).Counted := by
  unfold Recovering.runBatch
  rcases h with hnil | ⟨hknown, hpos⟩
  · rw [RecoveryWorker.processRecoveryBatch_of_nil answers hnil]
    exact ⟨hs.batchSize, hs.counter⟩
  · obtain ⟨worker, report, hrun, hconfig, -, hend⟩ :=
      RecoveryWorker.processRecoveryBatch_of_known (A := A) answers hknown hpos
    rw [hrun]
    have hsize : 1 ≤ worker.config.batchSize := by
      rw [hconfig]
      exact hs.batchSize
    refine ⟨hsize, ?_⟩
    rcases hend with ⟨hsuccess, hpositive, htracker⟩ | ⟨hfailure, htracker⟩
    · have hcounter := hs.counter
      have hadded := fetchAddOne_le s.worker.tracker.successfulBatches
      dsimp only
      rw [htracker, RecoveryTracker.successfulBatches_recordSuccess, hsuccess,
        if_neg (by decide), streak_concat_pos (refreshed_of_success hsuccess hpositive)]
      omega
    · dsimp only
      rw [htracker]
      exact Nat.zero_le _

theorem Counted.step (hs : s.Counted) {e : RecoveryEvent} (h : s.RefreshableStep A p e) :
    (s.step A p e).Counted := by
  cases e with
  | tick scan now answers =>
    unfold Recovering.step
    dsimp only
    split
    · rename_i hrunning
      split
      · exact ⟨hs.batchSize, hs.counter⟩
      · rename_i honline
        split
        · rename_i hrecovering
          exact hs.begun.runBatch (h ⟨hrunning, honline, hrecovering⟩)
        · exact hs.begun
    · exact hs
  | outside cache queryMap health => exact ⟨hs.batchSize, hs.counter⟩
  | cancel => exact ⟨hs.batchSize, hs.counter⟩

/-- Every batch of a run is honest exactly if it has no stale entry, or a known query among those
that are not cut off and a limit that is not zero. -/
theorem honest_iff_refreshable (A : F32Arith) (p : Platform) (secs : Duration → F32)
    (cache : CacheStore) (baseUrl : String) (health : HealthTracker)
    (queryMap : QueryHash → Option String) {config : RecoveryConfig}
    (hsize : 1 ≤ config.batchSize) (events : List RecoveryEvent) :
    AllSteps (step A p) (HonestStep A p)
        (start (.new A secs cache baseUrl health queryMap config)) events ↔
      AllSteps (step A p) (RefreshableStep A p)
        (start (.new A secs cache baseUrl health queryMap config)) events := by
  have hcounted : (start (.new A secs cache baseUrl health queryMap config)).Counted :=
    ⟨hsize, Nat.zero_le _⟩
  have hany : AllSteps (step A p) (fun _ _ => True)
      (start (.new A secs cache baseUrl health queryMap config)) events :=
    allSteps_of_forall (fun _ _ _ => trivial) _
  apply allSteps_congr _ _ hcounted hany
  · intro s e _ hs
    cases e with
    | tick scan now answers =>
      constructor
      · intro h hdue
        exact refreshable_of_honest hs.begun (h hdue)
      · intro h hdue
        exact honest_of_refreshable hs.begun hdue.2.2 (h hdue)
    | outside cache queryMap health => exact Iff.rfl
    | cancel => exact Iff.rfl
  · intro s e _ hs h
    exact hs.step h

instance (s : Recovering) : Decidable (s.Due A) :=
  inferInstanceAs (Decidable (s.running = true ∧ s.worker.health.status A ≠ .offline ∧
    (s.begun A).worker.tracker.isRecovering = true))

/-- Sixty seconds fresh, then stale. -/
def twoStale : CacheStore :=
  exec Platform.sample
    (exec Platform.sample (CacheStore.new 60000000000 600000000000 10)
      ⟨⟨0, 0⟩, .stored, .insertByHash 1 (textResponse "a") "u" none⟩)
    ⟨⟨0, 0⟩, .stored, .insertByHash 2 (textResponse "b") "u" none⟩

/-- Two entries in a batch, one request per second at first. -/
def sampleConfig (batchSize : Nat) : RecoveryConfig where
  initialRps := .finite 1
  maxRps := .finite 50
  rpsIncrement := .finite 5
  batchSize := batchSize
  batchDelay := 200000000
  stabilityPeriod := 30000000000

def sampleWorker (config : RecoveryConfig) : RecoveryWorker :=
  .new .exact (fun d => .finite (d / 1000000000)) twoStale "http://u" .new
    (fun h => if h = 1 then some "q" else none) config

/-- The upstream is offline for a tick, and then back. -/
def outage : List RecoveryEvent :=
  [.outside twoStale (fun h => if h = 1 then some "q" else none)
      { HealthTracker.new with isOffline := true },
    .tick .stored ⟨0, 0⟩ fun _ => ⟨.error "timeout", ⟨0, 0⟩, .stored, 0⟩,
    .outside twoStale (fun h => if h = 1 then some "q" else none) .new,
    .tick .stored ⟨90000000000, 90000000000⟩ fun _ =>
      ⟨.ok (textResponse "x"), ⟨90000000000, 90000000000⟩, .stored, 90000⟩]

/-- The state in which the batch begins. -/
def afterOutage (batchSize : Nat) : Recovering :=
  (run (step .exact Platform.sample) (start (sampleWorker (sampleConfig batchSize)))
    (outage.take 3)).begun .exact

theorem staleHashes_afterOutage (batchSize : Nat) :
    (afterOutage batchSize).worker.staleHashes Platform.sample .stored
      ⟨90000000000, 90000000000⟩ = [2, 1] := by
  have hcache : (afterOutage batchSize).worker.cache = twoStale := rfl
  unfold RecoveryWorker.staleHashes
  rw [hcache]
  decide +kernel

theorem not_due_offline (batchSize : Nat) :
    ¬ (run (step .exact Platform.sample) (start (sampleWorker (sampleConfig batchSize)))
      (outage.take 1)).Due .exact := by
  rintro ⟨-, honline, -⟩
  exact honline (by rfl)

theorem due_afterOutage :
    (run (step .exact Platform.sample) (start (sampleWorker (sampleConfig 1)))
      (outage.take 3)).Due .exact := by decide +kernel

theorem unknown_afterOutage :
    ∃ w', (afterOutage 1).worker.processRecoveryBatch .exact Platform.sample .stored
        ⟨90000000000, 90000000000⟩ (fun _ => ⟨.ok (textResponse "x"),
          ⟨90000000000, 90000000000⟩, .stored, 90000⟩) =
      some (w', ⟨⟨[], 0, 0⟩, .success⟩) := by
  have hbatch : ((afterOutage 1).worker.staleHashes Platform.sample .stored
      ⟨90000000000, 90000000000⟩).take (afterOutage 1).worker.config.batchSize = [2] := by
    rw [staleHashes_afterOutage]
    rfl
  apply RecoveryWorker.processRecoveryBatch_of_unknown
  · rw [hbatch]
    exact List.cons_ne_nil _ _
  · rw [hbatch]
    intro h hh
    obtain rfl := List.mem_singleton.1 hh
    rfl

theorem refreshable_afterOutage :
    (afterOutage 2).Refreshable Platform.sample .stored ⟨90000000000, 90000000000⟩ := by
  refine .inr ⟨⟨1, ?_, rfl⟩, by decide +kernel⟩
  rw [staleHashes_afterOutage]
  decide

theorem outage_is_honest :
    AllSteps (step .exact Platform.sample) (HonestStep .exact Platform.sample)
      (start (sampleWorker (sampleConfig 2))) outage := by
  apply (honest_iff_refreshable .exact Platform.sample _ _ _ _ _ (by decide) outage).2
  refine ⟨trivial, ?_, trivial, ?_, trivial⟩
  · intro hdue
    exact absurd hdue (not_due_offline 2)
  · intro _
    exact refreshable_afterOutage

/-- Of two stale entries only the second one has a known query. The batch has room for one, asks
for nothing and counts as a success. -/
theorem unknown_query_starves :
    ¬ ∀ (A : F32Arith) (p : Platform) (secs : Duration → F32) (cache : CacheStore)
      (baseUrl : String) (health : HealthTracker) (queryMap : QueryHash → Option String)
      (config : RecoveryConfig) (events : List RecoveryEvent), 1 ≤ config.batchSize →
        AllSteps (step A p) (HonestStep A p)
          (start (.new A secs cache baseUrl health queryMap config)) events := by
  intro h
  have hall := h .exact Platform.sample (fun d => .finite (d / 1000000000)) twoStale "http://u" .new
    (fun h => if h = 1 then some "q" else none) (sampleConfig 1) outage (by decide)
  have hbatch : (afterOutage 1).Honest .exact Platform.sample .stored
      ⟨90000000000, 90000000000⟩ _ := hall.2.2.2.1 due_afterOutage
  obtain ⟨worker, hrun⟩ := unknown_afterOutage
  exact absurd (hbatch.success worker _ hrun rfl) (Nat.lt_irrefl 0)

end Recovering

end Conproxy
