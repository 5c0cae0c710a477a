import Conproxy.Cache.Freshness
import Conproxy.Server.Refresh

/-!
# The bookkeeping of the refresh workers

A worker skips the hashes in its pending set and puts a hash there before it spawns the refresh.
The task gets a copy of the set, which is what `DashMap::clone` makes, and takes the hash out of
the copy, so in the set of the worker a hash stays for ever.
-/

namespace Conproxy

open CacheStore Machine

set_option autoImplicit false

inductive RefreshPhase where
  | spawned
  | asking (request : QueryRequest)
  | finished

/-- `planned` is the request that the query-tracking worker has made up before the task. -/
structure RefreshTask where
  hash : QueryHash
  planned : Option QueryRequest
  pending : Finset QueryHash
  phase : RefreshPhase

def RefreshTask.outstanding (t : RefreshTask) : Option QueryHash :=
  match t.phase with
  | .finished => none
  | _ => some t.hash

/-- `todo` holds the stale hashes that the round of the worker has still to look at. -/
structure Refreshing where
  cache : CacheStore
  worker : BackgroundWorker
  upstreamId : String
  pending : Finset QueryHash
  todo : List QueryHash
  tasks : AList fun _ : Nat => RefreshTask
  nextTask : Nat

inductive RefreshEvent where
  | tick (now : Clock) (scan : Scan)
  | next
  | start (id : Nat)
  | returned (id : Nat) (now : Clock) (scan : Scan) (outcome : Except String QueryResponse)
  | registration (r : Registration)
  | cacheCall (call : Call)

namespace Refreshing

def new (cache : CacheStore) (worker : BackgroundWorker) (upstreamId : String) : Refreshing :=
  ⟨cache, worker, upstreamId, ∅, [], ∅, 0⟩

def setTask (s : Refreshing) (id : Nat) (t : RefreshTask) : Refreshing :=
  { s with tasks := s.tasks.insert id t }

/-- The hash is marked as pending, and the task gets a copy of the set. -/
def spawn (s : Refreshing) (h : QueryHash) (planned : Option QueryRequest) : Refreshing :=
  let pending := insert h s.pending
  { s with
    pending := pending
    tasks := s.tasks.insert s.nextTask ⟨h, planned, pending, .spawned⟩
    nextTask := s.nextTask + 1 }

/-- `pending.remove(&hash)` at the end of a task. -/
def finish (s : Refreshing) (id : Nat) (t : RefreshTask) : Refreshing :=
  s.setTask id { t with pending := t.pending.erase t.hash, phase := .finished }

variable (p : Platform)

/-- The body of the loop over the stale hashes. -/
def schedule (s : Refreshing) (h : QueryHash) : Refreshing :=
  if h ∈ s.pending then s
  else
    match s.worker with
    | .refreshWorker => s.spawn h none
    | .queryTracking _ =>
      match s.worker.request p s.cache h with
      | some request => s.spawn h (some request)
      | none => s

/-- A task up to its upstream. `RefreshWorker` makes up the request here, and has none without an
entry that records its text. -/
def startTask (s : Refreshing) (id : Nat) (t : RefreshTask) : Refreshing :=
  match t.planned with
  | some request =>
    { s with cache := (s.cache.get p request.query).2 }.setTask id
      { t with phase := .asking request }
  | none =>
    let s' := { s with cache := (s.cache.getByHash t.hash).2 }
    match BackgroundWorker.refreshWorker.request p s.cache t.hash with
    | some request => s'.setTask id { t with phase := .asking request }
    | none => s'.finish id t

def answered (s : Refreshing) (id : Nat) (t : RefreshTask) (request : QueryRequest)
    (now : Clock) (scan : Scan) (outcome : Except String QueryResponse) : Refreshing :=
  let cache :=
    match outcome with
    | .ok response => s.worker.store p scan now t.hash request response s.upstreamId s.cache
    | .error _ => s.cache
  { s with cache := cache }.finish id t

def register (r : Registration) : BackgroundWorker → BackgroundWorker
  | .refreshWorker => .refreshWorker
  | .queryTracking registrations => .queryTracking (registrations ++ [r])

def step (s : Refreshing) : RefreshEvent → Refreshing
  | .tick now scan =>
    if s.todo = [] then { s with todo := s.cache.getStaleHashes p scan now } else s
  | .next =>
    match s.todo with
    | h :: rest => { s with todo := rest }.schedule p h
    | [] => s
  | .start id =>
    match s.tasks.lookup id with
    | some t =>
      match t.phase with
      | .spawned => s.startTask p id t
      | _ => s
    | none => s
  | .returned id now scan outcome =>
    match s.tasks.lookup id with
    | some t =>
      match t.phase with
      | .asking request => s.answered p id t request now scan outcome
      | _ => s
    | none => s
  | .registration r => { s with worker := register r s.worker }
  | .cacheCall call => { s with cache := exec p s.cache call }

/-- The step ends a refresh: the upstream has answered or failed, or `RefreshWorker` finds no text
to ask for. -/
def Finishes (s : Refreshing) : RefreshEvent → Prop
  | .start id =>
    ∃ t, s.tasks.lookup id = some t ∧ t.phase = .spawned ∧ t.planned = none ∧
      BackgroundWorker.refreshWorker.request p s.cache t.hash = none
  | .returned id _ _ _ =>
    ∃ t request, s.tasks.lookup id = some t ∧ t.phase = .asking request
  | _ => False

def live (s : Refreshing) (id : Nat) : Option QueryHash :=
  (s.tasks.lookup id).bind RefreshTask.outstanding

/-- The pending hashes are those with an outstanding refresh, and each has one. -/
structure Bookkept (s : Refreshing) : Prop where
  pending : ∀ h, h ∈ s.pending ↔ ∃ id, s.live id = some h
  single : ∀ h i j, s.live i = some h → s.live j = some h → i = j

variable {p} {s s' : Refreshing}

/-- What a step that ends no refresh, one that schedules a refresh, and one that ends one do to
the pending set and the outstanding refreshes. -/
structure Same (s s' : Refreshing) : Prop where
  pending : s'.pending = s.pending
  live : s'.live = s.live
  nextTask : s'.nextTask = s.nextTask

structure Spawned (s s' : Refreshing) (h : QueryHash) : Prop where
  free : h ∉ s.pending
  pending : s'.pending = insert h s.pending
  live : s'.live = Function.update s.live s.nextTask (some h)
  nextTask : s'.nextTask = s.nextTask + 1

structure Ended (s s' : Refreshing) (id : Nat) (h : QueryHash) : Prop where
  outstanding : s.live id = some h
  pending : s'.pending = s.pending
  live : s'.live = Function.update s.live id none
  nextTask : s'.nextTask = s.nextTask

theorem live_setTask (id : Nat) (t : RefreshTask) :
    (s.setTask id t).live = Function.update s.live id t.outstanding := by
  funext i
  by_cases hi : i = id
  · subst hi
    simp [live, setTask]
  · simp [live, setTask, AList.lookup_insert_ne hi, Function.update_of_ne hi]

theorem spawned_spawn {h : QueryHash} (hfree : h ∉ s.pending) (planned : Option QueryRequest) :
    Spawned s (s.spawn h planned) h :=
  ⟨hfree, rfl, live_setTask s.nextTask ⟨h, planned, insert h s.pending, .spawned⟩, rfl⟩

theorem schedule_cases (s : Refreshing) (h : QueryHash) :
    Same s (s.schedule p h) ∨ Spawned s (s.schedule p h) h := by
  unfold schedule
  split
  · exact .inl ⟨rfl, rfl, rfl⟩
  · rename_i hfree
    split
    · exact .inr (spawned_spawn hfree none)
    · split
      · exact .inr (spawned_spawn hfree _)
      · exact .inl ⟨rfl, rfl, rfl⟩

theorem same_setTask {id : Nat} {t : RefreshTask} (t' : RefreshTask)
    (hl : s.tasks.lookup id = some t) (hsame : t'.outstanding = t.outstanding)
    (cache : CacheStore) :
    Same s ({ s with cache := cache }.setTask id t') := by
  refine ⟨rfl, ?_, rfl⟩
  rw [live_setTask, hsame]
  refine Function.update_eq_self_iff.2 ?_
  simp [live, hl]

theorem ended_finish {id : Nat} {t : RefreshTask} (hl : s.tasks.lookup id = some t)
    (hout : t.outstanding = some t.hash) (cache : CacheStore) :
    Ended s ({ s with cache := cache }.finish id t) id t.hash := by
  refine ⟨?_, rfl, live_setTask id _, rfl⟩
  simp [live, hl, hout]

theorem outstanding_of_asking {t : RefreshTask} {request : QueryRequest}
    (h : t.phase = .asking request) : t.outstanding = some t.hash := by
  simp only [RefreshTask.outstanding, h]

theorem startTask_cases {id : Nat} {t : RefreshTask} (hl : s.tasks.lookup id = some t)
    (hphase : t.phase = .spawned) :
    (¬ s.Finishes p (.start id) ∧ Same s (s.startTask p id t)) ∨
      (s.Finishes p (.start id) ∧ Ended s (s.startTask p id t) id t.hash) := by
  obtain ⟨h, planned, pending, phase⟩ := t
  obtain rfl : phase = .spawned := hphase
  have hfinishes : s.Finishes p (.start id) ↔ planned = none ∧
      BackgroundWorker.refreshWorker.request p s.cache h = none := by
    simp [Finishes, hl]
  rw [hfinishes]
  unfold startTask
  cases planned with
  | some request =>
    exact .inl ⟨by simp, same_setTask ⟨h, _, pending, .asking request⟩ hl rfl _⟩
  | none =>
    dsimp only
    cases BackgroundWorker.refreshWorker.request p s.cache h with
    | some request =>
      exact .inl ⟨by simp, same_setTask ⟨h, none, pending, .asking request⟩ hl rfl _⟩
    | none => exact .inr ⟨⟨rfl, rfl⟩, ended_finish hl rfl _⟩

/-- Everything that a step can do to the bookkeeping. -/
theorem step_cases (s : Refreshing) (e : RefreshEvent) :
    (¬ s.Finishes p e ∧ (Same s (s.step p e) ∨ ∃ h, Spawned s (s.step p e) h)) ∨
      (s.Finishes p e ∧ ∃ id h, Ended s (s.step p e) id h) := by
  cases e with
  | tick now scan =>
    refine .inl ⟨id, .inl ?_⟩
    simp only [step]
    split
    · exact ⟨rfl, rfl, rfl⟩
    · exact ⟨rfl, rfl, rfl⟩
  | next =>
    refine .inl ⟨id, ?_⟩
    simp only [step]
    cases s.todo with
    | nil => exact .inl ⟨rfl, rfl, rfl⟩
    | cons h rest =>
      rcases schedule_cases (p := p) { s with todo := rest } h with hsame | hspawned
      · exact .inl ⟨hsame.pending, hsame.live, hsame.nextTask⟩
      · exact .inr ⟨h, hspawned.free, hspawned.pending, hspawned.live, hspawned.nextTask⟩
  | start id =>
    simp only [step]
    cases hl : s.tasks.lookup id with
    | none => exact .inl ⟨by simp [Finishes, hl], .inl ⟨rfl, rfl, rfl⟩⟩
    | some t =>
      dsimp only
      cases hphase : t.phase with
      | spawned =>
        rcases startTask_cases (p := p) hl hphase with ⟨hnot, hsame⟩ | ⟨hfinishes, hended⟩
        · exact .inl ⟨hnot, .inl hsame⟩
        · exact .inr ⟨hfinishes, id, t.hash, hended⟩
      | asking request => exact .inl ⟨by simp [Finishes, hl, hphase], .inl ⟨rfl, rfl, rfl⟩⟩
      | finished => exact .inl ⟨by simp [Finishes, hl, hphase], .inl ⟨rfl, rfl, rfl⟩⟩
  | returned id now scan outcome =>
    simp only [step]
    cases hl : s.tasks.lookup id with
    | none => exact .inl ⟨by simp [Finishes, hl], .inl ⟨rfl, rfl, rfl⟩⟩
    | some t =>
      dsimp only
      cases hphase : t.phase with
      | asking request =>
        refine .inr ⟨⟨t, request, hl, hphase⟩, id, t.hash, ?_⟩
        exact ended_finish hl (outstanding_of_asking hphase) _
      | spawned => exact .inl ⟨by simp [Finishes, hl, hphase], .inl ⟨rfl, rfl, rfl⟩⟩
      | finished => exact .inl ⟨by simp [Finishes, hl, hphase], .inl ⟨rfl, rfl, rfl⟩⟩
  | registration r => exact .inl ⟨id, .inl ⟨rfl, rfl, rfl⟩⟩
  | cacheCall call => exact .inl ⟨id, .inl ⟨rfl, rfl, rfl⟩⟩

/-- The numbers of tasks to come are free. -/
def Fresh (s : Refreshing) : Prop := ∀ id, s.nextTask ≤ id → s.live id = none

theorem Fresh.step (hs : s.Fresh) (e : RefreshEvent) : (s.step p e).Fresh := by
  intro id hid
  rcases step_cases (p := p) s e with ⟨-, hsame | ⟨h, hspawned⟩⟩ | ⟨-, id', h, hended⟩
  · rw [hsame.live]
    exact hs id (hsame.nextTask ▸ hid)
  · rw [hspawned.nextTask] at hid
    rw [hspawned.live, Function.update_of_ne (Nat.ne_of_gt hid)]
    exact hs id (Nat.le_of_succ_le hid)
  · rw [hended.live, Function.update_apply]
    split
    · rfl
    · exact hs id (hended.nextTask ▸ hid)

theorem Bookkept.same (hs : s.Bookkept) (h : Same s s') : s'.Bookkept := by
  refine ⟨?_, ?_⟩
  · rw [h.pending, h.live]
    exact hs.pending
  · rw [h.live]
    exact hs.single

theorem Bookkept.spawned (hs : s.Bookkept) (hfresh : s.Fresh) {h : QueryHash}
    (hspawned : Spawned s s' h) : s'.Bookkept := by
  have hnew : s.live s.nextTask = none := hfresh s.nextTask le_rfl
  have hold : ∀ i, s.live i ≠ some h := fun i hi =>
    hspawned.free ((hs.pending h).2 ⟨i, hi⟩)
  have hlive (i : Nat) (k : QueryHash) :
      s'.live i = some k ↔ (i = s.nextTask ∧ k = h) ∨ s.live i = some k := by
    rw [hspawned.live, Function.update_apply]
    split
    · rename_i hi
      subst hi
      simp [hnew, eq_comm]
    · rename_i hi
      simp [hi]
  refine ⟨fun k => ?_, fun k i j hi hj => ?_⟩
  · rw [hspawned.pending, Finset.mem_insert, hs.pending]
    simp only [hlive, exists_or, exists_and_right, exists_eq, true_and]
  · rcases (hlive i k).1 hi with ⟨rfl, rfl⟩ | hi
    · rcases (hlive j k).1 hj with ⟨rfl, -⟩ | hj
      · rfl
      · exact absurd hj (hold j)
    · rcases (hlive j k).1 hj with ⟨-, rfl⟩ | hj
      · exact absurd hi (hold i)
      · exact hs.single k i j hi hj

theorem Bookkept.not_ended (hs : s.Bookkept) {id : Nat} {h : QueryHash}
    (hended : Ended s s' id h) : ¬ s'.Bookkept := by
  intro hs'
  have hpending : h ∈ s'.pending := hended.pending ▸ (hs.pending h).2 ⟨id, hended.outstanding⟩
  obtain ⟨i, hi⟩ := (hs'.pending h).1 hpending
  rw [hended.live, Function.update_apply] at hi
  split at hi
  · cases hi
  · rename_i hne
    exact hne (hs.single h i id hi hended.outstanding)

theorem bookkept_step_iff (hfresh : s.Fresh) (hs : s.Bookkept) (e : RefreshEvent) :
    (s.step p e).Bookkept ↔ ¬ s.Finishes p e := by
  rcases step_cases (p := p) s e with ⟨hnot, hsame | ⟨h, hspawned⟩⟩ | ⟨hfinishes, id, h, hended⟩
  · exact iff_of_true (hs.same hsame) hnot
  · exact iff_of_true (hs.spawned hfresh hspawned) hnot
  · exact iff_of_false (hs.not_ended hended) (not_not_intro hfinishes)

theorem fresh_new (cache : CacheStore) (worker : BackgroundWorker) (upstreamId : String) :
    (new cache worker upstreamId).Fresh := fun _ _ => rfl

theorem bookkept_new (cache : CacheStore) (worker : BackgroundWorker) (upstreamId : String) :
    (new cache worker upstreamId).Bookkept := by
  refine ⟨fun h => ?_, fun h i j hi => ?_⟩
  · refine iff_of_false (Finset.notMem_empty h) ?_
    rintro ⟨id, hid⟩
    cases hid
  · cases hi

/-- The pending set is that of the outstanding refreshes in every state of a run exactly if no
refresh of the run ends. -/
theorem refreshes_bookkept_iff (p : Platform) (cache : CacheStore) (worker : BackgroundWorker)
    (upstreamId : String) (events : List RefreshEvent) :
    AllSteps (step p) (fun s e => (s.step p e).Bookkept) (new cache worker upstreamId) events ↔
      AllSteps (step p) (fun s e => ¬ s.Finishes p e) (new cache worker upstreamId) events := by
  have hfresh : ∀ s e, Fresh s → (s.step p e).Fresh := fun _ e hs => hs.step e
  have hstep : ∀ s e, Fresh s → Bookkept s → ((s.step p e).Bookkept ↔ ¬ s.Finishes p e) :=
    fun _ e hs hb => bookkept_step_iff hs hb e
  exact allSteps_congr_of_invariant hfresh hstep (fresh_new cache worker upstreamId)
    (bookkept_new cache worker upstreamId)

/-- An entry is refreshed after ninety seconds, and the upstream does not answer. -/
def failedRefresh : List RefreshEvent :=
  [.cacheCall ⟨⟨0, 0⟩, .stored, .insert "q" (textResponse "x") "u"⟩,
    .tick ⟨90000000000, 90000000000⟩ .stored, .next, .start 0,
    .returned 0 ⟨90000000000, 90000000000⟩ .stored (.error "timeout")]

/-- The hash stays pending after its refresh has failed. -/
theorem failed_refresh_pending :
    ¬ ∀ (p : Platform) (cache : CacheStore) (worker : BackgroundWorker) (upstreamId : String)
      (events : List RefreshEvent),
      AllSteps (step p) (fun s e => (s.step p e).Bookkept) (new cache worker upstreamId)
        events := by
  intro h
  let final := run (step Platform.sample) (new emptyCache .refreshWorker "u") failedRefresh
  have hfinal : final.Bookkept :=
    (h Platform.sample emptyCache .refreshWorker "u" failedRefresh).2.2.2.2.1
  have hkeys : final.tasks.keys = [0] := by decide +kernel
  have hlive : final.live 0 = none := by decide +kernel
  have hpending : hashQuery Platform.sample "q" ∈ final.pending := by decide +kernel
  obtain ⟨id, hid⟩ := (hfinal.pending _).1 hpending
  obtain ⟨t, ht, -⟩ := Option.bind_eq_some_iff.1 hid
  have hmem : id ∈ final.tasks.keys := WeightedTable.mem_of_lookup final.tasks ht
  rw [hkeys, List.mem_singleton] at hmem
  rw [hmem, hlive] at hid
  cases hid

end Refreshing

end Conproxy
