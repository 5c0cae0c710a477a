import Conproxy.Lib.Machine
import Conproxy.Lib.WeightedTable
import Conproxy.Types

/-!
# The active clients

`ClientTracker` of `server/mod.rs` under any interleaving of requests. The table of active requests
goes by the id in the header of the client, and only a handler that runs to its end takes its
request out again.
-/

namespace Conproxy

open Machine

set_option autoImplicit false

structure ClientInfo where
  requestId : String
  startedAtMs : Nat
  query : String
  source : String

/-- The counters are natural numbers, for they count events of a run. -/
structure ClientTracker where
  active : AList fun _ : String => ClientInfo
  totalCompleted : Nat
  totalRejected : Nat

namespace ClientTracker

def new : ClientTracker := ⟨∅, 0, 0⟩

def track (t : ClientTracker) (nowMs : Nat) (requestId query source : String) : ClientTracker :=
  { t with active := t.active.insert requestId ⟨requestId, nowMs, query, source⟩ }

def complete (t : ClientTracker) (requestId : String) : ClientTracker :=
  { t with
    active := t.active.erase requestId
    totalCompleted := t.totalCompleted + 1 }

def reject (t : ClientTracker) : ClientTracker := { t with totalRejected := t.totalRejected + 1 }

def activeCount (t : ClientTracker) : Nat := t.active.keys.length

end ClientTracker

/-- What the handler of `/query` reads from a request; a header counts if it is text. -/
structure HttpQuery where
  requestIdHeader : Option String
  forwardedFor : Option String
  agentId : Option String
  request : QueryRequest

namespace HttpQuery

/-- `extract_request_id`: without the header the id comes from the clock. -/
def extractRequestId (r : HttpQuery) (nanos : Nat) : String :=
  r.requestIdHeader.getD ("req-" ++ String.ofList (Nat.toDigits 16 nanos))

def source (r : HttpQuery) : String := r.agentId.getD (r.forwardedFor.getD "local")

end HttpQuery

/-- The server with the requests that are tracked and have not ended, by the number of their task;
`finished` counts those that came to an end. -/
structure TrackedServer where
  paused : Bool
  tracker : ClientTracker
  running : AList fun _ : Nat => String
  nextTask : Nat
  finished : Nat

/-- Every exit of `execute_query` behind the tracking completes the request. A handler that is
dropped reaches none of them. -/
inductive ClientEvent where
  | arrive (query : HttpQuery) (nanos : Nat)
  | finish (task : Nat)
  | drop (task : Nat)
  | setPaused (paused : Bool)

namespace TrackedServer

def new : TrackedServer := ⟨false, .new, ∅, 0, 0⟩

/-- A paused proxy rejects the request, and one that is not valid is not tracked. -/
def Tracks (s : TrackedServer) (query : HttpQuery) : Prop :=
  s.paused = false ∧ query.request.validate.isOk = true

instance (s : TrackedServer) (query : HttpQuery) : Decidable (s.Tracks query) :=
  inferInstanceAs (Decidable (_ ∧ _))

def arrive (s : TrackedServer) (query : HttpQuery) (nanos : Nat) : TrackedServer :=
  if s.paused then { s with tracker := s.tracker.reject }
  else
    match query.request.validate with
    | .error _ => s
    | .ok () =>
      let requestId := query.extractRequestId nanos
      { s with
        tracker := s.tracker.track (nanos / 1000000) requestId query.request.query query.source
        running := s.running.insert s.nextTask requestId
        nextTask := s.nextTask + 1 }

def step (s : TrackedServer) : ClientEvent → TrackedServer
  | .arrive query nanos => s.arrive query nanos
  | .finish task =>
    match s.running.lookup task with
    | some requestId =>
      { s with
        tracker := s.tracker.complete requestId
        running := s.running.erase task
        finished := s.finished + 1 }
    | none => s
  | .drop task => { s with running := s.running.erase task }
  | .setPaused paused => { s with paused := paused }

def runningIds (s : TrackedServer) : List String := s.running.entries.map Sigma.snd

/-- The tracker counts the requests that run and those that finished. -/
structure Exact (s : TrackedServer) : Prop where
  active : s.tracker.activeCount = s.running.keys.length
  completed : s.tracker.totalCompleted = s.finished

/-- No request is tracked while another one with its id runs, and none is dropped while it runs. -/
def Orderly (s : TrackedServer) : ClientEvent → Prop
  | .arrive query nanos => s.Tracks query → query.extractRequestId nanos ∉ s.runningIds
  | .drop task => task ∉ s.running
  | _ => True

/-- The active ids are the running ones, and no task has a number that is still to come. -/
structure Synced (s : TrackedServer) : Prop where
  active : s.tracker.active.keys.Perm s.runningIds
  fresh : ∀ task ∈ s.running, task < s.nextTask
  completed : s.tracker.totalCompleted = s.finished

variable {s : TrackedServer}

theorem length_runningIds (s : TrackedServer) :
    s.runningIds.length = s.running.keys.length := by
  simp [runningIds, AList.keys, List.keys]

theorem Synced.length_active (hs : s.Synced) :
    s.tracker.active.keys.length = s.running.keys.length :=
  hs.active.length_eq.trans (length_runningIds s)

theorem Synced.exact (hs : s.Synced) : s.Exact := ⟨hs.length_active, hs.completed⟩

theorem Synced.nextTask_notMem (hs : s.Synced) : s.nextTask ∉ s.running :=
  fun hmem => absurd (hs.fresh _ hmem) (Nat.lt_irrefl _)

theorem arrive_of_tracks {query : HttpQuery} {nanos : Nat} (h : s.Tracks query) :
    s.arrive query nanos =
      { s with
        tracker := s.tracker.track (nanos / 1000000) (query.extractRequestId nanos)
          query.request.query query.source
        running := s.running.insert s.nextTask (query.extractRequestId nanos)
        nextTask := s.nextTask + 1 } := by
  obtain ⟨hpaused, hvalid⟩ := h
  unfold arrive
  rw [hpaused]
  cases hresult : query.request.validate with
  | error e =>
    rw [hresult] at hvalid
    cases hvalid
  | ok _ => rfl

theorem arrive_of_not_tracks {query : HttpQuery} (nanos : Nat) (h : ¬ s.Tracks query) :
    s.arrive query nanos = s ∨
      s.arrive query nanos = { s with tracker := s.tracker.reject } := by
  unfold arrive
  cases hpaused : s.paused with
  | true => exact .inr rfl
  | false =>
    cases hresult : query.request.validate with
    | error e => exact .inl rfl
    | ok _ =>
      refine absurd ⟨hpaused, ?_⟩ h
      rw [hresult]
      rfl

theorem Synced.arrive (hs : s.Synced) {query : HttpQuery} {nanos : Nat}
    (h : s.Orderly (.arrive query nanos)) : (s.arrive query nanos).Synced := by
  by_cases htracks : s.Tracks query
  · have hnew : query.extractRequestId nanos ∉ s.tracker.active.keys :=
      fun hmem => h htracks (hs.active.mem_iff.1 hmem)
    rw [arrive_of_tracks htracks]
    refine ⟨?_, ?_, hs.completed⟩
    · unfold runningIds ClientTracker.track
      dsimp only
      rw [AList.keys_insert, List.erase_of_not_mem hnew,
        AList.entries_insert_of_notMem hs.nextTask_notMem, List.map_cons]
      exact hs.active.cons _
    · intro task htask
      rcases (AList.mem_insert _).1 htask with rfl | hold
      · exact Nat.lt_succ_self _
      · exact Nat.lt_succ_of_lt (hs.fresh task hold)
  · rcases arrive_of_not_tracks nanos htracks with heq | heq
    · rw [heq]
      exact hs
    · rw [heq]
      exact ⟨hs.active, hs.fresh, hs.completed⟩

theorem Synced.finish (hs : s.Synced) (task : Nat) : (s.step (.finish task)).Synced := by
  simp only [step]
  split
  · rename_i requestId hrunning
    have hids := (WeightedTable.entries_perm_of_lookup s.running hrunning).map
      fun e : (_ : Nat) × String => e.2
    rw [List.map_cons] at hids
    refine ⟨?_, ?_, congrArg (· + 1) hs.completed⟩
    · have herase := (hs.active.trans hids).erase requestId
      rw [List.erase_cons_head] at herase
      unfold runningIds ClientTracker.complete
      dsimp only
      rw [AList.keys_erase]
      exact herase
    · intro other hother
      exact hs.fresh other (AList.mem_erase.1 hother).2
  · exact hs

theorem Synced.step (hs : s.Synced) {e : ClientEvent} (h : s.Orderly e) :
    (s.step e).Synced := by
  cases e with
  | arrive query nanos => exact hs.arrive h
  | finish task => exact hs.finish task
  | drop task =>
    have hsame : s.running.erase task = s.running :=
      AList.ext (List.kerase_of_notMem_keys h)
    refine ⟨?_, ?_, hs.completed⟩
    · unfold runningIds TrackedServer.step
      dsimp only
      rw [hsame]
      exact hs.active
    · intro other hother
      exact hs.fresh other (AList.mem_erase.1 hother).2
  | setPaused paused => exact ⟨hs.active, hs.fresh, hs.completed⟩

/-- Two requests with one id count once, and a request that is dropped counts for ever. -/
theorem orderly_of_exact (hs : s.Synced) {e : ClientEvent} (h : (s.step e).Exact) :
    s.Orderly e := by
  have hlength := hs.length_active
  cases e with
  | arrive query nanos =>
    intro htracks hmem
    have hactive : query.extractRequestId nanos ∈ s.tracker.active :=
      hs.active.mem_iff.2 hmem
    have hcount := h.active
    rw [show s.step (.arrive query nanos) = s.arrive query nanos from rfl,
      arrive_of_tracks htracks] at hcount
    unfold ClientTracker.activeCount ClientTracker.track at hcount
    dsimp only at hcount
    rw [WeightedTable.length_keys_insert _ hactive, AList.keys_insert,
      List.erase_of_not_mem hs.nextTask_notMem, List.length_cons] at hcount
    omega
  | finish task => trivial
  | drop task =>
    intro hmem
    have hcount : s.tracker.active.keys.length = (s.running.erase task).keys.length := h.active
    have herase := WeightedTable.length_keys_erase s.running hmem
    omega
  | setPaused paused => trivial

theorem synced_new : new.Synced :=
  ⟨.refl _, fun _ htask => absurd htask (AList.notMem_empty _), rfl⟩

/-- The tracker is exact in every state of a run exactly if no request is tracked under the id of
one that runs and none is dropped. -/
theorem exact_iff_orderly (events : List ClientEvent) :
    AllSteps step (fun s e => (s.step e).Exact) new events ↔
      AllSteps step Orderly new events := by
  have hany : AllSteps step (fun _ _ => True) new events :=
    allSteps_of_forall (fun _ _ _ => trivial) _
  apply allSteps_congr _ _ synced_new hany
  · intro s e _ hs
    exact ⟨orderly_of_exact hs, fun h => (hs.step h).exact⟩
  · intro s e _ hs h
    exact hs.step h

theorem completed_step (h : s.tracker.totalCompleted = s.finished) (e : ClientEvent) :
    (s.step e).tracker.totalCompleted = (s.step e).finished := by
  cases e with
  | arrive query nanos =>
    simp only [step]
    by_cases htracks : s.Tracks query
    · rw [arrive_of_tracks htracks]
      exact h
    · rcases arrive_of_not_tracks nanos htracks with heq | heq
      · rw [heq]
        exact h
      · rw [heq]
        exact h
  | finish task =>
    simp only [step]
    split
    · exact congrArg (· + 1) h
    · exact h
  | drop task => exact h
  | setPaused paused => exact h

theorem completed_run (events : List ClientEvent) :
    (run step new events).tracker.totalCompleted = (run step new events).finished := by
  have hstep (s : TrackedServer) (e : ClientEvent)
      (h : s.tracker.totalCompleted = s.finished) :
      (s.step e).tracker.totalCompleted = (s.step e).finished := completed_step h e
  exact run_preserves hstep rfl events

def sampleQuery (requestId : String) : HttpQuery where
  requestIdHeader := some requestId
  forwardedFor := none
  agentId := none
  request := ⟨"rust", none, none, none, none⟩

/-- Two clients send the same id, and the first one to finish takes both out. -/
theorem shared_id_counts_once :
    ¬ ∀ events : List ClientEvent, AllSteps step (fun s e => (s.step e).Exact) new events := by
  intro h
  have hexact := (h [.arrive (sampleQuery "r") 0, .arrive (sampleQuery "r") 1]).2.1
  have hcount := hexact.active
  revert hcount
  decide +kernel

end TrackedServer

end Conproxy
