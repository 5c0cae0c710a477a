import Conproxy.Server.Tracing
import Conproxy.Server.Writes

/-!
# What a step stores

`stored` is the fetch whose results a step of the server puts into the cache, if it puts any.
Whatever else a step does, an entry after it was there before with the same response, or holds
the results of that fetch under its key.
-/

namespace Conproxy

open CacheStore

set_option autoImplicit false

variable (p : Platform)

/-- The paths that filter what they store. -/
def Requester.filters : Requester → Bool
  | .client | .staleRefresh | .warmup => true
  | .refreshWorker | .federated | .peer => false

namespace Server

/-- A response that fails its check is not stored. -/
def keptIf (response : QueryResponse) (f : Fetch) : Option Fetch :=
  match response.validate with
  | .ok () => some f
  | .error _ => none

theorem keptIf_of_valid {response : QueryResponse} (h : response.validate = .ok ()) (f : Fetch) :
    keptIf response f = some f := by
  unfold keptIf
  rw [h]

def storedByLeader (s : Server) (c : Client) (missReason : MissReason)
    (returned : QueryResponse) : Option Fetch :=
  let response := s.missResponse c missReason returned
  keptIf response ⟨.client, c.key, some c.request, response.results⟩

/-- What a refresh or a warmup of a key keeps of an answer. -/
def storedFor (s : Server) (requester : Requester) (key : Key) (returned : QueryResponse) :
    Option Fetch :=
  let response :=
    { returned with results := s.app.scopeFilterFor key.contextId returned.results }
  keptIf response ⟨requester, key, some (textRequest key.query), response.results⟩

def storedByTask (s : Server) (outcome : Except String QueryResponse) : Task → Option Fetch
  | .leading c upstreams missReason _ =>
    match c.handler, upstreams.dispatch outcome with
    | .query, .ok response => s.storedByLeader c missReason response
    | .batch _, .ok response => s.storedByLeader c missReason response
    | _, _ => none
  | .federating c =>
    if c.handler = .federated .http then
      outcome.toOption.map fun response =>
        ⟨.federated, c.key, some c.request, response.results⟩
    else none
  | .refreshing key => outcome.toOption.bind (s.storedFor .staleRefresh key)
  | .tracking key =>
    outcome.toOption.map fun response =>
      ⟨.refreshWorker, key, some (textRequest key.text), response.results⟩
  | .warming key => outcome.toOption.bind (s.storedFor .warmup key)
  | .embedding _ _ => none
  | .waiting _ _ => none

def stored (s : Server) : Event → Option Fetch
  | .returned id outcome _ => (s.tasks.lookup id).bind (s.storedByTask outcome)
  | .replicated key response _ applies =>
    if applies then some ⟨.peer, key, none, response.results⟩ else none
  | _ => none

section

variable {p} {s : Server} {f : Fetch} {outcome : Except String QueryResponse}

theorem eq_of_keptIf {response : QueryResponse} {g : Fetch} (h : keptIf response g = some f) :
    g = f := by
  unfold keptIf at h
  split at h
  · exact Option.some.inj h
  · cases h

theorem storedByLeader_eq_some {c : Client} {missReason : MissReason} {returned : QueryResponse}
    (h : s.storedByLeader c missReason returned = some f) :
    f = ⟨.client, c.key, some c.request, s.app.scopeFilterFor c.contextId returned.results⟩ :=
  (eq_of_keptIf h).symm

theorem storedFor_eq_some {requester : Requester} {key : Key}
    (h : outcome.toOption.bind (s.storedFor requester key) = some f) :
    ∃ returned : QueryResponse, f = ⟨requester, key, some (textRequest key.query),
      s.app.scopeFilterFor key.contextId returned.results⟩ := by
  obtain ⟨returned, -, hkept⟩ := Option.bind_eq_some_iff.mp h
  exact ⟨returned, (eq_of_keptIf hkept).symm⟩

/-- What a task stores has the key of the task, and on the filtering paths the results are what
the filter of the context returned. -/
theorem storedByTask_eq_some {K : Set Key} {task : Task} (htask : task.Known p K)
    (h : s.storedByTask outcome task = some f) :
    f.key ∈ K ∧ (f.requester.filters = true →
      ∃ returned, f.results = s.app.scopeFilterFor f.key.contextId returned) := by
  cases task with
  | leading c upstreams missReason embedding =>
    simp only [storedByTask] at h
    split at h
    · rw [storedByLeader_eq_some h]
      exact ⟨htask, fun _ => ⟨_, rfl⟩⟩
    · rw [storedByLeader_eq_some h]
      exact ⟨htask, fun _ => ⟨_, rfl⟩⟩
    · cases h
  | federating c =>
    simp only [storedByTask] at h
    split at h
    · obtain ⟨returned, -, rfl⟩ := Option.map_eq_some_iff.mp h
      exact ⟨htask, fun hfilters => by cases hfilters⟩
    · cases h
  | refreshing key =>
    obtain ⟨returned, rfl⟩ := storedFor_eq_some h
    exact ⟨htask, fun _ => ⟨_, rfl⟩⟩
  | tracking key =>
    obtain ⟨returned, -, rfl⟩ := Option.map_eq_some_iff.mp h
    exact ⟨htask, fun hfilters => by cases hfilters⟩
  | warming key =>
    obtain ⟨returned, rfl⟩ := storedFor_eq_some h
    exact ⟨htask, fun _ => ⟨_, rfl⟩⟩
  | embedding c missReason => cases h
  | waiting c receiver => cases h

end

section

variable {p} {s : Server} {op : Op}

theorem eq_of_ifValid {response : QueryResponse} {op' : Op} (h : response.ifValid op = some op') :
    response.validate = .ok () ∧ op = op' := by
  unfold QueryResponse.ifValid at h
  split at h
  · rename_i hvalid
    exact ⟨hvalid, Option.some.inj h⟩
  · cases h

theorem keyWrite_stores {requester : Requester} {key : Key}
    {outcome : Except String QueryResponse}
    (h : outcome.toOption.bind (s.keyWrite key) = some op) :
    ∃ f, outcome.toOption.bind (s.storedFor requester key) = some f ∧
      op.Stores p f.key f.results := by
  obtain ⟨returned, hreturned, hwrite⟩ := Option.bind_eq_some_iff.mp h
  obtain ⟨hvalid, rfl⟩ := eq_of_ifValid hwrite
  rw [hreturned]
  exact ⟨_, keptIf_of_valid hvalid _, .insertWithContext _ _ _ rfl⟩

theorem taskWrite_stores {now : Clock} {outcome : Except String QueryResponse}
    {computed : Option Embedding} {task : Task}
    (h : s.taskWrite p now outcome computed task = some op) :
    ∃ f, s.storedByTask outcome task = some f ∧ op.Stores p f.key f.results := by
  cases task with
  | leading c upstreams missReason stashed =>
    simp only [taskWrite] at h
    simp only [storedByTask]
    generalize c.handler = handler at h ⊢
    generalize upstreams.dispatch outcome = dispatched at h ⊢
    cases dispatched with
    | error message => cases handler <;> cases h
    | ok returned =>
      cases handler with
      | query =>
        obtain ⟨hvalid, rfl⟩ := eq_of_ifValid h
        exact ⟨_, keptIf_of_valid hvalid _, .insertByHashWithEmbedding _ _ _ _ rfl⟩
      | batch t =>
        obtain ⟨hvalid, rfl⟩ := eq_of_ifValid h
        exact ⟨_, keptIf_of_valid hvalid _, Provenance.batchInsert_stores _ c.key _ _ _ rfl⟩
      | federated t => cases h
  | federating c =>
    simp only [taskWrite] at h
    simp only [storedByTask]
    split at h
    · rename_i hhttp
      obtain ⟨response, hok, rfl⟩ := Option.map_eq_some_iff.mp h
      rw [if_pos hhttp, hok]
      exact ⟨_, rfl, .insertWithContext _ _ _ rfl⟩
    · cases h
  | refreshing key => exact keyWrite_stores h
  | tracking key =>
    obtain ⟨response, hok, rfl⟩ := Option.map_eq_some_iff.mp h
    simp only [storedByTask, hok]
    exact ⟨_, rfl, .insert _ _ rfl⟩
  | warming key => exact keyWrite_stores h
  | embedding c missReason => cases h
  | waiting c receiver => cases h

/-- A write is maintenance, or it stores the fetch of the step. -/
theorem write_cases {a : Action} (h : s.write p a = some op) :
    (a.event = .maintenance op ∧ op.maintains = true) ∨
      ∃ f, s.stored a.event = some f ∧ op.Stores p f.key f.results := by
  obtain ⟨now, scan, event⟩ := a
  cases event with
  | returned id outcome computed =>
    obtain ⟨task, hl, hwrite⟩ := Option.bind_eq_some_iff.mp h
    simp only [stored, hl, Option.bind_some]
    exact .inr (taskWrite_stores hwrite)
  | replicated key response upstreamId applies =>
    simp only [write] at h
    simp only [stored]
    split at h
    · rename_i happlies
      cases h
      rw [if_pos happlies]
      exact .inr ⟨_, rfl, .insert _ _ rfl⟩
    · cases h
  | maintenance op' =>
    simp only [write] at h
    split at h
    · rename_i hop
      cases h
      exact .inl ⟨rfl, hop⟩
    · cases h
  | query | batch | federated | embedded | received | refreshStale | warmup | dropped
  | reconfigured => cases h

theorem retains_of_looked {cache cache' : CacheStore} (h : Looked p cache cache') :
    Retains cache.entries cache'.entries := by
  induction h with
  | refl => exact .refl _
  | tail _ hlook ih =>
    obtain ⟨look, rfl⟩ := hlook
    refine ih.trans ?_
    cases look with
    | byHash h => exact (shrunk_getByHash (p := p) _ h).core.retains
    | byText text => exact (shrunk_getWithHitType (p := p) _ text).core.retains

end

/-- Every entry of the cache after a change was there before, or satisfies `New`. -/
def Gains (New : QueryHash → List SearchResult → Prop) (s s' : Server) : Prop :=
  ∀ h e', s'.app.cache.entries.lookup h = some e' →
    (∃ e, s.app.cache.entries.lookup h = some e ∧ SameContent e e') ∨ New h e'.response.results

theorem Gains.refl (New : QueryHash → List SearchResult → Prop) (s : Server) : s.Gains New s :=
  fun _ e hl => .inl ⟨e, hl, .refl e⟩

variable {p}

/-- The summary: a step gains at most the entry of the fetch that it stores. -/
theorem Gains.step {New : QueryHash → List SearchResult → Prop} (s : Server) (a : Action)
    (hnew : ∀ f, s.stored a.event = some f → New (f.key.hash p) f.results) :
    s.Gains New (s.step p a) := by
  obtain ⟨cache, hlooked, hwritten⟩ := (s.does_step (p := p) a).cache
  have hold := retains_of_looked hlooked
  intro h e' hl
  rw [hwritten] at hl
  cases hwrite : s.write p a with
  | none =>
    rw [hwrite] at hl
    exact .inl (hold h e' hl)
  | some op =>
    rw [hwrite] at hl
    rcases exec_content cache ⟨a.now, a.scan, op⟩ hl with ⟨i, hi, hh, hsame⟩ | ⟨-, e, he, hsame⟩
    · rcases write_cases hwrite with ⟨-, hop⟩ | ⟨f, hf, hstores⟩
      · rw [Op.insertions_of_maintains hop] at hi
        cases hi
      · obtain ⟨j, hone, hhash, hresults⟩ := hstores.inserts cache a.now a.scan
        obtain rfl : i = j := List.mem_singleton.mp (hone ▸ hi)
        refine .inr ?_
        rw [hh.trans hhash, hsame.response, hresults]
        exact hnew f hf
    · obtain ⟨e₀, he₀, hsame₀⟩ := hold h e he
      exact .inl ⟨e₀, he₀, hsame₀.trans hsame⟩

end Server

end Conproxy
