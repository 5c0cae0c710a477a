import Conproxy.Batch
import Conproxy.ContextTable
import Conproxy.Server.Exits
import Conproxy.Server.Isolation

/-!
# Access of agents to contexts

The six query entry points from the request to the first await, for an agent that is bound to
other contexts than the one it asks for. An entry point makes the context exist, and then either
refuses or enters the pipeline. The items of a batch start when they are scheduled, so each is
given with the server as it finds it.
-/

namespace Conproxy

open CacheStore

set_option autoImplicit false

/-- A request at one of the six entry points. `allowed` is the circuit breaker's decision,
`starts` gives the server and the clock when an item of a batch starts, if it ever does, and
`remote` says that the local results do not suffice. -/
inductive Entry where
  | query (t : Transport) (request : QueryRequest) (allowed : Bool)
  | batch (t : Transport) (queries : List BatchQuery) (starts : String → Option (Server × Clock))
  | federated (t : Transport) (query : String) (topK : Option Nat) (remote : Bool)

/-- What an entry point did: the contexts after it, and the server before and after each piece
of the pipeline that it ran. -/
structure Handled where
  contexts : ContextManager
  pieces : List (Server × Server)

/-- The state that an entry point reads. -/
structure EntryState where
  server : Server
  contexts : ContextManager
  maxQueries : Nat
  scan : ContextScan
  now : Clock

namespace EntryState

variable (p : Platform) (e : EntryState) (agent : Option AgentIdentity) (contextId : String)

def ensured : ContextManager := e.contexts.ensure e.scan e.now.instant contextId

/-- `handle_query` and the gRPC `query`: both call `execute_query`, which makes the context
exist between the checks of the request and of the agent. -/
def handleQuery (request : QueryRequest) (allowed : Bool) : Handled where
  contexts :=
    if e.server.app.paused then e.contexts
    else
      match request.validate with
      | .error _ => e.contexts
      | .ok () => e.ensured contextId
  pieces := [(e.server, e.server.arrive.executeQuery p e.now e.server.nextTask
    ⟨.query, contextId, request, e.now.instant⟩ agent false allowed)]

def startItem (t : Transport) (request : QueryRequest) (start : Server × Clock) :
    Server × Server :=
  (start.1, start.1.arrive.batchItem p start.2 start.1.nextTask
    ⟨.batch t, contextId, request, start.2.instant⟩ t agent e.server.app.upstreams)

/-- `handle_batch` and the gRPC `batch_query`, which does not ask for the agent. -/
def handleBatch (t : Transport) (queries : List BatchQuery)
    (starts : String → Option (Server × Clock)) : Handled :=
  match validateBatch e.maxQueries queries with
  | .error _ => ⟨e.contexts, []⟩
  | .ok () =>
    if t = .http ∧ Server.deniedBy agent contextId then ⟨e.ensured contextId, []⟩
    else
      ⟨e.ensured contextId, queries.filterMap fun q =>
        (starts q.id).map (e.startItem p agent contextId t q.toRequest)⟩

def handleFederated (t : Transport) (query : String) (topK : Option Nat) (remote : Bool) :
    Handled where
  contexts := e.ensured contextId
  pieces := [(e.server, e.server.arrive.handleFederated p e.now e.server.nextTask
    ⟨.federated t, contextId, ⟨query, topK, none, none, none⟩, e.now.instant⟩ t agent remote)]

def handle : Entry → Handled
  | .query _ request allowed => e.handleQuery p agent contextId request allowed
  | .batch t queries starts => e.handleBatch p agent contextId t queries starts
  | .federated t query topK remote => e.handleFederated p agent contextId t query topK remote

end EntryState

/-- A piece of the pipeline answers without results, and leaves no task that asks an upstream
or waits for another request's upstream. -/
def Withholds (s s' : Server) : Prop :=
  s'.tasks = s.tasks ∧ ∃ a, s'.answers = a :: s.answers ∧ a.reply.results = []

/-- No result is returned, no upstream is asked, and the context is not created. -/
def Handled.Enforces (h : Handled) (contexts : ContextManager) (contextId : String) : Prop :=
  (contextId ∈ h.contexts.active → contextId ∈ contexts.active) ∧
    ∀ piece ∈ h.pieces, Withholds piece.1 piece.2

namespace ContextManager

variable {m m' : ContextManager}

theorem createMissing_of_autoCreate {now : Nat} {id : String} (hauto : m.config.autoCreate = true)
    (hnot : id ∉ m.active) :
    m.createMissing now id =
      .ok { m with active := m.active.insert id (newContext now id "" "") } := by
  unfold createMissing create
  simp only [if_neg hnot, if_pos hauto]

theorem createMissing_of_not_autoCreate {now : Nat} {id : String}
    (hauto : m.config.autoCreate = false) (hnot : id ∉ m.active) :
    m.createMissing now id = .error (.notFound id) := by
  unfold createMissing
  rw [if_neg hnot, hauto]
  rfl

theorem ensure_of_mem (scan : ContextScan) (now : Nat) {id : String} (hmem : id ∈ m.active) :
    m.ensure scan now id = m := by
  have hget : (m.get id).isNone = false := by
    rw [get, Option.isNone_map, Option.isNone_eq_false_iff, AList.lookup_isSome]
    exact hmem
  unfold ensure
  rw [hget]
  rfl

theorem ensure_of_notMem (scan : ContextScan) (now : Nat) {id : String} (hnot : id ∉ m.active) :
    m.ensure scan now id = (m.switch scan now id).toOption.getD m := by
  have hget : (m.get id).isNone = true := by
    rw [get, Option.isNone_map, Option.isNone_iff_eq_none, AList.lookup_eq_none]
    exact hnot
  unfold ensure
  rw [hget]
  rfl

theorem mem_ensure_iff (scan : ContextScan) (now : Nat) (id : String) :
    id ∈ (m.ensure scan now id).active ↔ id ∈ m.active ∨ m.config.autoCreate = true := by
  by_cases hmem : id ∈ m.active
  · rw [ensure_of_mem scan now hmem]
    exact iff_of_true hmem (.inl hmem)
  · rw [ensure_of_notMem scan now hmem]
    simp only [hmem, false_or]
    unfold switch enter
    cases hauto : m.config.autoCreate with
    | true =>
      rw [createMissing_of_autoCreate hauto hmem]
      refine iff_of_true ?_ rfl
      refine current_mem_maybeEvict scan (mem_touch ?_)
      exact (AList.mem_insert _).2 (.inl rfl)
    | false =>
      rw [createMissing_of_not_autoCreate hauto hmem]
      exact iff_of_false hmem (by decide)

end ContextManager

/-- The context is there already, or contexts are not created on demand. -/
def NotCreated (m : ContextManager) (contextId : String) : Prop :=
  contextId ∈ m.active ∨ m.config.autoCreate = false

theorem ensured_iff (e : EntryState) (contextId : String) :
    (contextId ∈ (e.ensured contextId).active → contextId ∈ e.contexts.active) ↔
      NotCreated e.contexts contextId := by
  unfold EntryState.ensured NotCreated
  rw [ContextManager.mem_ensure_iff]
  cases e.contexts.config.autoCreate with
  | true => simp
  | false => simp

/-- An item that gets past the agent finds no results under its key, and with an upstream it
has to find an entry that is served at once. -/
def SilentItem (p : Platform) (upstreams : Upstreams) (key : Key) (start : Server × Clock) :
    Prop :=
  let cache := start.1.app.cache
  (∀ entry ∈ cache.entries.lookup (cache.foundAt p key.text), entry.response.results = []) ∧
    (upstreams.any = true →
      cache.checkFreshnessByHash p start.2 (key.hash p) = some .fresh ∨
        cache.checkFreshnessByHash p start.2 (key.hash p) = some .stale)

/-- A federated request that gets past the agent finds no results, or needs no upstream. -/
def SilentFederation (p : Platform) (app : AppState) (key : Key) (remote : Bool) : Prop :=
  if app.federatedEnabled then
    (remote && (app.upstreams.pool || app.upstreams.single)) = false
  else
    ∀ entry ∈ app.cache.entries.lookup (app.cache.foundAt p key.text),
      entry.response.results = []

def EntryState.Keeps (p : Platform) (e : EntryState) (contextId : String) : Entry → Prop
  | .query _ request _ =>
    e.server.app.paused = true ∨ request.validate ≠ .ok () ∨ NotCreated e.contexts contextId
  | .batch .http queries _ =>
    validateBatch e.maxQueries queries ≠ .ok () ∨ NotCreated e.contexts contextId
  | .batch .grpc queries starts =>
    validateBatch e.maxQueries queries ≠ .ok () ∨ NotCreated e.contexts contextId ∧
      ∀ q ∈ queries, ∀ start ∈ starts q.id,
        SilentItem p e.server.app.upstreams ⟨contextId, q.query⟩ start
  | .federated .http _ _ _ => NotCreated e.contexts contextId
  | .federated .grpc query _ remote =>
    NotCreated e.contexts contextId ∧
      SilentFederation p e.server.app ⟨contextId, query⟩ remote

theorem deniedBy_of_restricted {agent : AgentIdentity} {contextId : String}
    (hrestricted : agent.allowedContexts ≠ []) (hforeign : contextId ∉ agent.allowedContexts) :
    Server.deniedBy (some agent) contextId = true := by
  simp [Server.deniedBy, AgentIdentity.canAccessContext, hrestricted, hforeign]

section Pieces

variable {p : Platform} {s t : Server} {now : Clock} {c : Client}

theorem withholds_answer_iff (htasks : t.tasks = s.tasks) (hanswers : t.answers = s.answers)
    (source : Source) (reply : Reply) :
    Withholds s (t.answer c source reply) ↔ reply.results = [] := by
  unfold Withholds Server.answer
  rw [hanswers]
  constructor
  · rintro ⟨-, a, ha, hresults⟩
    obtain rfl := (List.cons.inj ha).1
    exact hresults
  · intro hresults
    exact ⟨htasks, _, rfl, hresults⟩

theorem not_withholds_of_answers (hanswers : t.answers = s.answers) : ¬ Withholds s t := by
  rintro ⟨-, a, ha, -⟩
  rw [hanswers] at ha
  exact List.cons_ne_self a s.answers ha.symm

theorem withholds_executeQuery {agent : Option AgentIdentity} {id : Nat} {skipCache allowed : Bool}
    (hdenied : Server.deniedBy agent c.contextId = true) :
    Withholds s (s.arrive.executeQuery p now id c agent skipCache allowed) := by
  have hrefuse : ∀ status, Withholds s (s.arrive.refuse now c none status) :=
    fun status => (withholds_answer_iff rfl rfl .nowhere _).2 rfl
  unfold Server.executeQuery
  split
  · exact hrefuse 503
  · split
    · exact hrefuse 400
    · exact hrefuse 403

theorem answers_coalesce {id : Nat} {upstreams : Upstreams} {missReason : MissReason}
    {embedding : Option Embedding} :
    (s.coalesce p id c upstreams missReason embedding).answers = s.answers := by
  unfold Server.coalesce
  split <;> rfl

/-- A read by text that answers with what it finds. -/
theorem withholds_read_iff {text : String} {found : CacheEntry → Source → Server → Server}
    {missing : Server → Server} (reply : CacheEntry → Reply)
    (hfound : ∀ e source t, found e source t = t.answer c source (reply e))
    (hreply : ∀ e, (reply e).results = e.response.results)
    (hmissing : s.app.cache.entries.lookup (s.app.cache.foundAt p text) = none →
      Withholds s (missing s.arrive)) :
    Withholds s (s.arrive.read p now (.byText text) found missing) ↔
      ∀ e ∈ s.app.cache.entries.lookup (s.app.cache.foundAt p text),
        e.response.results = [] := by
  cases hl : s.app.cache.entries.lookup (s.app.cache.foundAt p text) with
  | none =>
    have hread : s.arrive.read p now (.byText text) found missing = missing s.arrive :=
      Server.read_of_none hl
    rw [hread]
    exact iff_of_true (hmissing hl) (by simp)
  | some e =>
    have hread : s.arrive.read p now (.byText text) found missing = found e _ _ :=
      Server.read_of_lookup hl
    rw [hread, hfound]
    refine (withholds_answer_iff rfl rfl _ _).trans ?_
    rw [hreply]
    simp

theorem withholds_serveItem_iff (status : CacheStatus) {missing : Server → Server}
    (hmissing : s.app.cache.entries.lookup (s.app.cache.foundAt p c.key.text) = none →
      Withholds s (missing s.arrive)) :
    Withholds s (s.arrive.read p now (.byText c.key.text) (Server.serveItem now c status)
      missing) ↔ ∀ e ∈ s.app.cache.entries.lookup (s.app.cache.foundAt p c.key.text),
        e.response.results = [] :=
  withholds_read_iff
    (fun e => .item (.ok { e.response with cacheStatus := status, tookMs := c.tookMs now }))
    (fun _ _ _ => rfl) (fun _ => rfl) hmissing

theorem withholds_batchMiss_iff {id : Nat} {upstreams : Upstreams} {missReason : MissReason} :
    Withholds s (s.arrive.batchMiss p now id c .grpc upstreams missReason) ↔
      (∀ e ∈ s.app.cache.entries.lookup (s.app.cache.foundAt p c.key.text),
        e.response.results = []) ∧ upstreams.any = false := by
  unfold Server.batchMiss
  split
  case isTrue hany =>
    refine iff_of_false (not_withholds_of_answers answers_coalesce) ?_
    rintro ⟨-, h⟩
    rw [hany] at h
    cases h
  case isFalse hnone =>
    simp only [Bool.not_eq_true] at hnone
    simp only [hnone, and_true]
    refine withholds_serveItem_iff .hit fun _ => ?_
    exact (withholds_answer_iff rfl rfl .nowhere _).2 rfl

/-- A gRPC item, whoever asks. -/
theorem withholds_batchItem_iff (agent : Option AgentIdentity) {id : Nat}
    {upstreams : Upstreams} :
    Withholds s (s.arrive.batchItem p now id c .grpc agent upstreams) ↔
      SilentItem p upstreams c.key (s, now) := by
  have hserved {freshness : Freshness} (status : CacheStatus) (missing : Server → Server)
      (h : s.app.cache.checkFreshnessByHash p now (c.key.hash p) = some freshness) :
      Withholds s (s.arrive.read p now (.byText c.key.text) (Server.serveItem now c status)
        missing) ↔ ∀ e ∈ s.app.cache.entries.lookup (s.app.cache.foundAt p c.key.text),
          e.response.results = [] := by
    refine withholds_serveItem_iff status fun hnone => ?_
    obtain ⟨e, he⟩ := Server.exists_of_classified h
    rw [he] at hnone
    cases hnone
  have happ : s.arrive.app = s.app := rfl
  have hlook : Server.batchLookup p .grpc c.key = .byText c.key.text := rfl
  unfold Server.batchItem SilentItem
  rw [if_neg (by simp)]
  simp only [happ, hlook]
  cases h : s.app.cache.checkFreshnessByHash p now (c.key.hash p) with
  | none =>
    rw [withholds_batchMiss_iff]
    simp
  | some freshness =>
    cases freshness with
    | fresh => simpa using hserved .hit _ h
    | stale => simpa using hserved .stale _ h
    | frozen =>
      rw [withholds_batchMiss_iff]
      simp
    | expired =>
      rw [withholds_batchMiss_iff]
      simp

theorem withholds_handleFederated_iff {agent : Option AgentIdentity} {id : Nat} {remote : Bool} :
    Withholds s (s.arrive.handleFederated p now id c .grpc agent remote) ↔
      SilentFederation p s.app c.key remote := by
  have happ : s.arrive.app = s.app := rfl
  unfold Server.handleFederated SilentFederation
  rw [if_neg (by simp)]
  simp only [happ]
  cases henabled : s.app.federatedEnabled with
  | false =>
    simp only [if_true, Bool.false_eq_true, if_false]
    refine withholds_read_iff
      (fun e => .remote (some { e.response with cacheStatus := .hit, tookMs := 0 }))
      (fun _ _ _ => rfl) (fun _ => rfl) fun _ => ?_
    exact (withholds_answer_iff rfl rfl .nowhere _).2 rfl
  | true =>
    simp only [Bool.true_eq_false, if_false, if_true]
    split
    case isTrue hremote =>
      refine iff_of_false (not_withholds_of_answers rfl) ?_
      rw [hremote]
      decide
    case isFalse hlocal =>
      refine iff_of_true ?_ (Bool.eq_false_iff.2 hlocal)
      exact (withholds_answer_iff rfl rfl .nowhere _).2 rfl

end Pieces

section Entries

variable {p : Platform} {e : EntryState} {agent : Option AgentIdentity} {contextId : String}

theorem enforces_query_iff (hdenied : Server.deniedBy agent contextId = true)
    (request : QueryRequest) (allowed : Bool) :
    (e.handleQuery p agent contextId request allowed).Enforces e.contexts contextId ↔
      e.server.app.paused = true ∨ request.validate ≠ .ok () ∨
        NotCreated e.contexts contextId := by
  have hpieces : ∀ piece ∈ (e.handleQuery p agent contextId request allowed).pieces,
      Withholds piece.1 piece.2 := by
    intro piece hpiece
    rw [List.mem_singleton.1 hpiece]
    exact withholds_executeQuery hdenied
  rw [Handled.Enforces, and_iff_left hpieces, ← ensured_iff]
  unfold EntryState.handleQuery
  cases e.server.app.paused with
  | true => simp
  | false =>
    cases request.validate with
    | error err => simp
    | ok => simp

theorem withholds_startItem_iff (agent : Option AgentIdentity) (q : BatchQuery)
    (start : Server × Clock) :
    Withholds (e.startItem p agent contextId .grpc q.toRequest start).1
        (e.startItem p agent contextId .grpc q.toRequest start).2 ↔
      SilentItem p e.server.app.upstreams ⟨contextId, q.query⟩ start :=
  withholds_batchItem_iff agent (s := start.1)
    (c := ⟨.batch .grpc, contextId, q.toRequest, start.2.instant⟩)

theorem enforces_batch_iff (hdenied : Server.deniedBy agent contextId = true) (t : Transport)
    (queries : List BatchQuery) (starts : String → Option (Server × Clock)) :
    (e.handleBatch p agent contextId t queries starts).Enforces e.contexts contextId ↔
      validateBatch e.maxQueries queries ≠ .ok () ∨ NotCreated e.contexts contextId ∧
        (t = .grpc → ∀ q ∈ queries, ∀ start ∈ starts q.id,
          SilentItem p e.server.app.upstreams ⟨contextId, q.query⟩ start) := by
  unfold EntryState.handleBatch
  cases validateBatch e.maxQueries queries with
  | error err => simp [Handled.Enforces]
  | ok =>
    cases t with
    | http => simp [hdenied, Handled.Enforces, ensured_iff]
    | grpc =>
      simp only [reduceCtorEq, false_and, if_false, Handled.Enforces, ensured_iff, ne_eq,
        not_true_eq_false, false_or, true_implies]
      refine and_congr_right fun _ => ?_
      constructor
      · intro h q hq start hstart
        refine (withholds_startItem_iff agent q start).1 (h _ (List.mem_filterMap.2 ⟨q, hq, ?_⟩))
        rw [Option.mem_def.1 hstart]
        rfl
      · intro h piece hpiece
        obtain ⟨q, hq, hmap⟩ := List.mem_filterMap.1 hpiece
        obtain ⟨start, hstart, rfl⟩ := Option.map_eq_some_iff.1 hmap
        exact (withholds_startItem_iff agent q start).2 (h q hq start hstart)

theorem enforces_federated_iff (hdenied : Server.deniedBy agent contextId = true)
    (t : Transport) (query : String) (topK : Option Nat) (remote : Bool) :
    (e.handleFederated p agent contextId t query topK remote).Enforces e.contexts contextId ↔
      NotCreated e.contexts contextId ∧
        (t = .grpc → SilentFederation p e.server.app ⟨contextId, query⟩ remote) := by
  unfold EntryState.handleFederated Handled.Enforces
  simp only [ensured_iff, List.mem_singleton, forall_eq]
  refine and_congr_right fun _ => ?_
  cases t with
  | http =>
    refine iff_of_true ?_ (by simp)
    unfold Server.handleFederated
    rw [if_pos ⟨rfl, hdenied⟩]
    exact (withholds_answer_iff rfl rfl .nowhere _).2 rfl
  | grpc =>
    simp only [true_implies]
    exact withholds_handleFederated_iff

end Entries

/-- What the six entry points let an agent have of a context it is not bound to. -/
theorem access_enforced_iff (p : Platform) (e : EntryState) (agent : AgentIdentity)
    (contextId : String) (entry : Entry) (hrestricted : agent.allowedContexts ≠ [])
    (hforeign : contextId ∉ agent.allowedContexts) :
    (e.handle p (some agent) contextId entry).Enforces e.contexts contextId ↔
      e.Keeps p contextId entry := by
  have hdenied := deniedBy_of_restricted hrestricted hforeign
  cases entry with
  | query t request allowed => exact enforces_query_iff hdenied request allowed
  | batch t queries starts =>
    refine (enforces_batch_iff hdenied t queries starts).trans ?_
    cases t with
    | http => simp [EntryState.Keeps]
    | grpc => simp [EntryState.Keeps]
  | federated t query topK remote =>
    refine (enforces_federated_iff hdenied t query topK remote).trans ?_
    cases t with
    | http => simp [EntryState.Keeps]
    | grpc => simp [EntryState.Keeps]

/-- A server with one upstream and the configured context `docs`. -/
def docsServer : EntryState where
  server := smallServer
  contexts := ContextManager.withDocs
  maxQueries := 100
  scan := .stored
  now := ⟨0, 0⟩

def boundAgent : AgentIdentity := ⟨"agent", none, ["a"], 1⟩

theorem foreign_query_refused :
    (docsServer.handle Platform.sample (some boundAgent) "docs"
      (.query .http (textRequest "q") true)).Enforces docsServer.contexts "docs" :=
  (access_enforced_iff Platform.sample docsServer boundAgent "docs"
    (.query .http (textRequest "q") true) (by decide) (by decide)).2
    (.inr (.inr (.inl (by decide))))

/-- The gRPC batch asks the upstream for a context that the agent is not bound to. -/
theorem foreign_batch_dispatched :
    ¬ ∀ (p : Platform) (e : EntryState) (agent : AgentIdentity) (contextId : String)
      (entry : Entry), agent.allowedContexts ≠ [] → contextId ∉ agent.allowedContexts →
      (e.handle p (some agent) contextId entry).Enforces e.contexts contextId := by
  intro h
  have henforces := h Platform.sample docsServer boundAgent "docs"
    (.batch .grpc [⟨"1", "q", none, none⟩] fun _ => some (smallServer, ⟨0, 0⟩))
    (by decide) (by decide)
  refine not_withholds_of_answers ?_ (henforces.2 _ (List.mem_singleton.2 rfl))
  rfl

end Conproxy
