import Conproxy.Server.Access

/-!
# What the entry points share

The current context and the checks of `execute_query`, at all six entry points. Every entry point
makes its context exist by switching to it, and only `execute_query` asks whether the proxy is
paused and validates the query.
-/

namespace Conproxy

open CacheStore

set_option autoImplicit false

namespace ContextManager

variable {m : ContextManager}

theorem current_ensure (scan : ContextScan) (now : Nat) (id : String) :
    (m.ensure scan now id).current =
      if id ∈ m.active ∨ m.config.autoCreate = false then m.current else id := by
  by_cases hmem : id ∈ m.active
  · rw [ensure_of_mem scan now hmem, if_pos (.inl hmem)]
  · rw [ensure_of_notMem scan now hmem]
    unfold switch enter
    cases hauto : m.config.autoCreate with
    | true =>
      rw [createMissing_of_autoCreate hauto hmem, if_neg (by simp [hmem])]
      exact current_maybeEvict _ scan
    | false =>
      rw [createMissing_of_not_autoCreate hauto hmem, if_pos (.inr rfl)]
      rfl

end ContextManager

def EntryState.Reaches (e : EntryState) : Entry → Prop
  | .query _ request _ => e.server.app.paused = false ∧ request.validate = .ok ()
  | .batch _ queries _ => validateBatch e.maxQueries queries = .ok ()
  | .federated _ _ _ _ => True

/-- A request moves nobody's current context exactly if it does not reach its context, the
context is there or cannot be created, or it is the current one. -/
theorem current_kept_iff (p : Platform) (e : EntryState) (agent : Option AgentIdentity)
    (contextId : String) (entry : Entry) :
    (e.handle p agent contextId entry).contexts.current = e.contexts.current ↔
      ¬ e.Reaches entry ∨ NotCreated e.contexts contextId ∨ contextId = e.contexts.current := by
  have hensured : (e.ensured contextId).current = e.contexts.current ↔
      NotCreated e.contexts contextId ∨ contextId = e.contexts.current := by
    unfold EntryState.ensured NotCreated
    rw [ContextManager.current_ensure]
    by_cases hnot : contextId ∈ e.contexts.active ∨ e.contexts.config.autoCreate = false
    · simp [hnot]
    · simp [hnot]
  rw [← hensured]
  cases entry with
  | query t request allowed =>
    simp only [EntryState.handle, EntryState.handleQuery, EntryState.Reaches]
    cases e.server.app.paused with
    | true => simp
    | false =>
      cases request.validate with
      | error err => simp
      | ok => simp
  | batch t queries starts =>
    simp only [EntryState.handle, EntryState.handleBatch, EntryState.Reaches]
    cases validateBatch e.maxQueries queries with
    | error err => simp
    | ok =>
      dsimp only
      split <;> simp
  | federated t query topK remote =>
    simp only [EntryState.handle, EntryState.handleFederated, EntryState.Reaches]
    simp

/-- A query for a context that nobody has used makes it the current one. -/
theorem current_moved_by_query :
    ¬ ∀ (p : Platform) (e : EntryState) (agent : Option AgentIdentity) (contextId : String)
      (entry : Entry),
      (e.handle p agent contextId entry).contexts.current = e.contexts.current := by
  intro h
  exact absurd (h Platform.sample docsServer none "a" (.query .http (textRequest "q") true))
    (by decide +kernel)

/-- `execute_query` refuses the query before it looks at anything else. -/
def Server.gated (s : Server) (request : QueryRequest) : Bool :=
  s.app.paused || request.validate ≠ .ok ()

/-- The client is told that its query failed. -/
def Reply.refusal : Reply → Bool
  | .result _ status => status ≠ 200
  | .item (.error _) => true
  | .refused _ => true
  | .item (.ok _) => false
  | .remote _ => false

/-- A piece of the pipeline refuses: it asks no upstream, stores nothing, and says so. -/
def Refuses (s s' : Server) : Prop :=
  s'.tasks = s.tasks ∧ s'.app.cache = s.app.cache ∧
    ∃ a, s'.answers = a :: s.answers ∧ a.reply.refusal = true

/-- The entry point refuses what `execute_query` would refuse. -/
def EntryState.Gates (p : Platform) (e : EntryState) (agent : Option AgentIdentity)
    (contextId : String) : Entry → Prop
  | .query _ request allowed =>
    e.server.gated request = true →
      ∀ piece ∈ (e.handleQuery p agent contextId request allowed).pieces,
        Refuses piece.1 piece.2
  | .batch t queries starts =>
    ∀ q ∈ queries, ∀ start ∈ starts q.id, start.1.gated q.toRequest = true →
      e.startItem p agent contextId t q.toRequest start ∈
        (e.handleBatch p agent contextId t queries starts).pieces →
      Refuses start.1 (e.startItem p agent contextId t q.toRequest start).2
  | .federated t query topK remote =>
    e.server.gated ⟨query, topK, none, none, none⟩ = true →
      ∀ piece ∈ (e.handleFederated p agent contextId t query topK remote).pieces,
        Refuses piece.1 piece.2

/-- The query is refused for another reason: the batch is not valid, the HTTP handler does not
let the agent in, or nothing is there that could answer. -/
def EntryState.RefusesAnyway (p : Platform) (e : EntryState) (agent : Option AgentIdentity)
    (contextId : String) : Entry → Prop
  | .query _ _ _ => True
  | .batch t queries starts =>
    validateBatch e.maxQueries queries ≠ .ok () ∨
      (t = .http ∧ Server.deniedBy agent contextId = true) ∨
      ∀ q ∈ queries, ∀ start ∈ starts q.id, start.1.gated q.toRequest = true →
        e.server.app.upstreams.any = false ∧
          start.1.holds p (Server.batchLookup p t ⟨contextId, q.query⟩) = false
  | .federated t query topK _ =>
    e.server.gated ⟨query, topK, none, none, none⟩ = true →
      (t = .http ∧ Server.deniedBy agent contextId = true) ∨
        e.server.app.federatedEnabled = false ∧
          e.server.holds p (.byText (Key.text ⟨contextId, query⟩)) = false

section Pieces

variable {p : Platform} {s t : Server} {now : Clock} {c : Client}

theorem refuses_answer_iff (htasks : t.tasks = s.tasks) (hcache : t.app.cache = s.app.cache)
    (hanswers : t.answers = s.answers) (source : Source) (reply : Reply) :
    Refuses s (t.answer c source reply) ↔ reply.refusal = true := by
  unfold Refuses Server.answer
  rw [hanswers]
  constructor
  · rintro ⟨-, -, a, ha, hrefusal⟩
    obtain rfl := (List.cons.inj ha).1
    exact hrefusal
  · intro hrefusal
    exact ⟨htasks, hcache, _, rfl, hrefusal⟩

theorem not_refuses_of_answers (hanswers : t.answers = s.answers) : ¬ Refuses s t := by
  rintro ⟨-, -, a, ha, -⟩
  rw [hanswers] at ha
  exact List.cons_ne_self a s.answers ha.symm

theorem refuses_executeQuery {agent : Option AgentIdentity} {id : Nat} {skipCache allowed : Bool}
    (hgated : s.gated c.request = true) :
    Refuses s (s.arrive.executeQuery p now id c agent skipCache allowed) := by
  have hrefuse (status : Nat) (hstatus : status ≠ 200) :
      Refuses s (s.arrive.refuse now c none status) :=
    (refuses_answer_iff rfl rfl rfl .nowhere _).2 (decide_eq_true hstatus)
  unfold Server.executeQuery
  split
  · exact hrefuse 503 (by decide)
  · rename_i hrunning
    cases hvalidate : c.request.validate with
    | error err => exact hrefuse 400 (by decide)
    | ok =>
      have hpaused : s.app.paused = false := Bool.eq_false_iff.2 hrunning
      simp [Server.gated, hpaused, hvalidate] at hgated

/-- The exits at which an item is refused. -/
theorem itemExit_refuses_iff {agent : Option AgentIdentity} {t : Transport}
    {upstreams : Upstreams} :
    (s.itemExit p now c t agent upstreams = .denied ∨
        s.itemExit p now c t agent upstreams = .failed) ↔
      (t = .http ∧ Server.deniedBy agent c.contextId = true) ∨
        upstreams.any = false ∧ s.holds p (Server.batchLookup p t c.key) = false := by
  have hmissed : (s.missedItemExit p c t upstreams = .denied ∨
      s.missedItemExit p c t upstreams = .failed) ↔
      upstreams.any = false ∧ s.holds p (Server.batchLookup p t c.key) = false := by
    unfold Server.missedItemExit
    cases upstreams.any with
    | true => cases s.app.coalescer.inFlight.lookup (c.key.hash p) <;> simp
    | false => cases s.holds p (Server.batchLookup p t c.key) <;> simp
  have hserved {freshness : Freshness}
      (h : s.app.cache.checkFreshnessByHash p now (c.key.hash p) = some freshness) :
      s.holds p (Server.batchLookup p t c.key) = true := by
    obtain ⟨e, hl⟩ := Server.exists_of_classified_item t h
    exact Server.holds_of_some hl
  unfold Server.itemExit
  by_cases hdenied : t = .http ∧ Server.deniedBy agent c.contextId = true
  · rw [if_pos hdenied]
    exact iff_of_true (.inl rfl) (.inl hdenied)
  · rw [if_neg hdenied, or_iff_right hdenied]
    cases hf : s.app.cache.checkFreshnessByHash p now (c.key.hash p) with
    | none => exact hmissed
    | some freshness =>
      cases freshness with
      | fresh | stale => simp [hserved hf]
      | frozen | expired => exact hmissed

theorem refuses_batchItem_iff {agent : Option AgentIdentity} {id : Nat} {t : Transport}
    {upstreams : Upstreams} :
    Refuses s (s.arrive.batchItem p now id c t agent upstreams) ↔
      (t = .http ∧ Server.deniedBy agent c.contextId = true) ∨
        upstreams.any = false ∧ s.holds p (Server.batchLookup p t c.key) = false := by
  have hexits : (s.arrive.itemExit p now c t agent upstreams = .denied ∨
      s.arrive.itemExit p now c t agent upstreams = .failed) ↔
      (t = .http ∧ Server.deniedBy agent c.contextId = true) ∨
        upstreams.any = false ∧ s.holds p (Server.batchLookup p t c.key) = false :=
    itemExit_refuses_iff
  have hleaves : Server.ItemLeaves p s.arrive now id c t upstreams
      (s.arrive.itemExit p now c t agent upstreams)
      (s.arrive.batchItem p now id c t agent upstreams) := Server.itemLeaves_batchItem
  rw [← hexits]
  generalize s.arrive.itemExit p now c t agent upstreams = exit at hleaves
  generalize s.arrive.batchItem p now id c t agent upstreams = s' at hleaves
  cases hleaves with
  | denied => exact iff_of_true ((refuses_answer_iff rfl rfl rfl _ _).2 rfl) (.inl rfl)
  | failed => exact iff_of_true ((refuses_answer_iff rfl rfl rfl _ _).2 rfl) (.inr rfl)
  | served status hl =>
    refine iff_of_false ?_ (by simp)
    rintro ⟨-, -, a, ha, hrefusal⟩
    obtain rfl := (List.cons.inj ha).1
    cases hrefusal
  | leads hfree => exact iff_of_false (not_refuses_of_answers answers_coalesce) (by simp)
  | waits hbusy => exact iff_of_false (not_refuses_of_answers answers_coalesce) (by simp)

theorem federatedExit_refuses_iff {agent : Option AgentIdentity} {t : Transport}
    {remote : Bool} :
    (s.federatedExit p c t agent remote = .denied ∨
        s.federatedExit p c t agent remote = .unavailable) ↔
      (t = .http ∧ Server.deniedBy agent c.contextId = true) ∨
        s.app.federatedEnabled = false ∧ s.holds p (.byText c.key.text) = false := by
  unfold Server.federatedExit
  by_cases hdenied : t = .http ∧ Server.deniedBy agent c.contextId = true
  · rw [if_pos hdenied]
    exact iff_of_true (.inl rfl) (.inl hdenied)
  · rw [if_neg hdenied, or_iff_right hdenied]
    cases s.app.federatedEnabled with
    | false => cases s.holds p (.byText c.key.text) <;> simp
    | true =>
      simp only [Bool.true_eq_false, if_false, false_and, iff_false]
      split
      · split <;> simp
      · simp

theorem refuses_handleFederated_iff {agent : Option AgentIdentity} {id : Nat} {t : Transport}
    {remote : Bool} :
    Refuses s (s.arrive.handleFederated p now id c t agent remote) ↔
      (t = .http ∧ Server.deniedBy agent c.contextId = true) ∨
        s.app.federatedEnabled = false ∧ s.holds p (.byText c.key.text) = false := by
  have hexits : (s.arrive.federatedExit p c t agent remote = .denied ∨
      s.arrive.federatedExit p c t agent remote = .unavailable) ↔
      (t = .http ∧ Server.deniedBy agent c.contextId = true) ∨
        s.app.federatedEnabled = false ∧ s.holds p (.byText c.key.text) = false :=
    federatedExit_refuses_iff
  have hleaves : Server.FederatedLeaves p s.arrive now id c
      (s.arrive.federatedExit p c t agent remote)
      (s.arrive.handleFederated p now id c t agent remote) :=
    Server.federatedLeaves_handleFederated
  rw [← hexits]
  generalize s.arrive.federatedExit p c t agent remote = exit at hleaves
  generalize s.arrive.handleFederated p now id c t agent remote = s' at hleaves
  cases hleaves with
  | denied => exact iff_of_true ((refuses_answer_iff rfl rfl rfl _ _).2 rfl) (.inl rfl)
  | unavailable => exact iff_of_true ((refuses_answer_iff rfl rfl rfl _ _).2 rfl) (.inr rfl)
  | served response hl =>
    refine iff_of_false ?_ (by simp)
    rintro ⟨-, -, a, ha, hrefusal⟩
    obtain rfl := (List.cons.inj ha).1
    cases hrefusal
  | asks => exact iff_of_false (not_refuses_of_answers rfl) (by simp)
  | localOnly =>
    refine iff_of_false ?_ (by simp)
    intro hrefuses
    cases (refuses_answer_iff rfl rfl rfl _ _).1 hrefuses

end Pieces

section Entries

variable {p : Platform} {e : EntryState} {agent : Option AgentIdentity} {contextId : String}

theorem gates_batch_iff (t : Transport) (queries : List BatchQuery)
    (starts : String → Option (Server × Clock)) :
    e.Gates p agent contextId (.batch t queries starts) ↔
      e.RefusesAnyway p agent contextId (.batch t queries starts) := by
  simp only [EntryState.Gates, EntryState.RefusesAnyway, EntryState.handleBatch]
  cases validateBatch e.maxQueries queries with
  | error err => simp
  | ok =>
    simp only [ne_eq, not_true_eq_false, false_or]
    by_cases hdenied : t = .http ∧ Server.deniedBy agent contextId = true
    · simp [hdenied]
    · rw [if_neg hdenied, or_iff_right hdenied]
      refine forall₂_congr fun q hq => forall₂_congr fun start hstart =>
        imp_congr_right fun _ => ?_
      have hmem : e.startItem p agent contextId t q.toRequest start ∈
          queries.filterMap fun q =>
            (starts q.id).map (e.startItem p agent contextId t q.toRequest) := by
        refine List.mem_filterMap.2 ⟨q, hq, ?_⟩
        rw [Option.mem_def.1 hstart]
        rfl
      rw [imp_iff_right hmem]
      refine (refuses_batchItem_iff (s := start.1)
        (c := ⟨.batch t, contextId, q.toRequest, start.2.instant⟩)).trans ?_
      exact or_iff_right hdenied

end Entries

/-- An entry point refuses what `execute_query` would refuse exactly if it has another reason. -/
theorem gates_iff (p : Platform) (e : EntryState) (agent : Option AgentIdentity)
    (contextId : String) (entry : Entry) :
    e.Gates p agent contextId entry ↔ e.RefusesAnyway p agent contextId entry := by
  cases entry with
  | query t request allowed =>
    refine iff_of_true ?_ trivial
    intro hgated piece hpiece
    rw [List.mem_singleton.1 hpiece]
    exact refuses_executeQuery hgated
  | batch t queries starts => exact gates_batch_iff t queries starts
  | federated t query topK remote =>
    refine imp_congr_right fun _ => ?_
    simp only [EntryState.handleFederated, List.mem_singleton, forall_eq]
    exact refuses_handleFederated_iff

def pausedServer : Server := { smallServer with app := { smallServer.app with paused := true } }

/-- A paused proxy asks the upstream for the query of a batch. -/
theorem paused_batch_dispatched :
    ¬ ∀ (p : Platform) (e : EntryState) (agent : Option AgentIdentity) (contextId : String)
      (entry : Entry), e.Gates p agent contextId entry := by
  intro h
  have hgates := h Platform.sample { docsServer with server := pausedServer } none "docs"
    (.batch .http [⟨"1", "q", none, none⟩] fun _ => some (pausedServer, ⟨0, 0⟩))
  refine not_refuses_of_answers ?_
    (hgates _ (List.mem_singleton.2 rfl) _ rfl rfl (List.mem_singleton.2 rfl))
  rfl

end Conproxy
