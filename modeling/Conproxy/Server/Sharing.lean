import Conproxy.Server.Exits
import Conproxy.Server.Isolation

/-!
# Requests that share an answer

The key of a query holds neither `top_k` nor an upstream, so two requests that differ only there
share an entry and a leader. A query that is served from the cache, or by a leader it waited for,
gets what it asked for exactly if the fetch behind it was for a request of the same kind and
brought no more results than the query wants.
-/

namespace Conproxy

open CacheStore Machine

set_option autoImplicit false

/-- Two requests for as many results from the same upstream. -/
def QueryRequest.AsksLike (r request : QueryRequest) : Prop :=
  r.effectiveTopK = request.effectiveTopK ∧ r.upstreamId = request.upstreamId ∧
    r.upstreamType = request.upstreamType

instance (r request : QueryRequest) : Decidable (r.AsksLike request) :=
  inferInstanceAs (Decidable (_ ∧ _))

theorem QueryRequest.AsksLike.refl (r : QueryRequest) : r.AsksLike r := ⟨rfl, rfl, rfl⟩

/-- The answer was fetched under the key of its request, by a request of the same kind. If it
was not fetched for this client, it has no more results than the client wants. -/
def Answer.Acceptable (p : Platform) (a : Answer) : Prop :=
  (a.source = .nowhere ∧ a.reply.results = []) ∨
  ∃ f r, a.source.fetch = some f ∧ f.key.hash p = a.client.key.hash p ∧
    a.reply.results = f.results ∧ f.request = some r ∧ r.AsksLike a.client.request ∧
    (a.source ≠ .fetched f → a.reply.results.length ≤ a.client.request.effectiveTopK)

def Server.Acceptable (p : Platform) (s : Server) : Prop :=
  ∀ a ∈ s.answers, a.client.handler = .query → a.Acceptable p

/-- A query that is answered with what was fetched before. -/
structure Reuse where
  request : QueryRequest
  fetch : Option Fetch

/-- Only a peer's fetch has no known request, and it suits nobody. -/
def Fetch.suits (f : Fetch) (request : QueryRequest) : Bool :=
  f.results.length ≤ request.effectiveTopK && f.request.any fun r => decide (r.AsksLike request)

def Reuse.suits (x : Reuse) : Bool := x.fetch.any fun f => f.suits x.request

/-- The hash of the entry that a query is served from at an exit. -/
def Exit.serves (h : QueryHash) : Exit → Option QueryHash
  | .fresh | .stale | .frozen | .cachedOnly => some h
  | .semantic matched => some matched
  | _ => none

def Client.asking (c : Client) (x : Option Reuse) : Option Reuse :=
  if c.handler = .query then x else none

namespace Server

def servedAt (s : Server) (c : Client) (h : Option QueryHash) : Option Reuse :=
  c.asking (h.map fun h => ⟨c.request, s.origins.lookup h⟩)

variable (p : Platform)

/-- The entry that is left when the upstream or the leader has failed. -/
def heldFor (s : Server) (c : Client) : Option QueryHash :=
  if c.key.hash p ∈ s.app.cache.entries then some (c.key.hash p) else none

/-- What a step answers a query with, if it does not answer with what the query's own task has
fetched. -/
def reused (s : Server) (a : Action) : Option Reuse :=
  match a.event with
  | .query contextId request agent skipCache allowed =>
    let c : Client := ⟨.query, contextId, request, a.now.instant⟩
    s.servedAt c ((s.queryExit p a.now c agent skipCache allowed).serves (c.key.hash p))
  | .embedded id embedding scan allowed =>
    match s.tasks.lookup id with
    | some (.embedding c _) =>
      s.servedAt c ((s.semanticExit p a.now c embedding scan allowed).serves (c.key.hash p))
    | _ => none
  | .returned id outcome _ =>
    match s.tasks.lookup id with
    | some (.leading c upstreams _ _) =>
      match upstreams.dispatch outcome with
      | .error _ => s.servedAt c (s.heldFor p c)
      | .ok _ => none
    | _ => none
  | .received id =>
    match s.tasks.lookup id with
    | some (.waiting c receiver) =>
      match s.sent.lookup receiver with
      | some (.ok b) => c.asking (some ⟨c.request, b.source.fetch⟩)
      | some (.error _) => s.servedAt c (s.heldFor p c)
      | none => none
    | _ => none
  | _ => none

/-- What a step reuses was fetched for a request that is as good for the query it answers. -/
def ReusesSuitably (s : Server) (a : Action) : Prop := (s.reused p a).all Reuse.suits = true

instance (s : Server) (a : Action) : Decidable (s.ReusesSuitably p a) :=
  inferInstanceAs (Decidable (_ = _))

end Server

/-! ## The reuses in the answers -/

/-- The results were read from the cache or received from a leader. -/
def Source.reuses : Source → Bool
  | .nowhere | .fetched _ => false
  | .entry _ _ _ | .shared _ => true

def Answer.reuse (a : Answer) : Option Reuse :=
  if a.source.reuses then a.client.asking (some ⟨a.client.request, a.source.fetch⟩) else none

/-- What was reused for the answers so far, the last one first. -/
def Server.reuses (s : Server) : List Reuse := s.answers.filterMap Answer.reuse

namespace Server

variable {p : Platform} {s : Server} {now : Clock} {id : Nat} {c : Client}
  {missReason : MissReason} {embedding : Option Embedding} {allowed : Bool}

theorem reuses_congr {s' : Server} (h : s'.answers = s.answers) : s'.reuses = s.reuses :=
  congrArg (List.filterMap Answer.reuse) h

theorem reuses_answer (c : Client) (source : Source) (reply : Reply) :
    (s.answer c source reply).reuses = (Answer.reuse ⟨c, source, reply⟩).toList ++ s.reuses := by
  unfold reuses answer
  rw [List.filterMap_cons]
  cases Answer.reuse ⟨c, source, reply⟩ <;> rfl

theorem reuses_answer_of_not {source : Source} (h : source.reuses = false) (c : Client)
    (reply : Reply) : (s.answer c source reply).reuses = s.reuses := by
  rw [reuses_answer, Answer.reuse, h]
  rfl

theorem reuses_answer_other (hc : c.handler ≠ .query) (source : Source) (reply : Reply) :
    (s.answer c source reply).reuses = s.reuses := by
  rw [reuses_answer, Answer.reuse, Client.asking, if_neg hc, ite_self]
  rfl

theorem reuses_complete (h : QueryHash) (result : CoalesceResult) :
    (s.complete h result).reuses = s.reuses := by
  unfold complete
  split <;> rfl

theorem reuses_coalesce (upstreams : Upstreams) :
    (s.coalesce p id c upstreams missReason embedding).reuses = s.reuses := by
  unfold coalesce
  split <;> rfl

theorem reuses_refuse (reason : Option MissReason) (status : Nat) :
    (s.refuse now c reason status).reuses = s.reuses :=
  reuses_answer_of_not rfl c _

theorem reuses_serve {s' : Server} (hs : s'.answers = s.answers) (status : CacheStatus)
    (e : CacheEntry) (h : QueryHash) :
    (serve now c status e (s.entrySource p now h) s').reuses =
      (s.servedAt c (some h)).toList ++ s.reuses := by
  unfold serve
  rw [reuses_answer, reuses_congr hs]
  rfl

@[simp] theorem servedAt_none (c : Client) : s.servedAt c none = none := by
  unfold servedAt Client.asking
  split <;> rfl

theorem heldFor_of_lookup {e : CacheEntry}
    (hl : s.app.cache.entries.lookup (c.key.hash p) = some e) :
    s.heldFor p c = some (c.key.hash p) :=
  if_pos (AList.lookup_isSome.1 (by rw [hl]; rfl))

theorem heldFor_of_none (hl : s.app.cache.entries.lookup (c.key.hash p) = none) :
    s.heldFor p c = none :=
  if_neg (AList.lookup_eq_none.1 hl)

theorem read_byHash_of_none {h : QueryHash} {found : CacheEntry → Source → Server → Server}
    {missing : Server → Server} (hl : s.app.cache.entries.lookup h = none) :
    s.read p now (.byHash h) found missing = missing s :=
  read_of_none hl

theorem reuses_readServe (status : CacheStatus) (reason : Option MissReason) (code : Nat) :
    (s.read p now (.byHash (c.key.hash p)) (serve now c status)
        fun s => s.refuse now c reason code).reuses =
      (s.servedAt c (s.heldFor p c)).toList ++ s.reuses := by
  cases hl : s.app.cache.entries.lookup (c.key.hash p) with
  | some e =>
    rw [read_byHash hl, heldFor_of_lookup hl]
    exact reuses_serve rfl status e _
  | none =>
    rw [read_byHash_of_none hl, heldFor_of_none hl, reuses_refuse, servedAt_none]
    rfl

theorem reuses_afterMiss :
    (s.afterMiss p now id c missReason embedding allowed).reuses =
      (s.servedAt c ((s.missExit p c allowed).serves (c.key.hash p))).toList ++ s.reuses := by
  unfold afterMiss missExit
  split
  · split
    · rw [reuses_coalesce]
      split <;> simp [Exit.serves]
    · dsimp only
      rw [reuses_readServe, heldFor]
      split <;> rfl
  · dsimp only
    rw [reuses_readServe, heldFor]
    split <;> rfl

theorem reuses_semanticTier :
    (s.semanticTier p now id c missReason allowed).reuses =
      (s.servedAt c ((s.tierExit p c allowed).serves (c.key.hash p))).toList ++ s.reuses := by
  unfold semanticTier tierExit
  split
  · simp only [Exit.serves, servedAt_none]
    rfl
  · exact reuses_afterMiss

theorem reuses_semanticLookup {embedded : Option Embedding} {scan : TierScan} :
    (s.semanticLookup p now id c missReason embedded scan allowed).reuses =
      (s.servedAt c ((s.semanticExit p now c embedded scan allowed).serves
        (c.key.hash p))).toList ++ s.reuses := by
  unfold semanticLookup semanticExit semanticMatch
  cases s.app.semanticCache with
  | none => cases embedded <;> exact reuses_afterMiss
  | some tier =>
    cases embedded with
    | none => exact reuses_afterMiss
    | some embedding =>
      dsimp only
      cases tier.lookup p (tier.iter scan) embedding with
      | none => exact reuses_afterMiss
      | some matched =>
        dsimp only
        cases hf : s.app.cache.checkFreshnessByHash p now matched with
        | none => exact reuses_afterMiss
        | some freshness =>
          obtain ⟨e, hl⟩ := lookup_of_classified hf
          cases freshness with
          | expired => exact reuses_afterMiss
          | fresh | stale | frozen =>
            dsimp only
            rw [read_byHash hl]
            exact reuses_serve rfl _ e matched

theorem reuses_executeQuery {agent : Option AgentIdentity} {skipCache : Bool} :
    (s.executeQuery p now id c agent skipCache allowed).reuses =
      (s.servedAt c ((s.queryExit p now c agent skipCache allowed).serves
        (c.key.hash p))).toList ++ s.reuses := by
  have hrefused (reason : Option MissReason) (status : Nat) (exit : Exit)
      (hexit : exit.serves (c.key.hash p) = none) :
      (s.refuse now c reason status).reuses =
        (s.servedAt c (exit.serves (c.key.hash p))).toList ++ s.reuses := by
    rw [reuses_refuse, hexit, servedAt_none]
    rfl
  unfold executeQuery queryExit
  split
  · exact hrefused _ _ .paused rfl
  cases c.request.validate with
  | error e => exact hrefused _ _ .invalid rfl
  | ok _ =>
    dsimp only
    split
    · exact hrefused _ _ .denied rfl
    cases skipCache with
    | true => exact reuses_afterMiss
    | false =>
      simp only [Bool.false_eq_true, if_false]
      cases hf : s.app.cache.checkFreshnessByHash p now (c.key.hash p) with
      | none => exact reuses_semanticTier
      | some freshness =>
        obtain ⟨e, hl⟩ := lookup_of_classified hf
        cases freshness with
        | fresh =>
          dsimp only
          rw [read_byHash hl]
          exact reuses_serve rfl _ e _
        | stale =>
          dsimp only
          rw [read_byHash hl]
          unfold serveStale
          dsimp only
          split <;> exact reuses_serve rfl _ e _
        | expired | frozen => exact reuses_semanticTier

theorem reuses_leaderOk {scan : Scan} {stashed computed : Option Embedding}
    {returned : QueryResponse} :
    (s.leaderOk p now scan c missReason stashed computed returned).reuses = s.reuses := by
  have hshare (s' : Server) (response : QueryResponse) (f : Fetch) :
      (s'.share p now c response (.fetched f)).reuses = s'.reuses := by
    unfold share
    dsimp only
    rw [reuses_answer_of_not rfl, reuses_complete]
  unfold leaderOk
  dsimp only
  split <;> exact hshare _ _ _

theorem reuses_leaderErr {message : String} :
    (s.leaderErr p now c message).reuses =
      (s.servedAt c (s.heldFor p c)).toList ++ s.reuses := by
  unfold leaderErr
  cases hl : s.app.cache.entries.lookup (c.key.hash p) with
  | some e =>
    rw [read_byHash hl, heldFor_of_lookup hl]
    refine reuses_serve ?_ _ e _
    unfold complete
    split <;> rfl
  | none =>
    rw [read_byHash_of_none hl, heldFor_of_none hl, reuses_refuse, reuses_complete, servedAt_none]
    rfl

theorem reuses_waiterDone {result : CoalesceResult} :
    (s.waiterDone p now c result).reuses =
      (match result with
        | .ok b => c.asking (some ⟨c.request, b.source.fetch⟩)
        | .error _ => s.servedAt c (s.heldFor p c)).toList ++ s.reuses := by
  unfold waiterDone
  cases result with
  | ok b => exact reuses_answer c _ _
  | error m => exact reuses_readServe _ _ _

section Others

variable {t : Transport} (hc : c.handler ≠ .query)

include hc

theorem reuses_serveItem {s' : Server} (hs : s'.answers = s.answers) (status : CacheStatus)
    (e : CacheEntry) (source : Source) : (serveItem now c status e source s').reuses = s.reuses :=
  (reuses_answer_other hc _ _).trans (reuses_congr hs)

theorem reuses_readItem (look : Lookup) (status : CacheStatus) {missing : Server → Server}
    (hmissing : (missing s).reuses = s.reuses) :
    (s.read p now look (serveItem now c status) missing).reuses = s.reuses := by
  cases hl : s.app.cache.entries.lookup (look.hash p s.app.cache) with
  | some e =>
    rw [read_of_lookup hl]
    exact reuses_serveItem hc rfl _ _ _
  | none => rw [read_of_none hl, hmissing]

theorem reuses_of_itemLeaves {upstreams : Upstreams} {exit : ItemExit} {s' : Server}
    (h : ItemLeaves p s now id c t upstreams exit s') : s'.reuses = s.reuses := by
  cases h with
  | denied | failed => exact reuses_answer_of_not rfl c _
  | served status hl => exact reuses_serveItem hc rfl status _ _
  | leads | waits => exact reuses_coalesce upstreams

theorem reuses_of_federatedLeaves {exit : FederatedExit} {s' : Server}
    (h : FederatedLeaves p s now id c exit s') : s'.reuses = s.reuses := by
  cases h with
  | denied | unavailable | localOnly => exact reuses_answer_of_not rfl c _
  | served response hl hresults => exact reuses_answer_other hc _ _
  | asks => rfl

theorem reuses_batchOk {scan : Scan} {returned : QueryResponse} :
    (s.batchOk p now scan c t missReason returned).reuses = s.reuses := by
  unfold batchOk
  dsimp only
  rw [reuses_answer_other hc, reuses_complete]
  split <;> rfl

theorem reuses_batchErr {message : String} :
    (s.batchErr p now c t message).reuses = s.reuses := by
  unfold batchErr
  cases hl : s.app.cache.entries.lookup ((batchLookup p t c.key).hash p s.app.cache) with
  | some e =>
    rw [read_of_lookup hl]
    refine (reuses_answer_other hc _ _).trans ?_
    exact reuses_complete (s := s.setCache _) _ _
  | none =>
    rw [read_of_none hl]
    exact (reuses_answer_of_not rfl c _).trans (reuses_complete _ _)

theorem reuses_batchWaiterDone {result : CoalesceResult} :
    (s.batchWaiterDone p now c t result).reuses = s.reuses := by
  unfold batchWaiterDone
  cases result with
  | ok b => exact reuses_answer_other hc _ _
  | error m => exact reuses_readItem hc _ _ (reuses_answer_of_not rfl c _)

end Others

/-! ## Steps -/

theorem reuses_resume {scan : Scan} {task : Task} {outcome : Except String QueryResponse}
    {computed : Option Embedding} :
    (s.resume p now scan task outcome computed).reuses =
      (match task with
        | .leading c upstreams _ _ =>
          match upstreams.dispatch outcome with
          | .error _ => s.servedAt c (s.heldFor p c)
          | .ok _ => none
        | _ => none).toList ++ s.reuses := by
  cases task with
  | leading c upstreams missReason embedding =>
    unfold resume
    dsimp only
    split
    · rename_i hdispatch
      rw [hdispatch]
      exact reuses_leaderOk
    · rename_i hdispatch
      rw [hdispatch]
      exact reuses_leaderErr
    · rename_i t response hhandler hdispatch
      rw [hdispatch]
      exact reuses_batchOk (by rw [hhandler]; nofun)
    · rename_i t message hhandler hdispatch
      have hc : c.handler ≠ .query := by
        rw [hhandler]
        nofun
      rw [hdispatch, servedAt, Client.asking, if_neg hc]
      exact reuses_batchErr hc
    · rename_i t hhandler
      have hc : c.handler ≠ .query := by
        rw [hhandler]
        nofun
      rw [servedAt, Client.asking, if_neg hc]
      split <;> rfl
  | federating c =>
    simp only [resume, federatedDone]
    split
    · exact reuses_answer_of_not rfl c _
    · rw [reuses_answer_of_not rfl]
      split <;> rfl
  | refreshing key =>
    simp only [resume, staleRefreshed]
    split
    · rfl
    · split <;> rfl
  | tracking key =>
    simp only [resume, refreshed]
    split <;> rfl
  | warming key =>
    simp only [resume, warmed]
    split
    · rfl
    · split <;> rfl
  | embedding c missReason => rfl
  | waiting c receiver => rfl

theorem reuses_receive {result : CoalesceResult} :
    (s.receive p now c result).reuses =
      (match result with
        | .ok b => c.asking (some ⟨c.request, b.source.fetch⟩)
        | .error _ => s.servedAt c (s.heldFor p c)).toList ++ s.reuses := by
  have hnone (hc : c.handler ≠ .query) : (match result with
        | .ok b => c.asking (some ⟨c.request, b.source.fetch⟩)
        | .error _ => s.servedAt c (s.heldFor p c)) = none := by
    cases result <;> exact if_neg hc
  unfold receive
  split
  · exact reuses_waiterDone
  · rename_i t hhandler
    have hc : c.handler ≠ .query := by
      rw [hhandler]
      nofun
    rw [hnone hc]
    exact reuses_batchWaiterDone hc
  · rename_i t hhandler
    rw [hnone (by rw [hhandler]; nofun)]
    rfl

/-- What a step reuses is all that it adds to the reuses. -/
theorem reuses_step (s : Server) (a : Action) :
    (s.step p a).reuses = (s.reused p a).toList ++ s.reuses := by
  obtain ⟨now, scan, event⟩ := a
  cases event with
  | query contextId request agent skipCache allowed => exact reuses_executeQuery
  | batch t contextId request agent upstreams =>
    have hitem : ItemLeaves p s.arrive now s.nextTask
        ⟨.batch t, contextId, request, now.instant⟩ t upstreams _
        (s.step p ⟨now, scan, .batch t contextId request agent upstreams⟩) :=
      itemLeaves_batchItem
    have hc : Handler.batch t ≠ .query := nofun
    exact (reuses_of_itemLeaves hc hitem).trans rfl
  | federated t contextId query topK agent remote =>
    have hfederated : FederatedLeaves p s.arrive now s.nextTask
        ⟨.federated t, contextId, ⟨query, topK, none, none, none⟩, now.instant⟩ _
        (s.step p ⟨now, scan, .federated t contextId query topK agent remote⟩) :=
      federatedLeaves_handleFederated
    have hc : Handler.federated t ≠ .query := nofun
    exact (reuses_of_federatedLeaves hc hfederated).trans rfl
  | embedded id embedding tierScan allowed =>
    simp only [step, reused]
    cases s.tasks.lookup id with
    | none => rfl
    | some task =>
      cases task with
      | embedding c missReason => exact reuses_semanticLookup
      | _ => rfl
  | returned id outcome computed =>
    simp only [step, reused]
    cases s.tasks.lookup id with
    | none => rfl
    | some task =>
      cases task with
      | embedding | waiting => rfl
      | leading | federating | refreshing | tracking | warming => exact reuses_resume
  | received id =>
    simp only [step, reused]
    cases s.tasks.lookup id with
    | none => rfl
    | some task =>
      cases task with
      | waiting c receiver =>
        dsimp only
        cases s.sent.lookup receiver with
        | none => rfl
        | some result => cases result <;> exact reuses_receive
      | _ => rfl
  | refreshStale h =>
    simp only [step, refreshStale]
    split
    · rfl
    · split
      · split <;> rfl
      · rfl
  | warmup contextId query =>
    simp only [step, warmup]
    split
    · rfl
    · split <;> rfl
  | replicated key response upstreamId applies =>
    simp only [step, replicated]
    split <;> rfl
  | maintenance op =>
    simp only [step]
    split <;> rfl
  | dropped id => rfl
  | reconfigured upstreams federatedEnabled paused => rfl

end Server

theorem Fetch.suits_iff {f : Fetch} {request : QueryRequest} :
    f.suits request = true ↔
      f.results.length ≤ request.effectiveTopK ∧ ∃ r, f.request = some r ∧ r.AsksLike request := by
  unfold Fetch.suits
  cases f.request with
  | none => simp
  | some r => simp

variable {p : Platform} {K : Set Key} {s : Server}

theorem Answer.Traced.acceptable_iff {a : Answer} (ha : a.Traced p K)
    (hquery : a.client.handler = .query) :
    a.Acceptable p ↔ ∀ x, a.reuse = some x → x.suits = true := by
  unfold Answer.reuse Client.asking
  cases ha with
  | empty hsource hresults =>
    rw [hsource]
    exact iff_of_true (.inl ⟨hsource, hresults⟩) (fun x hx => by cases hx)
  | traced hknown hsource hown =>
    obtain ⟨f, hfetch, hfor⟩ := hsource
    cases hreuses : a.source.reuses with
    | false =>
      refine iff_of_true (.inr ?_) (fun x hx => by cases hx)
      have hsource : a.source = .fetched f := by
        cases hs : a.source with
        | nowhere =>
          rw [hs] at hfetch
          cases hfetch
        | fetched g =>
          rw [hs] at hfetch
          cases hfetch
          rfl
        | entry | shared =>
          rw [hs] at hreuses
          cases hreuses
      exact ⟨f, a.client.request, hfetch, hfor.hash, hfor.results.symm, (hown f hsource).2,
        .refl _, fun hne => absurd hsource hne⟩
    | true =>
      have hne (g : Fetch) : a.source ≠ .fetched g := by
        intro hs
        rw [hs] at hreuses
        cases hreuses
      have hsuits : (∀ x, (if true = true then if a.client.handler = .query then
          some (⟨a.client.request, a.source.fetch⟩ : Reuse) else none else none) = some x →
            x.suits = true) ↔ f.suits a.client.request = true := by
        rw [if_pos rfl, if_pos hquery, hfetch]
        constructor
        · intro h
          exact h _ rfl
        · rintro h x hx
          cases hx
          exact h
      rw [hsuits, Fetch.suits_iff]
      constructor
      · rintro (⟨hnowhere, -⟩ | ⟨g, r, hg, -, hresults, hr, hlike, hlength⟩)
        · rw [hnowhere] at hfetch
          cases hfetch
        · rw [hfetch] at hg
          cases hg
          rw [← hresults]
          exact ⟨hlength (hne f), r, hr, hlike⟩
      · rintro ⟨hlength, r, hr, hlike⟩
        refine .inr ⟨f, r, hfetch, hfor.hash, hfor.results.symm, hr, hlike, fun _ => ?_⟩
        rwa [← hfor.results]

namespace Provenance

theorem acceptable_iff (hs : Provenance p K s) :
    s.Acceptable p ↔ ∀ x ∈ s.reuses, x.suits = true := by
  unfold Server.Acceptable Server.reuses
  simp only [List.mem_filterMap]
  constructor
  · rintro h x ⟨a, ha, hx⟩
    have hquery : a.client.handler = .query := by
      by_contra hother
      simp [Answer.reuse, Client.asking, hother] at hx
    exact ((hs.answers a ha).acceptable_iff hquery).1 (h a ha hquery) x hx
  · intro h a ha hquery
    exact ((hs.answers a ha).acceptable_iff hquery).2 fun x hx => h x ⟨a, ha, hx⟩

theorem acceptable_step_iff (hK : CollisionFree p K) {a : Action}
    (ha : ∀ k ∈ a.event.keys, k ∈ K) (hs : Provenance p K s) (hgood : s.Acceptable p) :
    (s.step p a).Acceptable p ↔ s.ReusesSuitably p a := by
  rw [(step hK s a ha hs).acceptable_iff, Server.reuses_step, Server.ReusesSuitably]
  cases s.reused p a with
  | none => exact iff_of_true (hs.acceptable_iff.1 hgood) rfl
  | some x =>
    rw [Option.toList_some, List.singleton_append, List.forall_mem_cons, Option.all_some]
    exact and_iff_left (hs.acceptable_iff.1 hgood)

end Provenance

def twoResults : QueryResponse :=
  { textResponse "x" with
    results := [⟨"1", .finite 0, "x", none, none⟩, ⟨"2", .finite 0, "y", none, none⟩] }

def tenResults : QueryRequest := ⟨"q", some 10, none, none, none⟩

def oneResultFromB : QueryRequest := ⟨"q", some 1, none, some "b", none⟩

end Conproxy
