import Conproxy.Server.Parity

/-!
# Federated requests while federated search is off

The two federated handlers then read the cache themselves, by the text of the key. They look
at no freshness, and what the cache does not hold is refused. `execute_query` is followed here to
its answer, with what it is told from outside on the way as an argument.
-/

namespace Conproxy

open CacheStore

set_option autoImplicit false

/-- The results and the cache status that a client reads. -/
abbrev Seen := Option (List SearchResult × CacheStatus)

/-- A refusal has an empty body by HTTP and is an error by gRPC. -/
def Transport.refusal : Transport → Seen
  | .http => some ([], .miss)
  | .grpc => none

/-- The gRPC service turns every status but 200 into an error. -/
def Reply.seen (t : Transport) : Reply → Seen
  | .result response status =>
    if status ≠ 200 ∧ t = .grpc then none
    else some (response.intoQueryResponse.results, response.intoQueryResponse.cacheStatus)
  | .remote (some response) => some (response.results, response.cacheStatus)
  | .refused _ => t.refusal
  | _ => none

/-- What one query is told: by the circuit breaker, by the embedder, by the upstream and by the
leader that it may wait for. -/
structure Outside where
  allowed : Bool
  embeddedAt : Clock
  embedding : Option Embedding
  tierScan : TierScan
  allowedLater : Bool
  answeredAt : Clock
  scan : Scan
  outcome : Except String QueryResponse
  computed : Option Embedding
  result : CoalesceResult

/-- A federated request, as both handlers decode it. -/
structure FederatedCall where
  server : Server
  now : Clock
  contextId : String
  query : String
  topK : Option Nat
  agent : Option AgentIdentity
  transport : Transport
  remote : Bool

namespace Server

variable (p : Platform)

def alone (s : Server) : Server := { s with tasks := ∅, answers := [] }

/-- A suspended query goes on. -/
def proceed (s : Server) (id : Nat) (o : Outside) : Server :=
  match s.tasks.lookup id with
  | some (.embedding c missReason) =>
    (s.finish id).semanticLookup p o.embeddedAt id c missReason o.embedding o.tierScan
      o.allowedLater
  | some (.waiting c _) => (s.finish id).receive p o.answeredAt c o.result
  | some task => (s.finish id).resume p o.answeredAt o.scan task o.outcome o.computed
  | none => s

end Server

namespace FederatedCall

variable (p : Platform) (x : FederatedCall) (o : Outside)

def client (handler : Handler) : Client :=
  ⟨handler, x.contextId, ⟨x.query, x.topK, none, none, none⟩, x.now.instant⟩

def key : Key := ⟨x.contextId, x.query⟩

def answered : List Seen :=
  (x.server.alone.arrive.handleFederated p x.now x.server.nextTask
    (x.client (.federated x.transport)) x.transport x.agent x.remote).answers.map
      fun a => a.reply.seen x.transport

/-- What `execute_query` answers: it is suspended twice at most. -/
def executed : List Seen :=
  let id := x.server.nextTask
  ((((x.server.alone.arrive.executeQuery p x.now id (x.client .query) x.agent false
    o.allowed).proceed p id o).proceed p id o).answers).map fun a => a.reply.seen x.transport

/-- The exit of the part of `execute_query` that decides. -/
def exit : Exit :=
  match x.server.queryExit p x.now (x.client .query) x.agent false o.allowed with
  | .embeds =>
    x.server.semanticExit p o.embeddedAt (x.client .query) o.embedding o.tierScan o.allowedLater
  | exit => exit

/-- The entry that `get` finds for the text of the key. -/
def found : Option CacheEntry :=
  x.server.app.cache.entries.lookup (x.server.app.cache.foundAt p x.key.text)

def own : Option CacheEntry := x.server.app.cache.entries.lookup (x.key.hash p)

def Finds (results : List SearchResult) : Prop :=
  ∃ e, x.found p = some e ∧ e.response.results = results

def refused : Bool := x.transport = .http && Server.deniedBy x.agent x.contextId

/-- The answer of `execute_query` is what a lookup by text finds, or both come back empty. -/
def Delegable : Prop :=
  x.refused = true ∨
    match x.exit p o with
    | .paused | .invalid | .denied | .circuitOpen | .noUpstream => x.found p = none
    | .fresh | .cachedOnly => x.Finds p (x.server.app.cache.listed (x.key.hash p))
    | .semantic matched => x.Finds p (x.server.app.cache.listed matched)
    | .leads =>
      match x.server.app.upstreams.dispatch o.outcome with
      | .ok returned =>
        x.transport = .http ∧ x.found p = none ∧
          x.server.app.scopeFilterFor x.contextId returned.results = []
      | .error _ => x.found p = none ∧ x.own p = none
    | .waits _ =>
      match o.result with
      | .ok b =>
        (b.response.cacheStatus = .hit ∧ x.Finds p b.response.results) ∨
          (x.transport = .http ∧ x.found p = none ∧ b.response.cacheStatus = .miss ∧
            b.response.results = [])
      | .error _ => x.found p = none ∧ x.own p = none
    | .stale | .frozen | .embeds => False

end FederatedCall

/-! ## What a part of a query answers -/

/-- One answer was given, and a client reads this of it. -/
def Sees (t : Transport) (s s' : Server) (seen : Seen) : Prop :=
  ∃ a, s'.answers = a :: s.answers ∧ a.reply.seen t = seen

/-- What a client reads of the entry under a hash. -/
def CacheStore.held (s : CacheStore) (t : Transport) (status : CacheStatus) (h : QueryHash) :
    Seen :=
  match s.entries.lookup h with
  | some e => some (e.response.results, status)
  | none => t.refusal

namespace Server

variable {p : Platform} {s : Server} {now : Clock} {id : Nat} {c : Client} {t : Transport}

theorem sees_read {base : Server} (look : Lookup)
    {found : CacheEntry → Source → Server → Server} {missing : Server → Server}
    {status : CacheStatus}
    (hfound : ∀ e source cache,
      Sees t base (found e source (s.setCache cache)) (some (e.response.results, status)))
    (hmissing : Sees t base (missing s) t.refusal) :
    Sees t base (s.read p now look found missing)
      (s.app.cache.held t status (look.hash p s.app.cache)) := by
  unfold CacheStore.held
  cases hl : s.app.cache.entries.lookup (look.hash p s.app.cache) with
  | some e =>
    rw [read_of_lookup hl]
    exact hfound e _ _
  | none =>
    rw [read_of_none hl]
    exact hmissing

theorem sees_serve {base : Server} (hbase : s.answers = base.answers) (status : CacheStatus)
    (e : CacheEntry) (source : Source) :
    Sees t base (serve now c status e source s) (some (e.response.results, status)) :=
  ⟨_, congrArg (List.cons _) hbase, rfl⟩

theorem sees_refuse {base : Server} (hbase : s.answers = base.answers)
    (missReason : Option MissReason) {status : Nat} (hstatus : status ≠ 200) :
    Sees t base (s.refuse now c missReason status) t.refusal := by
  refine ⟨_, congrArg (List.cons _) hbase, ?_⟩
  cases t with
  | http => exact if_neg fun h => by cases h.2
  | grpc => exact if_pos ⟨hstatus, rfl⟩

theorem sees_share {base : Server} (hbase : s.answers = base.answers) (response : QueryResponse)
    (source : Source) :
    Sees t base (s.share p now c response source) (some (response.results, response.cacheStatus)) :=
  ⟨_, congrArg (List.cons _) ((answers_complete s _ _).trans hbase), rfl⟩

theorem sees_leaderOk {base : Server} (hbase : s.answers = base.answers) (scan : Scan)
    (missReason : MissReason) (stashed computed : Option Embedding) (returned : QueryResponse) :
    Sees t base (s.leaderOk p now scan c missReason stashed computed returned)
      (some (s.app.scopeFilterFor c.contextId returned.results, .miss)) := by
  unfold leaderOk
  dsimp only
  split
  · exact sees_share hbase _ _
  · refine sees_share ?_ _ _
    exact hbase

theorem sees_leaderErr {base : Server} (hbase : s.answers = base.answers) (message : String) :
    Sees t base (s.leaderErr p now c message) (s.app.cache.held t .frozen (c.key.hash p)) := by
  refine sees_read (.byHash (c.key.hash p)) (fun e source cache => ?_) ?_
  · refine sees_serve ?_ _ _ _
    exact (answers_complete _ _ _).trans hbase
  · refine sees_refuse ?_ _ (by decide)
    exact (answers_complete _ _ _).trans hbase

/-- What a waiting query answers. -/
def waited (p : Platform) (s : Server) (t : Transport) (c : Client) (result : CoalesceResult) :
    Seen :=
  match result with
  | .ok b => some (b.response.results, b.response.cacheStatus)
  | .error _ => s.app.cache.held t .frozen (c.key.hash p)

theorem sees_waiterDone {base : Server} (hbase : s.answers = base.answers)
    (result : CoalesceResult) :
    Sees t base (s.waiterDone p now c result) (s.waited p t c result) := by
  cases result with
  | ok b => exact ⟨_, congrArg (List.cons _) hbase, rfl⟩
  | error message =>
    refine sees_read (.byHash (c.key.hash p)) (fun e source cache => ?_) ?_
    · exact sees_serve hbase _ _ _
    · exact sees_refuse hbase _ (by decide)

/-- What a leading query answers. -/
def led (p : Platform) (s : Server) (t : Transport) (c : Client)
    (outcome : Except String QueryResponse) : Seen :=
  match s.app.upstreams.dispatch outcome with
  | .ok returned => some (s.app.scopeFilterFor c.contextId returned.results, .miss)
  | .error _ => s.app.cache.held t .frozen (c.key.hash p)

/-- What a query answers that leaves through an exit. -/
def settled (p : Platform) (s : Server) (t : Transport) (c : Client) (o : Outside) : Exit → Seen
  | .paused | .invalid | .denied | .circuitOpen | .noUpstream | .embeds => t.refusal
  | .fresh | .cachedOnly => s.app.cache.held t .hit (c.key.hash p)
  | .semantic matched => s.app.cache.held t .hit matched
  | .stale => s.app.cache.held t .stale (c.key.hash p)
  | .frozen => s.app.cache.held t .frozen (c.key.hash p)
  | .leads => s.led p t c o.outcome
  | .waits _ => s.waited p t c o.result

theorem proceed_of_none {o : Outside} (h : s.tasks.lookup id = none) :
    s.proceed p id o = s := by
  unfold proceed
  rw [h]

/-- A query that is not waiting for its embedding ends when it goes on. -/
theorem lookup_proceed {o : Outside}
    (h : ∀ c missReason, s.tasks.lookup id ≠ some (.embedding c missReason)) :
    (s.proceed p id o).tasks.lookup id = none := by
  have hfree : (s.finish id).tasks.lookup id = none := AList.lookup_erase _ _
  have hresume (task : Task) :
      ((s.finish id).resume p o.answeredAt o.scan task o.outcome o.computed).tasks =
        (s.finish id).tasks :=
    congrArg Prod.fst (schedule_resume task o.outcome o.computed)
  unfold proceed
  cases htask : s.tasks.lookup id with
  | none => exact htask
  | some task =>
    cases task with
    | embedding c missReason => exact absurd htask (h c missReason)
    | waiting c receiver =>
      have hsame : ((s.finish id).receive p o.answeredAt c o.result).tasks =
          (s.finish id).tasks :=
        congrArg Prod.fst (schedule_receive o.result)
      exact (congrArg (AList.lookup id) hsame).trans hfree
    | leading | federating | refreshing | tracking | warming =>
      exact (congrArg (AList.lookup id) (hresume _)).trans hfree

/-- A query has answered, and nothing of it is left. -/
structure Settles (t : Transport) (s s' : Server) (id : Nat) (seen : Seen) : Prop where
  sees : Sees t s s' seen
  done : s'.tasks.lookup id = none

theorem Settles.proceed {s' : Server} {seen : Seen} {o : Outside} (h : Settles t s s' id seen) :
    Settles t s (s'.proceed p id o) id seen := by
  rw [proceed_of_none h.done]
  exact h

section Query

variable (hquery : c.handler = .query)
include hquery

theorem settles_coalesce {o : Outside} {missReason : MissReason} {embedding : Option Embedding} :
    Settles t s ((s.coalesce p id c s.app.upstreams missReason embedding).proceed p id o) id
      (s.settled p t c o
        (match s.app.coalescer.inFlight.lookup (c.key.hash p) with
          | some receiver => .waits receiver
          | none => .leads)) := by
  unfold coalesce RequestCoalescer.getOrInsert
  cases s.app.coalescer.inFlight.lookup (c.key.hash p) with
  | some receiver =>
    have htask : (s.await id (.waiting c receiver)).tasks.lookup id =
        some (.waiting c receiver) := AList.lookup_insert _
    refine ⟨?_, lookup_proceed fun c' missReason' h => ?_⟩
    · dsimp only
      unfold proceed
      rw [htask]
      dsimp only [receive]
      rw [hquery]
      exact sees_waiterDone rfl o.result
    · cases htask.symm.trans h
  | none =>
    have htask (app : AppState) :
        (({ s with app := app }).await id (.leading c s.app.upstreams missReason
          embedding)).tasks.lookup id = some (.leading c s.app.upstreams missReason embedding) :=
      AList.lookup_insert _
    refine ⟨?_, lookup_proceed fun c' missReason' h => ?_⟩
    · dsimp only
      unfold proceed
      rw [htask]
      dsimp only [resume, settled, led]
      rw [hquery]
      cases s.app.upstreams.dispatch o.outcome with
      | ok returned => exact sees_leaderOk rfl _ _ _ _ returned
      | error message => exact sees_leaderErr rfl message
    · cases (htask _).symm.trans h

theorem settles_afterMiss (hid : s.tasks.lookup id = none) {o : Outside} {missReason : MissReason}
    {embedding : Option Embedding} {allowed : Bool} :
    Settles t s ((s.afterMiss p now id c missReason embedding allowed).proceed p id o) id
      (s.settled p t c o (s.missExit p c allowed)) := by
  have hlookup : c.key.hash p ∈ s.app.cache.entries ↔
      ∃ e, s.app.cache.entries.lookup (c.key.hash p) = some e := by
    rw [← AList.lookup_isSome, Option.isSome_iff_exists]
  have hserved (status : CacheStatus) {e : CacheEntry}
      (hl : s.app.cache.entries.lookup (c.key.hash p) = some e) (missing : Server → Server) :
      Settles t s (s.read p now (.byHash (c.key.hash p)) (serve now c status) missing) id
        (s.app.cache.held t status (c.key.hash p)) := by
    unfold CacheStore.held
    rw [read_byHash hl, hl]
    exact ⟨sees_serve rfl _ _ _, hid⟩
  have hrefused (reason : MissReason) {status : Nat} (hstatus : status ≠ 200) :
      Settles t s (s.refuse now c (some reason) status) id t.refusal :=
    ⟨sees_refuse rfl _ hstatus, hid⟩
  unfold afterMiss missExit
  dsimp only
  split
  · split
    · exact settles_coalesce hquery
    · split
      · rename_i hmem
        obtain ⟨e, hl⟩ := hlookup.1 hmem
        exact (hserved .frozen hl _).proceed
      · rename_i hnot
        rw [read_of_none (AList.lookup_eq_none.2 hnot)]
        exact (hrefused .circuitOpen (by decide)).proceed
  · split
    · rename_i hmem
      obtain ⟨e, hl⟩ := hlookup.1 hmem
      exact (hserved .hit hl _).proceed
    · rename_i hnot
      rw [read_of_none (AList.lookup_eq_none.2 hnot)]
      exact (hrefused missReason (by decide)).proceed

theorem settles_semanticLookup (hid : s.tasks.lookup id = none) {o : Outside} (now : Clock)
    (missReason : MissReason) (embedded : Option Embedding) (scan : TierScan) (allowed : Bool) :
    Settles t s
      ((s.semanticLookup p now id c missReason embedded scan allowed).proceed p id o) id
      (s.settled p t c o (s.semanticExit p now c embedded scan allowed)) := by
  unfold semanticLookup semanticExit semanticMatch
  cases s.app.semanticCache with
  | none => cases embedded <;> exact settles_afterMiss hquery hid
  | some tier =>
    cases embedded with
    | none => exact settles_afterMiss hquery hid
    | some embedding =>
      dsimp only
      cases tier.lookup p (tier.iter scan) embedding with
      | none => exact settles_afterMiss hquery hid
      | some matched =>
        dsimp only
        cases hf : s.app.cache.checkFreshnessByHash p now matched with
        | none => exact settles_afterMiss hquery hid
        | some freshness =>
          obtain ⟨e, hl⟩ := lookup_of_classified hf
          cases freshness with
          | expired => exact settles_afterMiss hquery hid
          | fresh | stale | frozen =>
            dsimp only [settled]
            unfold CacheStore.held
            rw [read_byHash hl, hl]
            exact Settles.proceed ⟨sees_serve rfl _ _ _, hid⟩

theorem settles_semanticTier (hid : s.tasks.lookup id = none) {o : Outside}
    {missReason : MissReason} :
    Settles t s
      (((s.semanticTier p now id c missReason o.allowed).proceed p id o).proceed p id o) id
      (s.settled p t c o
        (match s.tierExit p c o.allowed with
          | .embeds =>
            s.semanticExit p o.embeddedAt c o.embedding o.tierScan o.allowedLater
          | exit => exit)) := by
  have hmiss : s.missExit p c o.allowed ≠ .embeds := by
    unfold missExit
    split
    · split
      · split <;> intro h <;> cases h
      · split <;> intro h <;> cases h
    · split <;> intro h <;> cases h
  unfold semanticTier tierExit
  split
  · have htask : (s.await id (.embedding c missReason)).tasks.lookup id =
        some (.embedding c missReason) := AList.lookup_insert _
    have hfree : ((s.await id (.embedding c missReason)).finish id).tasks.lookup id = none :=
      AList.lookup_erase _ _
    have hembedded : (s.await id (.embedding c missReason)).proceed p id o =
        ((s.await id (.embedding c missReason)).finish id).semanticLookup p o.embeddedAt id c
          missReason o.embedding o.tierScan o.allowedLater := by
      unfold proceed
      rw [htask]
    rw [hembedded]
    obtain ⟨hsees, hdone⟩ := settles_semanticLookup (p := p) (t := t) (o := o) hquery hfree
      o.embeddedAt missReason o.embedding o.tierScan o.allowedLater
    exact ⟨hsees, hdone⟩
  · have hsame : (match s.missExit p c o.allowed with
        | .embeds => s.semanticExit p o.embeddedAt c o.embedding o.tierScan o.allowedLater
        | exit => exit) = s.missExit p c o.allowed := by
      split
      · rename_i hembeds
        exact absurd hembeds hmiss
      · rfl
    rw [hsame]
    exact (settles_afterMiss hquery hid).proceed

theorem settles_executeQuery (hid : s.tasks.lookup id = none) (hnext : id ≠ s.nextTask)
    (now : Clock) (o : Outside) (agent : Option AgentIdentity) :
    Settles t s
      (((s.executeQuery p now id c agent false o.allowed).proceed p id o).proceed p id o) id
      (s.settled p t c o
        (match s.queryExit p now c agent false o.allowed with
          | .embeds =>
            s.semanticExit p o.embeddedAt c o.embedding o.tierScan o.allowedLater
          | exit => exit)) := by
  have hrefused {status : Nat} (hstatus : status ≠ 200) :
      Settles t s (((s.refuse now c none status).proceed p id o).proceed p id o) id t.refusal :=
    Settles.proceed (Settles.proceed ⟨sees_refuse rfl _ hstatus, hid⟩)
  unfold executeQuery queryExit
  split
  · exact hrefused (by decide)
  · cases c.request.validate with
    | error e => exact hrefused (by decide)
    | ok _ =>
      dsimp only
      split
      · exact hrefused (by decide)
      · simp only [Bool.false_eq_true, if_false]
        cases hf : s.app.cache.checkFreshnessByHash p now (c.key.hash p) with
        | none => exact settles_semanticTier hquery hid
        | some freshness =>
          obtain ⟨e, hl⟩ := lookup_of_classified hf
          cases freshness with
          | fresh =>
            dsimp only [settled]
            unfold CacheStore.held
            rw [read_byHash hl, hl]
            exact Settles.proceed (Settles.proceed ⟨sees_serve rfl _ _ _, hid⟩)
          | stale =>
            dsimp only [settled]
            unfold CacheStore.held
            rw [read_byHash hl, hl]
            have hspawned (task : Task) :
                (s.tasks.insert s.nextTask task).lookup id = none := by
              rw [AList.lookup_insert_ne hnext]
              exact hid
            refine Settles.proceed (Settles.proceed ?_)
            unfold serveStale
            dsimp only
            split
            · exact ⟨sees_serve rfl _ _ _, hspawned _⟩
            · exact ⟨sees_serve rfl _ _ _, hid⟩
          | expired | frozen => exact settles_semanticTier hquery hid

end Query

theorem sees_handleFederated (hoff : s.app.federatedEnabled = false) (now : Clock) (id : Nat)
    (c : Client) (t : Transport) (agent : Option AgentIdentity) (remote : Bool) :
    Sees t s (s.handleFederated p now id c t agent remote)
      (if t = .http ∧ deniedBy agent c.contextId = true then t.refusal
        else s.app.cache.held t .hit (s.app.cache.foundAt p c.key.text)) := by
  unfold handleFederated
  by_cases hdenied : t = .http ∧ deniedBy agent c.contextId = true
  · rw [if_pos hdenied, if_pos hdenied]
    exact ⟨_, rfl, rfl⟩
  · rw [if_neg hdenied, if_neg hdenied, if_pos hoff]
    exact sees_read (.byText c.key.text) (fun e source cache => ⟨_, rfl, rfl⟩)
      ⟨_, rfl, rfl⟩

end Server

theorem Sees.answers {t : Transport} {s s' : Server} {seen : Seen} (h : Sees t s s' seen)
    (hs : s.answers = []) : (s'.answers.map fun a => a.reply.seen t) = [seen] := by
  obtain ⟨a, hanswers, ha⟩ := h
  rw [hanswers, hs, List.map_cons, ha]
  rfl

namespace FederatedCall

variable {p : Platform} {x : FederatedCall} {o : Outside}

theorem executed_eq :
    x.executed p o =
      [x.server.settled p x.transport (x.client .query) o (x.exit p o)] := by
  have hfree : x.server.alone.arrive.tasks.lookup x.server.nextTask = none := rfl
  exact (Server.settles_executeQuery (p := p) (t := x.transport) (c := x.client .query) rfl hfree
    (Nat.ne_of_lt (Nat.lt_succ_self _)) x.now o x.agent).sees.answers rfl

theorem answered_eq (hoff : x.server.app.federatedEnabled = false) :
    x.answered p =
      [if x.refused = true then x.transport.refusal
        else x.server.app.cache.held x.transport .hit
          (x.server.app.cache.foundAt p x.key.text)] := by
  have hoffAlone : x.server.alone.arrive.app.federatedEnabled = false := hoff
  have hsees := (Server.sees_handleFederated (p := p) hoffAlone x.now x.server.nextTask
    (x.client (.federated x.transport)) x.transport x.agent x.remote).answers rfl
  have hrefused : x.refused = true ↔
      x.transport = .http ∧ Server.deniedBy x.agent x.contextId = true := by
    simp [refused]
  simp only [hrefused]
  exact hsees

/-- A denied agent is denied by `execute_query` too, if it gets so far. -/
theorem settled_of_refused (h : x.refused = true) :
    x.server.settled p x.transport (x.client .query) o (x.exit p o) = x.transport.refusal := by
  have hdenied : Server.deniedBy x.agent (x.client .query).contextId = true :=
    (Bool.and_eq_true_iff.1 h).2
  unfold exit Server.queryExit
  cases x.server.app.paused with
  | true => rfl
  | false =>
    cases (x.client .query).request.validate with
    | error e => rfl
    | ok _ =>
      simp only [hdenied, if_true]
      rfl

theorem held_eq_found (status : CacheStatus) :
    x.server.app.cache.held x.transport status
        (x.server.app.cache.foundAt p x.key.text) =
      match x.found p with
      | some e => some (e.response.results, status)
      | none => x.transport.refusal := rfl

theorem hit_eq_found_iff (results : List SearchResult) :
    some (results, CacheStatus.hit) =
        x.server.app.cache.held x.transport .hit (x.server.app.cache.foundAt p x.key.text) ↔
      x.Finds p results := by
  rw [held_eq_found]
  unfold Finds
  cases x.found p with
  | none => cases x.transport <;> simp [Transport.refusal]
  | some e => simp [eq_comm]

theorem refusal_eq_found_iff :
    x.transport.refusal =
        x.server.app.cache.held x.transport .hit (x.server.app.cache.foundAt p x.key.text) ↔
      x.found p = none := by
  rw [held_eq_found]
  cases x.found p with
  | none => simp
  | some e => cases x.transport <;> simp [Transport.refusal]

theorem miss_eq_found_iff (results : List SearchResult) :
    some (results, CacheStatus.miss) =
        x.server.app.cache.held x.transport .hit (x.server.app.cache.foundAt p x.key.text) ↔
      x.transport = .http ∧ x.found p = none ∧ results = [] := by
  rw [held_eq_found]
  cases x.found p with
  | none => cases x.transport <;> simp [Transport.refusal]
  | some e => simp

/-! ## The entry of an exit -/

def served (p : Platform) (x : FederatedCall) : Exit → Option QueryHash
  | .fresh | .stale | .frozen | .cachedOnly => some (x.key.hash p)
  | .semantic matched => some matched
  | _ => none

theorem mem_of_missExit {c : Client} (hkey : c.key = x.key) {allowed : Bool} {h : QueryHash}
    (hserved : x.served p (x.server.missExit p c allowed) = some h) :
    h ∈ x.server.app.cache.entries := by
  unfold Server.missExit at hserved
  rw [hkey] at hserved
  split at hserved
  · split at hserved
    · split at hserved <;> cases hserved
    · split at hserved
      · cases hserved
        assumption
      · cases hserved
  · split at hserved
    · cases hserved
      assumption
    · cases hserved

theorem classified_of_semanticMatch {s : Server} {now : Clock} {embedded : Option Embedding}
    {scan : TierScan} {h : QueryHash} (hmatch : s.semanticMatch p now embedded scan = some h) :
    ∃ freshness, s.app.cache.checkFreshnessByHash p now h = some freshness := by
  unfold Server.semanticMatch at hmatch
  split at hmatch
  · split at hmatch
    · rename_i matched _
      cases hf : s.app.cache.checkFreshnessByHash p now matched with
      | none =>
        rw [hf] at hmatch
        cases hmatch
      | some freshness =>
        rw [hf] at hmatch
        cases freshness with
        | expired => cases hmatch
        | fresh | stale | frozen =>
          cases hmatch
          exact ⟨_, hf⟩
    · cases hmatch
  · cases hmatch

theorem mem_of_semanticExit {c : Client} (hkey : c.key = x.key) {now : Clock}
    {embedded : Option Embedding} {scan : TierScan} {allowed : Bool} {h : QueryHash}
    (hserved : x.served p (x.server.semanticExit p now c embedded scan allowed) = some h) :
    h ∈ x.server.app.cache.entries := by
  unfold Server.semanticExit at hserved
  cases hmatch : x.server.semanticMatch p now embedded scan with
  | none =>
    rw [hmatch] at hserved
    exact mem_of_missExit hkey hserved
  | some matched =>
    rw [hmatch] at hserved
    cases hserved
    obtain ⟨freshness, hf⟩ := classified_of_semanticMatch hmatch
    obtain ⟨e, hl⟩ := Server.lookup_of_classified hf
    exact WeightedTable.mem_of_lookup _ hl

theorem mem_of_exit {h : QueryHash} (hserved : x.served p (x.exit p o) = some h) :
    h ∈ x.server.app.cache.entries := by
  unfold exit at hserved
  split at hserved
  · exact mem_of_semanticExit rfl hserved
  · unfold Server.queryExit Server.tierExit at hserved
    split at hserved
    · cases hserved
    · split at hserved
      · cases hserved
      · split at hserved
        · cases hserved
        · simp only [Bool.false_eq_true, if_false] at hserved
          split at hserved
          · rename_i hf
            cases hserved
            obtain ⟨e, hl⟩ := Server.lookup_of_classified hf
            exact WeightedTable.mem_of_lookup _ hl
          · rename_i hf
            cases hserved
            obtain ⟨e, hl⟩ := Server.lookup_of_classified hf
            exact WeightedTable.mem_of_lookup _ hl
          · split at hserved
            · cases hserved
            · exact mem_of_missExit rfl hserved

theorem held_of_exit {h : QueryHash} (hserved : x.served p (x.exit p o) = some h)
    (status : CacheStatus) :
    x.server.app.cache.held x.transport status h =
      some (x.server.app.cache.listed h, status) := by
  obtain ⟨e, hl⟩ := WeightedTable.lookup_of_mem _ (mem_of_exit hserved)
  unfold CacheStore.held CacheStore.listed
  rw [hl]
  rfl

theorem exit_ne_embeds : x.exit p o ≠ .embeds := by
  intro h
  unfold exit at h
  split at h
  · exact (Server.semanticExit_ne (p := p)).2 h
  · rename_i hexit
    exact hexit h

theorem ne_found {status : CacheStatus} (hhit : status ≠ .hit) (hmiss : status ≠ .miss)
    (results : List SearchResult) :
    some (results, status) ≠
      x.server.app.cache.held x.transport .hit (x.server.app.cache.foundAt p x.key.text) := by
  rw [held_eq_found]
  cases x.found p with
  | none => cases x.transport <;> simp [Transport.refusal, hmiss]
  | some e => simp [hhit]

theorem frozen_eq_found_iff :
    x.server.app.cache.held x.transport .frozen (x.key.hash p) =
        x.server.app.cache.held x.transport .hit (x.server.app.cache.foundAt p x.key.text) ↔
      x.found p = none ∧ x.own p = none := by
  have hheld : x.server.app.cache.held x.transport .frozen (x.key.hash p) =
      match x.own p with
      | some e => some (e.response.results, .frozen)
      | none => x.transport.refusal := rfl
  rw [hheld]
  cases x.own p with
  | none => simp [refusal_eq_found_iff]
  | some e => simp [ne_found]

theorem led_eq_found_iff :
    x.server.led p x.transport (x.client .query) o.outcome =
        x.server.app.cache.held x.transport .hit (x.server.app.cache.foundAt p x.key.text) ↔
      match x.server.app.upstreams.dispatch o.outcome with
      | .ok returned =>
        x.transport = .http ∧ x.found p = none ∧
          x.server.app.scopeFilterFor x.contextId returned.results = []
      | .error _ => x.found p = none ∧ x.own p = none := by
  unfold Server.led
  cases x.server.app.upstreams.dispatch o.outcome with
  | ok returned => exact miss_eq_found_iff _
  | error message => exact frozen_eq_found_iff

theorem waited_eq_found_iff :
    x.server.waited p x.transport (x.client .query) o.result =
        x.server.app.cache.held x.transport .hit (x.server.app.cache.foundAt p x.key.text) ↔
      match o.result with
      | .ok b =>
        (b.response.cacheStatus = .hit ∧ x.Finds p b.response.results) ∨
          (x.transport = .http ∧ x.found p = none ∧ b.response.cacheStatus = .miss ∧
            b.response.results = [])
      | .error _ => x.found p = none ∧ x.own p = none := by
  unfold Server.waited
  cases o.result with
  | error message => exact frozen_eq_found_iff
  | ok b =>
    cases hstatus : b.response.cacheStatus with
    | hit =>
      dsimp only
      rw [hstatus, hit_eq_found_iff]
      simp
    | miss =>
      dsimp only
      rw [hstatus, miss_eq_found_iff]
      simp
    | stale | frozen =>
      dsimp only
      rw [hstatus]
      simp [ne_found]

end FederatedCall

/-- While federated search is off, the two federated handlers answer a request as `execute_query`
does, whatever that is told from outside, exactly if the request can be delegated to a lookup by
text. -/
theorem federated_delegates_iff (p : Platform) (x : FederatedCall) (o : Outside)
    (hoff : x.server.app.federatedEnabled = false) :
    x.answered p = x.executed p o ↔ x.Delegable p o := by
  rw [FederatedCall.executed_eq, FederatedCall.answered_eq hoff, List.singleton_inj]
  unfold FederatedCall.Delegable
  by_cases hrefused : x.refused = true
  · rw [if_pos hrefused, FederatedCall.settled_of_refused hrefused]
    exact iff_of_true rfl (.inl hrefused)
  · rw [if_neg hrefused, eq_comm, or_iff_right hrefused]
    have hheld {h : QueryHash} := FederatedCall.held_of_exit (p := p) (x := x) (o := o) (h := h)
    have hembeds := FederatedCall.exit_ne_embeds (p := p) (x := x) (o := o)
    cases hexit : x.exit p o with
    | paused | invalid | denied | circuitOpen | noUpstream =>
      exact FederatedCall.refusal_eq_found_iff
    | fresh | cachedOnly =>
      dsimp only [Server.settled]
      refine Iff.trans (Eq.congr_left ?_) (FederatedCall.hit_eq_found_iff _)
      exact hheld (by rw [hexit]; rfl) .hit
    | semantic matched =>
      dsimp only [Server.settled]
      refine Iff.trans (Eq.congr_left ?_) (FederatedCall.hit_eq_found_iff _)
      exact hheld (by rw [hexit]; rfl) .hit
    | stale | frozen =>
      refine iff_of_false ?_ id
      dsimp only [Server.settled]
      refine fun h => FederatedCall.ne_found ?_ ?_ _ ((hheld ?_ _).symm.trans h)
      · decide
      · decide
      · rw [hexit]
        rfl
    | leads => exact FederatedCall.led_eq_found_iff
    | waits receiver => exact FederatedCall.waited_eq_found_iff
    | embeds => exact absurd hexit hembeds

/-- A request that finds an empty cache, and an upstream that has a result for it. -/
def emptyCacheCall : FederatedCall where
  server := smallServer
  now := ⟨0, 0⟩
  contextId := "a"
  query := "q"
  topK := none
  agent := none
  transport := .http
  remote := true

def upstreamAnswers : Outside where
  allowed := true
  embeddedAt := ⟨0, 0⟩
  embedding := none
  tierScan := TierScan.stored
  allowedLater := true
  answeredAt := ⟨1, 1⟩
  scan := Scan.stored
  outcome := .ok (textResponse "x")
  computed := none
  result := .error "unavailable"

theorem disabled_federation_skips_upstream :
    smallServer.app.federatedEnabled = false ∧
      emptyCacheCall.answered Platform.sample ≠
        emptyCacheCall.executed Platform.sample upstreamAnswers := by
  refine ⟨rfl, fun h => ?_⟩
  have hanswered : (emptyCacheCall.answered Platform.sample).map
      (fun seen => seen.map fun r => r.1.length) = [some 0] := by
    decide +kernel
  have hexecuted : (emptyCacheCall.executed Platform.sample upstreamAnswers).map
      (fun seen => seen.map fun r => r.1.length) = [some 1] := by
    decide +kernel
  rw [h, hexecuted] at hanswered
  cases hanswered

/-- The server has answered the query of the context once before. -/
def heldCall : FederatedCall :=
  { emptyCacheCall with
    server := Machine.run (Server.step Platform.sample) smallServer
      [actionAt 0 (.query "a" ⟨"q", none, none, none, none⟩ none false true),
        actionAt 1 (.returned 0 (.ok (textResponse "x")) none)]
    now := ⟨2, 2⟩ }

theorem held_call_delegates :
    heldCall.answered Platform.sample = heldCall.executed Platform.sample upstreamAnswers ∧
      (heldCall.answered Platform.sample).map (fun seen => seen.map fun r => r.1.length) =
        [some 1] := by
  have hexit : heldCall.exit Platform.sample upstreamAnswers = .fresh := by decide +kernel
  have hhash : heldCall.server.app.cache.foundAt Platform.sample heldCall.key.text =
      heldCall.key.hash Platform.sample := by
    decide +kernel
  obtain ⟨e, he⟩ : ∃ e, heldCall.found Platform.sample = some e :=
    Option.isSome_iff_exists.1 (by decide +kernel)
  refine ⟨(federated_delegates_iff Platform.sample heldCall upstreamAnswers rfl).2 (.inr ?_), ?_⟩
  · rw [hexit]
    refine ⟨e, he, ?_⟩
    rw [FederatedCall.found, hhash] at he
    rw [listed, he]
    rfl
  · decide +kernel

end Conproxy
