import Conproxy.Server.Handlers

/-!
# The exits of the entry points

`execute_query` leaves the part before its first await, and the part between the embedding and
the upstream, through one of a dozen exits. Which one is decided by the state that the part
starts in, and the same holds of the items of a batch and of a federated request. What a part
adds to the tasks of the server is read off its exit.
-/

namespace Conproxy

open CacheStore

set_option autoImplicit false

inductive Exit where
  | paused
  | invalid
  | denied
  | fresh
  | stale
  | embeds
  | semantic (matched : QueryHash)
  | leads
  | waits (receiver : Channel)
  | frozen
  | circuitOpen
  /-- Without an upstream the cache is asked once more, whatever the freshness. -/
  | cachedOnly
  | noUpstream
deriving DecidableEq

section

variable (p : Platform)

namespace Server

/-- The exit of `afterMiss`. -/
def missExit (s : Server) (c : Client) (allowed : Bool) : Exit :=
  if s.app.upstreams.any then
    if allowed then
      match s.app.coalescer.inFlight.lookup (c.key.hash p) with
      | some receiver => .waits receiver
      | none => .leads
    else if c.key.hash p ∈ s.app.cache.entries then .frozen else .circuitOpen
  else if c.key.hash p ∈ s.app.cache.entries then .cachedOnly else .noUpstream

def tierExit (s : Server) (c : Client) (allowed : Bool) : Exit :=
  if s.app.semanticCache.isSome && s.app.smartEmbedder then .embeds else s.missExit p c allowed

/-- The exit of `executeQuery`. -/
def queryExit (s : Server) (now : Clock) (c : Client) (agent : Option AgentIdentity)
    (skipCache allowed : Bool) : Exit :=
  if s.app.paused then .paused
  else
    match c.request.validate with
    | .error _ => .invalid
    | .ok () =>
      if deniedBy agent c.contextId then .denied
      else if skipCache then s.missExit p c allowed
      else
        match s.app.cache.checkFreshnessByHash p now (c.key.hash p) with
        | some .fresh => .fresh
        | some .stale => .stale
        | _ => s.tierExit p c allowed

def semanticMatch (s : Server) (now : Clock) (embedded : Option Embedding) (scan : TierScan) :
    Option QueryHash :=
  match embedded, s.app.semanticCache with
  | some embedding, some tier =>
    match tier.lookup p (tier.iter scan) embedding with
    | some matched =>
      match s.app.cache.checkFreshnessByHash p now matched with
      | some .fresh | some .stale | some .frozen => some matched
      | _ => none
    | none => none
  | _, _ => none

/-- The embedding that is kept for the insertion. -/
def stashed (s : Server) (embedded : Option Embedding) : Option Embedding :=
  if s.app.semanticCache.isSome then embedded else none

def semanticExit (s : Server) (now : Clock) (c : Client) (embedded : Option Embedding)
    (scan : TierScan) (allowed : Bool) : Exit :=
  match s.semanticMatch p now embedded scan with
  | some matched => .semantic matched
  | none => s.missExit p c allowed

end Server

/-- The task that a part leaves behind: the query itself, suspended, or the refresh of the
stale entry that it served. -/
def Exit.task (s : Server) (id : Nat) (c : Client) (missReason : MissReason)
    (embedding : Option Embedding) : Exit → Option (Nat × Task)
  | .embeds => some (id, .embedding c missReason)
  | .leads => some (id, .leading c s.app.upstreams missReason embedding)
  | .waits receiver => some (id, .waiting c receiver)
  | .stale => if s.app.upstreams.single then some (s.nextTask, .refreshing c.key) else none
  | _ => none

/-- The tasks after one more. -/
def addTask (tasks : AList fun _ : Nat => Task) : Option (Nat × Task) → AList fun _ : Nat => Task
  | some (id, task) => tasks.insert id task
  | none => tasks

/-- The call got past pause, validation and authorization, and has returned. -/
def Exit.returns : Exit → Bool
  | .fresh | .stale | .semantic _ | .frozen | .circuitOpen | .cachedOnly | .noUpstream => true
  | .paused | .invalid | .denied | .embeds | .leads | .waits _ => false

/-- The answer of a call of `execute_query` that got past its checks: a refusal of these gives
no reason for the miss. -/
def Answer.passed (a : Answer) : Bool :=
  match a.reply with
  | .result (.fresh response) _ => response.missReason.isSome
  | .result _ _ => true
  | _ => false

def Server.passed (s : Server) : Nat := s.answers.countP Answer.passed

/-- What a part of a query adds to the tasks and to the answers. -/
structure Leaves (s s' : Server) (id : Nat) (c : Client) (missReason : MissReason)
    (embedding : Option Embedding) (exit : Exit) : Prop where
  tasks : s'.tasks = addTask s.tasks (exit.task s id c missReason embedding)
  passed : s'.passed = s.passed + if exit.returns then 1 else 0
  nextTask : s'.nextTask = s.nextTask + if exit = .stale ∧ s.app.upstreams.single then 1 else 0

end

namespace Server

variable {p : Platform} {s : Server} {now : Clock} {id : Nat} {c : Client}
  {missReason : MissReason} {embedding : Option Embedding} {allowed : Bool}

theorem read_byHash {h : QueryHash} {found : CacheEntry → Source → Server → Server}
    {missing : Server → Server} {e : CacheEntry} (hl : s.app.cache.entries.lookup h = some e) :
    s.read p now (.byHash h) found missing =
      found e (s.entrySource p now h) (s.setCache (s.app.cache.getByHash h).2) :=
  read_of_lookup hl

theorem lookup_of_classified {h : QueryHash} {freshness : Freshness}
    (hf : s.app.cache.checkFreshnessByHash p now h = some freshness) :
    ∃ e, s.app.cache.entries.lookup h = some e := by
  unfold checkFreshnessByHash at hf
  cases hl : s.app.cache.entries.lookup h with
  | none =>
    rw [hl] at hf
    cases hf
  | some e => exact ⟨e, rfl⟩

/-! ## What each part leaves -/

theorem passed_answer (source : Source) (reply : Reply) :
    (s.answer c source reply).passed =
      s.passed + if Answer.passed ⟨c, source, reply⟩ then 1 else 0 :=
  List.countP_cons

theorem leaves_coalesce :
    Leaves s (s.coalesce p id c s.app.upstreams missReason embedding) id c missReason embedding
      (match s.app.coalescer.inFlight.lookup (c.key.hash p) with
        | some receiver => .waits receiver
        | none => .leads) := by
  unfold coalesce RequestCoalescer.getOrInsert
  cases s.app.coalescer.inFlight.lookup (c.key.hash p) with
  | some receiver => exact ⟨rfl, rfl, rfl⟩
  | none => exact ⟨rfl, rfl, rfl⟩

theorem leaves_serve (cache : CacheStore) (status : CacheStatus) (e : CacheEntry)
    (source : Source) {exit : Exit} (htask : exit.task s id c missReason embedding = none)
    (hreturns : exit.returns = true) (hstale : exit ≠ .stale) :
    Leaves s (serve now c status e source (s.setCache cache)) id c missReason embedding exit := by
  refine ⟨?_, ?_, ?_⟩
  · rw [htask]
    rfl
  · rw [hreturns]
    exact passed_answer _ _
  · rw [if_neg fun h => hstale h.1]
    rfl

theorem leaves_refuse (reason : Option MissReason) (status : Nat) {exit : Exit}
    (htask : exit.task s id c missReason embedding = none)
    (hreturns : exit.returns = reason.isSome) (hstale : exit ≠ .stale) :
    Leaves s (s.refuse now c reason status) id c missReason embedding exit := by
  refine ⟨?_, ?_, ?_⟩
  · rw [htask]
    rfl
  · rw [hreturns]
    exact passed_answer _ _
  · rw [if_neg fun h => hstale h.1]
    rfl

theorem leaves_afterMiss :
    Leaves s (s.afterMiss p now id c missReason embedding allowed) id c missReason embedding
      (s.missExit p c allowed) := by
  have hlookup : c.key.hash p ∈ s.app.cache.entries ↔
      ∃ e, s.app.cache.entries.lookup (c.key.hash p) = some e := by
    rw [← AList.lookup_isSome, Option.isSome_iff_exists]
  unfold afterMiss missExit
  split
  · split
    · exact leaves_coalesce
    · split
      · rename_i hmem
        obtain ⟨e, hl⟩ := hlookup.1 hmem
        dsimp only
        rw [read_byHash hl]
        exact leaves_serve _ _ _ _ rfl rfl nofun
      · rename_i hnot
        dsimp only
        rw [read_of_none (AList.lookup_eq_none.2 hnot)]
        exact leaves_refuse _ _ rfl rfl nofun
  · split
    · rename_i hmem
      obtain ⟨e, hl⟩ := hlookup.1 hmem
      dsimp only
      rw [read_byHash hl]
      exact leaves_serve _ _ _ _ rfl rfl nofun
    · rename_i hnot
      dsimp only
      rw [read_of_none (AList.lookup_eq_none.2 hnot)]
      exact leaves_refuse _ _ rfl rfl nofun

theorem leaves_semanticTier :
    Leaves s (s.semanticTier p now id c missReason allowed) id c missReason none
      (s.tierExit p c allowed) := by
  unfold semanticTier tierExit
  split
  · exact ⟨rfl, rfl, rfl⟩
  · exact leaves_afterMiss

theorem leaves_semanticLookup {embedded : Option Embedding} {scan : TierScan} :
    Leaves s (s.semanticLookup p now id c missReason embedded scan allowed) id c
      missReason (s.stashed embedded) (s.semanticExit p now c embedded scan allowed) := by
  unfold semanticLookup semanticExit semanticMatch stashed
  cases htier : s.app.semanticCache with
  | none => cases embedded <;> exact leaves_afterMiss
  | some tier =>
    cases embedded with
    | none => exact leaves_afterMiss
    | some embedding =>
      dsimp only
      cases tier.lookup p (tier.iter scan) embedding with
      | none => exact leaves_afterMiss
      | some matched =>
        dsimp only
        cases hf : s.app.cache.checkFreshnessByHash p now matched with
        | none => exact leaves_afterMiss
        | some freshness =>
          obtain ⟨e, hl⟩ := lookup_of_classified hf
          cases freshness with
          | expired => exact leaves_afterMiss
          | fresh | stale | frozen =>
            dsimp only
            rw [read_byHash hl]
            exact leaves_serve _ _ _ _ rfl rfl nofun

theorem leaves_serveStale (e : CacheEntry) (source : Source) (cache : CacheStore) :
    Leaves s (serveStale now c e source (s.setCache cache)) id c missReason embedding .stale := by
  have hsingle : (s.setCache cache).app.upstreams.single = s.app.upstreams.single := rfl
  unfold serveStale
  rw [hsingle]
  cases h : s.app.upstreams.single with
  | true =>
    refine ⟨?_, passed_answer _ _, ?_⟩
    · simp only [Exit.task, h]
      rfl
    · simp only [h]
      rfl
  | false =>
    refine ⟨?_, passed_answer _ _, ?_⟩
    · simp only [Exit.task, h]
      rfl
    · simp only [h]
      rfl

/-- The reason that a miss of the first part is counted under. -/
def missReasonOf (p : Platform) (s : Server) (now : Clock) (c : Client) (skipCache : Bool) :
    MissReason :=
  if skipCache then .notInCache
  else
    match s.app.cache.checkFreshnessByHash p now (c.key.hash p) with
    | some .expired | some .frozen => .expired
    | _ => .notInCache

theorem leaves_executeQuery {agent : Option AgentIdentity} {skipCache : Bool} :
    Leaves s (s.executeQuery p now id c agent skipCache allowed) id c
      (missReasonOf p s now c skipCache) none (s.queryExit p now c agent skipCache allowed) := by
  unfold executeQuery queryExit missReasonOf
  split
  · exact leaves_refuse _ _ rfl rfl nofun
  · cases c.request.validate with
    | error e => exact leaves_refuse _ _ rfl rfl nofun
    | ok _ =>
      dsimp only
      split
      · exact leaves_refuse _ _ rfl rfl nofun
      · cases skipCache with
        | true => exact leaves_afterMiss
        | false =>
          simp only [Bool.false_eq_true, if_false]
          cases hf : s.app.cache.checkFreshnessByHash p now (c.key.hash p) with
          | none => exact leaves_semanticTier
          | some freshness =>
            obtain ⟨e, hl⟩ := lookup_of_classified hf
            cases freshness with
            | fresh =>
              dsimp only
              rw [read_byHash hl]
              exact leaves_serve _ _ _ _ rfl rfl nofun
            | stale =>
              dsimp only
              rw [read_byHash hl]
              exact leaves_serveStale _ _ _
            | expired | frozen => exact leaves_semanticTier

end Server

/-! ## Batch items and federated requests -/

inductive ItemExit where
  | denied
  | served
  | leads
  | waits (receiver : Channel)
  | failed
deriving DecidableEq

inductive FederatedExit where
  | denied
  | served
  | unavailable
  | asks
  | localOnly
deriving DecidableEq

namespace Server

variable (p : Platform)

/-- The entry is there for the lookup of the transport. -/
def holds (s : Server) (look : Lookup) : Bool :=
  (s.app.cache.entries.lookup (look.hash p s.app.cache)).isSome

def missedItemExit (s : Server) (c : Client) (t : Transport) (upstreams : Upstreams) : ItemExit :=
  if upstreams.any then
    match s.app.coalescer.inFlight.lookup (c.key.hash p) with
    | some receiver => .waits receiver
    | none => .leads
  else if s.holds p (batchLookup p t c.key) then .served else .failed

/-- The exit of `batchItem`. -/
def itemExit (s : Server) (now : Clock) (c : Client) (t : Transport)
    (agent : Option AgentIdentity) (upstreams : Upstreams) : ItemExit :=
  if t = .http ∧ deniedBy agent c.contextId then .denied
  else
    match s.app.cache.checkFreshnessByHash p now (c.key.hash p) with
    | some .fresh | some .stale => .served
    | _ => s.missedItemExit p c t upstreams

/-- The exit of `handleFederated`. -/
def federatedExit (s : Server) (c : Client) (t : Transport) (agent : Option AgentIdentity)
    (remote : Bool) : FederatedExit :=
  if t = .http ∧ deniedBy agent c.contextId then .denied
  else if s.app.federatedEnabled = false then
    if s.holds p (.byText c.key.text) then .served else .unavailable
  else if remote && (s.app.upstreams.pool || s.app.upstreams.single) then
    if t = .http ∧ s.holds p (.byText c.key.text) then .served else .asks
  else .localOnly

def itemMissReason (s : Server) (now : Clock) (c : Client) : MissReason :=
  match s.app.cache.checkFreshnessByHash p now (c.key.hash p) with
  | some .expired | some .frozen => .expired
  | _ => .notInCache

/-- The server after an item that left through the exit. -/
inductive ItemLeaves (s : Server) (now : Clock) (id : Nat) (c : Client) (t : Transport)
    (upstreams : Upstreams) : ItemExit → Server → Prop where
  | denied : ItemLeaves s now id c t upstreams .denied (s.answer c .nowhere (.refused 403))
  | served {e : CacheEntry} (status : CacheStatus)
      (hl : s.app.cache.entries.lookup ((batchLookup p t c.key).hash p s.app.cache) = some e) :
      ItemLeaves s now id c t upstreams .served
        (serveItem now c status e
          (s.entrySource p now ((batchLookup p t c.key).hash p s.app.cache))
          (s.setCache ((batchLookup p t c.key).run p s.app.cache).2))
  | leads (hfree : s.app.coalescer.inFlight.lookup (c.key.hash p) = none) :
      ItemLeaves s now id c t upstreams .leads
        (s.coalesce p id c upstreams (s.itemMissReason p now c) none)
  | waits {receiver : Channel}
      (hbusy : s.app.coalescer.inFlight.lookup (c.key.hash p) = some receiver) :
      ItemLeaves s now id c t upstreams (.waits receiver)
        (s.coalesce p id c upstreams (s.itemMissReason p now c) none)
  | failed : ItemLeaves s now id c t upstreams .failed (s.failItem c (noUpstreamMessage t))

/-- The server after a federated request that left through the exit. -/
inductive FederatedLeaves (s : Server) (now : Clock) (id : Nat) (c : Client) :
    FederatedExit → Server → Prop where
  | denied : FederatedLeaves s now id c .denied (s.answer c .nowhere (.refused 403))
  | served {e : CacheEntry} (response : CacheEntry → QueryResponse)
      (hl : s.app.cache.entries.lookup (s.app.cache.foundAt p c.key.text) = some e)
      (hresults : (response e).results = e.response.results) :
      FederatedLeaves s now id c .served
        (serveRemote c response e (s.entrySource p now (s.app.cache.foundAt p c.key.text))
          (s.setCache (s.app.cache.get p c.key.text).2))
  | unavailable : FederatedLeaves s now id c .unavailable (s.answer c .nowhere (.refused 503))
  | asks : FederatedLeaves s now id c .asks (s.await id (.federating c))
  | localOnly : FederatedLeaves s now id c .localOnly (s.answer c .nowhere (.remote none))

variable {p} {s : Server} {now : Clock} {id : Nat} {c : Client} {t : Transport}
  {agent : Option AgentIdentity} {upstreams : Upstreams}

theorem exists_of_classified {cache : CacheStore} {key : Key} {freshness : Freshness}
    (h : cache.checkFreshnessByHash p now (key.hash p) = some freshness) :
    ∃ e, cache.entries.lookup (cache.foundAt p key.text) = some e := by
  have hmem : key.hash p ∈ cache.entries := by
    rw [← AList.lookup_isSome]
    unfold checkFreshnessByHash at h
    cases hl : cache.entries.lookup (key.hash p) with
    | none =>
      rw [hl] at h
      cases h
    | some e => rfl
  apply WeightedTable.lookup_of_mem
  unfold foundAt
  split
  · exact hmem
  · split
    · split
      · assumption
      · exact hmem
    · exact hmem

theorem exists_of_classified_item {freshness : Freshness} (t : Transport)
    (h : s.app.cache.checkFreshnessByHash p now (c.key.hash p) = some freshness) :
    ∃ e, s.app.cache.entries.lookup ((batchLookup p t c.key).hash p s.app.cache) = some e := by
  cases t with
  | http => exact lookup_of_classified h
  | grpc => exact exists_of_classified h

theorem holds_of_some {look : Lookup} {e : CacheEntry}
    (hl : s.app.cache.entries.lookup (look.hash p s.app.cache) = some e) :
    s.holds p look = true := by
  rw [holds, hl]
  rfl

theorem holds_of_none {look : Lookup}
    (hl : s.app.cache.entries.lookup (look.hash p s.app.cache) = none) :
    s.holds p look = false := by
  rw [holds, hl]
  rfl

theorem itemLeaves_batchMiss :
    ItemLeaves p s now id c t upstreams (s.missedItemExit p c t upstreams)
      (s.batchMiss p now id c t upstreams (s.itemMissReason p now c)) := by
  unfold batchMiss missedItemExit
  split
  · cases hl : s.app.coalescer.inFlight.lookup (c.key.hash p) with
    | some receiver => exact .waits hl
    | none => exact .leads hl
  · cases hl : s.app.cache.entries.lookup ((batchLookup p t c.key).hash p s.app.cache) with
    | some e =>
      rw [read_of_lookup hl, holds_of_some hl]
      exact .served .hit hl
    | none =>
      rw [read_of_none hl, holds_of_none hl]
      exact .failed

theorem itemLeaves_batchItem :
    ItemLeaves p s now id c t upstreams (s.itemExit p now c t agent upstreams)
      (s.batchItem p now id c t agent upstreams) := by
  unfold batchItem itemExit
  split
  · exact .denied
  · have hmiss : ItemLeaves p s now id c t upstreams (s.missedItemExit p c t upstreams)
        (s.batchMiss p now id c t upstreams (s.itemMissReason p now c)) := itemLeaves_batchMiss
    unfold itemMissReason at hmiss
    cases hf : s.app.cache.checkFreshnessByHash p now (c.key.hash p) with
    | none =>
      rw [hf] at hmiss
      exact hmiss
    | some freshness =>
      obtain ⟨e, hl⟩ := exists_of_classified_item t hf
      rw [hf] at hmiss
      cases freshness with
      | fresh =>
        dsimp only
        rw [read_of_lookup hl]
        exact .served .hit hl
      | stale =>
        dsimp only
        rw [read_of_lookup hl]
        exact .served .stale hl
      | frozen | expired => exact hmiss

theorem federatedLeaves_handleFederated {remote : Bool} :
    FederatedLeaves p s now id c (s.federatedExit p c t agent remote)
      (s.handleFederated p now id c t agent remote) := by
  let look := Lookup.byText c.key.text
  unfold handleFederated federatedExit
  split
  · exact .denied
  · split
    · cases hl : s.app.cache.entries.lookup (look.hash p s.app.cache) with
      | some e =>
        rw [read_of_lookup hl, holds_of_some hl]
        exact .served _ hl rfl
      | none =>
        rw [read_of_none hl, holds_of_none hl]
        exact .unavailable
    · split
      · cases t with
        | grpc => exact .asks
        | http =>
          dsimp only
          cases hl : s.app.cache.entries.lookup (look.hash p s.app.cache) with
          | some e =>
            rw [read_of_lookup hl, holds_of_some hl]
            exact .served _ hl rfl
          | none =>
            rw [read_of_none hl, holds_of_none hl]
            exact .asks
      · exact .localOnly

end Server

/-! ## What a step begins and ends -/

def ItemExit.task (id : Nat) (c : Client) (upstreams : Upstreams) (missReason : MissReason) :
    ItemExit → Option (Nat × Task)
  | .leads => some (id, .leading c upstreams missReason none)
  | .waits receiver => some (id, .waiting c receiver)
  | _ => none

def FederatedExit.task (id : Nat) (c : Client) : FederatedExit → Option (Nat × Task)
  | .asks => some (id, .federating c)
  | _ => none

namespace Server

variable (p : Platform)

def tracks (s : Server) (now : Clock) (h : QueryHash) : Option Key :=
  s.app.refreshWorker.bind fun w =>
    if s.app.cache.checkFreshnessByHash p now h = some .stale ∧ h ∉ w.pending then
      w.queryMap.lookup h
    else none

/-- The task that a step begins. -/
def begun (s : Server) (a : Action) : Option (Nat × Task) :=
  match a.event with
  | .query contextId request agent skipCache allowed =>
    let c : Client := ⟨.query, contextId, request, a.now.instant⟩
    (s.arrive.queryExit p a.now c agent skipCache allowed).task s.arrive s.nextTask c
      (s.arrive.missReasonOf p a.now c skipCache) none
  | .batch t contextId request agent upstreams =>
    let c : Client := ⟨.batch t, contextId, request, a.now.instant⟩
    (s.arrive.itemExit p a.now c t agent upstreams).task s.nextTask c upstreams
      (s.arrive.itemMissReason p a.now c)
  | .federated t contextId query topK agent remote =>
    let c : Client :=
      ⟨.federated t, contextId, ⟨query, topK, none, none, none⟩, a.now.instant⟩
    (s.arrive.federatedExit p c t agent remote).task s.nextTask c
  | .embedded id embedding scan allowed =>
    match s.tasks.lookup id with
    | some (.embedding c missReason) =>
      ((s.finish id).semanticExit p a.now c embedding scan allowed).task (s.finish id) id c
        missReason (s.stashed embedding)
    | _ => none
  | .refreshStale h => (s.tracks p a.now h).map fun key => (s.nextTask, .tracking key)
  | .warmup contextId query =>
    if (s.app.upstreams.pool || s.app.upstreams.single) = false then none
    else if s.app.cache.checkFreshnessByHash p a.now (Key.hash p ⟨contextId, query⟩) =
        some .fresh then
      none
    else some (s.nextTask, .warming ⟨contextId, query⟩)
  | _ => none

/-- The task that a step takes up or drops. -/
def ended (s : Server) (a : Action) : Option Nat :=
  match a.event with
  | .embedded id _ _ _ =>
    match s.tasks.lookup id with
    | some (.embedding _ _) => some id
    | _ => none
  | .returned id _ _ =>
    match s.tasks.lookup id with
    | some (.embedding _ _) | some (.waiting _ _) | none => none
    | some _ => some id
  | .received id =>
    match s.tasks.lookup id with
    | some (.waiting _ receiver) => (s.sent.lookup receiver).map fun _ => id
    | _ => none
  | .dropped id => (s.tasks.lookup id).map fun _ => id
  | _ => none

end Server

def dropTask (tasks : AList fun _ : Nat => Task) : Option Nat → AList fun _ : Nat => Task
  | some id => tasks.erase id
  | none => tasks

namespace Server

/-- How many task numbers a step uses up. -/
def numbered (p : Platform) (s : Server) (a : Action) : Nat :=
  match a.event with
  | .query contextId request agent skipCache allowed =>
    let c : Client := ⟨.query, contextId, request, a.now.instant⟩
    1 + if s.arrive.queryExit p a.now c agent skipCache allowed = .stale ∧
      s.app.upstreams.single then 1 else 0
  | .batch .. | .federated .. | .warmup .. => 1
  | .refreshStale h => if (s.tracks p a.now h).isSome then 1 else 0
  | _ => 0

/-- The tasks, and the number of the next one. -/
def schedule (s : Server) : (AList fun _ : Nat => Task) × Nat := (s.tasks, s.nextTask)

variable {p : Platform} {s : Server} {now : Clock} {scan : Scan} {id : Nat} {c : Client}

theorem schedule_complete (h : QueryHash) (result : CoalesceResult) :
    (s.complete h result).schedule = s.schedule := by
  unfold complete
  split <;> rfl

theorem schedule_read {look : Lookup} {found : CacheEntry → Source → Server → Server}
    {missing : Server → Server} {schedule : (AList fun _ : Nat => Task) × Nat}
    (hfound : ∀ e source cache, (found e source (s.setCache cache)).schedule = schedule)
    (hmissing : (missing s).schedule = schedule) :
    (s.read p now look found missing).schedule = schedule := by
  cases hl : s.app.cache.entries.lookup (look.hash p s.app.cache) with
  | some e =>
    rw [read_of_lookup hl]
    exact hfound _ _ _
  | none =>
    rw [read_of_none hl]
    exact hmissing

/-- What comes after the upstream's answer begins no task. -/
theorem schedule_resume (task : Task) (outcome : Except String QueryResponse)
    (computed : Option Embedding) :
    (s.resume p now scan task outcome computed).schedule = s.schedule := by
  cases task with
  | leading c upstreams missReason embedding =>
    unfold resume
    dsimp only
    split
    · unfold leaderOk share
      dsimp only
      split <;> exact schedule_complete _ _
    · exact schedule_read (fun _ _ _ => schedule_complete _ _) (schedule_complete _ _)
    · unfold batchOk
      dsimp only
      refine (schedule_complete _ _).trans ?_
      split <;> rfl
    · exact schedule_read (fun _ _ _ => schedule_complete _ _) (schedule_complete _ _)
    · rfl
  | federating c =>
    simp only [resume, federatedDone]
    split
    · rfl
    · dsimp only [answer]
      split <;> rfl
  | refreshing key =>
    simp only [resume, staleRefreshed]
    split
    · rfl
    · split <;> rfl
  | tracking key =>
    simp only [resume, refreshed]
    split <;> rfl
  | warming key =>
    simp only [resume, warmed]
    split
    · rfl
    · split <;> rfl
  | embedding c missReason => rfl
  | waiting c receiver => rfl

theorem schedule_receive (result : CoalesceResult) :
    (s.receive p now c result).schedule = s.schedule := by
  unfold receive
  split
  · cases result with
    | ok b => rfl
    | error e => exact schedule_read (fun _ _ _ => rfl) rfl
  · cases result with
    | ok b => rfl
    | error e => exact schedule_read (fun _ _ _ => rfl) rfl
  · rfl

theorem schedule_coalesce {upstreams : Upstreams} {missReason : MissReason}
    {embedding : Option Embedding} :
    (s.coalesce p id c upstreams missReason embedding).schedule =
      match s.app.coalescer.inFlight.lookup (c.key.hash p) with
      | some receiver => (s.tasks.insert id (.waiting c receiver), s.nextTask)
      | none => (s.tasks.insert id (.leading c upstreams missReason embedding), s.nextTask) := by
  unfold coalesce RequestCoalescer.getOrInsert
  cases s.app.coalescer.inFlight.lookup (c.key.hash p) with
  | some receiver => rfl
  | none => rfl

theorem schedule_of_itemLeaves {t : Transport} {upstreams : Upstreams} {exit : ItemExit}
    {s' : Server} (h : ItemLeaves p s now id c t upstreams exit s') :
    s'.schedule =
      (addTask s.tasks (exit.task id c upstreams (s.itemMissReason p now c)), s.nextTask) := by
  cases h with
  | denied => rfl
  | served status hl => rfl
  | leads hfree =>
    rw [schedule_coalesce, hfree]
    rfl
  | waits hbusy =>
    rw [schedule_coalesce, hbusy]
    rfl
  | failed => rfl

theorem schedule_of_federatedLeaves {exit : FederatedExit} {s' : Server}
    (h : FederatedLeaves p s now id c exit s') :
    s'.schedule = (addTask s.tasks (exit.task id c), s.nextTask) := by
  cases h with
  | denied => rfl
  | served response hl hresults => rfl
  | unavailable => rfl
  | asks => rfl
  | localOnly => rfl

theorem schedule_of_leaves {s' : Server} {missReason : MissReason} {embedding : Option Embedding}
    {exit : Exit} (h : Leaves s s' id c missReason embedding exit) :
    s'.schedule = (addTask s.tasks (exit.task s id c missReason embedding),
      s.nextTask + if exit = .stale ∧ s.app.upstreams.single then 1 else 0) :=
  Prod.ext h.tasks h.nextTask

/-- A lookup of the semantic tier serves no stale entry of the key itself, and asks for no second
embedding. -/
theorem semanticExit_ne {embedded : Option Embedding} {tierScan : TierScan} {allowed : Bool} :
    s.semanticExit p now c embedded tierScan allowed ≠ .stale ∧
      s.semanticExit p now c embedded tierScan allowed ≠ .embeds := by
  unfold semanticExit missExit
  split
  · exact ⟨nofun, nofun⟩
  · split
    · split
      · split <;> exact ⟨nofun, nofun⟩
      · split <;> exact ⟨nofun, nofun⟩
    · split <;> exact ⟨nofun, nofun⟩

/-- A step changes the tasks by the one it takes up or drops and the one it begins. -/
theorem schedule_step (s : Server) (a : Action) :
    (s.step p a).schedule =
      (addTask (dropTask s.tasks (s.ended a)) (s.begun p a), s.nextTask + s.numbered p a) := by
  obtain ⟨now, scan, event⟩ := a
  cases event with
  | query contextId request agent skipCache allowed =>
    refine (schedule_of_leaves leaves_executeQuery).trans ?_
    exact Prod.ext rfl (Nat.add_assoc s.nextTask 1 _)
  | batch t contextId request agent upstreams =>
    exact schedule_of_itemLeaves (s := s.arrive) itemLeaves_batchItem
  | federated t contextId query topK agent remote =>
    exact schedule_of_federatedLeaves (s := s.arrive) federatedLeaves_handleFederated
  | embedded id embedding scan allowed =>
    simp only [step, ended, begun]
    cases s.tasks.lookup id with
    | none => rfl
    | some task =>
      cases task with
      | embedding c missReason =>
        refine (schedule_of_leaves leaves_semanticLookup).trans ?_
        rw [if_neg fun h => semanticExit_ne.1 h.1]
        rfl
      | _ => rfl
  | returned id outcome computed =>
    simp only [step, ended, begun]
    cases s.tasks.lookup id with
    | none => rfl
    | some task =>
      cases task with
      | embedding c missReason => rfl
      | waiting c receiver => rfl
      | _ => exact schedule_resume _ _ _
  | received id =>
    simp only [step, ended, begun]
    cases s.tasks.lookup id with
    | none => rfl
    | some task =>
      cases task with
      | waiting c receiver =>
        dsimp only
        cases s.sent.lookup receiver with
        | none => rfl
        | some result => exact schedule_receive result
      | _ => rfl
  | refreshStale h =>
    simp only [step, ended, begun, numbered, refreshStale, tracks]
    cases s.app.refreshWorker with
    | none => rfl
    | some w =>
      dsimp only [Option.bind]
      split
      · cases w.queryMap.lookup h with
        | none => rfl
        | some key => rfl
      · rfl
  | warmup contextId query =>
    have happ : s.arrive.app = s.app := rfl
    simp only [step, ended, begun, warmup, happ]
    by_cases hnone : (s.app.upstreams.pool || s.app.upstreams.single) = false
    · rw [if_pos hnone, if_pos hnone]
      rfl
    · rw [if_neg hnone, if_neg hnone]
      split <;> rfl
  | replicated key response upstreamId applies =>
    simp only [step, replicated]
    split <;> rfl
  | maintenance op =>
    simp only [step]
    split <;> rfl
  | dropped id =>
    simp only [step, ended, begun]
    cases hl : s.tasks.lookup id with
    | some task => rfl
    | none =>
      have herase : s.tasks.erase id = s.tasks :=
        AList.ext (List.kerase_of_notMem_keys (AList.lookup_eq_none.1 hl))
      simp only [schedule, Server.finish, herase]
      rfl
  | reconfigured upstreams federatedEnabled paused => rfl

theorem tasks_step (s : Server) (a : Action) :
    (s.step p a).tasks = addTask (dropTask s.tasks (s.ended a)) (s.begun p a) :=
  congrArg Prod.fst (schedule_step s a)

theorem nextTask_step (s : Server) (a : Action) :
    (s.step p a).nextTask = s.nextTask + s.numbered p a :=
  congrArg Prod.snd (schedule_step s a)

theorem lookup_addTask (tasks : AList fun _ : Nat => Task) (begun : Option (Nat × Task)) (i : Nat) :
    (addTask tasks begun).lookup i =
      match begun with
      | some (j, task) => if j = i then some task else tasks.lookup i
      | none => tasks.lookup i := by
  cases begun with
  | none => rfl
  | some found =>
    obtain ⟨j, task⟩ := found
    dsimp only [addTask]
    split
    · rename_i hj
      subst hj
      exact AList.lookup_insert _
    · rename_i hj
      exact AList.lookup_insert_ne (Ne.symm hj)

theorem lookup_dropTask (tasks : AList fun _ : Nat => Task) (ended : Option Nat) (i : Nat) :
    (dropTask tasks ended).lookup i = if ended = some i then none else tasks.lookup i := by
  cases ended with
  | none => simp [dropTask]
  | some j =>
    by_cases hj : i = j
    · subst hj
      simp [dropTask]
    · simp [dropTask, AList.lookup_erase_ne hj, Ne.symm hj]

theorem lookup_step (s : Server) (a : Action) (i : Nat) :
    (s.step p a).tasks.lookup i =
      match s.begun p a with
      | some (j, task) =>
        if j = i then some task else if s.ended a = some i then none else s.tasks.lookup i
      | none => if s.ended a = some i then none else s.tasks.lookup i := by
  rw [tasks_step, lookup_addTask]
  simp only [lookup_dropTask]

/-- The task of an exit, by the exit. -/
theorem exit_task_cases {n : Nat} {missReason : MissReason} {embedding : Option Embedding}
    {exit : Exit} {task : Task} (h : exit.task s n c missReason embedding = some (id, task)) :
    exit = .embeds ∧ id = n ∧ task = .embedding c missReason ∨
      exit = .leads ∧ id = n ∧ task = .leading c s.app.upstreams missReason embedding ∨
      (∃ receiver, exit = .waits receiver ∧ id = n ∧ task = .waiting c receiver) ∨
      exit = .stale ∧ s.app.upstreams.single = true ∧ id = s.nextTask ∧
        task = .refreshing c.key := by
  cases exit with
  | embeds =>
    cases h
    exact .inl ⟨rfl, rfl, rfl⟩
  | leads =>
    cases h
    exact .inr (.inl ⟨rfl, rfl, rfl⟩)
  | waits receiver =>
    cases h
    exact .inr (.inr (.inl ⟨receiver, rfl, rfl, rfl⟩))
  | stale =>
    simp only [Exit.task] at h
    split at h
    · rename_i hsingle
      cases h
      exact .inr (.inr (.inr ⟨rfl, hsingle, rfl, rfl⟩))
    · cases h
  | _ => cases h

theorem number_of_exit {n : Nat} {missReason : MissReason} {embedding : Option Embedding}
    {exit : Exit} {task : Task} (h : exit.task s n c missReason embedding = some (id, task)) :
    id = n ∨ exit = .stale ∧ s.app.upstreams.single = true ∧ id = s.nextTask := by
  rcases exit_task_cases h with
    ⟨-, hid, -⟩ | ⟨-, hid, -⟩ | ⟨-, -, hid, -⟩ | ⟨hstale, hsingle, hid, -⟩
  · exact .inl hid
  · exact .inl hid
  · exact .inl hid
  · exact .inr ⟨hstale, hsingle, hid⟩

/-- What begins a task: the exit of a query, of a batch item or of a federated request, the exit
of a query whose embedding came, the refresh worker, or warmup. -/
inductive BegunBy (p : Platform) (s : Server) (a : Action) (id : Nat) (task : Task) : Prop where
  | query (contextId : String) (request : QueryRequest) (agent : Option AgentIdentity)
      (skipCache allowed : Bool)
      (hevent : a.event = .query contextId request agent skipCache allowed)
      (htask : (s.arrive.queryExit p a.now ⟨.query, contextId, request, a.now.instant⟩ agent
        skipCache allowed).task s.arrive s.nextTask ⟨.query, contextId, request, a.now.instant⟩
          (s.arrive.missReasonOf p a.now ⟨.query, contextId, request, a.now.instant⟩ skipCache)
          none = some (id, task))
  | item (t : Transport) (contextId : String) (request : QueryRequest)
      (agent : Option AgentIdentity) (upstreams : Upstreams)
      (hevent : a.event = .batch t contextId request agent upstreams) (hid : id = s.nextTask)
      (htask : (∃ missReason, task =
          .leading ⟨.batch t, contextId, request, a.now.instant⟩ upstreams missReason none) ∨
        ∃ receiver, task = .waiting ⟨.batch t, contextId, request, a.now.instant⟩ receiver)
  | federated (t : Transport) (contextId query : String) (topK : Option Nat)
      (agent : Option AgentIdentity) (remote : Bool)
      (hevent : a.event = .federated t contextId query topK agent remote) (hid : id = s.nextTask)
      (htask : ∃ c, task = .federating c)
  | embedded (embedding : Option Embedding) (tierScan : TierScan) (allowed : Bool) (c : Client)
      (missReason : MissReason) (hevent : a.event = .embedded id embedding tierScan allowed)
      (hlookup : s.tasks.lookup id = some (.embedding c missReason))
      (htask : ((s.finish id).semanticExit p a.now c embedding tierScan allowed).task (s.finish id)
        id c missReason (s.stashed embedding) = some (id, task))
  | tracking (h : QueryHash) (key : Key) (hevent : a.event = .refreshStale h)
      (hkey : s.tracks p a.now h = some key) (hid : id = s.nextTask) (htask : task = .tracking key)
  | warming (contextId query : String) (hevent : a.event = .warmup contextId query)
      (hid : id = s.nextTask) (htask : task = .warming ⟨contextId, query⟩)

theorem begunBy {s : Server} {a : Action} {id : Nat} {task : Task}
    (h : s.begun p a = some (id, task)) : BegunBy p s a id task := by
  obtain ⟨now, scan, event⟩ := a
  cases event with
  | query contextId request agent skipCache allowed =>
    exact .query contextId request agent skipCache allowed rfl h
  | batch t contextId request agent upstreams =>
    simp only [begun] at h
    cases hexit : s.arrive.itemExit p now ⟨.batch t, contextId, request, now.instant⟩ t agent
      upstreams with
    | leads =>
      rw [hexit] at h
      cases h
      exact .item t contextId request agent upstreams rfl rfl (.inl ⟨_, rfl⟩)
    | waits receiver =>
      rw [hexit] at h
      cases h
      exact .item t contextId request agent upstreams rfl rfl (.inr ⟨receiver, rfl⟩)
    | _ =>
      rw [hexit] at h
      cases h
  | federated t contextId query topK agent remote =>
    simp only [begun] at h
    cases hexit : s.arrive.federatedExit p
      ⟨.federated t, contextId, ⟨query, topK, none, none, none⟩, now.instant⟩ t agent remote with
    | asks =>
      rw [hexit] at h
      cases h
      exact .federated t contextId query topK agent remote rfl rfl ⟨_, rfl⟩
    | _ =>
      rw [hexit] at h
      cases h
  | embedded id' embedding tierScan allowed =>
    simp only [begun] at h
    split at h
    · rename_i c missReason hl
      rcases number_of_exit h with rfl | ⟨hstale, -⟩
      · exact .embedded embedding tierScan allowed c missReason rfl hl h
      · exact absurd hstale semanticExit_ne.1
    · cases h
  | refreshStale hash =>
    obtain ⟨key, hkey, hbegun⟩ := Option.map_eq_some_iff.1 h
    cases hbegun
    exact .tracking hash key rfl hkey rfl rfl
  | warmup contextId query =>
    simp only [begun] at h
    split at h
    · cases h
    · split at h
      · cases h
      · cases h
        exact .warming contextId query rfl rfl rfl
  | returned | received | replicated | maintenance | dropped | reconfigured => cases h

/-- A task is begun under a new number, or under that of the query whose embedding came. -/
theorem begun_number {s : Server} {a : Action} {id : Nat} {task : Task}
    (h : s.begun p a = some (id, task)) :
    s.nextTask ≤ id ∧ id < s.nextTask + s.numbered p a ∨
      s.ended a = some id ∧ ∃ c missReason, s.tasks.lookup id = some (.embedding c missReason) := by
  cases begunBy h with
  | query contextId request agent skipCache allowed hevent htask =>
    left
    simp only [numbered, hevent]
    rcases number_of_exit htask with rfl | ⟨hstale, hsingle, rfl⟩
    · omega
    · rw [if_pos ⟨hstale, hsingle⟩]
      simp only [arrive]
      omega
  | item _ _ _ _ _ hevent hid | federated _ _ _ _ _ _ hevent hid | warming _ _ hevent hid =>
    left
    simp only [numbered, hevent]
    omega
  | tracking hash key hevent hkey hid =>
    left
    simp only [numbered, hevent, hkey, Option.isSome_some, if_true]
    omega
  | embedded embedding tierScan allowed c missReason hevent hlookup =>
    right
    exact ⟨by simp only [ended, hevent, hlookup], c, missReason, hlookup⟩

/-- Where the tasks after a step come from. -/
theorem task_cases {a : Action} {id : Nat} {task : Task}
    (h : (s.step p a).tasks.lookup id = some task) :
    s.begun p a = some (id, task) ∨
      (∀ task', s.begun p a ≠ some (id, task')) ∧ s.ended a ≠ some id ∧
        s.tasks.lookup id = some task := by
  rw [lookup_step] at h
  cases hbegun : s.begun p a with
  | none =>
    rw [hbegun] at h
    dsimp only at h
    split at h
    · cases h
    · rename_i hended
      exact .inr ⟨fun _ => (Option.some_ne_none _).symm, hended, h⟩
  | some found =>
    obtain ⟨j, task'⟩ := found
    rw [hbegun] at h
    dsimp only at h
    split at h
    · rename_i hj
      subst hj
      cases h
      exact .inl rfl
    · rename_i hj
      split at h
      · cases h
      · rename_i hended
        refine .inr ⟨?_, hended, h⟩
        rintro _ heq
        cases heq
        exact hj rfl

/-- Every task has a number that is no longer given out. -/
def Numbered (s : Server) : Prop := ∀ id task, s.tasks.lookup id = some task → id < s.nextTask

theorem Numbered.begun_lt (hs : s.Numbered) {a : Action} {id : Nat} {task : Task}
    (hbegun : s.begun p a = some (id, task)) : id < (s.step p a).nextTask := by
  rw [nextTask_step]
  rcases begun_number hbegun with ⟨-, hlt⟩ | ⟨-, c, missReason, htask⟩
  · exact hlt
  · exact Nat.lt_add_right _ (hs id _ htask)

theorem Numbered.step (hs : s.Numbered) (a : Action) : (s.step p a).Numbered := by
  intro id task h
  rcases task_cases h with hbegun | ⟨-, -, hl⟩
  · exact hs.begun_lt hbegun
  · refine (hs id task hl).trans_le ?_
    exact (nextTask_step s a).symm ▸ Nat.le_add_right _ _

end Server

end Conproxy
