import Conproxy.Server.Isolation
import Conproxy.Server.Storing

/-!
# The context tag of an entry

`evict_filter` finds the entries of a context by the tag that they carry. `insert_with_context` sets
it; all other insertions set "default", and these are the ones that queries, batches, the refresh
worker and peers use.
-/

namespace Conproxy

open CacheStore Machine

set_option autoImplicit false

variable {p : Platform}

namespace Server

variable {s s' : Server} {now : Clock} {scan : Scan} {c : Client} {missReason : MissReason}

theorem origins_complete (s : Server) (h : QueryHash) (result : CoalesceResult) :
    (s.complete h result).origins = s.origins := by
  unfold complete
  split <;> rfl

theorem origins_read {look : Lookup} {found : CacheEntry → Source → Server → Server}
    {missing : Server → Server} (hfound : ∀ e source s', (found e source s').origins = s'.origins)
    (hmissing : (missing s).origins = s.origins) :
    (s.read p now look found missing).origins = s.origins := by
  cases hl : s.app.cache.entries.lookup (look.hash p s.app.cache) with
  | none => rw [read_of_none hl, hmissing]
  | some e => rw [read_of_lookup hl, hfound]; rfl

theorem origins_coalesce (id : Nat) (upstreams : Upstreams) (embedding : Option Embedding) :
    (s.coalesce p id c upstreams missReason embedding).origins = s.origins := by
  unfold coalesce
  split <;> rfl

theorem origins_afterMiss (id : Nat) (embedding : Option Embedding) (allowed : Bool) :
    (s.afterMiss p now id c missReason embedding allowed).origins = s.origins := by
  unfold afterMiss
  dsimp only
  split
  · split
    · exact origins_coalesce id _ embedding
    · exact origins_read (fun _ _ _ => rfl) rfl
  · exact origins_read (fun _ _ _ => rfl) rfl

theorem origins_semanticTier (id : Nat) (allowed : Bool) :
    (s.semanticTier p now id c missReason allowed).origins = s.origins := by
  unfold semanticTier
  split
  · rfl
  · exact origins_afterMiss id none allowed

theorem origins_semanticLookup (id : Nat) (embedded : Option Embedding) (scan : TierScan)
    (allowed : Bool) :
    (s.semanticLookup p now id c missReason embedded scan allowed).origins = s.origins := by
  have hread {matched : QueryHash} {embedding : Embedding} :
      (s.read p now (.byHash matched) (serve now c .hit) fun s =>
        s.afterMiss p now id c missReason (some embedding) allowed).origins = s.origins :=
    origins_read (fun _ _ _ => rfl) (origins_afterMiss id _ allowed)
  unfold semanticLookup
  split
  · split
    · split
      · exact hread
      · exact hread
      · exact hread
      · exact origins_afterMiss id _ allowed
    · exact origins_afterMiss id _ allowed
  · exact origins_afterMiss id none allowed

theorem origins_executeQuery (id : Nat) (agent : Option AgentIdentity) (skipCache allowed : Bool) :
    (s.executeQuery p now id c agent skipCache allowed).origins = s.origins := by
  unfold executeQuery
  split
  · rfl
  split
  · rfl
  split
  · rfl
  split
  · exact origins_afterMiss id none allowed
  dsimp only
  split
  · exact origins_read (fun _ _ _ => rfl) (origins_semanticTier id allowed)
  · refine origins_read (fun e source s' => ?_) (origins_semanticTier id allowed)
    unfold serveStale
    dsimp only
    split <;> rfl
  · exact origins_semanticTier id allowed
  · exact origins_semanticTier id allowed
  · exact origins_semanticTier id allowed

theorem origins_batchMiss (id : Nat) (t : Transport) (upstreams : Upstreams) :
    (s.batchMiss p now id c t upstreams missReason).origins = s.origins := by
  unfold batchMiss
  split
  · exact origins_coalesce id upstreams none
  · exact origins_read (fun _ _ _ => rfl) rfl

theorem origins_batchItem (id : Nat) (t : Transport) (agent : Option AgentIdentity)
    (upstreams : Upstreams) : (s.batchItem p now id c t agent upstreams).origins = s.origins := by
  unfold batchItem
  split
  · rfl
  dsimp only
  split
  · exact origins_read (fun _ _ _ => rfl) (origins_batchMiss id t upstreams)
  · exact origins_read (fun _ _ _ => rfl) (origins_batchMiss id t upstreams)
  · exact origins_batchMiss id t upstreams
  · exact origins_batchMiss id t upstreams
  · exact origins_batchMiss id t upstreams

theorem origins_handleFederated (id : Nat) (t : Transport) (agent : Option AgentIdentity)
    (remote : Bool) : (s.handleFederated p now id c t agent remote).origins = s.origins := by
  unfold handleFederated
  split
  · rfl
  split
  · exact origins_read (fun _ _ _ => rfl) rfl
  split
  · split
    · exact origins_read (fun _ _ _ => rfl) rfl
    · rfl
  · rfl

theorem origins_receive (result : CoalesceResult) :
    (s.receive p now c result).origins = s.origins := by
  unfold receive
  split
  · unfold waiterDone
    split
    · rfl
    · exact origins_read (fun _ _ _ => rfl) rfl
  · unfold batchWaiterDone
    split
    · rfl
    · exact origins_read (fun _ _ _ => rfl) rfl
  · rfl

theorem origins_refreshStale (h : QueryHash) : (s.refreshStale p now h).origins = s.origins := by
  unfold refreshStale
  split
  · rfl
  split
  · split <;> rfl
  · rfl

theorem origins_warmup (id : Nat) (key : Key) : (s.warmup p now id key).origins = s.origins := by
  unfold warmup
  split
  · rfl
  split <;> rfl

/-- The origins after a fetch was stored, if one was. -/
def recorded (p : Platform) (origins : Table Fetch) : Option Fetch → Table Fetch
  | some f => origins.insert (f.key.hash p) f
  | none => origins

theorem origins_leaderOk (stashed computed : Option Embedding) (returned : QueryResponse) :
    (s.leaderOk p now scan c missReason stashed computed returned).origins =
      recorded p s.origins (s.storedByLeader c missReason returned) := by
  unfold leaderOk storedByLeader keptIf share
  dsimp only
  cases (s.missResponse c missReason returned).validate with
  | error err => exact origins_complete s _ _
  | ok => exact origins_complete _ _ _

theorem origins_batchOk (t : Transport) (returned : QueryResponse) :
    (s.batchOk p now scan c t missReason returned).origins =
      recorded p s.origins (s.storedByLeader c missReason returned) := by
  unfold batchOk storedByLeader keptIf
  dsimp only
  cases (s.missResponse c missReason returned).validate with
  | error err => exact origins_complete s _ _
  | ok => exact origins_complete _ _ _

theorem origins_storeIf {response : QueryResponse} {f : Fetch}
    (hs : s'.origins = s.origins.insert (f.key.hash p) f) :
    (match response.validate with
      | .error _ => s
      | .ok () => s').origins = recorded p s.origins (keptIf response f) := by
  unfold keptIf
  cases response.validate with
  | error err => rfl
  | ok => exact hs

theorem origins_resume {task : Task} {outcome : Except String QueryResponse}
    (computed : Option Embedding) :
    (s.resume p now scan task outcome computed).origins =
      recorded p s.origins (s.storedByTask outcome task) := by
  cases task with
  | leading c upstreams missReason stashed =>
    simp only [resume, storedByTask]
    cases c.handler with
    | query =>
      cases upstreams.dispatch outcome with
      | ok returned => exact origins_leaderOk stashed computed returned
      | error message =>
        exact origins_read (fun _ _ _ => origins_complete _ _ _) (origins_complete _ _ _)
    | batch t =>
      cases upstreams.dispatch outcome with
      | ok returned => exact origins_batchOk t returned
      | error message =>
        exact origins_read (fun _ _ _ => origins_complete _ _ _) (origins_complete _ _ _)
    | federated t => rfl
  | federating c =>
    simp only [resume, federatedDone, storedByTask]
    by_cases hhttp : c.handler = .federated .http
    · rw [if_pos hhttp]
      cases outcome with
      | error message => rfl
      | ok response =>
        dsimp only
        rw [if_pos hhttp]
        rfl
    · rw [if_neg hhttp]
      cases outcome with
      | error message => rfl
      | ok response =>
        dsimp only
        rw [if_neg hhttp]
        rfl
  | refreshing key =>
    simp only [resume, staleRefreshed, storedByTask]
    cases outcome with
    | error message => rfl
    | ok returned => exact origins_storeIf rfl
  | tracking key =>
    simp only [resume, refreshed, storedByTask]
    cases outcome with
    | error message => rfl
    | ok response => rfl
  | warming key =>
    simp only [resume, warmed, storedByTask]
    cases outcome with
    | error message => rfl
    | ok returned => exact origins_storeIf rfl
  | embedding c missReason => rfl
  | waiting c receiver => rfl

/-- A step records the fetch that it stores, and no other. -/
theorem origins_step (s : Server) (a : Action) :
    (s.step p a).origins = recorded p s.origins (s.stored a.event) := by
  obtain ⟨now, scan, event⟩ := a
  cases event with
  | query contextId request agent skipCache allowed =>
    exact origins_executeQuery _ agent skipCache allowed
  | batch t contextId request agent upstreams => exact origins_batchItem _ t agent upstreams
  | federated t contextId query topK agent remote => exact origins_handleFederated _ t agent remote
  | embedded id embedding scan allowed =>
    simp only [step]
    split
    · exact origins_semanticLookup id embedding scan allowed
    · rfl
  | returned id outcome computed =>
    simp only [step, stored]
    cases hl : s.tasks.lookup id with
    | none => rfl
    | some task =>
      have hresume : ((s.finish id).resume p now scan task outcome computed).origins =
          recorded p s.origins (s.storedByTask outcome task) :=
        origins_resume (s := s.finish id) computed
      cases task with
      | embedding c missReason => rfl
      | waiting c receiver => rfl
      | _ => exact hresume
  | received id =>
    simp only [step]
    split
    · split
      · exact origins_receive _
      · rfl
    · rfl
  | refreshStale h => exact origins_refreshStale h
  | warmup contextId query => exact origins_warmup _ _
  | replicated key response upstreamId applies =>
    simp only [step, replicated, stored]
    cases applies with
    | true => rfl
    | false => rfl
  | maintenance op =>
    simp only [step]
    split <;> rfl
  | dropped id => rfl
  | reconfigured upstreams federatedEnabled paused => rfl

end Server

/-- The paths whose insertions set "default" as the tag. -/
def Requester.untagged : Requester → Bool
  | .client | .refreshWorker | .peer => true
  | .staleRefresh | .warmup | .federated => false

/-- The tag that an entry gets from the path on which it is stored. -/
def Fetch.tag (f : Fetch) : String :=
  if f.requester.untagged then "default" else f.key.contextId

/-- The tag that an insertion sets. -/
def Op.tag : Op → Option String
  | .insertWithContext _ _ _ contextId => some contextId
  | .insert .. | .insertByHash .. | .insertByHashWithEmbedding .. => some "default"
  | _ => none

theorem Op.Stores.tagged {key : Key} {results : List SearchResult} {op : Op}
    (h : op.Stores p key results) (s : CacheStore) (now : Clock) (scan : Scan) :
    ∀ i ∈ insertions p s ⟨now, scan, op⟩,
      i.hash = key.hash p ∧ some i.entry.contextId = op.tag := by
  intro i hi
  cases h with
  | insert | insertWithContext | insertByHash | insertByHashWithEmbedding =>
    obtain rfl := List.mem_singleton.1 hi
    exact ⟨rfl, rfl⟩

namespace Server

variable {s : Server}

/-- Every entry carries the context of the key that it was stored under. -/
def Tagged (s : Server) : Prop :=
  ∀ h e, s.app.cache.entries.lookup h = some e →
    ∃ f, s.origins.lookup h = some f ∧ f.key.contextId = e.contextId

/-- What a step stores without its context it stores for the context "default". -/
def KeepsTags (s : Server) (a : Action) : Prop :=
  ∀ f ∈ s.stored a.event, f.requester.untagged = true → f.key.contextId = "default"

instance (s : Server) (a : Action) : Decidable (s.KeepsTags a) :=
  inferInstanceAs (Decidable (∀ f ∈ s.stored a.event, _ → _))

/-- `evict_filter` with a context removes the entries that were stored for the context, and no
others. -/
def EvictsContexts (p : Platform) (s : Server) : Prop :=
  ∀ scan now contextId, ∀ h ∈ s.app.cache.entries,
    h ∉ (s.app.cache.evictFilter p scan now ⟨some contextId, none, none, none⟩).2.entries ↔
      ∃ f, s.origins.lookup h = some f ∧ f.key.contextId = contextId

theorem mem_evictFilter_context {cache : CacheStore} {contextId : String} {h : QueryHash}
    {e : CacheEntry} {scan : Scan} {now : Clock} (hl : cache.entries.lookup h = some e) :
    h ∉ (cache.evictFilter p scan now ⟨some contextId, none, none, none⟩).2.entries ↔
      e.contextId = contextId := by
  have hentries : (cache.evictFilter p scan now ⟨some contextId, none, none, none⟩).2.entries =
      (removeAll p (cache.matchingHashes p scan now ⟨some contextId, none, none, none⟩)
        cache).2.entries := by
    unfold evictFilter
    dsimp only
    split <;> rfl
  rw [hentries, mem_removeAll, not_and_not_right]
  have hmem : h ∈ cache.entries := WeightedTable.mem_of_lookup _ hl
  rw [iff_true_intro hmem, true_imp_iff]
  simp only [matchingHashes, EvictCriteria.matches, Bool.and_true, List.mem_map, List.mem_filter,
    Prod.exists, exists_and_right, exists_eq_right, mem_iter_iff, hl, Option.some.injEq,
    beq_iff_eq]
  exact ⟨fun ⟨_, he, hcontext⟩ => he ▸ hcontext, fun hcontext => ⟨e, rfl, hcontext⟩⟩

section Stored

variable {f : Fetch} {now : Clock} {outcome : Except String QueryResponse}
  {computed : Option Embedding}

theorem ifValid_of_keptIf {response : QueryResponse} {g : Fetch}
    (h : keptIf response g = some f) (op : Op) : g = f ∧ response.ifValid op = some op := by
  unfold keptIf at h
  unfold QueryResponse.ifValid
  cases hvalid : response.validate with
  | error err =>
    rw [hvalid] at h
    cases h
  | ok =>
    rw [hvalid] at h
    exact ⟨Option.some.inj h, rfl⟩

theorem storedFor_write {requester : Requester} {key : Key} {returned : QueryResponse}
    (huntagged : requester.untagged = false) (h : s.storedFor requester key returned = some f) :
    ∃ op, s.keyWrite key returned = some op ∧ op.Stores p f.key f.results ∧
      op.tag = some f.tag := by
  obtain ⟨rfl, hwrite⟩ := ifValid_of_keptIf h (.insertWithContext key.text
    { returned with results := s.app.scopeFilterFor key.contextId returned.results }
    s.app.upstreamId key.contextId)
  exact ⟨_, hwrite, .insertWithContext _ _ _ rfl, by rw [Fetch.tag, huntagged]; rfl⟩

theorem storedByLeader_write {c : Client} {missReason : MissReason} {returned : QueryResponse}
    {op : Op} (h : s.storedByLeader c missReason returned = some f)
    (hstores : op.Stores p c.key (s.missResponse c missReason returned).results)
    (htag : op.tag = some "default") :
    ∃ op', (s.missResponse c missReason returned).ifValid op = some op' ∧
      op'.Stores p f.key f.results ∧ op'.tag = some f.tag := by
  obtain ⟨rfl, hwrite⟩ := ifValid_of_keptIf h op
  exact ⟨op, hwrite, hstores, htag⟩

theorem storedByTask_write {task : Task} (h : s.storedByTask outcome task = some f) :
    ∃ op, s.taskWrite p now outcome computed task = some op ∧ op.Stores p f.key f.results ∧
      op.tag = some f.tag := by
  cases task with
  | leading c upstreams missReason stashed =>
    simp only [storedByTask] at h
    simp only [taskWrite]
    generalize c.handler = handler at h ⊢
    generalize upstreams.dispatch outcome = dispatched at h ⊢
    cases dispatched with
    | error message => cases handler <;> cases h
    | ok returned =>
      cases handler with
      | query => exact storedByLeader_write h (.insertByHashWithEmbedding _ _ _ _ rfl) rfl
      | batch t =>
        refine storedByLeader_write h (Provenance.batchInsert_stores t c.key _ _ _ rfl) ?_
        cases t with
        | http => rfl
        | grpc => rfl
      | federated t => cases h
  | federating c =>
    simp only [storedByTask] at h
    simp only [taskWrite]
    split at h
    · rename_i hhttp
      obtain ⟨response, hok, rfl⟩ := Option.map_eq_some_iff.mp h
      rw [if_pos hhttp, hok]
      exact ⟨_, rfl, .insertWithContext _ _ _ rfl, rfl⟩
    · cases h
  | refreshing key =>
    obtain ⟨returned, hok, hkept⟩ := Option.bind_eq_some_iff.mp h
    simp only [taskWrite, hok]
    exact storedFor_write rfl hkept
  | tracking key =>
    obtain ⟨response, hok, rfl⟩ := Option.map_eq_some_iff.mp h
    simp only [taskWrite, hok]
    exact ⟨_, rfl, .insert _ _ rfl, rfl⟩
  | warming key =>
    obtain ⟨returned, hok, hkept⟩ := Option.bind_eq_some_iff.mp h
    simp only [taskWrite, hok]
    exact storedFor_write rfl hkept
  | embedding c missReason => cases h
  | waiting c receiver => cases h

theorem stored_write {a : Action} (h : s.stored a.event = some f) :
    ∃ op, s.write p a = some op ∧ op.Stores p f.key f.results ∧ op.tag = some f.tag := by
  obtain ⟨now, scan, event⟩ := a
  cases event with
  | returned id outcome computed =>
    obtain ⟨task, hl, hstored⟩ := Option.bind_eq_some_iff.mp h
    simp only [write, hl, Option.bind_some]
    exact storedByTask_write hstored
  | replicated key response upstreamId applies =>
    simp only [stored] at h
    simp only [write]
    split at h
    · rename_i happlies
      cases h
      rw [if_pos happlies]
      exact ⟨_, rfl, .insert _ _ rfl, rfl⟩
    · cases h
  | query | batch | federated | embedded | received | refreshStale | warmup | maintenance
  | dropped | reconfigured => cases h

end Stored

namespace Tagged

theorem step (s : Server) (a : Action) (hkeeps : s.KeepsTags a) (hs : s.Tagged) :
    (s.step p a).Tagged := by
  intro h e' hl
  rw [origins_step]
  cases hstored : s.stored a.event with
  | none =>
    have hgains : s.Gains (fun _ _ => False) (s.step p a) := Gains.step s a fun f hf => by
      rw [hstored] at hf
      cases hf
    obtain ⟨e, hold, hsame⟩ := (hgains h e' hl).resolve_right id
    obtain ⟨f, horigin, hcontext⟩ := hs h e hold
    exact ⟨f, horigin, by rw [hsame.contextId]; exact hcontext⟩
  | some f =>
    obtain ⟨op, hwrite, hstores, htag⟩ := stored_write (p := p) hstored
    obtain ⟨cache, hlooked, hwritten⟩ := (s.does_step (p := p) a).cache
    rw [hwrite] at hwritten
    rw [hwritten] at hl
    rcases exec_content cache ⟨a.now, a.scan, op⟩ hl with ⟨i, hi, hh, hsame⟩ | ⟨hne, e, he, hsame⟩
    · obtain ⟨hhash, hcontext⟩ := hstores.tagged cache a.now a.scan i hi
      rw [htag] at hcontext
      obtain rfl := hh.trans hhash
      refine ⟨f, AList.lookup_insert _, ?_⟩
      rw [hsame.contextId, Option.some.inj hcontext, Fetch.tag]
      split
      · rename_i huntagged
        exact hkeeps f hstored huntagged
      · rfl
    · obtain ⟨i, hone, hhash, -⟩ := hstores.inserts cache a.now a.scan
      have hh : h ≠ f.key.hash p := by
        rw [← hhash]
        exact hne i (by simp [hone])
      obtain ⟨e₀, hold, hsame₀⟩ := retains_of_looked hlooked h e he
      obtain ⟨g, horigin, hcontext⟩ := hs h e₀ hold
      refine ⟨g, (AList.lookup_insert_ne hh).trans horigin, ?_⟩
      rw [(hsame₀.trans hsame).contextId]
      exact hcontext

theorem evictsContexts (hs : s.Tagged) : s.EvictsContexts p := by
  intro scan now contextId h hmem
  obtain ⟨e, hl⟩ := WeightedTable.lookup_of_mem _ hmem
  obtain ⟨f, horigin, hcontext⟩ := hs h e hl
  rw [mem_evictFilter_context hl, ← hcontext, horigin]
  simp

end Tagged

end Server

/-- In every run whose steps store without a context only for the context "default", evicting a
context removes exactly the entries whose keys were built for it. -/
theorem context_eviction_complete {s : Server} (hs : Launched p s)
    (hrestored : ∀ h e f, s.app.cache.entries.lookup h = some e → s.origins.lookup h = some f →
      f.key.contextId = e.contextId) (as : List Action)
    (hsteps : AllSteps (Server.step p) Server.KeepsTags s as) :
    (run (Server.step p) s as).EvictsContexts p := by
  have hstart : s.Tagged := by
    intro h e hl
    obtain ⟨f, horigin, -⟩ := hs.restored h e hl
    exact ⟨f, horigin, hrestored h e f hl horigin⟩
  exact (run_invariant Server.Tagged.step hstart hsteps).evictsContexts

theorem default_context_evicted :
    (run (Server.step Platform.sample) smallServer
      (missThen (plainQuery "default" "q" none) (plainQuery "default" "q" none)
        (textResponse "x"))).EvictsContexts Platform.sample := by
  refine context_eviction_complete (launched_launch _ _ _ _) (fun h e f hl => ?_) _
    (by decide +kernel)
  simp [Server.launch, CacheStore.new, withJitter] at hl

def afterQueryOfA : Server :=
  run (Server.step Platform.sample) smallServer
    (missThen (plainQuery "a" "q" none) (plainQuery "a" "q" none) (textResponse "x"))

/-- The entry of a query for the context `a` goes with the context "default". -/
theorem query_tagged_default :
    Key.hash Platform.sample ⟨"a", "q"⟩ ∈
        (afterQueryOfA.app.cache.evictFilter Platform.sample Scan.stored ⟨0, 0⟩
          ⟨some "a", none, none, none⟩).2.entries ∧
      Key.hash Platform.sample ⟨"a", "q"⟩ ∉
        (afterQueryOfA.app.cache.evictFilter Platform.sample Scan.stored ⟨0, 0⟩
          ⟨some "default", none, none, none⟩).2.entries ∧
      ¬ afterQueryOfA.EvictsContexts Platform.sample := by
  have hmem : Key.hash Platform.sample ⟨"a", "q"⟩ ∈ afterQueryOfA.app.cache.entries := by
    decide +kernel
  have horigin : (afterQueryOfA.origins.lookup (Key.hash Platform.sample ⟨"a", "q"⟩)).map
      (fun f => f.key.contextId) = some "a" := by
    decide +kernel
  have hkept : Key.hash Platform.sample ⟨"a", "q"⟩ ∈
      (afterQueryOfA.app.cache.evictFilter Platform.sample Scan.stored ⟨0, 0⟩
        ⟨some "a", none, none, none⟩).2.entries := by
    decide +kernel
  refine ⟨hkept, by decide +kernel, fun h => ?_⟩
  exact (h Scan.stored ⟨0, 0⟩ "a" _ hmem).2 (Option.map_eq_some_iff.1 horigin) hkept

end Conproxy
