import Conproxy.Sample
import Conproxy.Server.Tracing

/-!
# Context isolation

Two requests share an entry or a leader exactly when their key texts have the same normal form.
Contexts whose key prefixes are separated therefore never see each other's answers.
-/

namespace Conproxy

open CacheStore Machine

set_option autoImplicit false

variable (p : Platform)

/-- A server as it is built: nothing is under way and nothing answered. The tier that queries
read is empty, and the entries that were restored into the cache have known origins. -/
structure Launched (s : Server) : Prop where
  tasks : s.tasks = ∅
  inFlight : s.app.coalescer.inFlight = ∅
  sent : s.sent = ∅
  answers : s.answers = []
  tier : ∀ t, s.app.semanticCache = some t → t.embeddings = ∅
  registered : ∀ w, s.app.refreshWorker = some w → w.queryMap = ∅
  mappings : s.app.cache.exactToNormalized = ∅
  restored : ∀ h e, s.app.cache.entries.lookup h = some e →
    ∃ f, s.origins.lookup h = some f ∧ f.For p Set.univ h e.response.results

/-- The keys of the restored entries and of the requests of a run. -/
def runKeys (s : Server) (as : List Action) : Set Key :=
  { k | (∃ h f, s.origins.lookup h = some f ∧ f.key = k) ∨ ∃ a ∈ as, k ∈ a.event.keys }

variable {p}

theorem Launched.provenance_on {s : Server} (hs : Launched p s) {K : Set Key}
    (hK : ∀ h f, s.origins.lookup h = some f → f.key ∈ K) : Provenance p K s where
  entries := by
    intro h e hl
    obtain ⟨f, horigin, hfor⟩ := hs.restored h e hl
    exact ⟨f, horigin, { hfor with known := hK h f horigin }⟩
  mappings := by simp [hs.mappings]
  tier := hs.tier
  registered := by
    intro w hw h k hl
    simp [hs.registered w hw] at hl
  inFlight := by simp [hs.inFlight]
  sent := by simp [hs.sent]
  tasks := by simp [hs.tasks]
  answers := by simp [hs.answers]

theorem Launched.provenance {s : Server} (hs : Launched p s) (as : List Action) :
    Provenance p (runKeys s as) s :=
  hs.provenance_on fun h f horigin => Or.inl ⟨h, f, horigin, rfl⟩

theorem run_provenance {s : Server} (hs : Launched p s) (as : List Action)
    (hfree : CollisionFree p (runKeys s as)) :
    Provenance p (runKeys s as) (run (Server.step p) s as) := by
  have hkeys : AllSteps (Server.step p) (fun _ a => ∀ k ∈ a.event.keys, k ∈ runKeys s as) s as :=
    allSteps_of_forall (fun a ha _ k hk => Or.inr ⟨a, ha, hk⟩) s
  exact run_invariant (Provenance.step hfree) (hs.provenance as) hkeys

/-- A server that was just built around a store, with the given upstreams and nothing else
configured. -/
def Server.launch (cache : CacheStore) (upstreams : Upstreams) : Server where
  app := {
    cache := cache
    upstreams := upstreams
    coalescer := RequestCoalescer.new
    refreshWorker := if upstreams.single then some RefreshWorker.new else none
    upstreamId := "default"
    scopeFilterFor := fun _ results => results
    semanticCache := none
    smartEmbedder := false
    federatedEnabled := false
    paused := false }
  tasks := ∅
  nextTask := 0
  sent := ∅
  origins := ∅
  answers := []

theorem launched_launch (freshDuration staleDuration : Duration) (maxEntries : Nat)
    (upstreams : Upstreams) :
    Launched p (Server.launch (CacheStore.new freshDuration staleDuration maxEntries)
      upstreams) where
  tasks := rfl
  inFlight := rfl
  sent := rfl
  answers := rfl
  tier := by simp [Server.launch]
  registered := by
    intro w hw
    obtain ⟨-, rfl⟩ : upstreams.single = true ∧ RefreshWorker.new = w := by
      simpa [Server.launch] using hw
    rfl
  mappings := rfl
  restored := by
    intro h e hl
    simp [Server.launch, CacheStore.new, withJitter] at hl

def actionAt (time : Nat) (event : Event) : Action := ⟨⟨time, time⟩, Scan.stored, event⟩

def plainQuery (contextId query : String) (topK : Option Nat) : Event :=
  .query contextId ⟨query, topK, none, none, none⟩ none false true

/-- A server with a single upstream and room for four entries that are fresh for a minute. -/
def smallServer : Server :=
  Server.launch (CacheStore.new 60000000000 60000000000 4) ⟨false, false, true⟩

/-- In a run over separated contexts, no answer was fetched for another context than that of
its request. -/
theorem context_isolation {s : Server} (hs : Launched p s) (as : List Action)
    (hfree : CollisionFree p (runKeys s as))
    (hsep : ∀ k ∈ runKeys s as, ∀ l ∈ runKeys s as, k.contextId ≠ l.contextId →
      Separated p.tables k.contextId l.contextId) :
    ∀ a ∈ (run (Server.step p) s as).answers, a.source = .nowhere ∨
      ∃ f, a.source.fetch = some f ∧ f.key.contextId = a.client.contextId := by
  intro a ha
  cases (run_provenance hs as hfree).answers a ha with
  | empty hsource => exact Or.inl hsource
  | traced hknown hsource =>
    obtain ⟨f, hfetch, hfor⟩ := hsource
    refine Or.inr ⟨f, hfetch, ?_⟩
    by_contra hne
    have hsame := hfree.normalized hfor.known hknown hfor.hash
    have hapart := hsep f.key hfor.known a.client.key hknown hne
    exact normalizeQuery_contextQuery_ne hapart f.key.query a.client.key.query hsame

def missThen (first second : Event) (returned : QueryResponse) : List Action :=
  [actionAt 0 first, actionAt 1 (.returned 0 (.ok returned) none), actionAt 2 second]

def keyTextList (p : Platform) (ks : List Key) : List String :=
  ks.flatMap fun k => [k.text, normalizeQuery p.tables k.text]

theorem collisionFree_of_list {K : Set Key} (ks : List Key) (hK : ∀ k ∈ K, k ∈ ks)
    (h : ∀ t ∈ keyTextList p ks, ∀ u ∈ keyTextList p ks,
      p.blake3 (utf8 t) = p.blake3 (utf8 u) → t = u) : CollisionFree p K := by
  have hmem : ∀ t ∈ keyTexts p K, t ∈ keyTextList p ks := by
    rintro t ⟨k, hk, ht⟩
    exact List.mem_flatMap.mpr ⟨k, hK k hk, by simpa using ht⟩
  intro t ht u hu heq
  exact h t (hmem t ht) u (hmem u hu) heq

theorem runKeys_missThen {first second : Event} {returned : QueryResponse} {k : Key}
    (hk : k ∈ runKeys smallServer (missThen first second returned)) :
    k ∈ first.keys ++ second.keys := by
  rcases hk with ⟨h, f, hl, -⟩ | ⟨a, ha, hka⟩
  · simp [smallServer, Server.launch] at hl
  · simp only [missThen, List.mem_cons, List.not_mem_nil, or_false] at ha
    rcases ha with rfl | rfl | rfl
    · exact List.mem_append_left _ hka
    · simp [actionAt, Event.keys] at hka
    · exact List.mem_append_right _ hka

/-- The contexts `a` and `b` are separated, so their equal queries are two misses. -/
theorem isolated_queries :
    (run (Server.step Platform.sample) smallServer
        (missThen (plainQuery "a" "q" none) (plainQuery "b" "q" none)
          (textResponse "x"))).answers ≠ [] ∧
    ∀ a ∈ (run (Server.step Platform.sample) smallServer
        (missThen (plainQuery "a" "q" none) (plainQuery "b" "q" none)
          (textResponse "x"))).answers,
      a.source = .nowhere ∨
        ∃ f, a.source.fetch = some f ∧ f.key.contextId = a.client.contextId := by
  have hsep : ∀ k ∈ [(⟨"a", "q"⟩ : Key), ⟨"b", "q"⟩], ∀ l ∈ [(⟨"a", "q"⟩ : Key), ⟨"b", "q"⟩],
      k.contextId ≠ l.contextId →
        Separated Platform.sample.tables k.contextId l.contextId := by
    decide +kernel
  refine ⟨by decide +kernel, context_isolation (launched_launch _ _ _ _) _ ?_ ?_⟩
  · exact collisionFree_of_list _ (fun k hk => runKeys_missThen hk) (by decide +kernel)
  · intro k hk l hl
    exact hsep k (runKeys_missThen hk) l (runKeys_missThen hl)

/-- Context `a` gets the entry of context `a:b`: both key texts are `ctx:a:b:q`. -/
theorem answer_of_other_context :
    ((run (Server.step Platform.sample) smallServer
        (missThen (plainQuery "a:b" "q" none) (plainQuery "a" "b:q" none)
          (textResponse "x"))).answers.map fun a =>
      (a.client.handler, a.client.contextId, a.source.cached,
        a.source.fetch.map fun f => f.key.contextId)) =
      [(.query, "a", true, some "a:b"), (.query, "a:b", false, some "a:b")] := by
  decide +kernel

end Conproxy
