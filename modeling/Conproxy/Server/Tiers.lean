import Conproxy.Cache.Tier
import Conproxy.Server.Exits
import Conproxy.Server.Isolation
import Conproxy.Server.Storing

/-!
# The two semantic tiers

The builder makes a semantic tier for the store and another one for the queries, from the same
settings. Inserts write to the first and queries read the second, which nothing ever writes, so
the two are equal exactly as long as no embedding is stored.
-/

namespace Conproxy

open CacheStore Machine

set_option autoImplicit false

theorem SemanticCache.sequence_insert {t : SemanticCache} (hroom : t.maxEntries ≠ 0)
    (h : QueryHash) (e : Embedding) : (t.insert h e).sequence = t.sequence + 1 := by
  have hevict (t : SemanticCache) : t.evictLruOne.sequence = t.sequence := by
    unfold evictLruOne
    split <;> rfl
  unfold insert
  rw [if_neg hroom]
  dsimp only
  split
  · rw [hevict]
  · rfl

theorem SemanticCache.insert_of_full {t : SemanticCache} (hroom : t.maxEntries = 0)
    (h : QueryHash) (e : Embedding) : t.insert h e = t := by
  unfold insert
  rw [if_pos hroom]

namespace Server

variable (p : Platform)

/-- `with_semantic_cache` of the builder, after `build_cache_store` has attached a tier of its
own to the store. -/
def withSemanticCache (s : Server) (threshold : F32) (maxEntries : Nat) : Server :=
  { s with app := { s.app with
    cache := s.app.cache.withSemanticCache (SemanticCache.new threshold maxEntries)
    semanticCache := some (SemanticCache.new threshold maxEntries) } }

/-- The tier that queries read is the tier that inserts write, and a match in it is served while
its entry is there and has not expired. -/
structure Wired (s : Server) : Prop where
  same : s.app.semanticCache = s.app.cache.semantic
  hits : ∀ (t : SemanticCache) (embedding : Embedding) (scan : TierScan) (h : QueryHash)
    (now : Clock) (freshness : Freshness) (id : Nat) (c : Client) (missReason : MissReason)
    (allowed : Bool), s.app.cache.semantic = some t →
    t.lookup p (t.iter scan) embedding = some h →
    s.app.cache.checkFreshnessByHash p now h = some freshness → freshness ≠ .expired →
    ∃ e, s.app.cache.entries.lookup h = some e ∧
      (s.semanticLookup p now id c missReason (some embedding) scan allowed).answers =
        ⟨c, s.entrySource p now h, .result (.cached e .hit (c.tookMs now)) 200⟩ :: s.answers

/-- The step stores an embedding next to the entry of a leader, in a tier with room for it. -/
def StoresEmbedding (s : Server) (a : Action) : Prop :=
  ∃ t h response upstreamId e queryKey, s.app.cache.semantic = some t ∧ t.maxEntries ≠ 0 ∧
    s.write p a = some (.insertByHashWithEmbedding h response upstreamId (some e) queryKey)

variable {p} {s : Server}

theorem wired_of_same (hsame : s.app.semanticCache = s.app.cache.semantic) : s.Wired p := by
  refine ⟨hsame, fun t embedding scan h now freshness id c missReason allowed ht hmatch hfresh
    hne => ?_⟩
  obtain ⟨e, he⟩ := lookup_of_classified hfresh
  refine ⟨e, he, ?_⟩
  unfold semanticLookup
  simp only [hsame, ht, hmatch, hfresh]
  cases freshness with
  | expired => exact absurd rfl hne
  | fresh | stale | frozen =>
    dsimp only
    rw [read_byHash he]
    rfl

theorem semantic_looked {cache cache' : CacheStore} (h : Looked p cache cache') :
    cache'.semantic = cache.semantic := by
  induction h with
  | refl => rfl
  | tail _ hlook ih =>
    obtain ⟨look, rfl⟩ := hlook
    refine Eq.trans ?_ ih
    cases look with
    | byHash h => exact semantic_getByHash _ h
    | byText text => exact semantic_getWithHitType _ text

theorem tiers_step (s : Server) (a : Action) :
    (s.step p a).app.semanticCache = s.app.semanticCache ∧
      (s.step p a).app.cache.semantic =
        match s.write p a with
        | some op => s.app.cache.tierAfter op
        | none => s.app.cache.semantic := by
  have hdoes := s.does_step (p := p) a
  obtain ⟨cache, hlooked, hwritten⟩ := hdoes.cache
  have hsemantic := semantic_looked hlooked
  refine ⟨congrArg (fun built => built.2.2.1) hdoes.built, ?_⟩
  rw [hwritten]
  cases s.write p a with
  | none => exact hsemantic
  | some op => exact (semantic_exec cache _).trans (tierAfter_congr hsemantic op)

end Server

/-- An action of a server that runs: the store gets its tier before that. -/
structure RunningAction where
  action : Action
  built : ∀ t, action.event ≠ .maintenance (.withSemanticCache t)

namespace Server

variable {p : Platform} {s : Server}

def stepRunning (p : Platform) (s : Server) (a : RunningAction) : Server := s.step p a.action

theorem tierAfter_write (a : RunningAction) {op : Op} (hwrite : s.write p a.action = some op)
    (hnone : ∀ h response upstreamId e queryKey,
      op ≠ .insertByHashWithEmbedding h response upstreamId (some e) queryKey) :
    s.app.cache.tierAfter op = s.app.cache.semantic := by
  unfold tierAfter
  split
  · exact absurd rfl (hnone _ _ _ _ _)
  · rcases write_cases hwrite with ⟨hevent, -⟩ | ⟨f, -, hstores⟩
    · exact absurd hevent (a.built _)
    · cases hstores
  · rfl

theorem wired_iff : s.Wired p ↔ s.app.semanticCache = s.app.cache.semantic :=
  ⟨Wired.same, wired_of_same⟩

theorem wired_step_iff (hs : s.Wired p) (a : RunningAction) :
    (s.stepRunning p a).Wired p ↔ ¬ s.StoresEmbedding p a.action := by
  obtain ⟨hread, hwritten⟩ := s.tiers_step (p := p) a.action
  rw [wired_iff, stepRunning, hread, hwritten, hs.same]
  cases hwrite : s.write p a.action with
  | none =>
    refine iff_of_true rfl ?_
    rintro ⟨t, h, response, upstreamId, e, queryKey, -, -, hstores⟩
    rw [hwrite] at hstores
    cases hstores
  | some op =>
    dsimp only
    by_cases hembedding : ∃ h response upstreamId e queryKey,
        op = .insertByHashWithEmbedding h response upstreamId (some e) queryKey
    · obtain ⟨h, response, upstreamId, e, queryKey, rfl⟩ := hembedding
      cases htier : s.app.cache.semantic with
      | none =>
        refine iff_of_true ?_ ?_
        · simp only [tierAfter, htier, Option.map_none]
        · rintro ⟨t, -, -, -, -, -, ht, -⟩
          rw [htier] at ht
          cases ht
      | some t =>
        simp only [tierAfter, htier, Option.map_some, Option.some.injEq]
        by_cases hroom : t.maxEntries = 0
        · refine iff_of_true (SemanticCache.insert_of_full hroom h e).symm ?_
          rintro ⟨t', -, -, -, -, -, ht, hne, -⟩
          rw [htier] at ht
          cases ht
          exact hne hroom
        · refine iff_of_false ?_ (not_not_intro ⟨t, h, response, upstreamId, e, queryKey, htier,
            hroom, hwrite⟩)
          intro heq
          have hsequence := SemanticCache.sequence_insert hroom h e
          rw [← heq] at hsequence
          exact absurd hsequence (Nat.ne_of_lt (Nat.lt_succ_self _))
    · refine iff_of_true (tierAfter_write a hwrite ?_).symm ?_
      · rintro h response upstreamId e queryKey rfl
        exact hembedding ⟨h, response, upstreamId, e, queryKey, rfl⟩
      · rintro ⟨t, h, response, upstreamId, e, queryKey, -, -, hstores⟩
        rw [hwrite] at hstores
        exact hembedding ⟨h, response, upstreamId, e, queryKey, Option.some.inj hstores⟩

/-- The two tiers are one in every state of a run exactly if no step of the run stores an
embedding. -/
theorem tiers_wired_iff (p : Platform) (s : Server) (threshold : F32) (maxEntries : Nat)
    (actions : List RunningAction) :
    AllSteps (stepRunning p) (fun s a => (s.stepRunning p a).Wired p)
        (s.withSemanticCache threshold maxEntries) actions ↔
      AllSteps (stepRunning p) (fun s a => ¬ s.StoresEmbedding p a.action)
        (s.withSemanticCache threshold maxEntries) actions := by
  have hstep : ∀ (s : Server) (a : RunningAction), True → s.Wired p →
      ((s.stepRunning p a).Wired p ↔ ¬ s.StoresEmbedding p a.action) :=
    fun _ a _ hs => wired_step_iff hs a
  exact @allSteps_congr_of_invariant _ _ _ (fun _ => True) _ _ (fun _ _ h => h) hstep _ trivial
    (wired_of_same rfl) _

/-- A server with one upstream and an embedder. -/
def embedderServer : Server :=
  { smallServer with app := { smallServer.app with smartEmbedder := true } }

def embeddedMiss : List RunningAction :=
  [⟨actionAt 0 (plainQuery "a" "q" none), nofun⟩,
    ⟨actionAt 1 (.embedded 0 (some [.finite 1]) .stored true), nofun⟩,
    ⟨actionAt 2 (.returned 0 (.ok (textResponse "x")) none), nofun⟩]

/-- The embedding is in the tier of the store only. -/
theorem embedding_not_read :
    ¬ ∀ (p : Platform) (s : Server) (threshold : F32) (maxEntries : Nat)
      (actions : List RunningAction),
      AllSteps (stepRunning p) (fun s a => (s.stepRunning p a).Wired p)
        (s.withSemanticCache threshold maxEntries) actions := by
  intro h
  have hwired := (h Platform.sample embedderServer (.finite 0) 10 embeddedMiss).2.2.1
  have hlengths := congrArg (Option.map fun t => t.embeddings.keys.length) hwired.same
  exact absurd hlengths (by decide +kernel)

end Server

end Conproxy
