import Conproxy.Preference
import Conproxy.Pool.Live

/-!
# Disabled upstreams

Without an available upstream both routers try all upstreams of the pool, to probe those that are
offline. The ones that an administrator has disabled are among them.
-/

namespace Conproxy

open Machine PoolAction CascadeExecutor

set_option autoImplicit false

/-- No query that does not name an upstream asks a disabled one, neither over the pool nor over a
cascade with any settings. -/
structure DisabledUnasked (A : F32Arith) (p : Platform) (pool : UpstreamPool) : Prop where
  query : ∀ (request : QueryRequest) (env : Environment), request.upstreamId = none →
    ∀ u ∈ sentTo (pool.queryActions request env), u.enabled = true
  cascade : ∀ (config : CascadeConfig) (request : QueryRequest) (env : Environment),
    request.upstreamId = none →
      ∀ u ∈ (CascadeExecutor.mk pool config).asked A p env request, u.enabled = true

namespace UpstreamPool

variable {A : F32Arith} {p : Platform} {pool : UpstreamPool} {request : QueryRequest}
  {env : Environment}

/-- A query without a target asks candidates only. -/
theorem sentTo_subset_candidates (hrequest : request.upstreamId = none) :
    ∀ u ∈ sentTo (pool.queryActions request env), u ∈ pool.candidates := by
  have hloop := (triesOnce_remainingActions pool env).once.subset
  intro u hu
  unfold queryActions at hu
  rw [hrequest, Option.bind_none] at hu
  dsimp only at hu
  split at hu
  · cases hu
  unfold primaryActions at hu
  cases hselect : pool.selectFromAvailable pool.candidates with
  | none =>
    rw [hselect] at hu
    exact hloop hu
  | some primary =>
    have hprimary := selectFromAvailable_mem hselect
    rw [hselect] at hu
    dsimp only at hu
    cases hcall : env.primary with
    | ok response =>
      rw [hcall] at hu
      rwa [List.mem_singleton.1 hu]
    | error e =>
      rw [hcall] at hu
      rcases List.mem_cons.1 hu with rfl | hlater
      · exact hprimary
      · split at hlater
        · cases hlater
        · exact hloop hlater

/-- If every upstream fails, a query without a target asks all candidates. -/
theorem candidates_subset_sentTo (hrequest : request.upstreamId = none) :
    ∀ u ∈ pool.candidates, u ∈ sentTo (pool.queryActions request .failing) := by
  have hloop : ∀ u ∈ pool.candidates, u ∈ sentTo (remainingActions .failing pool.candidates 0) := by
    rcases sentTo_remainingActions .failing pool.candidates 0 with
      ⟨-, hsent⟩ | ⟨i, response, hok, -, -, -⟩
    · rw [hsent]
      exact fun u hu => hu
    · cases hok
  intro u hu
  unfold queryActions
  rw [if_neg (by rw [List.isEmpty_iff]; exact List.ne_nil_of_mem hu), hrequest, Option.bind_none]
  dsimp only
  unfold primaryActions
  cases hselect : pool.selectFromAvailable pool.candidates with
  | none => exact hloop u hu
  | some primary =>
    have hprimary := selectFromAvailable_mem hselect
    change u ∈ sentTo (.send primary _ :: .recordFailure primary :: _)
    split
    · rename_i hone
      obtain ⟨v, hv⟩ := List.length_eq_one_iff.1 hone
      rw [hv, List.mem_singleton] at hu hprimary
      rw [hu, hprimary]
      exact List.mem_singleton.2 rfl
    · exact List.mem_cons_of_mem _ (hloop u hu)

theorem asked_subset_candidates {config : CascadeConfig} (hrequest : request.upstreamId = none) :
    ∀ u ∈ (CascadeExecutor.mk pool config).asked A p env request, u ∈ pool.candidates := by
  intro u hu
  unfold asked targetAsked at hu
  rw [hrequest, Option.bind_none, Option.toList_none, ite_self, List.nil_append] at hu
  unfold cascadeAsked at hu
  cases hbegins : (CascadeExecutor.mk pool config).begins env request with
  | none =>
    rw [hbegins] at hu
    cases hu
  | some l =>
    rw [hbegins] at hu
    exact (groups_perm request).mem_iff.1 ((askedInGroups_first request l).subset hu)

variable (A p) in
theorem disabledUnasked_iff_candidates (pool : UpstreamPool) :
    DisabledUnasked A p pool ↔ ∀ u ∈ pool.candidates, u.enabled = true := by
  constructor
  · intro h u hu
    exact h.query (textRequest "") .failing rfl u (candidates_subset_sentTo rfl u hu)
  · intro h
    exact ⟨fun request env hrequest u hu => h u (sentTo_subset_candidates hrequest u hu),
      fun config request env hrequest u hu => h u (asked_subset_candidates hrequest u hu)⟩

theorem candidates_enabled_iff (pool : UpstreamPool) :
    (∀ u ∈ pool.candidates, u.enabled = true) ↔
      pool.available ≠ [] ∨ ∀ u ∈ pool.upstreams, u.enabled = true := by
  unfold candidates
  split
  · rename_i hempty
    rw [List.isEmpty_iff] at hempty
    rw [or_iff_right (not_not_intro hempty)]
  · rename_i havailable
    rw [List.isEmpty_iff] at havailable
    refine iff_of_true (fun u hu => ?_) (.inl havailable)
    have henabled := (List.mem_filter.1 hu).2
    rw [PooledUpstream.isAvailable, Bool.and_eq_true] at henabled
    exact henabled.1

end UpstreamPool

namespace LivePool

theorem available_view (A : F32Arith) (pool : LivePool) :
    (pool.view A).available = (pool.available A).map (LiveUpstream.view A) := List.filter_map

/-- Whatever came before, the queries over a pool spare its disabled upstreams exactly while an
upstream is available or none is disabled. -/
theorem disabled_unasked_iff (A : F32Arith) (p : Platform) (pgvector : Bool)
    (configs : List UpstreamEndpointConfig) (strategy : LoadBalanceStrategy)
    (history : List Step) :
    DisabledUnasked A p ((run (step A) (new pgvector configs strategy) history).view A) ↔
      (run (step A) (new pgvector configs strategy) history).available A ≠ [] ∨
        ∀ u ∈ (run (step A) (new pgvector configs strategy) history).upstreams,
          u.enabled = true := by
  rw [UpstreamPool.disabledUnasked_iff_candidates, UpstreamPool.candidates_enabled_iff,
    available_view, ne_eq, List.map_eq_nil_iff]
  refine or_congr_right ?_
  exact List.forall_mem_map

def oneDisabled : UpstreamEndpointConfig :=
  { UpstreamEndpointConfig.ofUrl "b" "http://b" with enabled := some false }

/-- The endpoint `b` is disabled in the configuration, and `a` goes offline after three failures. -/
def lastOffline : LivePool :=
  run (step F32Arith.exact) (new false [.ofUrl "a" "http://a", oneDisabled] .roundRobin)
    [.recordFailure 0 0, .recordFailure 0 0, .recordFailure 0 0]

/-- Both routers ask `b` after `a`. -/
theorem disabled_asked :
    (sentTo ((lastOffline.view F32Arith.exact).queryActions (textRequest "q")
        .failing)).map PooledUpstream.id = ["a", "a", "b"] ∧
      ((CascadeExecutor.mk (lastOffline.view F32Arith.exact) .default).asked F32Arith.exact
        Platform.sample .failing (textRequest "q")).map PooledUpstream.id = ["a", "b"] ∧
      ¬ DisabledUnasked F32Arith.exact Platform.sample (lastOffline.view F32Arith.exact) := by
  refine ⟨by decide +kernel, by decide +kernel, fun h => ?_⟩
  have hall : ∀ u ∈ sentTo ((lastOffline.view F32Arith.exact).queryActions (textRequest "q")
      .failing), u.enabled = true := h.query (textRequest "q") .failing rfl
  revert hall
  decide +kernel

end LivePool

end Conproxy
