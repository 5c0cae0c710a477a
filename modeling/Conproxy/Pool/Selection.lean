import Conproxy.Pool.Live

/-!
# Selection by a predicate

`select_where` and the four selections over it. Every strategy but failover draws from the list of
the upstreams that are available and match; failover looks through all upstreams by priority.
-/

namespace Conproxy

set_option autoImplicit false

open LoadBalanceStrategy

namespace LivePool

/-- A selection returns an available upstream that matches, and none only if there is none. -/
structure SelectsMatching (A : F32Arith) (pool : LivePool) (predicate : LiveUpstream → Bool)
    (selected : Option LiveUpstream) : Prop where
  sound : ∀ u, selected = some u → u ∈ pool.available A ∧ predicate u = true
  complete : selected = none ↔ ∀ u ∈ pool.available A, predicate u = false

/-- By priority it is the first upstream with the property. -/
def FirstByPriority (pool : LivePool) (property : LiveUpstream → Bool) (u : LiveUpstream) : Prop :=
  property u = true ∧ ∃ before after, pool.upstreamsByPriority = before ++ u :: after ∧
    ∀ v ∈ before, property v = false

/-- The first healthy upstream by priority matches, or without a healthy one the first available
one. -/
def FirstMatches (A : F32Arith) (pool : LivePool) (predicate : LiveUpstream → Bool) : Prop :=
  ∃ u, predicate u = true ∧
    (pool.FirstByPriority (LiveUpstream.isHealthy A) u ∨
      (∀ v ∈ pool.upstreams, v.isHealthy A = false) ∧
        pool.FirstByPriority (LiveUpstream.isAvailable A) u)

variable {A : F32Arith} {pool : LivePool} {predicate : LiveUpstream → Bool}
  {available : List LiveUpstream} {u : LiveUpstream}

theorem isAvailable_of_isHealthy (h : u.isHealthy A = true) : u.isAvailable A = true := by
  unfold LiveUpstream.isHealthy at h
  unfold LiveUpstream.isAvailable
  rw [Bool.and_eq_true, decide_eq_true_eq] at h ⊢
  refine ⟨h.1, ?_⟩
  rw [h.2]
  decide

theorem find?_byPriority_iff {property : LiveUpstream → Bool} :
    pool.upstreamsByPriority.find? property = some u ↔ pool.FirstByPriority property u := by
  rw [List.find?_eq_some_iff_append, FirstByPriority]
  simp only [Bool.not_eq_eq_eq_not, Bool.not_true]

theorem selectFailover_eq_some_iff :
    pool.selectFailover A = some u ↔
      pool.FirstByPriority (LiveUpstream.isHealthy A) u ∨
        (∀ v ∈ pool.upstreams, v.isHealthy A = false) ∧
          pool.FirstByPriority (LiveUpstream.isAvailable A) u := by
  have hboth : (fun v : LiveUpstream => v.isAvailable A && v.isHealthy A) =
      LiveUpstream.isHealthy A := by
    funext v
    cases hhealthy : v.isHealthy A with
    | true => rw [isAvailable_of_isHealthy hhealthy, Bool.and_self]
    | false => rw [Bool.and_false]
  have hselect : pool.selectFailover A =
      (pool.upstreamsByPriority.find? (LiveUpstream.isHealthy A)).or
        (pool.upstreamsByPriority.find? (LiveUpstream.isAvailable A)) := by
    rw [← hboth]
    rfl
  rw [hselect, Option.or_eq_some_iff, find?_byPriority_iff, find?_byPriority_iff,
    List.find?_eq_none, upstreamsByPriority]
  simp only [mem_upstreamsByPriority, Bool.not_eq_true]

theorem exists_failover (h : pool.available A ≠ []) :
    ∃ u ∈ pool.available A, pool.selectFailover A = some u := by
  obtain ⟨v, hv⟩ := List.exists_mem_of_ne_nil _ h
  obtain ⟨hmem, havailable⟩ := List.mem_filter.1 hv
  have hselect : (pool.selectFailover A).isSome = true := by
    rw [selectFailover, LoadBalanceStrategy.selectFailover, Option.isSome_or, Bool.or_eq_true]
    exact .inr (List.find?_isSome.2 ⟨v, mem_upstreamsByPriority.2 hmem, havailable⟩)
  obtain ⟨u, hu⟩ := Option.isSome_iff_exists.1 hselect
  exact ⟨u, selectFailover_mem hu, hu⟩

theorem filter_where_eq_nil_iff :
    (pool.upstreams.filter fun u => u.isAvailable A && predicate u) = [] ↔
      ∀ u ∈ pool.available A, predicate u = false := by
  simp only [List.filter_eq_nil_iff, available, List.mem_filter, Bool.and_eq_true, and_imp,
    not_and, Bool.not_eq_true]

variable (A pool predicate) in
theorem selectsMatching_where_iff :
    SelectsMatching A pool predicate (pool.selectWhere A predicate).1 ↔
      (pool.strategy = .failover → (∃ u ∈ pool.available A, predicate u = true) →
        FirstMatches A pool predicate) := by
  by_cases hnone : ∀ u ∈ pool.available A, predicate u = false
  · have hselect : (pool.selectWhere A predicate).1 = none := by
      rw [selectWhere, filter_where_eq_nil_iff.2 hnone]
      rfl
    refine iff_of_true ⟨fun u hu => ?_, iff_of_true hselect hnone⟩ fun _ hsome => ?_
    · rw [hselect] at hu
      cases hu
    · obtain ⟨u, hu, hmatch⟩ := hsome
      rw [hnone u hu] at hmatch
      cases hmatch
  have hfiltered := mt filter_where_eq_nil_iff.1 hnone
  by_cases hstrategy : pool.strategy = .failover
  · have hmatching : ∃ u ∈ pool.available A, predicate u = true := by
      by_contra hall
      exact hnone fun u hu => Bool.eq_false_of_not_eq_true fun hmatch => hall ⟨u, hu, hmatch⟩
    have havailable : pool.available A ≠ [] := by
      obtain ⟨v, hv, -⟩ := hmatching
      exact List.ne_nil_of_mem hv
    obtain ⟨u, hu, hfailover⟩ := exists_failover havailable
    have hselect : (pool.selectWhere A predicate).1 = some u := by
      rw [selectWhere, selectFromAvailable, hstrategy,
        LoadBalanceStrategy.selectFromAvailable, if_neg (by rwa [List.isEmpty_iff])]
      exact hfailover
    constructor
    · intro h _ _
      exact ⟨u, (h.sound u hselect).2, selectFailover_eq_some_iff.1 hfailover⟩
    · intro h
      obtain ⟨w, hmatch, hfirst⟩ := h hstrategy hmatching
      rw [← selectFailover_eq_some_iff, hfailover] at hfirst
      obtain rfl := Option.some.inj hfirst
      rw [hselect]
      refine ⟨fun w hw => ?_, iff_of_false (Option.some_ne_none _) hnone⟩
      obtain rfl := Option.some.inj hw
      exact ⟨hu, hmatch⟩
  · obtain ⟨u, hu, hselected⟩ :=
      exists_selected (LiveUpstream.reads A) pool.currentIndex pool.upstreams hstrategy hfiltered
    obtain ⟨hmem, hboth⟩ := List.mem_filter.1 hu
    rw [Bool.and_eq_true] at hboth
    have hselect : (pool.selectWhere A predicate).1 = some u := hselected
    refine iff_of_true ?_ fun hcase => absurd hcase hstrategy
    rw [hselect]
    refine ⟨fun w hw => ?_, iff_of_false (Option.some_ne_none _) hnone⟩
    obtain rfl := Option.some.inj hw
    exact ⟨List.mem_filter.2 ⟨hmem, hboth.1⟩, hboth.2⟩

/-- The four selections select what they are named for, except that under failover the first
upstream by priority has to match if any does. -/
theorem select_matching_iff (A : F32Arith) (pool : LivePool) :
    (SelectsMatching A pool LiveUpstream.isFts (pool.selectFts A).1 ↔
      (pool.strategy = .failover → (∃ u ∈ pool.available A, u.isFts = true) →
        FirstMatches A pool LiveUpstream.isFts)) ∧
    (SelectsMatching A pool LiveUpstream.isVectorDb (pool.selectVectorDb A).1 ↔
      (pool.strategy = .failover → (∃ u ∈ pool.available A, u.isVectorDb = true) →
        FirstMatches A pool LiveUpstream.isVectorDb)) ∧
    (SelectsMatching A pool LiveUpstream.supportsText (pool.selectTextNative A).1 ↔
      (pool.strategy = .failover → (∃ u ∈ pool.available A, u.supportsText = true) →
        FirstMatches A pool LiveUpstream.supportsText)) ∧
    (SelectsMatching A pool LiveUpstream.requiresEmbedding (pool.selectVectorOnly A).1 ↔
      (pool.strategy = .failover → (∃ u ∈ pool.available A, u.requiresEmbedding = true) →
        FirstMatches A pool LiveUpstream.requiresEmbedding)) :=
  ⟨selectsMatching_where_iff A pool _, selectsMatching_where_iff A pool _,
    selectsMatching_where_iff A pool _, selectsMatching_where_iff A pool _⟩

/-- A query over the view selects what the pool selects. -/
theorem selectFromAvailable_view (available : List LiveUpstream) :
    (pool.view A).selectFromAvailable (available.map (LiveUpstream.view A)) =
      (pool.selectFromAvailable A available).1.map (LiveUpstream.view A) :=
  congrArg Prod.fst (selectFromAvailable_map (r := PooledUpstream.reads) pool.strategy
    (LiveUpstream.view A) pool.currentIndex pool.upstreams available)

def typedEndpoint (id upstreamType : String) : UpstreamEndpointConfig :=
  { UpstreamEndpointConfig.ofUrl id "http://localhost" with upstreamType := some upstreamType }

/-- Both upstreams are healthy, and the vector database comes first. -/
def vectorsFirst : LivePool :=
  new false [typedEndpoint "vectors" "qdrant", typedEndpoint "texts" "elasticsearch"] .failover

theorem fts_selects_vectorDb :
    (vectorsFirst.selectFts F32Arith.exact).1.map LiveUpstream.id = some "vectors" ∧
      ¬ SelectsMatching F32Arith.exact vectorsFirst LiveUpstream.isFts
        (vectorsFirst.selectFts F32Arith.exact).1 := by
  refine ⟨by decide +kernel, fun h => ?_⟩
  have hselect : (vectorsFirst.selectFts F32Arith.exact).1 =
      some (.new false (typedEndpoint "vectors" "qdrant")) := by
    decide +kernel
  have hmatch := (h.sound _ hselect).2
  revert hmatch
  decide +kernel

end LivePool

end Conproxy
