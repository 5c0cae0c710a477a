import Conproxy.Effort

/-!
# The preferred type of a request

`cascade_order_with_preference` puts the upstreams that match the preferred type before the others,
and `group_by_priority` sorts them by their priority again. What is left of the preference is the
order inside a group.
-/

namespace Conproxy

set_option autoImplicit false

namespace CascadeExecutor

/-- The type of the upstream or its id contains the preferred text. -/
def Prefers (tables : CaseTables) (pref : String) (u : PooledUpstream) : Prop :=
  (preferenceKey (tables.toLowercase pref.toList) u).1 = 0

instance (tables : CaseTables) (pref : String) (u : PooledUpstream) :
    Decidable (Prefers tables pref u) := inferInstanceAs (Decidable (_ = _))

/-- Of the available upstreams all that match were asked before one that does not, and the ones of
each class in the order of their priority. -/
structure PreferenceHonoured (tables : CaseTables) (pref : String) (pool : UpstreamPool)
    (asked : List PooledUpstream) : Prop where
  first : ∀ before v later, asked = before ++ v :: later → ¬ Prefers tables pref v →
    ∀ u ∈ pool.available, Prefers tables pref u → u ∈ before
  matching : (asked.filter fun u => Prefers tables pref u).Pairwise fun a b =>
    a.priority ≤ b.priority
  others : (asked.filter fun u => ¬ Prefers tables pref u).Pairwise fun a b =>
    a.priority ≤ b.priority

/-- The order in which the groups are asked. -/
def Precedes (tables : CaseTables) (pref : String) (a b : PooledUpstream) : Prop :=
  a.priority < b.priority ∨
    a.priority = b.priority ∧ (Prefers tables pref b → Prefers tables pref a)

variable {A : F32Arith} {p : Platform} {x : CascadeExecutor} {env : Environment}

theorem pairwise_preferred (tables : CaseTables) (pref : String) :
    (x.cascadeOrderWithPreference tables (some pref)).Pairwise fun a b =>
      Prefers tables pref b → Prefers tables pref a := by
  let key := preferenceKey (tables.toLowercase pref.toList)
  let le (a b : PooledUpstream) : Prop :=
    (key a).1 < (key b).1 ∨ (key a).1 = (key b).1 ∧ (key a).2 ≤ (key b).2
  have htotal : Std.Total le := ⟨fun a b => by simp only [le]; omega⟩
  have htrans : IsTrans PooledUpstream le := ⟨fun a b c hab hbc => by
    simp only [le] at hab hbc ⊢
    omega⟩
  refine (List.pairwise_insertionSort le x.cascadeOrder).imp ?_
  intro a b hle hb
  have hb' : (key b).1 = 0 := hb
  have ha : (key a).1 = 0 := by
    simp only [le] at hle
    omega
  exact ha

theorem pairwise_groups (request : QueryRequest) (pref : String) :
    (x.groups p { request with upstreamType := some pref }).flatten.Pairwise
      (Precedes p.tables pref) := by
  unfold groups
  rw [groupByPriority_eq]
  refine Grouping.pairwise_flatten_groupBy (fun a _ b _ hlt => .inl hlt) ?_
  exact (pairwise_preferred p.tables pref).imp fun hle heq => .inr ⟨heq, hle⟩

theorem available_subset (pool : UpstreamPool) : ∀ u ∈ pool.available, u ∈ pool.candidates := by
  intro u hu
  unfold UpstreamPool.candidates
  rw [if_neg]
  · exact hu
  · intro hempty
    rw [List.isEmpty_iff.1 hempty] at hu
    cases hu

/-- The first part of an order that holds all available upstreams honours the preference exactly if
no matching one has a greater priority number than one in it that does not match. -/
theorem preferenceHonoured_iff {tables : CaseTables} {pref : String} {pool : UpstreamPool}
    {asked order : List PooledUpstream} (hfirst : asked <+: order)
    (horder : order.Pairwise (Precedes tables pref)) (hall : ∀ u ∈ pool.available, u ∈ order) :
    PreferenceHonoured tables pref pool asked ↔
      ∀ v ∈ asked, ¬ Prefers tables pref v →
        ∀ u ∈ pool.available, Prefers tables pref u → u.priority ≤ v.priority := by
  have hasked : asked.Pairwise (Precedes tables pref) := horder.sublist hfirst.sublist
  have hpriority {a b : PooledUpstream} (h : Precedes tables pref a b) :
      a.priority ≤ b.priority := by
    rcases h with hlt | ⟨heq, -⟩
    · exact hlt.le
    · exact heq.le
  constructor
  · intro h v hv hother u hu hpref
    obtain ⟨before, later, rfl⟩ := List.append_of_mem hv
    have hmem := h.first before v later rfl hother u hu hpref
    have hbefore := (List.pairwise_append.1 hasked).2.2
    exact hpriority (hbefore u hmem v List.mem_cons_self)
  · intro h
    refine ⟨?_, (hasked.filter _).imp hpriority, (hasked.filter _).imp hpriority⟩
    rintro before v later rfl hother u hu hpref
    obtain ⟨behind, rfl⟩ := hfirst
    have hle := h v (by simp) hother u hu hpref
    have hmem := hall u hu
    rw [List.append_assoc, List.mem_append] at hmem
    refine hmem.resolve_right fun hlate => ?_
    -- Behind the other upstream a matching one has a greater priority number.
    rw [List.append_assoc, List.pairwise_append] at horder
    rcases List.mem_cons.1 hlate with rfl | hlate
    · exact hother hpref
    · rcases (List.pairwise_cons.1 horder.2.1).1 u hlate with hlt | ⟨-, hclass⟩
      · omega
      · exact hother (hclass hpref)

/-- One upstream after the other, with room for all of them. -/
def patient (pool : UpstreamPool) : CascadeExecutor where
  pool := pool
  config := { CascadeConfig.default with maxCascadeDepth := pool.upstreams.length + 1 }

theorem cascadeAsked_failing (A : F32Arith) (p : Platform) (pool : UpstreamPool)
    {request : QueryRequest} (htarget : request.upstreamId = none) :
    (patient pool).cascadeAsked A p .failing request =
      ((patient pool).groups p request).flatten := by
  have hlength : ((patient pool).groups p request).flatten.length ≤ pool.upstreams.length :=
    (groups_perm request).length_eq.le.trans (candidates_sublist pool).length_le
  have hroom : (CascadeLoop.start []).depth + ((patient pool).groups p request).flatten.length ≤
      (patient pool).config.maxCascadeDepth := by
    simpa [CascadeLoop.start, patient] using hlength.trans (Nat.le_succ _)
  obtain ⟨l', hflow⟩ := queryGroups_failing (A := A) (p := p) (x := patient pool) request _
    (fun _ => group_ne_nil) hroom
  have hbegins : (patient pool).begins .failing request = some (.start []) := by
    simp [begins, patient, CascadeConfig.default, htarget]
  rw [cascadeAsked, hbegins]
  exact ((asks_queryGroups request _ (.start [])).next l' hflow).1

/-- What one query asks honours the preference exactly if no available upstream that matches has a
greater priority number than one that the cascade gets to and that does not match. -/
theorem preferenceHonoured_cascadeAsked_iff (request : QueryRequest) (pref : String) :
    PreferenceHonoured p.tables pref x.pool
        (x.cascadeAsked A p env { request with upstreamType := some pref }) ↔
      ∀ v ∈ x.cascadeAsked A p env { request with upstreamType := some pref },
        ¬ Prefers p.tables pref v →
          ∀ u ∈ x.pool.available, Prefers p.tables pref u → u.priority ≤ v.priority := by
  refine preferenceHonoured_iff ?_
    (pairwise_groups (p := p) (x := x) request pref) fun u hu => ?_
  · unfold cascadeAsked
    cases x.begins env { request with upstreamType := some pref } with
    | some l => exact askedInGroups_first _ l
    | none => exact List.nil_prefix
  · exact (groups_perm _).mem_iff.2 (available_subset x.pool u hu)

theorem mem_available_of_asked {request : QueryRequest} {u v : PooledUpstream}
    (hu : u ∈ x.pool.available) (hv : v ∈ x.cascadeAsked A p env request) :
    v ∈ x.pool.available := by
  have hgroups : v ∈ (x.groups p request).flatten := by
    unfold cascadeAsked at hv
    cases hbegins : x.begins env request with
    | none =>
      rw [hbegins] at hv
      cases hv
    | some l =>
      rw [hbegins] at hv
      exact (askedInGroups_first request l).subset hv
  have hcandidate := (groups_perm request).mem_iff.1 hgroups
  unfold UpstreamPool.candidates at hcandidate
  split at hcandidate
  · rename_i hempty
    rw [List.isEmpty_iff.1 hempty] at hu
    cases hu
  · exact hcandidate

/-- The queries over a pool honour the preference for a type, whatever their settings and the
answers, exactly if no available upstream that matches has a greater priority number than one that
does not. One query honours it exactly if it gets to no such upstream. -/
theorem preference_honoured_iff (A : F32Arith) (p : Platform) (pool : UpstreamPool)
    (pref : String) :
    ((∀ (config : CascadeConfig) (env : Environment) (request : QueryRequest),
        PreferenceHonoured p.tables pref pool ((CascadeExecutor.mk pool config).cascadeAsked A p env
          { request with upstreamType := some pref })) ↔
      ∀ v ∈ pool.available, ¬ Prefers p.tables pref v →
        ∀ u ∈ pool.available, Prefers p.tables pref u → u.priority ≤ v.priority) ∧
    ∀ (config : CascadeConfig) (env : Environment) (request : QueryRequest),
      PreferenceHonoured p.tables pref pool ((CascadeExecutor.mk pool config).cascadeAsked A p env
          { request with upstreamType := some pref }) ↔
        ∀ v ∈ (CascadeExecutor.mk pool config).cascadeAsked A p env
            { request with upstreamType := some pref },
          ¬ Prefers p.tables pref v →
            ∀ u ∈ pool.available, Prefers p.tables pref u → u.priority ≤ v.priority := by
  have hone (config : CascadeConfig) (env : Environment) (request : QueryRequest) :=
    @preferenceHonoured_cascadeAsked_iff A p ⟨pool, config⟩ env request pref
  refine ⟨⟨fun hall v hv hother => ?_, fun hordered config env request => ?_⟩, hone⟩
  · refine (hone (patient pool).config .failing (textRequest "")).1
      (hall (patient pool).config .failing (textRequest "")) v ?_ hother
    change v ∈ (patient pool).cascadeAsked A p .failing _
    rw [cascadeAsked_failing A p pool rfl]
    exact (groups_perm _).mem_iff.2 (available_subset pool v hv)
  · refine (hone config env request).2 fun v hv hother u hu hpref => ?_
    exact hordered v (mem_available_of_asked hu hv) hother u hu hpref

/-- The upstream `b` is preferred and has the greater priority number, so `a` is asked first. -/
theorem preference_lost :
    (cascadeOver ["a", "b"]).cascadeOrderWithPreference Platform.sample.tables (some "b") =
        [plainUpstream "b" 1, plainUpstream "a" 0] ∧
      (cascadeOver ["a", "b"]).cascadeAsked F32Arith.exact Platform.sample Environment.failing
        { textRequest "q" with upstreamType := some "b" } =
          [plainUpstream "a" 0, plainUpstream "b" 1] ∧
      ¬ PreferenceHonoured Platform.sample.tables "b" (cascadeOver ["a", "b"]).pool
        ((cascadeOver ["a", "b"]).cascadeAsked F32Arith.exact Platform.sample Environment.failing
          { textRequest "q" with upstreamType := some "b" }) := by
  have hasked : (cascadeOver ["a", "b"]).cascadeAsked F32Arith.exact Platform.sample
      Environment.failing { textRequest "q" with upstreamType := some "b" } =
        [plainUpstream "a" 0, plainUpstream "b" 1] := by
    decide +kernel
  refine ⟨by decide +kernel, hasked, fun h => ?_⟩
  have hmem := h.first [] (plainUpstream "a" 0) [plainUpstream "b" 1] hasked (by decide +kernel)
    (plainUpstream "b" 1) (by decide +kernel) (by decide +kernel)
  cases hmem

end CascadeExecutor

end Conproxy
