import Mathlib.Data.List.Find
import Conproxy.Validation

/-!
# The pool and the order of the contexts

`project_to_proxy` takes the endpoints while it iterates over a map, and the first endpoint of a
resource wins. All contexts share the pool that is built from them.
-/

namespace Conproxy

open Checks FirstSeen WeightedTable

set_option autoImplicit false

namespace ConfigFile

/-- The same file, with a map that iterates over its contexts in another order. -/
def iterating (file : ConfigFile) (contexts : AList fun _ : String => NamedContextConfig) :
    ConfigFile :=
  { file with contexts := contexts }

def upstreamList (file : ConfigFile) : Option (List UpstreamEndpointConfig) :=
  file.effectiveProxy.toOption.map ProxyConfig.upstreams

/-- The endpoint that a leg asks for: its own settings over those of its resource. -/
def legEndpoint (file : ConfigFile) (leg : ContextLegConfig) : Option UpstreamEndpointConfig := do
  let resource ← file.upstreams.lookup leg.resourceRef
  let url ← leg.url <|> resource.url
  return mergeLeg leg.resourceRef url resource leg

/-- What a context asks for of a resource. -/
def ownEndpoint (file : ConfigFile) (ctx : NamedContextConfig) (ref : String) :
    Option UpstreamEndpointConfig :=
  (ctx.upstreams.find? fun leg => leg.resourceRef = ref).bind file.legEndpoint

def legEndpoints (file : ConfigFile) (ctx : NamedContextConfig) : List UpstreamEndpointConfig :=
  ctx.upstreams.filterMap file.legEndpoint

/-- The endpoints that a context asks for, one for each resource. -/
def ownEndpoints (file : ConfigFile) (ctx : NamedContextConfig) : List UpstreamEndpointConfig :=
  firstSeen UpstreamEndpointConfig.id (file.legEndpoints ctx)

/-- The endpoints that all contexts ask for, in the order of iteration. -/
def pool (file : ConfigFile) : List UpstreamEndpointConfig :=
  firstSeen UpstreamEndpointConfig.id (file.contexts.entries.flatMap fun c => file.legEndpoints c.2)

/-- Of any two contexts one only continues the endpoints of the other. -/
abbrev Nested (file : ConfigFile) : Prop :=
  Chain UpstreamEndpointConfig.id (fun c : Sigma fun _ : String => NamedContextConfig =>
    file.legEndpoints c.2) file.contexts.entries

/-- All references are found, and all legs are valid. -/
def Resolves (file : ConfigFile) : Prop :=
  ∀ id ctx, file.contexts.lookup id = some ctx → ∃ r, file.resolveContext id ctx = .ok r

/-- What the order of iteration has to leave alone: the list of upstreams, and that a resource is
asked the way the context asks for it. -/
structure OrderFree (file : ConfigFile) : Prop where
  same : ∀ first second : AList fun _ : String => NamedContextConfig,
    first.entries.Perm file.contexts.entries → second.entries.Perm file.contexts.entries →
      (file.iterating first).upstreamList = (file.iterating second).upstreamList
  own : ∀ contexts : AList fun _ : String => NamedContextConfig,
    contexts.entries.Perm file.contexts.entries → ∀ upstreams,
      (file.iterating contexts).upstreamList = some upstreams →
        ∀ id ctx, file.contexts.lookup id = some ctx → ∀ leg ∈ ctx.upstreams,
          (upstreams.find? fun e => e.id = leg.resourceRef) = file.ownEndpoint ctx leg.resourceRef

variable {file : ConfigFile}

theorem id_of_legEndpoint {leg : ContextLegConfig} {endpoint : UpstreamEndpointConfig}
    (h : file.legEndpoint leg = some endpoint) : endpoint.id = leg.resourceRef := by
  simp only [legEndpoint, Option.bind_eq_bind, Option.bind_eq_some_iff, Option.pure_def,
    Option.some.injEq] at h
  obtain ⟨resource, -, url, -, rfl⟩ := h
  rfl

theorem legEndpoint_of_resolveLegOf {id : String} {leg : ContextLegConfig}
    {resolved : ResolvedUpstreamLeg} (h : file.resolveLegOf id leg = .ok resolved) :
    file.legEndpoint leg = some resolved.endpoint := by
  obtain ⟨resource, hresource, hmerge⟩ := resolveLegOf_eq_ok_iff.mp h
  obtain ⟨url, hurl, -, rfl⟩ := resolveLeg_eq_ok_iff.mp hmerge
  simp only [legEndpoint, hresource, Option.bind_eq_bind, Option.bind_some, hurl, Option.pure_def]

theorem legEndpoints_eq {id : String} {ctx : NamedContextConfig} {r : ResolvedContext}
    (h : file.resolveContext id ctx = .ok r) :
    file.legEndpoints ctx = r.legs.map ResolvedUpstreamLeg.endpoint := by
  unfold legEndpoints
  obtain ⟨legs, embedder, hlegs, -, rfl⟩ := resolveContext_eq_ok_iff.mp h
  have hall := mapM_eq_ok_iff.mp hlegs
  clear h hlegs
  generalize ctx.upstreams = items at hall ⊢
  induction hall with
  | nil => rfl
  | cons hleg _ ih =>
    rw [List.filterMap_cons_some (legEndpoint_of_resolveLegOf hleg), List.map_cons]
    exact congrArg _ ih

theorem pooledEndpoints_eq_pool {resolved : List ResolvedContext}
    (h : file.resolveContexts = .ok resolved) : pooledEndpoints resolved = file.pool := by
  have hall := resolveContexts_eq_ok_iff.mp h
  have hid : ∀ leg ∈ resolved.flatMap ResolvedContext.legs, leg.endpoint.id = leg.resourceId := by
    intro leg hleg
    obtain ⟨r, hr, hmem⟩ := List.mem_flatMap.mp hleg
    obtain ⟨c, -, hresolve⟩ := exists_item hall hr
    exact (leg_of_resolveContext hresolve hmem).1
  rw [pooledEndpoints_eq, ← firstSeen_map hid, List.map_flatMap, pool]
  apply congrArg
  clear hid h
  generalize file.contexts.entries = items at hall ⊢
  induction hall with
  | nil => rfl
  | cons hresolve _ ih => rw [List.flatMap_cons, List.flatMap_cons, legEndpoints_eq hresolve, ih]

theorem resolves_iff : file.Resolves ↔ ∃ resolved, file.resolveContexts = .ok resolved := by
  have hall := exists_forall₂_iff (fun c r => file.resolveContext c.1 c.2 = .ok r)
    (fun _ => True) file.contexts.entries
  simp only [implies_true, and_true, ← resolveContexts_eq_ok_iff] at hall
  rw [hall]
  exact (forall_entries_iff file.contexts fun id ctx =>
    ∃ r, file.resolveContext id ctx = .ok r).symm

theorem upstreamList_eq_none (h : ¬ file.Resolves) : file.upstreamList = none := by
  unfold upstreamList effectiveProxy
  cases hresolved : file.resolveContexts with
  | error e => rfl
  | ok resolved => exact absurd (resolves_iff.mpr ⟨resolved, hresolved⟩) h

theorem resolves_of_upstreamList {upstreams : List UpstreamEndpointConfig}
    (h : file.upstreamList = some upstreams) : file.Resolves := by
  by_contra hfails
  rw [upstreamList_eq_none hfails] at h
  cases h

theorem upstreamList_eq_none_of_empty (h : file.contexts.entries = []) :
    file.upstreamList = none := by
  unfold upstreamList effectiveProxy resolveContexts
  rw [h]
  rfl

/-- The upstream list of a file whose contexts resolve. -/
theorem upstreamList_eq (h : file.Resolves) (hne : file.contexts.entries ≠ []) :
    file.upstreamList = some
      (if file.pool.isEmpty then file.proxy.normalizeUpstreams.upstreams else file.pool) := by
  obtain ⟨resolved, hresolved⟩ := resolves_iff.mp h
  have hfirst :
      ∃ ctx, (resolved.find? ResolvedContext.isDefault <|> resolved.head?) = some ctx := by
    have hlength := (resolveContexts_eq_ok_iff.mp hresolved).length_eq
    cases resolved with
    | nil => exact absurd (List.length_eq_zero_iff.mp hlength) hne
    | cons r rest =>
      cases (r :: rest).find? ResolvedContext.isDefault with
      | none => exact ⟨r, rfl⟩
      | some ctx => exact ⟨ctx, rfl⟩
  obtain ⟨ctx, hctx⟩ := hfirst
  rw [← pooledEndpoints_eq_pool hresolved]
  unfold upstreamList effectiveProxy projectToProxy
  rw [hresolved]
  simp only [bind, Except.bind, pure, Except.pure, hctx]
  cases (pooledEndpoints resolved).isEmpty with
  | true =>
    cases file.agents.isEmpty with
    | true => rfl
    | false => rfl
  | false =>
    cases file.agents.isEmpty with
    | true => rfl
    | false => rfl

section Iterating

variable {contexts : AList fun _ : String => NamedContextConfig}
  (hperm : contexts.entries.Perm file.contexts.entries)

include hperm

theorem lookup_iterating (id : String) : contexts.lookup id = file.contexts.lookup id :=
  AList.perm_lookup hperm

theorem resolves_iterating : (file.iterating contexts).Resolves ↔ file.Resolves := by
  constructor
  · intro h id ctx hctx
    exact h id ctx ((lookup_iterating hperm id).trans hctx)
  · intro h id ctx hctx
    exact h id ctx ((lookup_iterating hperm id).symm.trans hctx)

theorem entries_ne_nil_iterating (hne : file.contexts.entries ≠ []) : contexts.entries ≠ [] := by
  intro hempty
  rw [hempty] at hperm
  exact hne hperm.symm.eq_nil

theorem isEmpty_pool_iterating : (file.iterating contexts).pool.isEmpty = file.pool.isEmpty := by
  unfold pool
  rw [isEmpty_firstSeen, isEmpty_firstSeen]
  exact (hperm.flatMap_right _).isEmpty_eq

theorem upstreamList_iterating (hnested : file.Resolves → file.Nested) :
    (file.iterating contexts).upstreamList = file.upstreamList := by
  by_cases h : file.Resolves
  · by_cases hnil : file.contexts.entries = []
    · rw [upstreamList_eq_none_of_empty hnil, upstreamList_eq_none_of_empty]
      rw [hnil] at hperm
      exact hperm.eq_nil
    · have hpool : (file.iterating contexts).pool = file.pool := (hnested h).perm hperm
      rw [upstreamList_eq h hnil, upstreamList_eq ((resolves_iterating hperm).mpr h)
        (entries_ne_nil_iterating hperm hnil), hpool]
      rfl
  · rw [upstreamList_eq_none h, upstreamList_eq_none]
    rwa [resolves_iterating hperm]

theorem pool_iterating (hresolves : file.Resolves)
    (h : (file.iterating contexts).upstreamList = file.upstreamList) :
    (file.iterating contexts).pool = file.pool := by
  have hempty := isEmpty_pool_iterating hperm
  by_cases hnil : file.contexts.entries = []
  · rw [pool, pool, hnil]
    rw [hnil] at hperm
    exact congrArg _ (congrArg _ hperm.eq_nil)
  · rw [upstreamList_eq hresolves hnil, upstreamList_eq ((resolves_iterating hperm).mpr hresolves)
      (entries_ne_nil_iterating hperm hnil), hempty, Option.some.injEq] at h
    cases hpool : file.pool.isEmpty with
    | true => rw [List.isEmpty_iff.mp hpool, List.isEmpty_iff.mp (hempty.trans hpool)]
    | false => simpa [hpool] using h

end Iterating

theorem find?_ownEndpoints {id : String} {ctx : NamedContextConfig} {r : ResolvedContext}
    (h : file.resolveContext id ctx = .ok r) (ref : String) :
    ((file.ownEndpoints ctx).find? fun e => e.id = ref) = file.ownEndpoint ctx ref := by
  rw [ownEndpoints, find?_firstSeen, legEndpoints, List.find?_filterMap, ownEndpoint]
  apply congrArg (Option.bind · file.legEndpoint)
  apply List.find?_congr
  intro leg hleg
  obtain ⟨legs, embedder, hlegs, -, -⟩ := resolveContext_eq_ok_iff.mp h
  obtain ⟨leg', -, hresolve⟩ := exists_result (mapM_eq_ok_iff.mp hlegs) hleg
  have hendpoint := legEndpoint_of_resolveLegOf hresolve
  rw [hendpoint, Option.any_some, id_of_legEndpoint hendpoint]

theorem isSome_ownEndpoint {id : String} {ctx : NamedContextConfig} {r : ResolvedContext}
    (h : file.resolveContext id ctx = .ok r) {leg : ContextLegConfig} (hleg : leg ∈ ctx.upstreams) :
    ∃ endpoint, file.ownEndpoint ctx leg.resourceRef = some endpoint := by
  obtain ⟨legs, embedder, hlegs, -, -⟩ := resolveContext_eq_ok_iff.mp h
  obtain ⟨first, hfirst⟩ :
      ∃ first, (ctx.upstreams.find? fun l => l.resourceRef = leg.resourceRef) = some first :=
    Option.isSome_iff_exists.mp (List.find?_isSome.mpr ⟨leg, hleg, decide_eq_true rfl⟩)
  obtain ⟨leg', -, hresolve⟩ :=
    exists_result (mapM_eq_ok_iff.mp hlegs) (List.mem_of_find?_eq_some hfirst)
  refine ⟨leg'.endpoint, ?_⟩
  rw [ownEndpoint, hfirst, Option.bind_some]
  exact legEndpoint_of_resolveLegOf hresolve

theorem find?_upstreamList (hnested : file.Nested) {upstreams : List UpstreamEndpointConfig}
    (hlist : file.upstreamList = some upstreams) {id : String} {ctx : NamedContextConfig}
    (hctx : file.contexts.lookup id = some ctx) {leg : ContextLegConfig}
    (hleg : leg ∈ ctx.upstreams) :
    (upstreams.find? fun e => e.id = leg.resourceRef) = file.ownEndpoint ctx leg.resourceRef := by
  have hresolves := resolves_of_upstreamList hlist
  obtain ⟨r, hr⟩ := hresolves id ctx hctx
  obtain ⟨endpoint, hendpoint⟩ := isSome_ownEndpoint hr hleg
  have hentry := AList.mem_lookup_iff.mp hctx
  have hstarts : file.ownEndpoints ctx <+: file.pool := hnested.flatMap.1 ⟨id, ctx⟩ hentry
  have hpooled := hstarts.find?_eq_some
    ((find?_ownEndpoints hr leg.resourceRef).trans hendpoint)
  have hsome : file.pool.isEmpty = false := by
    rw [List.isEmpty_eq_false_iff]
    exact List.ne_nil_of_mem (List.mem_of_find?_eq_some hpooled)
  rw [upstreamList_eq hresolves (List.ne_nil_of_mem hentry), hsome, if_neg Bool.false_ne_true,
    Option.some.injEq] at hlist
  rw [← hlist, hpooled, hendpoint]

/-- The pool does not depend on the order of the contexts, and every context's queries use its own
settings, if and only if some context does not resolve, or of any two contexts one only continues
the endpoints of the other. -/
theorem order_free_iff (file : ConfigFile) :
    file.OrderFree ↔ (file.Resolves → ∀ id ctx id' ctx', file.contexts.lookup id = some ctx →
      file.contexts.lookup id' = some ctx' →
        file.ownEndpoints ctx <+: file.ownEndpoints ctx' ∨
          file.ownEndpoints ctx' <+: file.ownEndpoints ctx) := by
  constructor
  · intro h hresolves id ctx id' ctx' hctx hctx'
    have hnested : file.Nested := by
      apply chain_of_perm
      intro items hperm
      have hkeys : items.NodupKeys := (List.perm_nodupKeys hperm).mpr file.contexts.nodupKeys
      have hpool : (file.iterating ⟨items, hkeys⟩).pool = file.pool :=
        pool_iterating hperm hresolves
          (h.same ⟨items, hkeys⟩ file.contexts hperm (List.Perm.refl _))
      exact hpool
    exact hnested ⟨id, ctx⟩ (AList.mem_lookup_iff.mp hctx) ⟨id', ctx'⟩
      (AList.mem_lookup_iff.mp hctx')
  · intro h
    have hnested (hresolves : file.Resolves) : file.Nested := fun a ha b hb =>
      h hresolves a.1 a.2 b.1 b.2 (AList.mem_lookup_iff.mpr ha) (AList.mem_lookup_iff.mpr hb)
    constructor
    · intro first second hfirst hsecond
      rw [upstreamList_iterating hfirst hnested, upstreamList_iterating hsecond hnested]
    · intro contexts hperm upstreams hlist id ctx hctx leg hleg
      rw [upstreamList_iterating hperm hnested] at hlist
      exact find?_upstreamList (hnested (resolves_of_upstreamList hlist)) hlist hctx hleg

/-- A context whose only leg sets a timeout. -/
def timed (default : Option Bool) (secs : Nat) : NamedContextConfig :=
  { NamedContextConfig.blank with
    default := default
    upstreams := [{ ContextLegConfig.to "meili" with timeoutSecs := some secs }] }

/-- Two contexts share a resource, with timeouts of their own. -/
def sharing : ConfigFile :=
  { single .default with
    contexts := ((∅ : AList fun _ : String => NamedContextConfig).insert "support"
      (timed none 15)).insert "docs" (timed (some true) 5) }

/-- The same contexts in the other order. -/
def sharingSwapped : AList fun _ : String => NamedContextConfig :=
  ((∅ : AList fun _ : String => NamedContextConfig).insert "docs"
    (timed (some true) 5)).insert "support" (timed none 15)

/-- The file is accepted. In one order the upstream waits five seconds for both contexts, in the
other fifteen. -/
theorem shared_leg_overridden :
    sharing.validate CaseTables.ascii (fun _ => "") = .ok () ∧
    sharingSwapped.entries.Perm sharing.contexts.entries ∧
    sharing.upstreamList.map (List.map UpstreamEndpointConfig.timeout) = some [5] ∧
    (sharing.iterating sharingSwapped).upstreamList.map (List.map UpstreamEndpointConfig.timeout) =
      some [15] ∧
    (sharing.ownEndpoint (timed (some true) 5) "meili").map UpstreamEndpointConfig.timeout =
      some 5 ∧
    (sharing.ownEndpoint (timed none 15) "meili").map UpstreamEndpointConfig.timeout = some 15 := by
  refine ⟨by rfl, List.Perm.swap _ _ _, by rfl, by rfl, by rfl, by rfl⟩

end ConfigFile

end Conproxy
