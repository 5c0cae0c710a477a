import Mathlib.Algebra.Order.BigOperators.Group.List
import Mathlib.Algebra.Order.Group.Nat
import Mathlib.Data.List.Perm.Subperm
import Conproxy.Lib.Grouping
import Conproxy.Dispatch

/-!
# The upstreams that a cascade asks

`CascadeExecutor::query` asks the targeted upstream, and then of every group that passes its check
the whole group at once if it is fused, else one upstream after the other. The depth counts what
the groups ask, except that exhausted groups report the upstreams that returned in time; neither
counts the targeted one.
-/

namespace Conproxy

set_option autoImplicit false

/-- What follows if the loop goes on. -/
def CascadeFlow.after {α : Type} (f : CascadeFlow) (next : CascadeLoop → List α) : List α :=
  match f with
  | .next l => next l
  | .done _ => []

namespace CascadeExecutor

section Asked

variable (A : F32Arith) (p : Platform) (x : CascadeExecutor) (env : Environment)

/-- What follows if a check passes. -/
def past {α : Type} (depth : Nat) (elapsed : Duration) (next : List α) : List α :=
  match x.stopAt depth elapsed with
  | some _ => []
  | none => next

def askedOneByOne : List PooledUpstream → CascadeLoop → List PooledUpstream
  | [], _ => []
  | u :: rest, l =>
    x.past l.depth (env.upstreamElapsed l.depth)
      (u :: (x.askUpstream A env u l).after (askedOneByOne rest))

def askedInGroup (group : List PooledUpstream) (l : CascadeLoop) : List PooledUpstream :=
  if x.config.fuses group then group else x.askedOneByOne A env group l

/-- The groups that pass their check, with the state of the loop there. -/
def started (request : QueryRequest) :
    List (List PooledUpstream) → CascadeLoop → List (List PooledUpstream × CascadeLoop)
  | [], _ => []
  | group :: rest, l =>
    x.past l.depth (env.groupElapsed l.depth)
      ((group, l) :: (x.queryGroup A p env request group l).after (started request rest))

def askedInGroups (request : QueryRequest) (groups : List (List PooledUpstream))
    (l : CascadeLoop) : List PooledUpstream :=
  (x.started A p env request groups l).flatMap fun s => x.askedInGroup A env s.1 s.2

/-- The state in which the groups are asked, unless the query returns before. -/
def begins (request : QueryRequest) : Option CascadeLoop :=
  if !x.config.enabled then none
  else
    match request.upstreamId.bind x.pool.get with
    | none => some (.start [])
    | some _ =>
      match env.targeted with
      | .error e => some (.start [.error e])
      | .ok response =>
        if response.results.isEmpty then some (.start [.ok response]) else none

def cascadeAsked (request : QueryRequest) : List PooledUpstream :=
  match x.begins env request with
  | some l => x.askedInGroups A p env request (x.groups p request) l
  | none => []

def targetAsked (request : QueryRequest) : List PooledUpstream :=
  if x.config.enabled then (request.upstreamId.bind x.pool.get).toList else []

def asked (request : QueryRequest) : List PooledUpstream :=
  x.targetAsked request ++ x.cascadeAsked A p env request

/-- Every upstream of the pool is asked once at most, there are no more of them than the depth
allows, and their number is reported. -/
structure EffortBounded (request : QueryRequest) : Prop where
  once : (x.asked A p env request).Subperm x.pool.upstreams
  bounded : (x.asked A p env request).length ≤ x.config.maxCascadeDepth
  counted : (x.query A p env request).value.cascadeDepth = (x.asked A p env request).length

/-- The tasks of a fused group that return in time. -/
def joined (depth : Nat) : Nat :=
  ((env.joins depth).takeWhile fun j => j.elapsed ≤ x.config.timeout).countP fun j =>
    j.outcome.isSome

def fusedGroups (request : QueryRequest) (groups : List (List PooledUpstream))
    (l : CascadeLoop) : List (List PooledUpstream × CascadeLoop) :=
  (x.started A p env request groups l).filter fun s => x.config.fuses s.1

/-- The loop gets behind its last group. -/
def Exhausts (request : QueryRequest) (l : CascadeLoop) : Prop :=
  ∃ l', x.queryGroups A p env request (x.groups p request) l = .next l'

/-- `join_next` returns the tasks of a group, each of them once at most. -/
def JoinsOnce (request : QueryRequest) : Prop :=
  ∀ l, x.begins env request = some l →
    ∀ s ∈ x.fusedGroups A p env request (x.groups p request) l,
      ((env.joins s.2.depth).map Join.upstream).Subperm s.1

end Asked

/-- A fused group that begins within the depth ends within it, and none is fused if the depth has
room for all candidates. -/
structure Fits (p : Platform) (x : CascadeExecutor) (request : QueryRequest) : Prop where
  group : ∀ before group after, x.groups p request = before ++ group :: after →
    x.config.fuses group = true → before.flatten.length < x.config.maxCascadeDepth →
      before.flatten.length + group.length ≤ x.config.maxCascadeDepth
  all : x.pool.candidates.length ≤ x.config.maxCascadeDepth →
    ∀ group ∈ x.groups p request, x.config.fuses group = false

variable {A : F32Arith} {p : Platform} {x : CascadeExecutor} {env : Environment}

/-! ## What a part of the loop asks -/

/-- A part of the loop asks the first of some upstreams, all of them if it goes on, and the depth
counts them. -/
structure Asks (f : CascadeFlow) (l : CascadeLoop) (asked all : List PooledUpstream) : Prop where
  next : ∀ l', f = .next l' → asked = all ∧ l'.depth = l.depth + asked.length
  done : ∀ r, f = .done r → asked <+: all ∧ r.value.cascadeDepth = l.depth + asked.length

theorem past_some {α : Type} {depth : Nat} {elapsed : Duration} {reason : CascadeStopReason}
    (h : x.stopAt depth elapsed = some reason) (next : List α) :
    x.past depth elapsed next = [] := by
  rw [past, h]

theorem past_none {α : Type} {depth : Nat} {elapsed : Duration}
    (h : x.stopAt depth elapsed = none) (next : List α) : x.past depth elapsed next = next := by
  rw [past, h]

theorem guarded_some {l : CascadeLoop} {elapsed : Duration} {reason : CascadeStopReason}
    (h : x.stopAt l.depth elapsed = some reason) (go : CascadeFlow) :
    x.guarded env l elapsed go = .done (l.stop env reason l.depth) := by
  rw [guarded, h]

theorem guarded_none {l : CascadeLoop} {elapsed : Duration}
    (h : x.stopAt l.depth elapsed = none) (go : CascadeFlow) :
    x.guarded env l elapsed go = go := by
  rw [guarded, h]

theorem depth_lt_of_stopAt {depth : Nat} {elapsed : Duration}
    (h : x.stopAt depth elapsed = none) : depth < x.config.maxCascadeDepth := by
  by_contra hle
  rw [stopAt, if_pos (Nat.not_lt.1 hle)] at h
  cases h

namespace Asks

variable {f : CascadeFlow} {g : CascadeLoop → CascadeFlow} {l : CascadeLoop}
  {asked all rest : List PooledUpstream} {later : CascadeLoop → List PooledUpstream}

theorem nil (l : CascadeLoop) : Asks (.next l) l [] [] := by
  refine ⟨fun l' h => ?_, nofun⟩
  cases h
  exact ⟨rfl, rfl⟩

theorem stop (l : CascadeLoop) (reason : CascadeStopReason) (all : List PooledUpstream) :
    Asks (.done (l.stop env reason l.depth)) l [] all := by
  refine ⟨nofun, fun r h => ?_⟩
  cases h
  exact ⟨List.nil_prefix, rfl⟩

theorem andThen (hf : Asks f l asked all) (hg : ∀ l', Asks (g l') l' (later l') rest) :
    Asks (f.andThen g) l (asked ++ f.after later) (all ++ rest) := by
  cases f with
  | done r =>
    obtain ⟨hfirst, hdepth⟩ := hf.done r rfl
    refine ⟨nofun, fun r' h => ?_⟩
    cases h
    rw [CascadeFlow.after, List.append_nil]
    exact ⟨hfirst.trans (List.prefix_append _ _), hdepth⟩
  | next l' =>
    obtain ⟨rfl, hdepth⟩ := hf.next l' rfl
    have hcount (n : Nat) : l.depth + (asked.length + n) = l'.depth + n := by omega
    refine ⟨fun l'' h => ?_, fun r h => ?_⟩
    · obtain ⟨hall, hlater⟩ := (hg l').next l'' h
      rw [CascadeFlow.after, List.length_append, hcount]
      exact ⟨congrArg (asked ++ ·) hall, hlater⟩
    · obtain ⟨hfirst, hlater⟩ := (hg l').done r h
      rw [CascadeFlow.after, List.length_append, hcount]
      exact ⟨(List.prefix_append_right_inj _).2 hfirst, hlater⟩

end Asks

theorem asks_askUpstream (u : PooledUpstream) (l : CascadeLoop) :
    Asks (x.askUpstream A env u l) l [u] [u] := by
  unfold askUpstream
  cases env.answer l.depth with
  | error e =>
    refine ⟨fun l' h => ?_, nofun⟩
    cases h
    exact ⟨rfl, rfl⟩
  | ok response =>
    dsimp only
    split
    · refine ⟨nofun, fun r h => ?_⟩
      cases h
      exact ⟨List.prefix_rfl, rfl⟩
    · refine ⟨fun l' h => ?_, nofun⟩
      cases h
      exact ⟨rfl, rfl⟩

theorem asks_askGroup (group : List PooledUpstream) (l : CascadeLoop) :
    Asks (x.askGroup A env group l) l (x.askedOneByOne A env group l) group := by
  induction group generalizing l with
  | nil => exact .nil l
  | cons u rest ih =>
    unfold askGroup askedOneByOne
    cases hstop : x.stopAt l.depth (env.upstreamElapsed l.depth) with
    | some reason =>
      rw [guarded_some hstop, past_some hstop]
      exact .stop l reason _
    | none =>
      rw [guarded_none hstop, past_none hstop]
      exact (asks_askUpstream u l).andThen ih

theorem asks_fuseGroup (request : QueryRequest) (group : List PooledUpstream) (l : CascadeLoop) :
    Asks (x.fuseGroup A p env request group l) l group group := by
  unfold fuseGroup
  dsimp only
  split
  · refine ⟨fun l' h => ?_, nofun⟩
    cases h
    exact ⟨rfl, rfl⟩
  · split
    · refine ⟨nofun, fun r h => ?_⟩
      cases h
      exact ⟨List.prefix_rfl, rfl⟩
    · refine ⟨fun l' h => ?_, nofun⟩
      cases h
      exact ⟨rfl, rfl⟩

theorem asks_queryGroup (request : QueryRequest) (group : List PooledUpstream) {l : CascadeLoop}
    (hstop : x.stopAt l.depth (env.groupElapsed l.depth) = none) :
    Asks (x.queryGroup A p env request group l) l (x.askedInGroup A env group l) group := by
  rw [queryGroup, guarded_none hstop, askedInGroup]
  split
  · exact asks_fuseGroup request group l
  · exact asks_askGroup group l

theorem askedInGroups_cons (request : QueryRequest) (group : List PooledUpstream)
    (rest : List (List PooledUpstream)) {l : CascadeLoop}
    (hstop : x.stopAt l.depth (env.groupElapsed l.depth) = none) :
    x.askedInGroups A p env request (group :: rest) l = x.askedInGroup A env group l ++
      (x.queryGroup A p env request group l).after (x.askedInGroups A p env request rest) := by
  unfold askedInGroups
  rw [started, past_none hstop, List.flatMap_cons]
  cases x.queryGroup A p env request group l <;> rfl

theorem asks_queryGroups (request : QueryRequest) (groups : List (List PooledUpstream))
    (l : CascadeLoop) : Asks (x.queryGroups A p env request groups l) l
      (x.askedInGroups A p env request groups l) groups.flatten := by
  induction groups generalizing l with
  | nil => exact .nil l
  | cons group rest ih =>
    cases hstop : x.stopAt l.depth (env.groupElapsed l.depth) with
    | some reason =>
      rw [queryGroups, queryGroup, guarded_some hstop, askedInGroups, started, past_some hstop]
      exact .stop l reason _
    | none =>
      rw [askedInGroups_cons request group rest hstop]
      exact (asks_queryGroup request group hstop).andThen ih

theorem askedOneByOne_bounded (group : List PooledUpstream) {l : CascadeLoop}
    (h : l.depth ≤ x.config.maxCascadeDepth) :
    l.depth + (x.askedOneByOne A env group l).length ≤ x.config.maxCascadeDepth := by
  induction group generalizing l with
  | nil => exact h
  | cons u rest ih =>
    unfold askedOneByOne
    cases hstop : x.stopAt l.depth (env.upstreamElapsed l.depth) with
    | some reason =>
      rw [past_some hstop]
      exact h
    | none =>
      have hlt := depth_lt_of_stopAt hstop
      have hasks : Asks (x.askUpstream A env u l) l [u] [u] := asks_askUpstream u l
      rw [past_none hstop, List.length_cons]
      cases hflow : x.askUpstream A env u l with
      | done r => exact hlt
      | next l' =>
        have hdepth : l'.depth = l.depth + 1 := (hasks.next l' hflow).2
        have hrest := ih (l := l') (by omega)
        rw [CascadeFlow.after]
        omega

variable (A p env) in
/-- Only a fused group can go beyond the depth. -/
theorem askedInGroups_bounded_iff (request : QueryRequest) (groups : List (List PooledUpstream))
    {l : CascadeLoop} (h : l.depth ≤ x.config.maxCascadeDepth) :
    l.depth + (x.askedInGroups A p env request groups l).length ≤ x.config.maxCascadeDepth ↔
      ∀ s ∈ x.fusedGroups A p env request groups l,
        s.2.depth + s.1.length ≤ x.config.maxCascadeDepth := by
  induction groups generalizing l with
  | nil => exact iff_of_true h fun s hs => absurd hs (by simp [fusedGroups, started])
  | cons group rest ih =>
    cases hstop : x.stopAt l.depth (env.groupElapsed l.depth) with
    | some reason =>
      refine iff_of_true ?_ ?_
      · rw [askedInGroups, started, past_some hstop]
        exact h
      · rw [fusedGroups, started, past_some hstop]
        exact fun s hs => absurd hs (by simp)
    | none =>
      have hasks := asks_queryGroup (A := A) (p := p) request group hstop
      have hcut : (x.fusedGroups A p env request (group :: rest) l) =
          (if x.config.fuses group then [(group, l)] else []) ++
            (x.queryGroup A p env request group l).after
              (x.fusedGroups A p env request rest) := by
        unfold fusedGroups
        rw [started, past_none hstop, List.filter_cons]
        cases x.queryGroup A p env request group l with
        | next l' => split <;> rfl
        | done r => split <;> rfl
      have hgroup : l.depth + (x.askedInGroup A env group l).length ≤ x.config.maxCascadeDepth ↔
          ∀ s ∈ (if x.config.fuses group then [(group, l)] else []),
            s.2.depth + s.1.length ≤ x.config.maxCascadeDepth := by
        unfold askedInGroup
        split
        · simp
        · exact iff_of_true (askedOneByOne_bounded group h) (by simp)
      rw [askedInGroups_cons request group rest hstop, hcut, List.length_append,
        List.forall_mem_append, ← hgroup]
      cases hflow : x.queryGroup A p env request group l with
      | done r => simp [CascadeFlow.after]
      | next l' =>
        have hdepth := (hasks.next l' hflow).2
        simp only [CascadeFlow.after]
        by_cases hfits : l'.depth ≤ x.config.maxCascadeDepth
        · rw [← ih hfits]
          omega
        · refine iff_of_false (by omega) ?_
          rintro ⟨hle, -⟩
          omega

theorem tried_joinAll (joins : List Join) (g : RrfGroup) :
    (x.joinAll A joins g).upstreamIds.length = g.upstreamIds.length +
      (joins.takeWhile fun j => j.elapsed ≤ x.config.timeout).countP fun j =>
        j.outcome.isSome := by
  induction joins generalizing g with
  | nil => rfl
  | cons j rest ih =>
    by_cases hlate : x.config.timeout < j.elapsed
    · rw [joinAll_late hlate, List.takeWhile_cons_of_neg (by simpa using hlate)]
      rfl
    · rw [List.takeWhile_cons_of_pos (by simpa using Nat.not_lt.1 hlate), List.countP_cons]
      cases hout : j.outcome with
      | none =>
        rw [joinAll_panicked hlate hout, ih]
        simp
      | some outcome =>
        have hone : (x.joinTask A j.upstream outcome
            { g with calls := g.calls ++ [outcome] }).upstreamIds.length =
            g.upstreamIds.length + 1 := List.length_append
        rw [joinAll_returned hlate hout, ih, hone]
        simp only [Option.isSome_some, if_true]
        omega

theorem tried_askGroup {group : List PooledUpstream} {l l' : CascadeLoop}
    (h : x.askGroup A env group l = .next l') :
    l'.tried.length = l.tried.length + group.length := by
  induction group generalizing l with
  | nil =>
    cases h
    rfl
  | cons u rest ih =>
    have hask {m : CascadeLoop} (hm : x.askUpstream A env u l = .next m) :
        m.tried.length = l.tried.length + 1 := by
      unfold askUpstream at hm
      cases hcall : env.answer l.depth with
      | error e =>
        simp only [hcall] at hm
        cases hm
        simp
      | ok response =>
        simp only [hcall] at hm
        split at hm
        · cases hm
        · cases hm
          simp
    unfold askGroup at h
    cases hstop : x.stopAt l.depth (env.upstreamElapsed l.depth) with
    | some reason =>
      rw [guarded_some hstop] at h
      cases h
    | none =>
      rw [guarded_none hstop] at h
      cases hflow : x.askUpstream A env u l with
      | done r =>
        rw [hflow] at h
        cases h
      | next m =>
        rw [hflow] at h
        rw [ih h, hask hflow, List.length_cons]
        omega

theorem tried_fuseGroup {request : QueryRequest} {group : List PooledUpstream}
    {l l' : CascadeLoop} (h : x.fuseGroup A p env request group l = .next l') :
    l'.tried.length = l.tried.length + x.joined env l.depth := by
  have hjoined : (x.joinAll A (env.joins l.depth) (.start l.calls)).upstreamIds.length =
      x.joined env l.depth := by
    rw [tried_joinAll, joined]
    exact Nat.zero_add _
  unfold fuseGroup at h
  dsimp only at h
  rw [← hjoined]
  split at h
  · cases h
    exact List.length_append
  · split at h
    · cases h
    · cases h
      exact List.length_append

/-- The upstreams on record behind the last group: of a fused group those that returned. -/
theorem tried_queryGroups {request : QueryRequest} {groups : List (List PooledUpstream)}
    {l l' : CascadeLoop} (h : x.queryGroups A p env request groups l = .next l') :
    l'.tried.length + ((x.fusedGroups A p env request groups l).map fun s => s.1.length).sum =
      l.tried.length + (x.askedInGroups A p env request groups l).length +
        ((x.fusedGroups A p env request groups l).map fun s => x.joined env s.2.depth).sum := by
  induction groups generalizing l with
  | nil =>
    cases h
    rfl
  | cons group rest ih =>
    unfold queryGroups at h
    cases hstop : x.stopAt l.depth (env.groupElapsed l.depth) with
    | some reason =>
      rw [queryGroup, guarded_some hstop] at h
      cases h
    | none =>
      cases hflow : x.queryGroup A p env request group l with
      | done r =>
        rw [hflow] at h
        cases h
      | next m =>
        rw [hflow] at h
        have hrest := ih h
        have hasked := (asks_queryGroup request group hstop).next m hflow
        rw [askedInGroups_cons request group rest hstop, hflow, CascadeFlow.after,
          List.length_append]
        unfold fusedGroups at hrest ⊢
        rw [started, past_none hstop, hflow, CascadeFlow.after, List.filter_cons]
        rw [queryGroup, guarded_none hstop] at hflow
        split at hflow
        · rename_i hfuses
          have htried := tried_fuseGroup hflow
          rw [if_pos hfuses, List.map_cons, List.map_cons, List.sum_cons, List.sum_cons,
            hasked.1]
          dsimp only
          omega
        · rename_i hfuses
          have htried := tried_askGroup hflow
          rw [if_neg hfuses, hasked.1]
          omega

/-! ## The whole query -/

theorem groupByPriority_eq (upstreams : List PooledUpstream) :
    groupByPriority upstreams = Grouping.groupBy PooledUpstream.priority upstreams := rfl

theorem order_perm (request : QueryRequest) :
    (x.cascadeOrderWithPreference p.tables request.upstreamType).Perm x.pool.candidates := by
  unfold cascadeOrderWithPreference
  cases request.upstreamType with
  | none => exact List.perm_insertionSort _ _
  | some pref => exact (List.perm_insertionSort _ _).trans (List.perm_insertionSort _ _)

theorem groups_perm (request : QueryRequest) :
    (x.groups p request).flatten.Perm x.pool.candidates := by
  unfold groups
  rw [groupByPriority_eq]
  exact (Grouping.flatten_groupBy_perm _ _).trans (order_perm request)

theorem candidates_sublist (pool : UpstreamPool) : pool.candidates.Sublist pool.upstreams := by
  unfold UpstreamPool.candidates
  split
  · exact List.Sublist.refl _
  · exact List.filter_sublist

theorem askedInGroups_first (request : QueryRequest) (l : CascadeLoop) :
    x.askedInGroups A p env request (x.groups p request) l <+:
      (x.groups p request).flatten := by
  have hasks : Asks (x.queryGroups A p env request (x.groups p request) l) l
      (x.askedInGroups A p env request (x.groups p request) l) (x.groups p request).flatten :=
    asks_queryGroups request (x.groups p request) l
  cases hflow : x.queryGroups A p env request (x.groups p request) l with
  | next l' => exact (hasks.next l' hflow).1 ▸ List.prefix_rfl
  | done r => exact (hasks.done r hflow).1

theorem askedInGroups_subperm (request : QueryRequest) (l : CascadeLoop) :
    (x.askedInGroups A p env request (x.groups p request) l).Subperm x.pool.upstreams :=
  (askedInGroups_first request l).sublist.subperm.trans
    ((groups_perm request).subperm.trans (candidates_sublist x.pool).subperm)

theorem get_mem {pool : UpstreamPool} {id : String} {u : PooledUpstream}
    (h : pool.get id = some u) : u ∈ pool.upstreams :=
  List.mem_reverse.1 (List.mem_of_find?_eq_some h)

variable (A p env) in
/-- The reported depth counts what the groups ask, or what is on record behind the last one. -/
theorem cascadeDepth_cascade (request : QueryRequest) {l : CascadeLoop} (hdepth : l.depth = 0)
    (htried : l.tried = []) :
    (∀ l', x.queryGroups A p env request (x.groups p request) l = .next l' →
        (x.cascade A p env request l).value.cascadeDepth = l'.tried.length) ∧
      ((∃ r, x.queryGroups A p env request (x.groups p request) l = .done r) →
        (x.cascade A p env request l).value.cascadeDepth =
          (x.askedInGroups A p env request (x.groups p request) l).length) := by
  have hasks : Asks (x.queryGroups A p env request (x.groups p request) l) l
      (x.askedInGroups A p env request (x.groups p request) l) (x.groups p request).flatten :=
    asks_queryGroups request (x.groups p request) l
  unfold cascade
  split
  · rename_i hempty
    have hgroups : x.groups p request = [] := by
      unfold groups
      rw [List.isEmpty_iff.1 hempty]
      rfl
    rw [hgroups]
    refine ⟨fun l' h => ?_, fun ⟨r, h⟩ => by cases h⟩
    cases h
    rw [htried]
    rfl
  · constructor
    · intro l' h
      rw [h]
      rfl
    · rintro ⟨r, h⟩
      rw [h]
      exact (hasks.done r h).2.trans (by rw [hdepth, Nat.zero_add])

theorem joined_le {group : List PooledUpstream} {depth : Nat}
    (h : ((env.joins depth).map Join.upstream).Subperm group) :
    x.joined env depth ≤ group.length := by
  have hlength := h.length_le
  rw [List.length_map] at hlength
  have hfits : ((env.joins depth).takeWhile fun j => j.elapsed ≤ x.config.timeout).length ≤
      (env.joins depth).length := (List.takeWhile_prefix _).length_le
  exact List.countP_le_length.trans (hfits.trans hlength)

variable (A p env) in
/-- The reported depth is what the groups ask unless they are exhausted and a task was lost. -/
theorem cascadeDepth_eq_iff (request : QueryRequest) {l : CascadeLoop} (hdepth : l.depth = 0)
    (htried : l.tried = [])
    (hjoined : ∀ s ∈ x.fusedGroups A p env request (x.groups p request) l,
      x.joined env s.2.depth ≤ s.1.length) :
    (x.cascade A p env request l).value.cascadeDepth ≤
        (x.askedInGroups A p env request (x.groups p request) l).length ∧
      ((x.cascade A p env request l).value.cascadeDepth =
          (x.askedInGroups A p env request (x.groups p request) l).length ↔
        (x.Exhausts A p env request l →
          ∀ s ∈ x.fusedGroups A p env request (x.groups p request) l,
            x.joined env s.2.depth = s.1.length)) := by
  obtain ⟨hnext, hdone⟩ := cascadeDepth_cascade A p env request hdepth htried
  cases hflow : x.queryGroups A p env request (x.groups p request) l with
  | done r =>
    have heq := hdone ⟨r, hflow⟩
    refine ⟨heq.le, iff_of_true heq fun ⟨l', h⟩ => ?_⟩
    rw [hflow] at h
    cases h
  | next l' =>
    have hcount := tried_queryGroups hflow
    have hle := List.sum_le_sum hjoined
    have hexhausts : x.Exhausts A p env request l := ⟨l', hflow⟩
    rw [htried, List.length_nil] at hcount
    rw [hnext l' hflow, forall_prop_of_true hexhausts]
    refine ⟨by omega, fun heq s hs => ?_, fun hall => ?_⟩
    · by_contra hne
      have hlt := List.sum_lt_sum _ _ hjoined ⟨s, hs, lt_of_le_of_ne (hjoined s hs) hne⟩
      omega
    · rw [List.map_congr_left hall] at hcount
      omega

variable (A p x env) in
theorem begins_cases (request : QueryRequest) :
    (x.config.enabled = false ∧ x.begins env request = none) ∨
      (x.config.enabled = true ∧ request.upstreamId.bind x.pool.get = none ∧
        x.begins env request = some (.start [])) ∨
      x.config.enabled = true ∧ ∃ target, request.upstreamId.bind x.pool.get = some target ∧
        ((x.begins env request = none ∧
            (x.query A p env request).value.cascadeDepth = 1) ∨
          ∃ calls, x.begins env request = some (.start calls)) := by
  unfold begins query
  cases henabled : x.config.enabled with
  | false => exact .inl ⟨rfl, rfl⟩
  | true =>
    refine .inr ?_
    cases htarget : request.upstreamId.bind x.pool.get with
    | none => exact .inl ⟨rfl, rfl, rfl⟩
    | some target =>
      refine .inr ⟨rfl, target, rfl, ?_⟩
      simp only [Bool.not_true, Bool.false_eq_true, if_false]
      cases env.targeted with
      | error e => exact .inr ⟨_, rfl⟩
      | ok response =>
        dsimp only
        split
        · exact .inr ⟨_, rfl⟩
        · exact .inl ⟨rfl, rfl⟩

theorem query_of_begins {request : QueryRequest} {l : CascadeLoop}
    (h : x.begins env request = some l) :
    x.query A p env request = x.cascade A p env request l := by
  unfold begins at h
  unfold query
  cases henabled : x.config.enabled with
  | false =>
    rw [henabled] at h
    cases h
  | true =>
    rw [henabled] at h
    simp only [Bool.not_true, Bool.false_eq_true, if_false] at h ⊢
    cases htarget : request.upstreamId.bind x.pool.get with
    | none =>
      rw [htarget] at h
      cases h
      rfl
    | some target =>
      simp only [htarget] at h ⊢
      cases hcall : env.targeted with
      | error e =>
        rw [hcall] at h
        cases h
        rfl
      | ok response =>
        simp only [hcall] at h ⊢
        split at h
        · rename_i hempty
          rw [if_pos hempty]
          cases h
          rfl
        · cases h

/-- One query. -/
theorem effortBounded_iff (request : QueryRequest) (hjoins : x.JoinsOnce A p env request) :
    x.EffortBounded A p env request ↔
      x.config.enabled = false ∨
      (x.begins env request = none ∧ 1 ≤ x.config.maxCascadeDepth) ∨
      request.upstreamId.bind x.pool.get = none ∧
        ∀ s ∈ x.fusedGroups A p env request (x.groups p request) (.start []),
          s.2.depth + s.1.length ≤ x.config.maxCascadeDepth ∧
            (x.Exhausts A p env request (.start []) →
              x.joined env s.2.depth = s.1.length) := by
  rcases begins_cases A p x env request with
    ⟨henabled, hbegins⟩ | ⟨henabled, htarget, hbegins⟩ | ⟨henabled, target, htarget, hends⟩
  · refine iff_of_true ?_ (.inl henabled)
    have hasked : x.asked A p env request = [] := by
      simp [asked, targetAsked, cascadeAsked, henabled, hbegins]
    have hquery : (x.query A p env request).value.cascadeDepth = 0 := by
      simp [query, henabled, emptyResult]
    exact ⟨hasked ▸ List.nil_subperm, hasked ▸ Nat.zero_le _, by rw [hquery, hasked]; rfl⟩
  · have hasked : x.asked A p env request =
        x.askedInGroups A p env request (x.groups p request) (.start []) := by
      simp [asked, targetAsked, cascadeAsked, henabled, hbegins, htarget]
    have hjoined := fun s hs => joined_le (x := x) (hjoins _ hbegins s hs)
    have hcounted := (cascadeDepth_eq_iff A p env request (l := .start []) rfl rfl hjoined).2
    have hbounded := askedInGroups_bounded_iff A p env request (x.groups p request)
      (l := .start []) (Nat.zero_le x.config.maxCascadeDepth)
    rw [show (CascadeLoop.start []).depth = 0 from rfl, Nat.zero_add] at hbounded
    have hnone : x.begins env request ≠ none := by
      rw [hbegins]
      exact Option.some_ne_none _
    simp only [henabled, hnone, htarget, reduceCtorEq, false_and, true_and, false_or]
    constructor
    · intro h
      have hdepth := h.counted
      rw [query_of_begins hbegins, hasked, hcounted] at hdepth
      have hlength := h.bounded
      rw [hasked, hbounded] at hlength
      exact fun s hs => ⟨hlength s hs, fun hexhausts => hdepth hexhausts s hs⟩
    · intro h
      refine ⟨?_, ?_, ?_⟩
      · rw [hasked]
        exact askedInGroups_subperm request _
      · rw [hasked, hbounded]
        exact fun s hs => (h s hs).1
      · rw [query_of_begins hbegins, hasked, hcounted]
        exact fun hexhausts s hs => (h s hs).2 hexhausts
  · have hsome : request.upstreamId.bind x.pool.get ≠ none := by
      rw [htarget]
      exact Option.some_ne_none _
    simp only [henabled, hsome, reduceCtorEq, false_and, or_false, false_or]
    have htargeted : x.targetAsked request = [target] := by
      simp [targetAsked, henabled, htarget]
    rcases hends with ⟨hbegins, hdepth⟩ | ⟨calls, hbegins⟩
    · have hasked : x.asked A p env request = [target] := by
        simp [asked, cascadeAsked, htargeted, hbegins]
      rw [hbegins]
      simp only [true_and]
      constructor
      · intro h
        have hbounded := h.bounded
        rwa [hasked] at hbounded
      · intro hone
        refine ⟨?_, by rwa [hasked], by rw [hasked, hdepth]; rfl⟩
        rw [hasked]
        obtain ⟨id, -, hget⟩ := Option.bind_eq_some_iff.1 htarget
        exact List.singleton_subperm_iff.2 (get_mem hget)
    · have hasked : x.asked A p env request = target ::
          x.askedInGroups A p env request (x.groups p request) (.start calls) := by
        simp [asked, cascadeAsked, htargeted, hbegins]
      rw [hbegins]
      refine iff_of_false (fun h => ?_) (by simp)
      have hle := (cascadeDepth_eq_iff A p env request (l := .start calls) rfl rfl fun s hs =>
        joined_le (hjoins _ hbegins s hs)).1
      have hcounted := h.counted
      rw [query_of_begins hbegins, hasked, List.length_cons] at hcounted
      omega

/-! ## Queries in which every upstream fails -/

theorem stopAt_zero {depth : Nat} (h : depth < x.config.maxCascadeDepth) :
    x.stopAt depth 0 = none := by
  unfold stopAt
  rw [if_neg (Nat.not_le.2 h), if_neg (Nat.not_lt_zero _)]

theorem askGroup_failing (group : List PooledUpstream) {l : CascadeLoop}
    (h : l.depth + group.length ≤ x.config.maxCascadeDepth) :
    ∃ l', x.askGroup A .failing group l = .next l' := by
  induction group generalizing l with
  | nil => exact ⟨l, rfl⟩
  | cons u rest ih =>
    rw [List.length_cons] at h
    obtain ⟨l', hflow⟩ := ih (l := ⟨l.tried ++ [u.id], l.scores ++ [failedScore u "down"],
      l.best, l.depth + 1, l.calls ++ [.error "down"]⟩) (by dsimp only; omega)
    have hstop : x.stopAt l.depth (Environment.failing.upstreamElapsed l.depth) = none :=
      stopAt_zero (by omega)
    refine ⟨l', ?_⟩
    unfold askGroup
    rw [guarded_none hstop]
    exact hflow

theorem queryGroup_failing (request : QueryRequest) (group : List PooledUpstream)
    {l : CascadeLoop} (hstart : l.depth < x.config.maxCascadeDepth)
    (h : l.depth + group.length ≤ x.config.maxCascadeDepth) :
    ∃ l', x.queryGroup A p .failing request group l = .next l' ∧
      l'.depth = l.depth + group.length := by
  have hstop : x.stopAt l.depth (Environment.failing.groupElapsed l.depth) = none :=
    stopAt_zero hstart
  obtain ⟨l', hflow⟩ : ∃ l', x.queryGroup A p .failing request group l = .next l' := by
    rw [queryGroup, guarded_none hstop]
    split
    · exact ⟨_, rfl⟩
    · exact askGroup_failing group h
  obtain ⟨hasked, hdepth⟩ := (asks_queryGroup request group hstop).next l' hflow
  rw [hasked] at hdepth
  exact ⟨l', hflow, hdepth⟩

theorem queryGroups_failing (request : QueryRequest) (groups : List (List PooledUpstream))
    (hgroups : ∀ group ∈ groups, group ≠ []) {l : CascadeLoop}
    (h : l.depth + groups.flatten.length ≤ x.config.maxCascadeDepth) :
    ∃ l', x.queryGroups A p .failing request groups l = .next l' := by
  induction groups generalizing l with
  | nil => exact ⟨l, rfl⟩
  | cons group rest ih =>
    rw [List.flatten_cons, List.length_append] at h
    have hpos := List.length_pos_iff.2 (hgroups group List.mem_cons_self)
    obtain ⟨l', hgroup, hdepth⟩ := queryGroup_failing (A := A) (p := p) (x := x) (l := l) request
      group (by omega) (by omega)
    unfold queryGroups
    rw [hgroup]
    exact ih (fun g hg => hgroups g (List.mem_cons_of_mem _ hg)) (by omega)

/-- A group starts if the groups before it leave room. -/
theorem started_failing (request : QueryRequest) (before : List (List PooledUpstream))
    (group : List PooledUpstream) (after : List (List PooledUpstream)) {l : CascadeLoop}
    (h : l.depth + before.flatten.length < x.config.maxCascadeDepth) :
    ∃ l', (group, l') ∈ x.started A p .failing request (before ++ group :: after) l ∧
      l'.depth = l.depth + before.flatten.length := by
  induction before generalizing l with
  | nil =>
    have hstop : x.stopAt l.depth (Environment.failing.groupElapsed l.depth) = none :=
      stopAt_zero h
    refine ⟨l, ?_, rfl⟩
    rw [List.nil_append, started, past_none hstop]
    exact List.mem_cons_self
  | cons first rest ih =>
    rw [List.flatten_cons, List.length_append] at h ⊢
    have hstop : x.stopAt l.depth (Environment.failing.groupElapsed l.depth) = none :=
      stopAt_zero (by omega)
    obtain ⟨m, hflow, hdepth⟩ := queryGroup_failing (A := A) (p := p) (x := x) (l := l) request
      first (by omega) (by omega)
    obtain ⟨l', hmem, hl'⟩ := ih (l := m) (by omega)
    refine ⟨l', ?_, by omega⟩
    rw [List.cons_append, started, past_none hstop, hflow]
    exact List.mem_cons_of_mem _ hmem

/-- A group starts within the depth, behind all groups before it. -/
theorem mem_started {request : QueryRequest} {groups : List (List PooledUpstream)}
    {l : CascadeLoop} {s : List PooledUpstream × CascadeLoop}
    (hs : s ∈ x.started A p env request groups l) :
    ∃ before after, groups = before ++ s.1 :: after ∧
      s.2.depth = l.depth + before.flatten.length ∧
        s.2.depth < x.config.maxCascadeDepth := by
  induction groups generalizing l with
  | nil => cases hs
  | cons group rest ih =>
    unfold started at hs
    cases hstop : x.stopAt l.depth (env.groupElapsed l.depth) with
    | some reason =>
      rw [past_some hstop] at hs
      cases hs
    | none =>
      rw [past_none hstop] at hs
      rcases List.mem_cons.1 hs with rfl | hlater
      · exact ⟨[], rest, rfl, rfl, depth_lt_of_stopAt hstop⟩
      · cases hflow : x.queryGroup A p env request group l with
        | done r =>
          rw [hflow] at hlater
          cases hlater
        | next l' =>
          rw [hflow] at hlater
          obtain ⟨hasked, hdepth⟩ := (asks_queryGroup request group hstop).next l' hflow
          rw [hasked] at hdepth
          obtain ⟨before, after, rfl, hstart, hlt⟩ := ih hlater
          refine ⟨group :: before, after, rfl, ?_, hlt⟩
          rw [List.flatten_cons, List.length_append]
          omega

theorem group_ne_nil {request : QueryRequest} {group : List PooledUpstream}
    (h : group ∈ x.groups p request) : group ≠ [] := by
  unfold groups at h
  rw [groupByPriority_eq] at h
  exact Grouping.ne_nil_of_mem_groupBy h

theorem joinsOnce_failing (request : QueryRequest) : x.JoinsOnce A p .failing request :=
  fun _ _ _ _ => List.nil_subperm

/-- If every upstream fails, the effort is bounded only if the fused groups fit. -/
theorem fits_of_failing {request : QueryRequest}
    (hfused : ∀ s ∈ x.fusedGroups A p .failing request (x.groups p request) (.start []),
      s.2.depth + s.1.length ≤ x.config.maxCascadeDepth ∧
        (x.Exhausts A p .failing request (.start []) → x.joined .failing s.2.depth = s.1.length)) :
    x.Fits p request := by
  have hstarted (before : List (List PooledUpstream)) (group : List PooledUpstream)
      (after : List (List PooledUpstream)) (hgroups : x.groups p request = before ++ group :: after)
      (hfuses : x.config.fuses group = true)
      (hroom : before.flatten.length < x.config.maxCascadeDepth) :
      ∃ l, (group, l) ∈ x.fusedGroups A p .failing request (x.groups p request) (.start []) ∧
        l.depth = before.flatten.length := by
    obtain ⟨l, hmem, hdepth⟩ := started_failing (A := A) (p := p) (x := x) (l := .start []) request
      before group after (by rw [show (CascadeLoop.start []).depth = 0 from rfl]; omega)
    refine ⟨l, List.mem_filter.2 ⟨hgroups ▸ hmem, hfuses⟩, hdepth.trans (Nat.zero_add _)⟩
  refine ⟨fun before group after hgroups hfuses hroom => ?_, fun hall group hgroup => ?_⟩
  · obtain ⟨l, hmem, hdepth⟩ := hstarted before group after hgroups hfuses hroom
    have hfits := (hfused _ hmem).1
    rwa [hdepth] at hfits
  · rw [← Bool.not_eq_true]
    intro hfuses
    have htotal : (x.groups p request).flatten.length ≤ x.config.maxCascadeDepth :=
      (groups_perm request).length_eq.le.trans hall
    obtain ⟨before, after, hgroups⟩ := List.append_of_mem hgroup
    have hpos := List.length_pos_iff.2 (group_ne_nil hgroup)
    have hexhausts : x.Exhausts A p .failing request (.start []) :=
      queryGroups_failing request _ (fun g hg => group_ne_nil hg) (by
        rw [show (CascadeLoop.start []).depth = 0 from rfl]
        omega)
    have hroom : before.flatten.length < x.config.maxCascadeDepth := by
      rw [hgroups, List.flatten_append, List.flatten_cons, List.length_append,
        List.length_append] at htotal
      omega
    obtain ⟨l, hmem, -⟩ := hstarted before group after hgroups hfuses hroom
    -- No task of a failing group returns.
    have hjoined : 0 = group.length := (hfused _ hmem).2 hexhausts
    omega

theorem Fits.fused {request : QueryRequest} (h : x.Fits p request) :
    ∀ s ∈ x.fusedGroups A p env request (x.groups p request) (.start []),
      s.2.depth + s.1.length ≤ x.config.maxCascadeDepth ∧
        (x.Exhausts A p env request (.start []) → x.joined env s.2.depth = s.1.length) := by
  have hgroup : ∀ s ∈ x.fusedGroups A p env request (x.groups p request) (.start []),
      s.2.depth + s.1.length ≤ x.config.maxCascadeDepth := by
    intro s hs
    obtain ⟨hmem, hfuses⟩ := List.mem_filter.1 hs
    obtain ⟨before, after, hgroups, hdepth, hlt⟩ := mem_started hmem
    rw [show (CascadeLoop.start []).depth = 0 from rfl, Nat.zero_add] at hdepth
    rw [hdepth] at hlt ⊢
    exact h.group before s.1 after hgroups hfuses hlt
  refine fun s hs => ⟨hgroup s hs, ?_⟩
  rintro ⟨l', hflow⟩
  have hbounded := (askedInGroups_bounded_iff A p env request (x.groups p request)
    (l := .start []) (Nat.zero_le x.config.maxCascadeDepth)).2 hgroup
  rw [((asks_queryGroups request _ _).next l' hflow).1, (groups_perm request).length_eq,
    show (CascadeLoop.start []).depth = 0 from rfl, Nat.zero_add] at hbounded
  obtain ⟨hmem, hfuses⟩ := List.mem_filter.1 hs
  obtain ⟨before, after, hgroups, -, -⟩ := mem_started hmem
  have hnot := h.all hbounded s.1 (by rw [hgroups]; simp)
  rw [hnot] at hfuses
  cases hfuses

/-- The effort of the queries of a request is bounded as it should be, whatever the answers and
their times, exactly if the cascade is disabled, or no upstream is targeted and the fused groups
fit. The effort of one query is exactly if the cascade is disabled, a targeted upstream ends the
query (and one upstream may be asked), or none is targeted, no fused group goes beyond the depth,
and none has lost a task when the groups are exhausted. -/
theorem effort_bounded_iff (A : F32Arith) (p : Platform) (x : CascadeExecutor)
    (request : QueryRequest) :
    ((∀ env, x.JoinsOnce A p env request → x.EffortBounded A p env request) ↔
      x.config.enabled = false ∨
        request.upstreamId.bind x.pool.get = none ∧ x.Fits p request) ∧
    ∀ env, x.JoinsOnce A p env request →
      (x.EffortBounded A p env request ↔
        x.config.enabled = false ∨
        (x.begins env request = none ∧ 1 ≤ x.config.maxCascadeDepth) ∨
        request.upstreamId.bind x.pool.get = none ∧
          ∀ s ∈ x.fusedGroups A p env request (x.groups p request) (.start []),
            s.2.depth + s.1.length ≤ x.config.maxCascadeDepth ∧
              (x.Exhausts A p env request (.start []) →
                x.joined env s.2.depth = s.1.length)) := by
  refine ⟨⟨fun h => ?_, ?_⟩, fun env hjoins => effortBounded_iff request hjoins⟩
  · have hfailing := h .failing (joinsOnce_failing request)
    rw [effortBounded_iff request (joinsOnce_failing request)] at hfailing
    rcases hfailing with hdisabled | ⟨hbegins, -⟩ | ⟨htarget, hfused⟩
    · exact .inl hdisabled
    · -- A failing target does not end the query.
      refine .inl ?_
      rcases begins_cases A p x .failing request with
        ⟨hdisabled, -⟩ | ⟨-, -, hbegins'⟩ | ⟨henabled, target, htarget, -⟩
      · exact hdisabled
      · rw [hbegins] at hbegins'
        cases hbegins'
      · unfold begins at hbegins
        rw [henabled, htarget] at hbegins
        cases hbegins
    · exact .inr ⟨htarget, fits_of_failing hfused⟩
  · rintro (hdisabled | ⟨htarget, hfits⟩) env hjoins
    · exact (effortBounded_iff request hjoins).2 (.inl hdisabled)
    · exact (effortBounded_iff request hjoins).2 (.inr (.inr ⟨htarget, hfits.fused⟩))

/-- Upstreams of one priority, fused. -/
def fusedOver (ids : List String) : CascadeExecutor where
  pool := ⟨ids.map (plainUpstream · 0), .roundRobin, 0⟩
  config := { CascadeConfig.default with fusionMethod := .rrf }

/-- Every task of a group fails in time. -/
def failingTasks (x : CascadeExecutor) : Environment :=
  { Environment.failing with
    joins := fun _ => x.pool.upstreams.map fun u => ⟨u, 0, some (.error "down")⟩ }

theorem fused_pair_bounded :
    (fusedOver ["a", "b"]).EffortBounded F32Arith.exact Platform.sample
      (failingTasks (fusedOver ["a", "b"])) (textRequest "q") := by
  have hfused : (fusedOver ["a", "b"]).fusedGroups F32Arith.exact Platform.sample
      (failingTasks (fusedOver ["a", "b"])) (textRequest "q")
      ((fusedOver ["a", "b"]).groups Platform.sample (textRequest "q")) (.start []) =
        [([plainUpstream "a" 0, plainUpstream "b" 0], .start [])] := rfl
  refine ((effort_bounded_iff _ _ _ _).2 _ fun l hl s hs => ?_).2
    (.inr (.inr ⟨rfl, fun s hs => ?_⟩))
  · obtain rfl : CascadeLoop.start [] = l := Option.some.inj hl
    rw [hfused, List.mem_singleton] at hs
    rw [hs]
    exact List.Subperm.refl _
  · rw [hfused, List.mem_singleton] at hs
    rw [hs]
    exact ⟨by decide, fun _ => rfl⟩

/-- A targeted upstream that fails is asked again by the cascade, which counts it once; and a fused
group of four is asked where three are allowed. -/
theorem effort_exceeded :
    ((cascadeOver ["a"]).asked F32Arith.exact Platform.sample Environment.failing
        { textRequest "q" with upstreamId := some "a" } = ["a", "a"].map (plainUpstream · 0) ∧
      ((cascadeOver ["a"]).query F32Arith.exact Platform.sample Environment.failing
        { textRequest "q" with upstreamId := some "a" }).value.cascadeDepth = 1 ∧
      ¬ (cascadeOver ["a"]).EffortBounded F32Arith.exact Platform.sample Environment.failing
        { textRequest "q" with upstreamId := some "a" }) ∧
    (fusedOver ["a", "b", "c", "d"]).config.maxCascadeDepth = 3 ∧
      ¬ (fusedOver ["a", "b", "c", "d"]).EffortBounded F32Arith.exact Platform.sample
        (failingTasks (fusedOver ["a", "b", "c", "d"])) (textRequest "q") := by
  refine ⟨⟨rfl, rfl, fun h => ?_⟩, rfl, fun h => ?_⟩
  · have hcounted : 1 = 2 := h.counted
    omega
  · have hbounded : 4 ≤ 3 := h.bounded
    omega

end CascadeExecutor

end Conproxy
