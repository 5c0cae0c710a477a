import Conproxy.Sample
import Conproxy.Cascade
import Conproxy.Server.State

/-!
# Failures of the upstreams

`dispatch_upstream_query` classifies a cascade by its stop reason and its scores. When no call
that it made succeeded, the cascade's checks and records are functions of the groups, the clock
and the completed tasks alone, and they decide whether the failure is reported.
-/

namespace Conproxy

set_option autoImplicit false

def CascadeResult.allErrored (r : CascadeResult) : Bool :=
  !r.upstreamScores.isEmpty && r.upstreamScores.all fun s => s.error.isSome

def CascadeResult.upstreamFailure (r : CascadeResult) : Bool :=
  r.stopReason = .timeout || r.stopReason = .noUpstreams ||
    (r.stopReason = .allExhausted && r.allErrored)

/-- The answer of `dispatch_upstream_query` for a cascade's result. -/
def CascadeResult.toOutcome (r : CascadeResult) : Outcome :=
  if r.upstreamFailure then unavailable "All upstreams failed in cascade"
  else .ok ⟨r.results, .miss, r.cascadeTimeMs, none, none⟩

def dispatchUpstreamQuery (A : F32Arith) (p : Platform) (cascade : Option CascadeExecutor)
    (pool : Option UpstreamPool) (upstream : Bool) (request : QueryRequest)
    (env : Environment) : Traced Outcome :=
  if !env.permit then ⟨unavailable "Global connection limit reached", []⟩
  else
    match cascade, pool with
    | some x, _ =>
      let r := x.query A p env request
      ⟨r.value.toOutcome, r.calls⟩
    | none, some pool => pool.query request env
    | none, none =>
      if upstream then
        ⟨env.single.map fun r => { r with results := r.results.map Upstreams.fillUpstreamId },
          [env.single]⟩
      else ⟨.error "Upstream not configured", []⟩

def AllFailed (calls : List Outcome) : Prop := ∀ call ∈ calls, ∃ e, call = .error e

namespace AllFailed

theorem not_ok {calls : List Outcome} (h : AllFailed calls) {response : QueryResponse} :
    Except.ok response ∉ calls := by
  intro hmem
  obtain ⟨e, he⟩ := h _ hmem
  cases he

theorem of_prefix {calls later : List Outcome} (h : AllFailed later) (hle : calls <+: later) :
    AllFailed calls :=
  fun call hcall => h call (hle.subset hcall)

end AllFailed

def CascadeFlow.calls : CascadeFlow → List Outcome
  | .next l => l.calls
  | .done r => r.calls

namespace CascadeExecutor

variable {A : F32Arith} {p : Platform} {x : CascadeExecutor} {env : Environment}

/-! A call once made stays in the trace. -/

theorem calls_andThen {f : CascadeFlow} {g : CascadeLoop → CascadeFlow}
    (h : ∀ l, l.calls <+: (g l).calls) : f.calls <+: (f.andThen g).calls := by
  cases f with
  | next l => exact h l
  | done r => exact List.prefix_rfl

theorem calls_guarded {l : CascadeLoop} {elapsed : Duration} {go : CascadeFlow}
    (h : l.calls <+: go.calls) : l.calls <+: (x.guarded env l elapsed go).calls := by
  unfold guarded
  split
  · exact List.prefix_rfl
  · exact h

theorem calls_askUpstream (u : PooledUpstream) (l : CascadeLoop) :
    l.calls ++ [env.answer l.depth] <+: (x.askUpstream A env u l).calls := by
  unfold askUpstream
  cases env.answer l.depth with
  | error e => exact List.prefix_rfl
  | ok response =>
    simp only
    split
    · exact List.prefix_rfl
    · exact List.prefix_rfl

theorem calls_askGroup (group : List PooledUpstream) (l : CascadeLoop) :
    l.calls <+: (x.askGroup A env group l).calls := by
  induction group generalizing l with
  | nil => exact List.prefix_rfl
  | cons u rest ih =>
    refine (calls_guarded ?_).trans (calls_andThen ih)
    exact (List.prefix_append _ _).trans (calls_askUpstream u l)

/-! The three ways a completed task leaves the loop of a fused group. -/

theorem joinAll_late {j : Join} (h : x.config.timeout < j.elapsed) (rest : List Join)
    (g : RrfGroup) :
    x.joinAll A (j :: rest) g = { g with calls := g.calls ++ j.outcome.toList } := by
  simp [joinAll, h]

theorem joinAll_panicked {j : Join} (h : ¬ x.config.timeout < j.elapsed)
    (hout : j.outcome = none) (rest : List Join) (g : RrfGroup) :
    x.joinAll A (j :: rest) g = x.joinAll A rest g := by
  simp [joinAll, h, hout]

theorem joinAll_returned {j : Join} {outcome : Outcome} (h : ¬ x.config.timeout < j.elapsed)
    (hout : j.outcome = some outcome) (rest : List Join) (g : RrfGroup) :
    x.joinAll A (j :: rest) g = x.joinAll A rest
      (x.joinTask A j.upstream outcome { g with calls := g.calls ++ [outcome] }) := by
  simp [joinAll, h, hout]

theorem calls_joinTask (u : PooledUpstream) (outcome : Outcome) (g : RrfGroup) :
    (x.joinTask A u outcome g).calls = g.calls := rfl

theorem calls_joinAll (joins : List Join) (g : RrfGroup) :
    g.calls <+: (x.joinAll A joins g).calls := by
  induction joins generalizing g with
  | nil => exact List.prefix_rfl
  | cons j rest ih =>
    by_cases hlate : x.config.timeout < j.elapsed
    · rw [joinAll_late hlate]
      exact List.prefix_append _ _
    · cases hout : j.outcome with
      | none =>
        rw [joinAll_panicked hlate hout]
        exact ih g
      | some outcome =>
        rw [joinAll_returned hlate hout]
        refine List.IsPrefix.trans ?_ (ih _)
        rw [calls_joinTask]
        exact List.prefix_append _ _

theorem calls_fuseGroup_eq (request : QueryRequest) (group : List PooledUpstream)
    (l : CascadeLoop) : (x.fuseGroup A p env request group l).calls =
      (x.joinAll A (env.joins l.depth) (.start l.calls)).calls := by
  unfold fuseGroup
  simp only
  split
  · rfl
  · split
    · rfl
    · rfl

theorem calls_queryGroup (request : QueryRequest) (group : List PooledUpstream)
    (l : CascadeLoop) : l.calls <+: (x.queryGroup A p env request group l).calls := by
  refine calls_guarded ?_
  split
  · rw [calls_fuseGroup_eq]
    exact calls_joinAll _ (.start l.calls)
  · exact calls_askGroup group l

theorem calls_queryGroups (request : QueryRequest) (groups : List (List PooledUpstream))
    (l : CascadeLoop) : l.calls <+: (x.queryGroups A p env request groups l).calls := by
  induction groups generalizing l with
  | nil => exact List.prefix_rfl
  | cons group rest ih => exact (calls_queryGroup request group l).trans (calls_andThen ih)

theorem calls_cascade (request : QueryRequest) (l : CascadeLoop) :
    l.calls <+: (x.cascade A p env request l).calls := by
  unfold cascade
  split
  · exact List.prefix_rfl
  · have hcalls : l.calls <+: (x.queryGroups A p env request (x.groups p request) l).calls :=
      calls_queryGroups request (x.groups p request) l
    split
    case h_1 l' hl' =>
      rw [hl'] at hcalls
      exact hcalls
    case h_2 r hr =>
      rw [hr] at hcalls
      exact hcalls

/-! ## The cascade when nothing succeeds -/

/-- Depth and clock at the checks of a group that starts at a depth. A fused group has the one
at its boundary. -/
def groupChecks (x : CascadeExecutor) (env : Environment) (group : List PooledUpstream)
    (depth : Nat) : List (Nat × Duration) :=
  (depth, env.groupElapsed depth) ::
    if x.config.fuses group then []
    else (List.range' depth group.length).map fun d => (d, env.upstreamElapsed d)

def checks (x : CascadeExecutor) (env : Environment) :
    List (List PooledUpstream) → Nat → List (Nat × Duration)
  | [], _ => []
  | group :: rest, depth =>
    x.groupChecks env group depth ++ checks x env rest (depth + group.length)

/-- A fused group records the tasks that completed in time without a panic. -/
def groupRecords (x : CascadeExecutor) (env : Environment) (group : List PooledUpstream)
    (depth : Nat) : Bool :=
  if x.config.fuses group then
    ((env.joins depth).takeWhile fun j => j.elapsed ≤ x.config.timeout).any fun j =>
      j.outcome.isSome
  else !group.isEmpty

def records (x : CascadeExecutor) (env : Environment) :
    List (List PooledUpstream) → Nat → Bool
  | [], _ => false
  | group :: rest, depth =>
    x.groupRecords env group depth || records x env rest (depth + group.length)

def firstStop (x : CascadeExecutor) (checks : List (Nat × Duration)) :
    Option CascadeStopReason :=
  checks.findSome? fun c => x.stopAt c.1 c.2

def Errored (scores : List UpstreamScore) : Prop := ∀ s ∈ scores, s.error.isSome

/-- How a part of the loop ends if no call succeeds: where its first failing check says, or
behind its upstreams with the failures recorded. -/
def Ends (x : CascadeExecutor) (flow : CascadeFlow) (l : CascadeLoop)
    (checks : List (Nat × Duration)) (size : Nat) (recorded : Bool) : Prop :=
  match x.firstStop checks with
  | some reason => ∃ r, flow = .done r ∧ r.value.stopReason = reason
  | none => ∃ l', flow = .next l' ∧ l'.depth = l.depth + size ∧ Errored l'.scores ∧
      (l'.scores ≠ [] ↔ l.scores ≠ [] ∨ recorded = true)

theorem firstStop_append (first rest : List (Nat × Duration)) :
    x.firstStop (first ++ rest) = (x.firstStop first <|> x.firstStop rest) := by
  unfold firstStop
  rw [List.findSome?_append]
  cases first.findSome? fun c => x.stopAt c.1 c.2 <;> rfl

theorem firstStop_cons (c : Nat × Duration) (rest : List (Nat × Duration)) :
    x.firstStop (c :: rest) = (x.stopAt c.1 c.2 <|> x.firstStop rest) := by
  unfold firstStop
  rw [List.findSome?_cons]
  cases x.stopAt c.1 c.2 <;> rfl

/-- Two parts in sequence. -/
theorem Ends.andThen {f : CascadeFlow} {g : CascadeLoop → CascadeFlow} {l : CascadeLoop}
    {first rest : List (Nat × Duration)} {size later : Nat} {recorded recordedLater : Bool}
    (hf : x.Ends f l first size recorded)
    (hg : ∀ l', f = .next l' → l'.depth = l.depth + size → Errored l'.scores →
      x.Ends (g l') l' rest later recordedLater) :
    x.Ends (f.andThen g) l (first ++ rest) (size + later) (recorded || recordedLater) := by
  unfold Ends at hf ⊢
  rw [firstStop_append]
  cases hstop : x.firstStop first with
  | some reason =>
    rw [hstop] at hf
    obtain ⟨r, rfl, hr⟩ := hf
    exact ⟨r, rfl, hr⟩
  | none =>
    rw [hstop] at hf
    obtain ⟨l', rfl, hdepth, herr, hscores⟩ := hf
    have hlater := hg l' rfl hdepth herr
    unfold Ends at hlater
    cases hstop' : x.firstStop rest with
    | some reason =>
      rw [hstop'] at hlater
      exact hlater
    | none =>
      rw [hstop'] at hlater
      obtain ⟨l'', hl'', hdepth', herr', hscores'⟩ := hlater
      refine ⟨l'', hl'', ?_, herr', ?_⟩
      · omega
      · rw [hscores', hscores, Bool.or_eq_true]
        tauto

theorem Ends.guarded {go : CascadeFlow} {l : CascadeLoop} {elapsed : Duration}
    {rest : List (Nat × Duration)} {size : Nat} {recorded : Bool}
    (h : x.stopAt l.depth elapsed = none → x.Ends go l rest size recorded) :
    x.Ends (x.guarded env l elapsed go) l ((l.depth, elapsed) :: rest) size recorded := by
  unfold Ends CascadeExecutor.guarded
  rw [firstStop_cons]
  cases hstop : x.stopAt l.depth elapsed with
  | some reason => exact ⟨_, rfl, rfl⟩
  | none => exact h hstop

theorem ends_askUpstream {u : PooledUpstream} {l : CascadeLoop} (herr : Errored l.scores)
    (hfail : AllFailed (x.askUpstream A env u l).calls) :
    x.Ends (x.askUpstream A env u l) l [] 1 true := by
  have hcall : env.answer l.depth ∈ (x.askUpstream A env u l).calls :=
    (calls_askUpstream u l).subset (by simp)
  obtain ⟨e, he⟩ := hfail _ hcall
  refine ⟨⟨l.tried ++ [u.id], l.scores ++ [failedScore u e], l.best, l.depth + 1,
    l.calls ++ [env.answer l.depth]⟩, ?_, rfl, ?_, by simp⟩
  · unfold askUpstream
    rw [he]
  · intro s hs
    rcases List.mem_append.1 hs with hs | hs
    · exact herr s hs
    · rw [List.mem_singleton.1 hs]
      rfl

theorem ends_askGroup {group : List PooledUpstream} {l : CascadeLoop} (herr : Errored l.scores)
    (hfail : AllFailed (x.askGroup A env group l).calls) :
    x.Ends (x.askGroup A env group l) l
      ((List.range' l.depth group.length).map fun d => (d, env.upstreamElapsed d))
      group.length (!group.isEmpty) := by
  induction group generalizing l with
  | nil => exact ⟨l, rfl, rfl, herr, by simp⟩
  | cons u rest ih =>
    have hhead := hfail.of_prefix (calls_andThen (calls_askGroup rest))
    have hfirst : x.Ends (x.guarded env l (env.upstreamElapsed l.depth)
        (x.askUpstream A env u l)) l [(l.depth, env.upstreamElapsed l.depth)] 1 true := by
      refine Ends.guarded fun hstop => ends_askUpstream herr ?_
      rwa [CascadeExecutor.guarded, hstop] at hhead
    have hrest : ∀ l', x.guarded env l (env.upstreamElapsed l.depth)
        (x.askUpstream A env u l) = .next l' → l'.depth = l.depth + 1 → Errored l'.scores →
        x.Ends (x.askGroup A env rest l') l'
          ((List.range' (l.depth + 1) rest.length).map fun d => (d, env.upstreamElapsed d))
          rest.length (!rest.isEmpty) := by
      intro l' hl' hdepth herr'
      rw [← hdepth]
      refine ih herr' ?_
      rw [askGroup, hl'] at hfail
      exact hfail
    have hboth := hfirst.andThen hrest
    simpa [askGroup, List.range'_succ, Nat.add_comm] using hboth

theorem joinTask_error (u : PooledUpstream) (e : String) (g : RrfGroup) :
    (x.joinTask A u (.error e) g).lists = g.lists ∧
      ∃ score, (x.joinTask A u (.error e) g).scores = g.scores ++ [score] ∧
        score.error = some e :=
  ⟨rfl, _, rfl, rfl⟩

/-- Tasks that all failed leave nothing to fuse, and a record each while there is time. -/
theorem joinAll_of_failed (joins : List Join) {g : RrfGroup} (herr : Errored g.scores)
    (hfail : AllFailed (x.joinAll A joins g).calls) :
    (x.joinAll A joins g).lists = g.lists ∧ Errored (x.joinAll A joins g).scores ∧
      ((x.joinAll A joins g).scores ≠ [] ↔ g.scores ≠ [] ∨
        ((joins.takeWhile fun j => j.elapsed ≤ x.config.timeout).any fun j =>
          j.outcome.isSome) = true) := by
  induction joins generalizing g with
  | nil => exact ⟨rfl, herr, by simp [joinAll]⟩
  | cons j rest ih =>
    by_cases hlate : x.config.timeout < j.elapsed
    · rw [joinAll_late hlate]
      exact ⟨rfl, herr, by simp [Nat.not_le.2 hlate]⟩
    · rw [List.takeWhile_cons_of_pos (by simpa using Nat.not_lt.1 hlate), List.any_cons]
      cases hout : j.outcome with
      | none =>
        rw [joinAll_panicked hlate hout] at hfail ⊢
        simpa using ih herr hfail
      | some outcome =>
        rw [joinAll_returned hlate hout] at hfail ⊢
        have hcall : outcome ∈ g.calls ++ [outcome] := List.mem_append_right _ (by simp)
        obtain ⟨e, rfl⟩ := hfail outcome ((calls_joinAll rest _).subset hcall)
        obtain ⟨hlists, score, hscores, hscore⟩ :=
          joinTask_error (x := x) (A := A) j.upstream e
            { g with calls := g.calls ++ [.error e] }
        have herr' : Errored (g.scores ++ [score]) := by
          intro s hs
          rcases List.mem_append.1 hs with hs | hs
          · exact herr s hs
          · rw [List.mem_singleton.1 hs, hscore]
            rfl
        obtain ⟨h1, h2, h3⟩ := ih (hscores ▸ herr') hfail
        refine ⟨h1.trans hlists, h2, h3.trans ?_⟩
        rw [hscores]
        simp

theorem ends_queryGroup {request : QueryRequest} {group : List PooledUpstream} {l : CascadeLoop}
    (herr : Errored l.scores)
    (hfail : AllFailed (x.queryGroup A p env request group l).calls) :
    x.Ends (x.queryGroup A p env request group l) l (x.groupChecks env group l.depth)
      group.length (x.groupRecords env group l.depth) := by
  refine Ends.guarded fun hstop => ?_
  rw [queryGroup, CascadeExecutor.guarded, hstop] at hfail
  unfold groupRecords
  by_cases hfuses : x.config.fuses group = true
  · simp only [if_pos hfuses] at hfail ⊢
    rw [calls_fuseGroup_eq] at hfail
    have herr' : Errored (RrfGroup.start l.calls).scores := by
      intro s hs
      simp [RrfGroup.start] at hs
    obtain ⟨hlists, hscores, hrecords⟩ := joinAll_of_failed (env.joins l.depth) herr' hfail
    have hempty : (x.joinAll A (env.joins l.depth) (.start l.calls)).lists.isEmpty = true := by
      rw [hlists]
      rfl
    refine ⟨_, by rw [fuseGroup, if_pos hempty], rfl, ?_, ?_⟩
    · intro s hs
      rcases List.mem_append.1 hs with hs | hs
      · exact herr s hs
      · exact hscores s hs
    · simp only [RrfGroup.start, ne_eq, not_true_eq_false, false_or] at hrecords
      rw [← hrecords, ne_eq, List.append_eq_nil_iff, not_and_or]
      rfl
  · simp only [if_neg hfuses] at hfail ⊢
    exact ends_askGroup herr hfail

theorem ends_queryGroups {request : QueryRequest} {groups : List (List PooledUpstream)}
    {l : CascadeLoop} (herr : Errored l.scores)
    (hfail : AllFailed (x.queryGroups A p env request groups l).calls) :
    x.Ends (x.queryGroups A p env request groups l) l (x.checks env groups l.depth)
      (groups.map List.length).sum (x.records env groups l.depth) := by
  induction groups generalizing l with
  | nil => exact ⟨l, rfl, rfl, herr, by simp [records]⟩
  | cons group rest ih =>
    have hhead := hfail.of_prefix (calls_andThen (calls_queryGroups request rest))
    have hrest : ∀ l', x.queryGroup A p env request group l = .next l' →
        l'.depth = l.depth + group.length → Errored l'.scores →
        x.Ends (x.queryGroups A p env request rest l') l'
          (x.checks env rest (l.depth + group.length)) (rest.map List.length).sum
          (x.records env rest (l.depth + group.length)) := by
      intro l' hl' hdepth herr'
      rw [← hdepth]
      refine ih herr' ?_
      rw [queryGroups, hl'] at hfail
      exact hfail
    exact (ends_queryGroup herr hhead).andThen hrest

/-! ## Which checks decide -/

theorem pairwise_groupChecks (group : List PooledUpstream) (depth : Nat) :
    (x.groupChecks env group depth).Pairwise fun c d => c.1 ≤ d.1 := by
  unfold groupChecks
  split
  · exact List.pairwise_singleton _ _
  · rw [List.pairwise_cons]
    constructor
    · intro c hc
      obtain ⟨d, hd, rfl⟩ := List.mem_map.1 hc
      exact (List.mem_range'_1.1 hd).1
    · rw [List.pairwise_map]
      exact List.pairwise_le_range'

theorem depth_of_mem_groupChecks {group : List PooledUpstream} {depth : Nat}
    {c : Nat × Duration} (hc : c ∈ x.groupChecks env group depth) :
    depth ≤ c.1 ∧ c.1 ≤ depth + group.length := by
  unfold groupChecks at hc
  rcases List.mem_cons.1 hc with rfl | hc
  · exact ⟨Nat.le_refl _, Nat.le_add_right _ _⟩
  · split at hc
    · cases hc
    · obtain ⟨d, hd, rfl⟩ := List.mem_map.1 hc
      have hd' := List.mem_range'_1.1 hd
      simp only
      omega

theorem le_of_mem_checks {groups : List (List PooledUpstream)} {depth : Nat}
    {c : Nat × Duration} (hc : c ∈ x.checks env groups depth) : depth ≤ c.1 := by
  induction groups generalizing depth with
  | nil => cases hc
  | cons group rest ih =>
    rcases List.mem_append.1 hc with hc | hc
    · exact (depth_of_mem_groupChecks hc).1
    · exact (Nat.le_add_right _ _).trans (ih hc)

theorem pairwise_checks (groups : List (List PooledUpstream)) (depth : Nat) :
    (x.checks env groups depth).Pairwise fun c d => c.1 ≤ d.1 := by
  induction groups generalizing depth with
  | nil => exact List.Pairwise.nil
  | cons group rest ih =>
    refine List.pairwise_append.2 ⟨pairwise_groupChecks group depth, ih _, ?_⟩
    intro c hc d hd
    exact (depth_of_mem_groupChecks hc).2.trans (le_of_mem_checks hd)

theorem firstStop_eq_none_iff (checks : List (Nat × Duration)) :
    x.firstStop checks = none ↔
      ∀ c ∈ checks, c.1 < x.config.maxCascadeDepth ∧ c.2 ≤ x.config.timeout := by
  unfold firstStop
  rw [List.findSome?_eq_none_iff]
  refine forall₂_congr fun c _ => ?_
  unfold stopAt
  split
  case isTrue hdepth => simp [hdepth]
  case isFalse hdepth =>
    split
    case isTrue htime => simp [htime]
    case isFalse htime => exact iff_of_true rfl ⟨Nat.not_le.1 hdepth, Nat.not_lt.1 htime⟩

/-- The time is up at a check within the depth, which is then reached before the depth is. -/
theorem firstStop_eq_timeout_iff {checks : List (Nat × Duration)}
    (hsorted : checks.Pairwise fun c d => c.1 ≤ d.1) :
    x.firstStop checks = some .timeout ↔
      ∃ c ∈ checks, c.1 < x.config.maxCascadeDepth ∧ x.config.timeout < c.2 := by
  induction checks with
  | nil => simp [firstStop]
  | cons c rest ih =>
    rw [List.pairwise_cons] at hsorted
    rw [firstStop_cons, List.exists_mem_cons_iff]
    by_cases hdepth : x.config.maxCascadeDepth ≤ c.1
    · have hstop : x.stopAt c.1 c.2 = some .maxDepthReached := if_pos hdepth
      rw [hstop]
      constructor
      · intro h
        cases h
      · rintro (⟨hlt, -⟩ | ⟨d, hd, hlt, -⟩)
        · omega
        · have := hsorted.1 d hd
          omega
    · by_cases htime : x.config.timeout < c.2
      · have hstop : x.stopAt c.1 c.2 = some .timeout := by
          rw [stopAt, if_neg hdepth, if_pos htime]
        rw [hstop]
        exact ⟨fun _ => .inl ⟨Nat.not_le.1 hdepth, htime⟩, fun _ => rfl⟩
      · have hstop : x.stopAt c.1 c.2 = none := by
          rw [stopAt, if_neg hdepth, if_neg htime]
        rw [hstop]
        simp only [htime, and_false, false_or]
        exact ih hsorted.2

theorem order_eq_nil_iff (request : QueryRequest) :
    x.cascadeOrderWithPreference p.tables request.upstreamType = [] ↔ x.pool.upstreams = [] := by
  have hcandidates : x.pool.candidates = [] ↔ x.pool.upstreams = [] := by
    unfold UpstreamPool.candidates UpstreamPool.available
    split
    · rfl
    · rename_i h
      rw [List.isEmpty_iff] at h
      refine ⟨fun hnil => absurd hnil h, fun hnil => absurd ?_ h⟩
      rw [hnil]
      rfl
  have hnil {l : List PooledUpstream} (r : PooledUpstream → PooledUpstream → Prop)
      [DecidableRel r] : l.insertionSort r = [] ↔ l = [] := by
    rw [← List.length_eq_zero_iff, List.length_insertionSort, List.length_eq_zero_iff]
  unfold cascadeOrderWithPreference cascadeOrder UpstreamPool.byPriority
    LoadBalanceStrategy.upstreamsByPriority
  cases request.upstreamType with
  | none => simp only [hnil, hcandidates]
  | some pref => simp only [hnil, hcandidates]

/-- The cascade's failure is reported: it has no upstreams, its time is up at a check within
the depth, or it gets behind its last group and has recorded a failure. -/
def Reports (x : CascadeExecutor) (p : Platform) (env : Environment) (request : QueryRequest) :
    Prop :=
  x.config.enabled = true ∧
    (x.pool.upstreams = [] ∨
      (∃ c ∈ x.checks env (x.groups p request) 0,
        c.1 < x.config.maxCascadeDepth ∧ x.config.timeout < c.2) ∨
      (∀ c ∈ x.checks env (x.groups p request) 0, c.1 < x.config.maxCascadeDepth) ∧
        x.records env (x.groups p request) 0 = true)

theorem upstreamFailure_iff (r : CascadeResult) :
    r.upstreamFailure = true ↔ r.stopReason = .timeout ∨ r.stopReason = .noUpstreams ∨
      r.stopReason = .allExhausted ∧ r.upstreamScores ≠ [] ∧ Errored r.upstreamScores := by
  simp [CascadeResult.upstreamFailure, CascadeResult.allErrored, Errored, or_assoc]

theorem firstStop_some {checks : List (Nat × Duration)} {reason : CascadeStopReason}
    (h : x.firstStop checks = some reason) :
    reason = .timeout ∨
      reason = .maxDepthReached ∧ ∃ c ∈ checks, x.config.maxCascadeDepth ≤ c.1 := by
  obtain ⟨c, hc, hstop⟩ := List.exists_of_findSome?_eq_some h
  unfold stopAt at hstop
  split at hstop
  case isTrue hdepth => exact .inr ⟨(Option.some.inj hstop).symm, c, hc, hdepth⟩
  case isFalse =>
    split at hstop
    · exact .inl (Option.some.inj hstop).symm
    · cases hstop

theorem cascade_reports_iff {request : QueryRequest} {calls : List Outcome}
    (hfail : AllFailed (x.cascade A p env request (.start calls)).calls) :
    (x.cascade A p env request (.start calls)).value.upstreamFailure = true ↔
      x.pool.upstreams = [] ∨
      (∃ c ∈ x.checks env (x.groups p request) 0,
        c.1 < x.config.maxCascadeDepth ∧ x.config.timeout < c.2) ∨
      (∀ c ∈ x.checks env (x.groups p request) 0, c.1 < x.config.maxCascadeDepth) ∧
        x.records env (x.groups p request) 0 = true := by
  rw [upstreamFailure_iff]
  by_cases hempty : x.pool.upstreams = []
  · have horder := List.isEmpty_iff.2 ((order_eq_nil_iff (p := p) request).2 hempty)
    simp only [cascade, horder, if_true]
    exact iff_of_true (.inr (.inl rfl)) (.inl hempty)
  have horder : ¬ (x.cascadeOrderWithPreference p.tables request.upstreamType).isEmpty = true :=
    fun h => hempty ((order_eq_nil_iff request).1 (List.isEmpty_iff.1 h))
  simp only [cascade, if_neg horder] at hfail ⊢
  have herr : Errored (CascadeLoop.start calls).scores := by
    intro s hs
    simp [CascadeLoop.start] at hs
  have hfail' : AllFailed
      (x.queryGroups A p env request (x.groups p request) (.start calls)).calls := by
    cases hflow : x.queryGroups A p env request (x.groups p request) (.start calls) with
    | next l =>
      rw [hflow] at hfail
      exact hfail
    | done r =>
      rw [hflow] at hfail
      exact hfail
  have hends : x.Ends _ _ (x.checks env (x.groups p request) 0) _
      (x.records env (x.groups p request) 0) := ends_queryGroups herr hfail'
  unfold Ends at hends
  have hsorted : (x.checks env (x.groups p request) 0).Pairwise fun c d => c.1 ≤ d.1 :=
    pairwise_checks (x.groups p request) 0
  simp only [hempty, false_or, ← firstStop_eq_timeout_iff hsorted]
  cases hstop : x.firstStop (x.checks env (x.groups p request) 0) with
  | some reason =>
    rw [hstop] at hends
    obtain ⟨r, hr, hreason⟩ := hends
    rw [hr]
    rcases firstStop_some hstop with rfl | ⟨rfl, c, hc, hdepth⟩
    · simp [hreason]
    · have hdeep : ¬ ∀ c ∈ x.checks env (x.groups p request) 0,
          c.1 < x.config.maxCascadeDepth := fun h => Nat.not_le.2 (h c hc) hdepth
      simp only [hreason, hdeep, reduceCtorEq, Option.some.injEq, false_and, or_self]
  | none =>
    rw [hstop] at hends
    obtain ⟨l', hl', -, herr', hscores⟩ := hends
    have hshallow : ∀ c ∈ x.checks env (x.groups p request) 0,
        c.1 < x.config.maxCascadeDepth := fun c hc => ((firstStop_eq_none_iff _).1 hstop c hc).1
    have hrecords : l'.scores ≠ [] ↔ x.records env (x.groups p request) 0 = true := by
      rw [hscores]
      simp [CascadeLoop.start]
    rw [hl']
    simp only [reduceCtorEq, false_or]
    constructor
    · rintro (h | h | h)
      · cases h
      · cases h
      · exact ⟨hshallow, hrecords.1 h.2.1⟩
    · intro h
      exact .inr (.inr ⟨rfl, hrecords.2 h.2, herr'⟩)

/-- A query whose calls all failed. -/
theorem query_reports_iff {request : QueryRequest}
    (hfail : AllFailed (x.query A p env request).calls) :
    (x.query A p env request).value.upstreamFailure = true ↔ x.Reports p env request := by
  unfold Reports
  unfold query at hfail ⊢
  cases henabled : x.config.enabled with
  | false => simp [upstreamFailure_iff, emptyResult]
  | true =>
    simp only [henabled, Bool.not_true, Bool.false_eq_true, if_false, true_and] at hfail ⊢
    cases htarget : request.upstreamId.bind x.pool.get with
    | none =>
      rw [htarget] at hfail
      exact cascade_reports_iff hfail
    | some target =>
      rw [htarget] at hfail
      cases hcall : env.targeted with
      | error e =>
        simp only [hcall] at hfail ⊢
        exact cascade_reports_iff hfail
      | ok response =>
        simp only [hcall] at hfail ⊢
        have hok : (.ok response : Outcome) ∈ [.ok response] := List.mem_singleton.2 rfl
        split at hfail
        · exact absurd ((calls_cascade request (.start [.ok response])).subset hok) hfail.not_ok
        · exact absurd hok hfail.not_ok

end CascadeExecutor

/-! ## The pool and the single upstream -/

theorem tryRemaining_error {env : Environment} {upstreams : List PooledUpstream} {index : Nat}
    (hfail : AllFailed (UpstreamPool.tryRemaining env upstreams index).calls) :
    ∃ e, (UpstreamPool.tryRemaining env upstreams index).value = .error e := by
  induction upstreams generalizing index with
  | nil => exact ⟨_, rfl⟩
  | cons u rest ih =>
    unfold UpstreamPool.tryRemaining at hfail ⊢
    cases hcall : env.remaining index with
    | ok response =>
      rw [hcall] at hfail
      exact absurd (List.mem_singleton.2 rfl) hfail.not_ok
    | error e =>
      rw [hcall] at hfail
      exact ih fun call hmem => hfail call (List.mem_cons_of_mem _ hmem)

theorem tryPrimary_error {pool : UpstreamPool} {env : Environment}
    (hfail : AllFailed (pool.tryPrimary env).calls) :
    ∃ e, (pool.tryPrimary env).value = .error e := by
  unfold UpstreamPool.tryPrimary at hfail ⊢
  cases hselect : pool.selectFromAvailable pool.candidates with
  | none =>
    rw [hselect] at hfail
    exact tryRemaining_error hfail
  | some primary =>
    rw [hselect] at hfail
    cases hcall : env.primary with
    | ok response =>
      simp only [hcall] at hfail
      exact absurd (List.mem_singleton.2 rfl) hfail.not_ok
    | error e =>
      simp only [hcall] at hfail ⊢
      split at hfail
      case isTrue hone =>
        rw [if_pos hone]
        exact ⟨e, rfl⟩
      case isFalse hmany =>
        rw [if_neg hmany]
        exact tryRemaining_error fun call hmem => hfail call (List.mem_cons_of_mem _ hmem)

theorem pool_query_error {pool : UpstreamPool} {request : QueryRequest} {env : Environment}
    (hfail : AllFailed (pool.query request env).calls) :
    ∃ e, (pool.query request env).value = .error e := by
  unfold UpstreamPool.query at hfail ⊢
  split at hfail
  case isTrue hempty =>
    rw [if_pos hempty]
    exact ⟨_, rfl⟩
  case isFalse hsome =>
    rw [if_neg hsome]
    cases htarget : request.upstreamId.bind pool.get with
    | none =>
      rw [htarget] at hfail
      exact tryPrimary_error hfail
    | some target =>
      rw [htarget] at hfail
      cases hcall : env.targeted with
      | ok response =>
        simp only [hcall] at hfail
        exact absurd (List.mem_singleton.2 rfl) hfail.not_ok
      | error e => exact ⟨e, rfl⟩

theorem toOutcome_error_iff (r : CascadeResult) :
    (∃ e, r.toOutcome = .error e) ↔ r.upstreamFailure = true := by
  unfold CascadeResult.toOutcome
  split
  case isTrue h => exact iff_of_true ⟨_, rfl⟩ h
  case isFalse h => exact iff_of_false (by rintro ⟨e, he⟩; cases he) h

/-- A request of which no upstream call succeeded is refused unless a cascade stops in a way
that `Reports` leaves out: it is disabled, the depth ends before its upstreams do, or nothing
is on record when they are exhausted. -/
theorem failure_reported_iff (A : F32Arith) (p : Platform) (cascade : Option CascadeExecutor)
    (pool : Option UpstreamPool) (upstream : Bool) (request : QueryRequest) (env : Environment)
    (hfail : AllFailed (dispatchUpstreamQuery A p cascade pool upstream request env).calls) :
    (∃ e, (dispatchUpstreamQuery A p cascade pool upstream request env).value = .error e) ↔
      env.permit = false ∨ ∀ x ∈ cascade, x.Reports p env request := by
  unfold dispatchUpstreamQuery at hfail ⊢
  cases hpermit : env.permit with
  | false => exact iff_of_true ⟨_, rfl⟩ (.inl rfl)
  | true =>
    simp only [hpermit, Bool.not_true, Bool.false_eq_true, if_false, reduceCtorEq,
      false_or] at hfail ⊢
    cases cascade with
    | some x =>
      rw [toOutcome_error_iff, CascadeExecutor.query_reports_iff hfail]
      simp
    | none =>
      refine iff_of_true ?_ (by simp)
      cases pool with
      | some pool => exact pool_query_error hfail
      | none =>
        cases upstream with
        | false => exact ⟨_, rfl⟩
        | true =>
          obtain ⟨e, he⟩ := hfail env.single (List.mem_singleton.2 rfl)
          exact ⟨e, by simp [he, Except.map]⟩

def plainUpstream (id : String) (priority : Nat) : PooledUpstream where
  id := id
  weight := 1
  priority := priority
  enabled := true
  status := .online
  upstreamType := .unknown

/-- A cascade over upstreams of rising priority, with the default settings. -/
def cascadeOver (ids : List String) : CascadeExecutor where
  pool := ⟨ids.zipIdx.map fun u => plainUpstream u.1 u.2, .roundRobin, 0⟩
  config := CascadeConfig.default

def Environment.failing : Environment where
  permit := true
  targeted := .error "down"
  answer _ := .error "down"
  joins _ := []
  groupElapsed _ := 0
  upstreamElapsed _ := 0
  finishMs := 0
  fuseOrder := ⟨id, fun _ => .refl _⟩
  primary := .error "down"
  remaining _ := .error "down"
  single := .error "down"

/-- Three failing upstreams are within the default depth, and the request is refused. -/
theorem three_failures_reported :
    AllFailed (dispatchUpstreamQuery F32Arith.exact Platform.sample
      (some (cascadeOver ["a", "b", "c"])) none false (textRequest "q") .failing).calls ∧
    ∃ e, (dispatchUpstreamQuery F32Arith.exact Platform.sample
      (some (cascadeOver ["a", "b", "c"])) none false (textRequest "q") .failing).value =
        .error e := by
  have hfail : AllFailed (dispatchUpstreamQuery F32Arith.exact Platform.sample
      (some (cascadeOver ["a", "b", "c"])) none false (textRequest "q") .failing).calls := by
    change AllFailed [.error "down", .error "down", .error "down"]
    intro call hcall
    exact ⟨"down", by simpa using hcall⟩
  refine ⟨hfail, (failure_reported_iff _ _ _ _ _ _ _ hfail).2 (.inr ?_)⟩
  intro x hx
  obtain rfl : cascadeOver ["a", "b", "c"] = x := by simpa using hx
  exact ⟨rfl, .inr (.inr ⟨by decide, by decide⟩)⟩

/-- Four failing upstreams are not: the cascade stops at its depth, and the request gets an
empty answer. -/
theorem fourth_failure_hidden :
    ¬ ∀ (A : F32Arith) (p : Platform) (cascade : Option CascadeExecutor)
      (pool : Option UpstreamPool) (upstream : Bool) (request : QueryRequest)
      (env : Environment),
      AllFailed (dispatchUpstreamQuery A p cascade pool upstream request env).calls →
        ∃ e, (dispatchUpstreamQuery A p cascade pool upstream request env).value =
          .error e := by
  intro h
  obtain ⟨e, he⟩ := h F32Arith.exact Platform.sample
    (some (cascadeOver ["a", "b", "c", "d"])) none false (textRequest "q") .failing (by
      change AllFailed [.error "down", .error "down", .error "down"]
      intro call hcall
      exact ⟨"down", by simpa using hcall⟩)
  have hok : (dispatchUpstreamQuery F32Arith.exact Platform.sample
      (some (cascadeOver ["a", "b", "c", "d"])) none false (textRequest "q") .failing).value =
        .ok ⟨[], .miss, 0, none, none⟩ := rfl
  rw [hok] at he
  cases he

end Conproxy
