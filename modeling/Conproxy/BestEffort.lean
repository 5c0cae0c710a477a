import Mathlib.Data.List.MinMax
import Conproxy.Effort

/-!
# The answer of a cascade that does not meet its threshold

`CascadeExecutor::query` keeps the best answer so far, and replaces it only by one with a greater
normalized score. Without results an answer counts as zero, so one that comes first stays in place
of later results that are normalized to zero.
-/

namespace Conproxy

set_option autoImplicit false

namespace F32

theorem lt_irrefl (a : F32) : ¬ lt a a := by
  rcases a with q | neg | _
  · simp [lt]
  · cases neg <;> decide
  · decide

theorem lt_trans {a b c : F32} (hab : lt a b) (hbc : lt b c) : lt a c := by
  rcases a with q | neg | _ <;> rcases b with r | neg' | _ <;> rcases c with s | neg'' | _ <;>
    simp_all [lt]
  exact hab.trans hbc

/-- Numbers are ordered by `<`; a `NaN` is comparable with itself only. -/
instance : Preorder F32 where
  lt a b := lt a b
  le a b := lt a b ∨ a = b
  le_refl _ := .inr rfl
  le_trans a b c hab hbc := by
    rcases hab with hab | rfl
    · rcases hbc with hbc | rfl
      · exact .inl (lt_trans hab hbc)
      · exact .inl hab
    · exact hbc
  lt_iff_le_not_ge a b := by
    constructor
    · refine fun h => ⟨.inl h, ?_⟩
      rintro (hback | rfl)
      · exact lt_irrefl _ (lt_trans h hback)
      · exact lt_irrefl _ h
    · rintro ⟨hlt | rfl, hback⟩
      · exact hlt
      · exact absurd (.inr rfl) hback

instance : DecidableLT F32 := fun a b => inferInstanceAs (Decidable (lt a b = true))

theorem ge_iff {a b : F32} : ge a b = true ↔ b ≤ a ∧ b ≠ nan := by
  have hle : b ≤ a ↔ lt b a = true ∨ b = a := Iff.rfl
  have hnan : lt b a = true → b ≠ nan := by
    rintro h rfl
    cases a <;> cases h
  rw [ge, Bool.or_eq_true, Bool.and_eq_true, beq_iff_eq, bne_iff_ne, hle, or_and_right,
    and_iff_left_of_imp hnan]
  refine or_congr_right ⟨?_, ?_⟩
  · rintro ⟨rfl, hne⟩
    exact ⟨rfl, hne⟩
  · rintro ⟨rfl, hne⟩
    exact ⟨rfl, hne⟩

/-- Two numbers compare unless one of them is a `NaN`. -/
theorem le_of_not_lt {a b : F32} (ha : a ≠ nan) (hb : b ≠ nan) (h : ¬ a < b) : b ≤ a := by
  have h : ¬ lt a b = true := h
  change lt b a = true ∨ b = a
  rcases a with q | negative | _
  · rcases b with r | negative' | _
    · simp only [lt, decide_eq_true_eq, not_lt] at h
      simp only [lt, decide_eq_true_eq, finite.injEq]
      exact h.lt_or_eq
    · cases negative' <;> simp_all [lt]
    · exact absurd rfl hb
  · rcases b with r | negative' | _
    · cases negative <;> simp_all [lt]
    · cases negative <;> cases negative' <;> simp_all [lt]
    · exact absurd rfl hb
  · exact absurd rfl ha

theorem ne_nan_of_le {a b : F32} (h : a ≤ b) (ha : a ≠ nan) : b ≠ nan := by
  rintro rfl
  rcases h with h | rfl
  · cases a <;> cases h
  · exact ha rfl

theorem not_clampUnit_lt_zero (a : F32) : ¬ a.clampUnit < zero := by
  unfold clampUnit
  split
  · exact lt_irrefl zero
  · split
    · decide
    · assumption

theorem pos_of_lt {a b : F32} (ha : ¬ a < zero) (hab : a < b) : zero < b := by
  change ¬ lt a (.finite 0) = true at ha
  change lt a b = true at hab
  change lt (.finite 0) b = true
  rcases a with q | neg | _ <;> rcases b with r | neg' | _ <;> simp_all [lt]
  exact ha.trans_lt hab

end F32

/-- Zero is a zero of the arithmetic on the integers that have an exact representation. -/
structure F32Arith.KeepsZero (A : F32Arith) : Prop where
  sub_zero : ∀ n : Nat, n ≤ 2 ^ 24 → A.sub (.finite n) F32.zero = .finite n
  zero_div : ∀ n : Nat, n ≠ 0 → n ≤ 2 ^ 24 → A.div F32.zero (.finite n) = F32.zero

theorem F32Arith.keepsZero_exact : F32Arith.exact.KeepsZero where
  sub_zero n _ := congrArg F32.finite (sub_zero (n : ℚ))
  zero_div n _ _ := congrArg F32.finite (Rat.zero_mul (n : ℚ)⁻¹)

/-- What the cascade may return: the results of an upstream, or those of a fused group under the id
of the task that completed first. The lists are what the upstreams returned. -/
structure CascadeAnswer where
  upstreamId : String
  results : List SearchResult
  normalized : F32
  returned : List (List SearchResult)

namespace CascadeExecutor

section Heard

variable (A : F32Arith) (p : Platform) (x : CascadeExecutor) (env : Environment)

def upstreamAnswer (u : PooledUpstream) (l : CascadeLoop) : List CascadeAnswer :=
  match env.answer l.depth with
  | .ok response =>
    let results := tagResults u.id response.results
    [⟨u.id, results, (scoreOf A x.config u results).normalizedScore, [results]⟩]
  | .error _ => []

/-- A group without results is none. -/
def fusedAnswer (request : QueryRequest) (l : CascadeLoop) : List CascadeAnswer :=
  let g := x.joinAll A (env.joins l.depth) (.start l.calls)
  if g.lists.isEmpty then []
  else
    let maxResults := max (request.topK.getD 10) 1
    [⟨g.upstreamIds.headD "", fuseRrf A p env.fuseOrder g.lists x.config.rrfK maxResults,
      g.bestNormalized, g.lists⟩]

def heardOneByOne : List PooledUpstream → CascadeLoop → List CascadeAnswer
  | [], _ => []
  | u :: rest, l =>
    x.past l.depth (env.upstreamElapsed l.depth)
      (x.upstreamAnswer A env u l ++ (x.askUpstream A env u l).after (heardOneByOne rest))

def heardInGroup (request : QueryRequest) (group : List PooledUpstream) (l : CascadeLoop) :
    List CascadeAnswer :=
  if x.config.fuses group then x.fusedAnswer A p env request l else x.heardOneByOne A env group l

def heardInGroups (request : QueryRequest) (groups : List (List PooledUpstream))
    (l : CascadeLoop) : List CascadeAnswer :=
  (x.started A p env request groups l).flatMap fun s => x.heardInGroup A p env request s.1 s.2

/-- The answers that the loop of a cascade gets, in order. -/
def heard (request : QueryRequest) : List CascadeAnswer :=
  match x.begins env request with
  | some l => x.heardInGroups A p env request (x.groups p request) l
  | none => []

/-- The lists of results that the targeted upstream and the cascade's upstreams returned. -/
def returned (request : QueryRequest) : List (List SearchResult) :=
  ((x.targetAsked request).flatMap fun target =>
    match env.targeted with
    | .ok response => [tagResults target.id response.results]
    | .error _ => []) ++
  (x.heard A p env request).flatMap CascadeAnswer.returned

/-- The results are those of an answer that no other one exceeds, and there are some if an upstream
returned any. -/
structure BestEffort (request : QueryRequest) : Prop where
  best : x.heard A p env request ≠ [] → ∃ a ∈ x.heard A p env request,
    (∀ b ∈ x.heard A p env request, ¬ a.normalized < b.normalized) ∧
      (x.query A p env request).value.results = a.results ∧
        (x.query A p env request).value.finalUpstream = some a.upstreamId
  silent : x.heard A p env request = [] → (x.query A p env request).value.results = []
  nonempty : (∃ results ∈ x.returned A p env request, results ≠ []) →
    (x.query A p env request).value.results ≠ []

end Heard

variable {A : F32Arith} {p : Platform} {x : CascadeExecutor} {env : Environment}

/-- The first of the answers with a maximal score. -/
def bestOf (heard : List CascadeAnswer) : Option CascadeAnswer :=
  heard.argmax CascadeAnswer.normalized

def Keeps (l : CascadeLoop) (heard : List CascadeAnswer) : Prop :=
  l.best = (bestOf heard).map fun a => (a.upstreamId, a.results, a.normalized)

structure ReportsBest (r : CascadeResult) (heard : List CascadeAnswer) : Prop where
  results : r.results = ((bestOf heard).map CascadeAnswer.results).getD []
  final : r.finalUpstream = (bestOf heard).map CascadeAnswer.upstreamId

/-- A part of the loop keeps the best answer, and reports it unless the threshold is met. -/
structure Hears (f : CascadeFlow) (heard : List CascadeAnswer) : Prop where
  next : ∀ l, f = .next l → Keeps l heard
  done : ∀ r, f = .done r → r.value.stopReason ≠ .thresholdMet → ReportsBest r.value heard

theorem keeps_keepBest {l : CascadeLoop} {heard : List CascadeAnswer} (h : Keeps l heard)
    (a : CascadeAnswer) :
    Keeps (l.keepBest a.upstreamId a.results a.normalized) (heard ++ [a]) := by
  unfold Keeps bestOf at h ⊢
  unfold CascadeLoop.keepBest
  rw [List.argmax_concat]
  cases hbest : heard.argmax CascadeAnswer.normalized with
  | none =>
    rw [hbest] at h
    rw [h]
    rfl
  | some b =>
    rw [hbest] at h
    rw [h]
    by_cases hlt : b.normalized < a.normalized
    · have hcode : F32.lt b.normalized a.normalized = true := hlt
      simp [hlt, hcode]
    · have hcode : ¬ F32.lt b.normalized a.normalized = true := hlt
      simp [hlt, hcode, h]

theorem Keeps.reports_stop {l : CascadeLoop} {heard : List CascadeAnswer} (h : Keeps l heard)
    (reason : CascadeStopReason) (depth : Nat) :
    ReportsBest (l.stop env reason depth).value heard := by
  unfold Keeps at h
  refine ⟨?_, ?_⟩
  · rw [CascadeLoop.stop, h, Option.map_map]
    rfl
  · change l.best.map Prod.fst = _
    rw [h, Option.map_map]
    rfl

namespace Hears

variable {f : CascadeFlow} {g : CascadeLoop → CascadeFlow} {l : CascadeLoop}
  {heard gained : List CascadeAnswer} {later : CascadeLoop → List CascadeAnswer}

theorem go (h : Keeps l heard) : Hears (.next l) heard := by
  refine ⟨fun l' hl' => ?_, nofun⟩
  cases hl'
  exact h

theorem stop (h : Keeps l heard) (reason : CascadeStopReason) (depth : Nat) :
    Hears (.done (l.stop env reason depth)) heard := by
  refine ⟨nofun, fun r hr _ => ?_⟩
  cases hr
  exact h.reports_stop reason depth

theorem met {r : Traced CascadeResult} (h : r.value.stopReason = .thresholdMet) :
    Hears (.done r) heard := by
  refine ⟨nofun, fun r' hr' hmet => ?_⟩
  cases hr'
  exact absurd h hmet

theorem andThen (hf : Hears f (heard ++ gained))
    (hg : ∀ l', Keeps l' (heard ++ gained) → Hears (g l') (heard ++ gained ++ later l')) :
    Hears (f.andThen g) (heard ++ (gained ++ f.after later)) := by
  cases f with
  | done r =>
    rw [CascadeFlow.after, List.append_nil]
    exact hf
  | next l' =>
    rw [CascadeFlow.after, ← List.append_assoc]
    exact hg l' (hf.next l' rfl)

end Hears

theorem hears_askUpstream (u : PooledUpstream) {l : CascadeLoop} {heard : List CascadeAnswer}
    (h : Keeps l heard) :
    Hears (x.askUpstream A env u l) (heard ++ x.upstreamAnswer A env u l) := by
  unfold askUpstream upstreamAnswer
  cases env.answer l.depth with
  | error e =>
    rw [List.append_nil]
    exact .go h
  | ok response =>
    dsimp only
    split
    · exact .met rfl
    · exact .go (keeps_keepBest h ⟨_, _, _, _⟩)

theorem hears_askGroup (group : List PooledUpstream) {l : CascadeLoop} {heard : List CascadeAnswer}
    (h : Keeps l heard) :
    Hears (x.askGroup A env group l) (heard ++ x.heardOneByOne A env group l) := by
  induction group generalizing l heard with
  | nil =>
    rw [heardOneByOne, List.append_nil]
    exact .go h
  | cons u rest ih =>
    unfold askGroup heardOneByOne
    cases hstop : x.stopAt l.depth (env.upstreamElapsed l.depth) with
    | some reason =>
      rw [guarded_some hstop, past_some hstop, List.append_nil]
      exact .stop h reason l.depth
    | none =>
      rw [guarded_none hstop, past_none hstop]
      exact (hears_askUpstream u h).andThen fun l' hl' => ih hl'

theorem hears_fuseGroup (request : QueryRequest) (group : List PooledUpstream) {l : CascadeLoop}
    {heard : List CascadeAnswer} (h : Keeps l heard) :
    Hears (x.fuseGroup A p env request group l) (heard ++ x.fusedAnswer A p env request l) := by
  unfold fuseGroup fusedAnswer
  dsimp only
  split
  · rw [List.append_nil]
    exact .go h
  · split
    · exact .met rfl
    · exact .go (keeps_keepBest h ⟨_, _, _, _⟩)

theorem hears_queryGroup (request : QueryRequest) (group : List PooledUpstream) {l : CascadeLoop}
    {heard : List CascadeAnswer} (hstop : x.stopAt l.depth (env.groupElapsed l.depth) = none)
    (h : Keeps l heard) :
    Hears (x.queryGroup A p env request group l)
      (heard ++ x.heardInGroup A p env request group l) := by
  rw [queryGroup, guarded_none hstop, heardInGroup]
  split
  · exact hears_fuseGroup request group h
  · exact hears_askGroup group h

theorem hears_queryGroups (request : QueryRequest) (groups : List (List PooledUpstream))
    {l : CascadeLoop} {heard : List CascadeAnswer} (h : Keeps l heard) :
    Hears (x.queryGroups A p env request groups l)
      (heard ++ x.heardInGroups A p env request groups l) := by
  induction groups generalizing l heard with
  | nil =>
    rw [heardInGroups, started, List.flatMap_nil, List.append_nil]
    exact .go h
  | cons group rest ih =>
    cases hstop : x.stopAt l.depth (env.groupElapsed l.depth) with
    | some reason =>
      rw [queryGroups, queryGroup, guarded_some hstop, heardInGroups, started, past_some hstop,
        List.flatMap_nil, List.append_nil]
      exact .stop h reason l.depth
    | none =>
      have hcut : x.heardInGroups A p env request (group :: rest) l =
          x.heardInGroup A p env request group l ++
            (x.queryGroup A p env request group l).after
              (x.heardInGroups A p env request rest) := by
        unfold heardInGroups
        rw [started, past_none hstop, List.flatMap_cons]
        cases x.queryGroup A p env request group l <;> rfl
      rw [hcut]
      exact (hears_queryGroup request group hstop h).andThen fun l' hl' => ih hl'

theorem query_reportsBest (request : QueryRequest)
    (hstop : (x.query A p env request).value.stopReason ≠ .thresholdMet) :
    ReportsBest (x.query A p env request).value (x.heard A p env request) := by
  unfold heard
  cases hbegins : x.begins env request with
  | some l =>
    rw [query_of_begins hbegins] at hstop ⊢
    obtain ⟨calls, rfl⟩ : ∃ calls, l = .start calls := by
      rcases begins_cases A p x env request with ⟨-, h⟩ | ⟨-, -, h⟩ | ⟨-, target, -, h⟩
      · rw [hbegins] at h
        cases h
      · rw [hbegins] at h
        exact ⟨_, Option.some.inj h⟩
      · rcases h with ⟨h, -⟩ | ⟨calls, h⟩
        · rw [hbegins] at h
          cases h
        · rw [hbegins] at h
          exact ⟨_, Option.some.inj h⟩
    have hhears : Hears (x.queryGroups A p env request (x.groups p request) (.start calls))
        ([] ++ x.heardInGroups A p env request (x.groups p request) (.start calls)) :=
      hears_queryGroups request _ rfl
    unfold cascade at hstop ⊢
    split
    · rename_i hempty
      have hgroups : x.groups p request = [] := by
        unfold groups
        rw [List.isEmpty_iff.1 hempty]
        rfl
      rw [hgroups]
      exact ⟨rfl, rfl⟩
    · rename_i hupstreams
      rw [if_neg hupstreams] at hstop
      cases hflow : x.queryGroups A p env request (x.groups p request) (.start calls) with
      | next l' => exact (hhears.next l' hflow).reports_stop _ _
      | done r =>
        rw [hflow] at hstop
        exact hhears.done r hflow hstop
  | none =>
    unfold begins at hbegins
    unfold query at hstop ⊢
    cases henabled : x.config.enabled with
    | false => exact ⟨rfl, rfl⟩
    | true =>
      simp only [henabled, Bool.not_true, Bool.false_eq_true, if_false] at hbegins hstop
      cases htarget : request.upstreamId.bind x.pool.get with
      | none =>
        rw [htarget] at hbegins
        cases hbegins
      | some target =>
        simp only [htarget] at hbegins hstop
        cases hcall : env.targeted with
        | error e =>
          rw [hcall] at hbegins
          cases hbegins
        | ok response =>
          simp only [hcall] at hbegins hstop
          split at hbegins
          · cases hbegins
          · rename_i hresults
            rw [if_neg hresults] at hstop
            exact absurd rfl hstop

/-! ## Answers without results -/

/-- An answer without results has a score of zero. -/
structure Sound (a : CascadeAnswer) : Prop where
  nonneg : ¬ a.normalized < F32.zero
  empty : a.results = [] → a.normalized = F32.zero

theorem normalizeScore_nonneg (score : F32) (upstreamType : UpstreamType) :
    ¬ normalizeScore A score upstreamType < F32.zero := by
  unfold normalizeScore
  dsimp only
  split
  · exact F32.not_clampUnit_lt_zero _
  · exact F32.not_clampUnit_lt_zero _

theorem normalizeScore_zero (hA : A.KeepsZero) (upstreamType : UpstreamType) :
    normalizeScore A F32.zero upstreamType = F32.zero := by
  have hzero : A.sub F32.zero F32.zero = F32.zero := hA.sub_zero 0 (by decide)
  have hrange (top : Nat) (htop : top ≠ 0) (hexact : top ≤ 2 ^ 24) :
      (A.div (A.sub F32.zero F32.zero) (A.sub (.finite top) F32.zero)).clampUnit = F32.zero := by
    rw [hzero, hA.sub_zero top hexact, hA.zero_div top htop hexact]
    rfl
  have hunit := hrange 1 (by decide) (by decide)
  cases upstreamType with
  | fullTextSearch => exact hrange 100 (by decide) (by decide)
  | vectorDatabase => exact hunit
  | hybrid => exact hunit
  | unknown => exact hunit

theorem sound_upstreamAnswer (hA : A.KeepsZero) (u : PooledUpstream) (l : CascadeLoop) :
    ∀ a ∈ x.upstreamAnswer A env u l, Sound a := by
  unfold upstreamAnswer
  cases env.answer l.depth with
  | error e => nofun
  | ok response =>
    intro a ha
    rw [List.mem_singleton] at ha
    subst ha
    refine ⟨normalizeScore_nonneg _ _, fun hempty => ?_⟩
    change normalizeScore A (maxScore (tagResults u.id response.results)) u.upstreamType = _
    rw [show tagResults u.id response.results = [] from hempty]
    exact normalizeScore_zero hA u.upstreamType

structure Collects (g : RrfGroup) : Prop where
  nonempty : ∀ results ∈ g.lists, results ≠ []
  nonneg : ¬ g.bestNormalized < F32.zero

theorem collects_joinTask (u : PooledUpstream) (outcome : Outcome) {g : RrfGroup}
    (h : Collects g) : Collects (x.joinTask A u outcome g) := by
  unfold joinTask
  cases outcome with
  | error e => exact ⟨h.nonempty, h.nonneg⟩
  | ok response =>
    refine ⟨?_, ?_⟩
    · dsimp only
      split
      · exact h.nonempty
      · rename_i hresults
        intro results hmem
        rcases List.mem_append.1 hmem with hmem | hmem
        · exact h.nonempty results hmem
        · rw [List.mem_singleton.1 hmem]
          exact fun hempty => hresults (List.isEmpty_iff.2 hempty)
    · dsimp only
      split
      · exact normalizeScore_nonneg _ _
      · exact h.nonneg

theorem collects_joinAll (joins : List Join) {g : RrfGroup} (h : Collects g) :
    Collects (x.joinAll A joins g) := by
  induction joins generalizing g with
  | nil => exact h
  | cons j rest ih =>
    by_cases hlate : x.config.timeout < j.elapsed
    · rw [joinAll_late hlate]
      exact ⟨h.nonempty, h.nonneg⟩
    · cases hout : j.outcome with
      | none =>
        rw [joinAll_panicked hlate hout]
        exact ih h
      | some outcome =>
        rw [joinAll_returned hlate hout]
        exact ih (collects_joinTask j.upstream outcome ⟨h.nonempty, h.nonneg⟩)

theorem fuseOne_nonempty (k : Nat) (accum : AList fun _ : QueryHash => F32 × SearchResult)
    (ranked : SearchResult × Nat) : (fuseOne A p k accum ranked).entries ≠ [] := by
  unfold fuseOne
  dsimp only
  split
  · exact List.cons_ne_nil _ _
  · exact List.cons_ne_nil _ _

theorem fuseRrf_ne_nil (scan : FuseScan) {lists : List (List SearchResult)} {k maxResults : Nat}
    (hlists : lists ≠ []) (hresults : ∀ results ∈ lists, results ≠ []) (hmax : 1 ≤ maxResults) :
    fuseRrf A p scan lists k maxResults ≠ [] := by
  obtain ⟨before, last, rfl⟩ := (List.eq_nil_or_concat' lists).resolve_left hlists
  have hlast : last.zipIdx ≠ [] := by
    simpa using hresults last (by simp)
  obtain ⟨ranked, final, hranked⟩ := (List.eq_nil_or_concat' last.zipIdx).resolve_left hlast
  have hmerged (merged : List (F32 × SearchResult)) (h : merged ≠ []) :
      ((merged.mergeSort fun a b => !F32.lt a.1 b.1).take maxResults).map Prod.snd ≠ [] := by
    rw [← List.length_pos_iff] at h ⊢
    rw [List.length_map, List.length_take, List.length_mergeSort]
    omega
  unfold fuseRrf
  refine hmerged _ ?_
  rw [List.foldl_concat, hranked, List.foldl_concat]
  rw [← List.length_pos_iff, (scan.perm _).length_eq, List.length_map, List.length_pos_iff]
  exact fuseOne_nonempty _ _ _

theorem sound_fusedAnswer (request : QueryRequest) (l : CascadeLoop) :
    ∀ a ∈ x.fusedAnswer A p env request l, Sound a := by
  have hcollects : Collects (x.joinAll A (env.joins l.depth) (.start l.calls)) :=
    collects_joinAll (env.joins l.depth) ⟨nofun, F32.lt_irrefl F32.zero⟩
  unfold fusedAnswer
  dsimp only
  split
  · nofun
  · rename_i hlists
    rw [List.isEmpty_iff] at hlists
    intro a ha
    rw [List.mem_singleton] at ha
    subst ha
    have hfused := fuseRrf_ne_nil (A := A) (p := p) (k := x.config.rrfK) env.fuseOrder hlists
      hcollects.nonempty (le_max_right (request.topK.getD 10) 1)
    exact ⟨hcollects.nonneg, fun hempty => absurd hempty hfused⟩

theorem sound_heardOneByOne (hA : A.KeepsZero) (group : List PooledUpstream) (l : CascadeLoop) :
    ∀ a ∈ x.heardOneByOne A env group l, Sound a := by
  induction group generalizing l with
  | nil => nofun
  | cons u rest ih =>
    unfold heardOneByOne
    cases hstop : x.stopAt l.depth (env.upstreamElapsed l.depth) with
    | some reason =>
      rw [past_some hstop]
      nofun
    | none =>
      rw [past_none hstop, List.forall_mem_append]
      refine ⟨sound_upstreamAnswer hA u l, ?_⟩
      cases x.askUpstream A env u l with
      | done r => nofun
      | next l' => exact ih l'

theorem sound_heard (hA : A.KeepsZero) (request : QueryRequest) :
    ∀ a ∈ x.heard A p env request, Sound a := by
  unfold heard
  cases x.begins env request with
  | none => nofun
  | some l =>
    intro a ha
    obtain ⟨s, -, ha⟩ := List.mem_flatMap.1 ha
    unfold heardInGroup at ha
    split at ha
    · exact sound_fusedAnswer request s.2 a ha
    · exact sound_heardOneByOne hA s.1 s.2 a ha

/-- The best answer is the first one, or better than that. -/
theorem bestOf_cons {first best : CascadeAnswer} {rest : List CascadeAnswer}
    (h : bestOf (first :: rest) = some best) :
    best = first ∨ first.normalized < best.normalized := by
  induction rest using List.reverseRecOn generalizing best with
  | nil => exact .inl (Option.some.inj h).symm
  | append_singleton rest a ih =>
    unfold bestOf at h ih
    rw [← List.cons_append, List.argmax_concat] at h
    cases hbest : (first :: rest).argmax CascadeAnswer.normalized with
    | none => simp at hbest
    | some b =>
      rw [hbest] at h
      dsimp only at h
      split at h
      · rename_i hlt
        obtain rfl := Option.some.inj h
        rcases ih hbest with rfl | hb
        · exact .inr hlt
        · exact .inr (hb.trans hlt)
      · obtain rfl := Option.some.inj h
        exact ih hbest

/-- The best answer has results exactly if the first one has, or one has a positive score. -/
theorem bestOf_nonempty_iff {heard : List CascadeAnswer} (hsound : ∀ a ∈ heard, Sound a) :
    (∃ a ∈ bestOf heard, a.results ≠ []) ↔
      (∃ a ∈ heard.head?, a.results ≠ []) ∨ ∃ a ∈ heard, F32.zero < a.normalized := by
  cases heard with
  | nil => simp [bestOf]
  | cons first rest =>
    obtain ⟨best, hbest⟩ : ∃ best, bestOf (first :: rest) = some best := by
      rw [← Option.ne_none_iff_exists']
      simp [bestOf]
    have hsoundBest := hsound best (List.argmax_mem hbest)
    have hsoundFirst := hsound first List.mem_cons_self
    have hpositive (a : CascadeAnswer) (ha : Sound a) (h : F32.zero < a.normalized) :
        a.results ≠ [] := by
      intro hempty
      rw [ha.empty hempty] at h
      exact F32.lt_irrefl _ h
    simp only [hbest, List.head?_cons, Option.mem_some_iff, exists_eq_left']
    constructor
    · intro hresults
      rcases bestOf_cons hbest with rfl | hlt
      · exact .inl hresults
      · exact .inr ⟨best, List.argmax_mem hbest, F32.pos_of_lt hsoundFirst.nonneg hlt⟩
    · rintro (hresults | ⟨a, ha, hpos⟩)
      · rcases bestOf_cons hbest with rfl | hlt
        · exact hresults
        · exact hpositive best hsoundBest (F32.pos_of_lt hsoundFirst.nonneg hlt)
      · intro hempty
        rw [← hsoundBest.empty hempty] at hpos
        exact List.not_lt_of_mem_argmax ha hbest hpos

/-- A query that stops below its threshold gives the best effort exactly if no upstream returned
results, the first answer has some, or a later one has a positive score. -/
theorem best_effort_iff (A : F32Arith) (p : Platform) (x : CascadeExecutor) (env : Environment)
    (request : QueryRequest) (hA : A.KeepsZero)
    (hstop : (x.query A p env request).value.stopReason ≠ .thresholdMet) :
    x.BestEffort A p env request ↔
      (∀ results ∈ x.returned A p env request, results = []) ∨
      (∃ a ∈ (x.heard A p env request).head?, a.results ≠ []) ∨
      ∃ a ∈ x.heard A p env request, F32.zero < a.normalized := by
  have hreports := query_reportsBest request hstop
  rw [← bestOf_nonempty_iff (sound_heard hA request)]
  constructor
  · intro h
    by_cases hreturned : ∀ results ∈ x.returned A p env request, results = []
    · exact .inl hreturned
    · have hresults := h.nonempty (by simpa using hreturned)
      rw [hreports.results] at hresults
      cases hbest : bestOf (x.heard A p env request) with
      | none =>
        rw [hbest] at hresults
        exact absurd rfl hresults
      | some a =>
        rw [hbest] at hresults
        exact .inr ⟨a, rfl, hresults⟩
  · intro h
    refine ⟨fun hheard => ?_, fun hheard => ?_, ?_⟩
    · obtain ⟨a, ha⟩ : ∃ a, bestOf (x.heard A p env request) = some a := by
        rw [← Option.ne_none_iff_exists']
        simpa [bestOf] using hheard
      refine ⟨a, List.argmax_mem ha, fun b hb => List.not_lt_of_mem_argmax hb ha, ?_, ?_⟩
      · rw [hreports.results, ha]
        rfl
      · rw [hreports.final, ha]
        rfl
    · rw [hreports.results, hheard]
      rfl
    · rintro ⟨results, hmem, hresults⟩
      rcases h with hnone | ⟨a, ha, hanswer⟩
      · exact absurd (hnone results hmem) hresults
      · rw [hreports.results, Option.mem_def.1 ha]
        exact hanswer

/-- The upstream `a` answers without results, `b` with one of score zero. -/
def emptyFirst : Environment :=
  { Environment.failing with
    answer := fun depth =>
      .ok (if depth = 0 then ⟨[], .miss, 0, none, none⟩ else textResponse "x") }

theorem only_answer_returned :
    (cascadeOver ["a"]).BestEffort F32Arith.exact Platform.sample
      { emptyFirst with answer := fun _ => .ok (textResponse "x") } (textRequest "q") := by
  refine (best_effort_iff _ _ _ _ _ F32Arith.keepsZero_exact ?_).2 (.inr (.inl ?_))
  · decide +kernel
  · exact ⟨_, rfl, List.cons_ne_nil _ _⟩

/-- The answer of `a` without results is returned, although `b` has one that is as good. -/
theorem results_withheld :
    ((cascadeOver ["a", "b"]).query F32Arith.exact Platform.sample emptyFirst
        (textRequest "q")).value.stopReason = .allExhausted ∧
      (∃ results ∈ (cascadeOver ["a", "b"]).returned F32Arith.exact Platform.sample emptyFirst
        (textRequest "q"), results ≠ []) ∧
      ((cascadeOver ["a", "b"]).query F32Arith.exact Platform.sample emptyFirst
        (textRequest "q")).value.results = [] ∧
      ¬ (cascadeOver ["a", "b"]).BestEffort F32Arith.exact Platform.sample emptyFirst
        (textRequest "q") := by
  have hany : (((cascadeOver ["a", "b"]).returned F32Arith.exact Platform.sample emptyFirst
      (textRequest "q")).any fun results => !results.isEmpty) = true := by
    decide +kernel
  have hreturned : ∃ results ∈ (cascadeOver ["a", "b"]).returned F32Arith.exact Platform.sample
      emptyFirst (textRequest "q"), results ≠ [] := by
    simpa using hany
  have hnone : ((cascadeOver ["a", "b"]).query F32Arith.exact Platform.sample emptyFirst
      (textRequest "q")).value.results = [] := by
    decide +kernel
  exact ⟨by decide +kernel, hreturned, hnone, fun h => h.nonempty hreturned hnone⟩

end CascadeExecutor

end Conproxy
