import Conproxy.Dispatch
import Conproxy.Server.Exits
import Conproxy.Server.Isolation

/-!
# Stale entries and their refresh

A stale entry is served by `execute_query` and by the items of a batch. The refresh that follows
is an inline query of the single upstream: it goes past `dispatch_upstream_query` and past the
coalescer, and the items of a batch start none.
-/

namespace Conproxy

open CacheStore Machine

set_option autoImplicit false

namespace Server

/-- The client that a step serves a stale entry of its key, with the upstreams that a miss of it
would be dispatched to. -/
def staleHit (p : Platform) (s : Server) (a : Action) : Option (Client × Upstreams) :=
  match a.event with
  | .query contextId request agent skipCache allowed =>
    let c : Client := ⟨.query, contextId, request, a.now.instant⟩
    if s.arrive.queryExit p a.now c agent skipCache allowed = .stale then
      some (c, s.app.upstreams)
    else none
  | .batch t contextId request agent upstreams =>
    let c : Client := ⟨.batch t, contextId, request, a.now.instant⟩
    if t = .http ∧ deniedBy agent contextId then none
    else if s.app.cache.checkFreshnessByHash p a.now (c.key.hash p) = some .stale then
      some (c, upstreams)
    else none
  | _ => none

/-- What the dispatch of a miss hands on. -/
def filtered (s : Server) (c : Client) (outcome : Outcome) : Except String (List SearchResult) :=
  outcome.map fun response => s.app.scopeFilterFor c.contextId response.results

/-- A refresh was started, and whatever the upstreams answer, it hands on what the dispatch of a
miss would. It asks the single upstream. -/
structure Revalidated (A : F32Arith) (p : Platform) (s : Server) (a : Action) (c : Client)
    (upstreams : Upstreams) : Prop where
  started : ∃ id, s.begun p a = some (id, .refreshing c.key)
  dispatched : ∀ cascade pool env, Option.isSome cascade = upstreams.cascade →
    Option.isSome pool = upstreams.pool → s.filtered c env.single =
      s.filtered c
        (dispatchUpstreamQuery A p cascade pool upstreams.single c.request env).value

/-- Every stale hit that a step serves is revalidated. -/
def Revalidates (A : F32Arith) (p : Platform) (s : Server) (a : Action) : Prop :=
  ∀ c upstreams, s.staleHit p a = some (c, upstreams) → upstreams.any = true →
    s.Revalidated A p a c upstreams

/-- No two refreshes of one key are outstanding. -/
def AtMostOne (p : Platform) (s : Server) : Prop :=
  ∀ i j k l, s.tasks.lookup i = some (.refreshing k) → s.tasks.lookup j = some (.refreshing l) →
    k.hash p = l.hash p → i = j

def ServesStale (p : Platform) (s : Server) (a : Action) : Prop :=
  ∃ c upstreams, s.staleHit p a = some (c, upstreams) ∧ upstreams.any = true

/-- A query is served a stale entry whose refresh is outstanding. -/
def HitsRefreshing (p : Platform) (s : Server) (a : Action) : Prop :=
  ∃ c upstreams, s.staleHit p a = some (c, upstreams) ∧ c.handler = .query ∧
    upstreams.single = true ∧
    ∃ id key, s.tasks.lookup id = some (.refreshing key) ∧ key.hash p = c.key.hash p

variable {A : F32Arith} {p : Platform} {s : Server} {a : Action}

theorem not_revalidated {c : Client} {upstreams : Upstreams} :
    ¬ s.Revalidated A p a c upstreams := by
  rintro ⟨-, h⟩
  obtain ⟨cascade, hcascade⟩ : ∃ cascade : Option CascadeExecutor,
      cascade.isSome = upstreams.cascade := by
    cases upstreams.cascade with
    | false => exact ⟨none, rfl⟩
    | true => exact ⟨some (cascadeOver []), rfl⟩
  obtain ⟨pool, hpool⟩ : ∃ pool : Option UpstreamPool, pool.isSome = upstreams.pool := by
    cases upstreams.pool with
    | false => exact ⟨none, rfl⟩
    | true => exact ⟨some ⟨[], .roundRobin, 0⟩, rfl⟩
  have hsame := h cascade pool
    { Environment.failing with permit := false, single := .ok (textResponse "x") } hcascade hpool
  cases hsame

theorem revalidates_iff_not_servesStale : s.Revalidates A p a ↔ ¬ s.ServesStale p a := by
  constructor
  · rintro h ⟨c, upstreams, hhit, hany⟩
    exact not_revalidated (h c upstreams hhit hany)
  · intro h c upstreams hhit hany
    exact absurd ⟨c, upstreams, hhit, hany⟩ h

/-- A refresh is begun by a query that is served a stale entry. -/
theorem begun_refreshing {id : Nat} {key : Key}
    (h : s.begun p a = some (id, .refreshing key)) :
    ∃ c, s.staleHit p a = some (c, s.app.upstreams) ∧ c.handler = .query ∧
      s.app.upstreams.single = true ∧ c.key = key := by
  cases begunBy h with
  | query contextId request agent skipCache allowed hevent htask =>
    rcases exit_task_cases htask with ⟨-, -, heq⟩ | ⟨-, -, heq⟩ | ⟨_, -, -, heq⟩ |
      ⟨hstale, hsingle, -, heq⟩
    · cases heq
    · cases heq
    · cases heq
    · cases heq
      refine ⟨⟨.query, contextId, request, a.now.instant⟩, ?_, rfl, hsingle, rfl⟩
      simp only [staleHit, hevent]
      exact if_pos hstale
  | item _ _ _ _ _ _ _ htask => obtain ⟨_, heq⟩ | ⟨_, heq⟩ := htask <;> cases heq
  | federated _ _ _ _ _ _ _ _ htask =>
    obtain ⟨_, heq⟩ := htask
    cases heq
  | embedded embedding tierScan allowed c missReason hevent hlookup htask =>
    rcases exit_task_cases htask with ⟨-, -, heq⟩ | ⟨-, -, heq⟩ | ⟨_, -, -, heq⟩ | ⟨hstale, -⟩
    · cases heq
    · cases heq
    · cases heq
    · exact absurd hstale semanticExit_ne.1
  | tracking _ _ _ _ _ htask | warming _ _ _ _ htask => cases htask

/-- A query that is served a stale entry begins a refresh and ends nothing. -/
theorem refreshes_of_staleHit {c : Client} {upstreams : Upstreams}
    (hhit : s.staleHit p a = some (c, upstreams)) (hquery : c.handler = .query)
    (hsingle : upstreams.single = true) :
    ∃ id, s.nextTask ≤ id ∧ s.begun p a = some (id, .refreshing c.key) ∧ s.ended a = none := by
  obtain ⟨now, scan, event⟩ := a
  cases event with
  | query contextId request agent skipCache allowed =>
    simp only [staleHit] at hhit
    split at hhit
    · rename_i hexit
      cases hhit
      refine ⟨s.nextTask + 1, Nat.le_succ _, ?_, rfl⟩
      simp only [begun, hexit]
      exact if_pos hsingle
    · cases hhit
  | batch t contextId request agent upstreams =>
    simp only [staleHit] at hhit
    split at hhit
    · cases hhit
    · split at hhit
      · cases hhit
        cases hquery
      · cases hhit
  | _ => cases hhit

theorem atMostOne_step_iff (hs : s.Numbered) (hone : s.AtMostOne p) :
    (s.step p a).AtMostOne p ↔ ¬ s.HitsRefreshing p a := by
  constructor
  · rintro h ⟨c, upstreams, hhit, hquery, hsingle, id, key, hl, hhash⟩
    obtain ⟨new, hnew, hbegun, hended⟩ := refreshes_of_staleHit hhit hquery hsingle
    have hlt : id < new := (hs id _ hl).trans_le hnew
    have hold : (s.step p a).tasks.lookup id = some (.refreshing key) := by
      rw [lookup_step, hbegun, hended]
      dsimp only
      rw [if_neg hlt.ne', if_neg nofun, hl]
    have hbegins : (s.step p a).tasks.lookup new = some (.refreshing c.key) := by
      rw [lookup_step, hbegun]
      exact if_pos rfl
    exact hlt.ne (h id new key c.key hold hbegins hhash)
  · -- Two outstanding refreshes are both old, or one of them has just begun.
    have hmixed : ∀ i j k l, ¬ s.HitsRefreshing p a → s.begun p a = some (i, .refreshing k) →
        s.tasks.lookup j = some (.refreshing l) → l.hash p = k.hash p → False := by
      intro i j k l hnot hbegun hl hhash
      obtain ⟨c, hhit, hquery, hsingle, rfl⟩ := begun_refreshing hbegun
      exact hnot ⟨c, s.app.upstreams, hhit, hquery, hsingle, j, l, hl, hhash⟩
    intro hnot i j k l hi hj hhash
    rcases task_cases hi with hbegun | ⟨-, -, hi⟩
    · rcases task_cases hj with hbegun' | ⟨-, -, hj⟩
      · rw [hbegun] at hbegun'
        cases hbegun'
        rfl
      · exact (hmixed i j k l hnot hbegun hj hhash.symm).elim
    · rcases task_cases hj with hbegun | ⟨-, -, hj⟩
      · exact (hmixed j i l k hnot hbegun hi hhash).elim
      · exact hone i j k l hi hj hhash

def Idle (s : Server) : Prop := ∀ id key, s.tasks.lookup id ≠ some (.refreshing key)

theorem Idle.atMostOne (hs : s.Idle) : s.AtMostOne p :=
  fun i _ k _ hi _ _ => absurd hi (hs i k)

theorem Idle.step (hs : s.Idle) (h : ¬ s.ServesStale p a) : (s.step p a).Idle := by
  intro id key hl
  rcases task_cases hl with hbegun | ⟨-, -, hl⟩
  · obtain ⟨c, hhit, -, hsingle, -⟩ := begun_refreshing hbegun
    exact h ⟨c, _, hhit, by simp [Upstreams.any, hsingle]⟩
  · exact hs id key hl

end Server

/-- In a run that starts with nothing under way, every stale hit is revalidated by the dispatch
of a miss and no key has two refreshes exactly if no stale entry is served while an upstream is
configured. No key has two refreshes exactly if no query is served a stale entry whose refresh
is outstanding. -/
theorem stale_revalidated_iff (A : F32Arith) (p : Platform) (s : Server) (as : List Action) :
    (AllSteps (Server.step p) (fun s a => s.Revalidates A p a ∧ (s.step p a).AtMostOne p)
        { s with tasks := ∅ } as ↔
      AllSteps (Server.step p) (fun s a => ¬ s.ServesStale p a) { s with tasks := ∅ } as) ∧
    (AllSteps (Server.step p) (fun s a => (s.step p a).AtMostOne p) { s with tasks := ∅ } as ↔
      AllSteps (Server.step p) (fun s a => ¬ s.HitsRefreshing p a) { s with tasks := ∅ } as) := by
  have hidle : ({ s with tasks := ∅ } : Server).Idle := by
    intro id key h
    cases h
  have hnumbered : ({ s with tasks := ∅ } : Server).Numbered := by
    intro id task h
    cases h
  refine ⟨⟨?_, ?_⟩, ?_⟩
  · exact allSteps_imp fun s a h => Server.revalidates_iff_not_servesStale.1 h.1
  · have hkept : ∀ (s : Server) a, ¬ s.ServesStale p a → s.Idle → (s.step p a).Idle :=
      fun _ _ h hs => hs.step h
    exact allSteps_of_invariant hkept (fun _ _ h hs =>
      ⟨Server.revalidates_iff_not_servesStale.2 h, (hs.step h).atMostOne⟩) hidle
  · exact allSteps_congr_of_invariant (fun _ a hs => Server.Numbered.step hs a)
      (fun _ _ hs hone => Server.atMostOne_step_iff hs hone) hnumbered hidle.atMostOne

/-- A query at 0 whose answer is stored, and the same query a minute and a half later. -/
def staleRequest : List Action :=
  [actionAt 0 (plainQuery "a" "q" none), actionAt 1 (.returned 0 (.ok (textResponse "x")) none),
    actionAt 90000000000 (plainQuery "a" "q" none)]

/-- The refresh of a stale entry is not the dispatch of a miss. -/
theorem stale_hit_not_dispatched :
    ¬ ∀ (A : F32Arith) (p : Platform) (s : Server) (as : List Action),
      AllSteps (Server.step p) (fun s a => s.Revalidates A p a ∧ (s.step p a).AtMostOne p)
        { s with tasks := ∅ } as := by
  intro h
  obtain ⟨-, -, ⟨hlast, -⟩, -⟩ := h F32Arith.exact Platform.sample smallServer staleRequest
  have hserves : (((run (Server.step Platform.sample) smallServer (staleRequest.take 2)).staleHit
      Platform.sample (actionAt 90000000000 (plainQuery "a" "q" none))).any
        fun hit => hit.2.any) = true := by
    decide +kernel
  obtain ⟨⟨c, upstreams⟩, hhit, hany⟩ := (Option.any_eq_true _ _).1 hserves
  exact Server.not_revalidated (hlast c upstreams hhit hany)

end Conproxy
