import Mathlib.Data.List.Perm.Subperm
import Conproxy.Dispatch

/-!
# Failover of a pool query

`UpstreamPool::query` with everything that it does to the upstreams: each attempt sends the request
and then records its success or failure. The loop over the remaining upstreams goes over all
candidates, so the primary is asked again unless another candidate answers before its turn.
-/

namespace Conproxy

set_option autoImplicit false

inductive PoolAction where
  | send (u : PooledUpstream) (outcome : Outcome)
  | recordSuccess (u : PooledUpstream)
  | recordFailure (u : PooledUpstream)

namespace PoolAction

def sentTo : List PoolAction → List PooledUpstream
  | [] => []
  | .send u _ :: rest => u :: sentTo rest
  | _ :: rest => sentTo rest

def outcomes : List PoolAction → List Outcome
  | [] => []
  | .send _ outcome :: rest => outcome :: outcomes rest
  | _ :: rest => outcomes rest

/-- The actions are attempts, each with one record of what came of it. -/
inductive OutcomesRecorded : List PoolAction → Prop where
  | nil : OutcomesRecorded []
  | success {u : PooledUpstream} {response : QueryResponse} {rest : List PoolAction}
      (h : OutcomesRecorded rest) :
      OutcomesRecorded (.send u (.ok response) :: .recordSuccess u :: rest)
  | failure {u : PooledUpstream} {e : String} {rest : List PoolAction} (h : OutcomesRecorded rest) :
      OutcomesRecorded (.send u (.error e) :: .recordFailure u :: rest)

end PoolAction

open PoolAction

namespace UpstreamPool

def remainingActions (env : Environment) : List PooledUpstream → Nat → List PoolAction
  | [], _ => []
  | u :: rest, index =>
    match env.remaining index with
    | .ok response => [.send u (.ok response), .recordSuccess u]
    | .error e =>
      .send u (.error e) :: .recordFailure u :: remainingActions env rest (index + 1)

def primaryActions (pool : UpstreamPool) (env : Environment) : List PoolAction :=
  match pool.selectFromAvailable pool.candidates with
  | some primary =>
    match env.primary with
    | .ok response => [.send primary (.ok response), .recordSuccess primary]
    | .error e =>
      .send primary (.error e) :: .recordFailure primary ::
        if pool.candidates.length = 1 then [] else remainingActions env pool.candidates 0
  | none => remainingActions env pool.candidates 0

def queryActions (pool : UpstreamPool) (request : QueryRequest) (env : Environment) :
    List PoolAction :=
  if pool.candidates.isEmpty then []
  else
    match request.upstreamId.bind pool.get with
    | some target =>
      match env.targeted with
      | .ok response => [.send target (.ok response), .recordSuccess target]
      | .error e => [.send target (.error e), .recordFailure target]
    | none => pool.primaryActions env

/-- Each candidate is asked once at most, and each is asked if none answers. Every attempt has one
record. -/
structure TriesOnce (pool : UpstreamPool) (actions : List PoolAction) : Prop where
  once : (sentTo actions).Subperm pool.candidates
  all : AllFailed (outcomes actions) → ∀ u ∈ pool.candidates, u ∈ sentTo actions
  recorded : OutcomesRecorded actions

theorem outcomes_remainingActions (env : Environment) (upstreams : List PooledUpstream)
    (index : Nat) :
    outcomes (remainingActions env upstreams index) = (tryRemaining env upstreams index).calls := by
  induction upstreams generalizing index with
  | nil => rfl
  | cons u rest ih =>
    unfold remainingActions tryRemaining
    cases env.remaining index with
    | ok response => rfl
    | error e => exact congrArg (Except.error e :: ·) (ih (index + 1))

theorem outcomes_primaryActions (pool : UpstreamPool) (env : Environment) :
    outcomes (pool.primaryActions env) = (pool.tryPrimary env).calls := by
  unfold primaryActions tryPrimary
  cases pool.selectFromAvailable pool.candidates with
  | none => exact outcomes_remainingActions env _ 0
  | some primary =>
    cases env.primary with
    | ok response => rfl
    | error e =>
      dsimp only
      split
      · rfl
      · exact congrArg (Except.error e :: ·) (outcomes_remainingActions env _ 0)

/-- What the actions of a query send is what `query` calls, in its order. -/
theorem outcomes_queryActions (pool : UpstreamPool) (request : QueryRequest)
    (env : Environment) :
    outcomes (pool.queryActions request env) = (pool.query request env).calls := by
  unfold queryActions query
  split
  · rfl
  · cases request.upstreamId.bind pool.get with
    | none => exact outcomes_primaryActions pool env
    | some target => cases env.targeted <;> rfl

variable {pool : UpstreamPool} {env : Environment} {upstreams : List PooledUpstream}

theorem recorded_remainingActions (upstreams : List PooledUpstream) (index : Nat) :
    OutcomesRecorded (remainingActions env upstreams index) := by
  induction upstreams generalizing index with
  | nil => exact .nil
  | cons u rest ih =>
    unfold remainingActions
    cases env.remaining index with
    | ok response => exact .success .nil
    | error e => exact .failure (ih (index + 1))

variable (env) in
/-- The loop ends behind the first upstream that answers, or has asked all of them. -/
theorem sentTo_remainingActions (upstreams : List PooledUpstream) (index : Nat) :
    ((∀ i < upstreams.length, ∃ e, env.remaining (index + i) = .error e) ∧
        sentTo (remainingActions env upstreams index) = upstreams) ∨
      ∃ i response, env.remaining (index + i) = .ok response ∧
        (∀ j < i, ∃ e, env.remaining (index + j) = .error e) ∧
        sentTo (remainingActions env upstreams index) = upstreams.take (i + 1) ∧
        .ok response ∈ outcomes (remainingActions env upstreams index) := by
  induction upstreams generalizing index with
  | nil =>
    refine .inl ⟨fun i hi => ?_, rfl⟩
    cases hi
  | cons u rest ih =>
    unfold remainingActions
    cases hcall : env.remaining index with
    | ok response =>
      refine .inr ⟨0, response, hcall, fun j hj => ?_, rfl, List.mem_singleton.2 rfl⟩
      cases hj
    | error e =>
      -- A failure at this index moves every later index by one.
      have hshift (i : Nat) : index + (i + 1) = index + 1 + i := by omega
      have hzero (i : Nat) (h : ∀ j < i, ∃ e, env.remaining (index + 1 + j) = .error e)
          (j : Nat) (hj : j < i + 1) : ∃ e, env.remaining (index + j) = .error e := by
        cases j with
        | zero => exact ⟨e, hcall⟩
        | succ j =>
          rw [hshift]
          exact h j (Nat.lt_of_succ_lt_succ hj)
      rcases ih (index + 1) with ⟨hfail, hsent⟩ | ⟨i, response, hok, hfail, hsent, hout⟩
      · exact .inl ⟨hzero rest.length hfail, congrArg (u :: ·) hsent⟩
      · refine .inr ⟨i + 1, response, ?_, hzero i hfail, ?_, List.mem_cons_of_mem _ hout⟩
        · rw [hshift]
          exact hok
        · exact congrArg (u :: ·) hsent

/-- An upstream that was asked before the loop is not asked again exactly if an upstream before it
answers. -/
theorem cons_sentTo_subperm_iff (u : PooledUpstream) (upstreams : List PooledUpstream) :
    (u :: sentTo (remainingActions env upstreams 0)).Subperm upstreams ↔
      ∃ i response, env.remaining i = .ok response ∧ u ∈ upstreams.drop (i + 1) := by
  have hbehind (n : Nat) : (u :: upstreams.take n).Subperm upstreams ↔ u ∈ upstreams.drop n := by
    have hperm : (u :: upstreams.take n).Perm (upstreams.take n ++ [u]) :=
      (List.perm_append_singleton u _).symm
    calc (u :: upstreams.take n).Subperm upstreams
        ↔ (upstreams.take n ++ [u]).Subperm (upstreams.take n ++ upstreams.drop n) := by
          rw [hperm.subperm_right, List.take_append_drop]
      _ ↔ u ∈ upstreams.drop n := by
          rw [List.subperm_append_left, List.singleton_subperm_iff]
  rcases sentTo_remainingActions env upstreams 0 with
    ⟨hfail, hsent⟩ | ⟨i, response, hok, hfail, hsent, -⟩
  · rw [hsent]
    constructor
    · intro hsub
      have hlength := hsub.length_le
      rw [List.length_cons] at hlength
      omega
    · rintro ⟨i, response, hok, hmem⟩
      have hi : i < upstreams.length := by
        have hpos := List.length_pos_of_mem hmem
        rw [List.length_drop] at hpos
        omega
      obtain ⟨e, he⟩ := hfail i hi
      rw [Nat.zero_add, hok] at he
      cases he
  · rw [hsent, hbehind]
    rw [Nat.zero_add] at hok
    constructor
    · intro hmem
      exact ⟨i, response, hok, hmem⟩
    · rintro ⟨j, response', hok', hmem⟩
      have hle : i ≤ j := by
        by_contra hlt
        obtain ⟨e, he⟩ := hfail j (Nat.not_le.1 hlt)
        rw [Nat.zero_add, hok'] at he
        cases he
      exact List.drop_subset_drop_left upstreams (Nat.succ_le_succ hle) hmem

theorem selectFromAvailable_mem {u : PooledUpstream}
    (h : pool.selectFromAvailable pool.candidates = some u) : u ∈ pool.candidates := by
  rcases LoadBalanceStrategy.selectFromAvailable_mem h with hmem | hmem
  · exact hmem
  · have hne : ¬ pool.available.isEmpty = true := by
      rw [List.isEmpty_iff]
      exact List.ne_nil_of_mem hmem
    rw [candidates, if_neg hne]
    exact hmem

variable (pool env) in
theorem triesOnce_remainingActions : pool.TriesOnce (remainingActions env pool.candidates 0) := by
  refine ⟨?_, fun hfail => ?_, recorded_remainingActions _ 0⟩
  · rcases sentTo_remainingActions env pool.candidates 0 with
      ⟨-, hsent⟩ | ⟨i, response, -, -, hsent, -⟩
    · rw [hsent]
    · rw [hsent]
      exact (List.take_sublist _ _).subperm
  · rcases sentTo_remainingActions env pool.candidates 0 with
      ⟨-, hsent⟩ | ⟨i, response, -, -, -, hout⟩
    · rw [hsent]
      exact fun u hu => hu
    · exact absurd hout hfail.not_ok

theorem triesOnce_singleton {u : PooledUpstream} (hu : u ∈ pool.candidates)
    {actions : List PoolAction} (hsent : sentTo actions = [u])
    (hrecorded : OutcomesRecorded actions)
    (hall : AllFailed (outcomes actions) → pool.candidates.length = 1) :
    pool.TriesOnce actions := by
  refine ⟨?_, fun hfail v hv => ?_, hrecorded⟩
  · rw [hsent]
    exact List.singleton_subperm_iff.2 hu
  · obtain ⟨w, hw⟩ := List.length_eq_one_iff.1 (hall hfail)
    rw [hw, List.mem_singleton] at hu hv
    rw [hsent, hv, hu]
    exact List.mem_singleton.2 rfl

/-- A query without a target asks every candidate at most once, and all of them if none answers,
exactly if its primary answers, is the only candidate, or comes behind a candidate that answers. -/
theorem failover_tries_once_iff (pool : UpstreamPool) (request : QueryRequest)
    (env : Environment) (hrequest : request.upstreamId = none) :
    pool.TriesOnce (pool.queryActions request env) ↔
      ∀ primary, pool.selectFromAvailable pool.candidates = some primary →
        (∃ response, env.primary = .ok response) ∨ pool.candidates.length = 1 ∨
          ∃ i response, env.remaining i = .ok response ∧
            primary ∈ pool.candidates.drop (i + 1) := by
  unfold queryActions
  rw [hrequest, Option.bind_none]
  dsimp only
  by_cases hempty : pool.candidates.isEmpty = true
  · rw [if_pos hempty]
    refine iff_of_true ⟨List.nil_subperm, fun _ u hu => ?_, .nil⟩ fun primary hselect => ?_
    · rw [List.isEmpty_iff.1 hempty] at hu
      cases hu
    · have hmem := selectFromAvailable_mem hselect
      rw [List.isEmpty_iff.1 hempty] at hmem
      cases hmem
  rw [if_neg hempty]
  unfold primaryActions
  cases hselect : pool.selectFromAvailable pool.candidates with
  | none => exact iff_of_true (triesOnce_remainingActions pool env) fun primary h => by cases h
  | some primary =>
    have hmem := selectFromAvailable_mem hselect
    simp only [Option.some.injEq, forall_eq']
    cases hcall : env.primary with
    | ok response =>
      refine iff_of_true ?_ (.inl ⟨response, rfl⟩)
      refine triesOnce_singleton hmem rfl (.success .nil) fun hfail => ?_
      exact absurd (List.mem_singleton.2 rfl) hfail.not_ok
    | error e =>
      simp only [reduceCtorEq, exists_false, false_or]
      by_cases hone : pool.candidates.length = 1
      · rw [if_pos hone]
        refine iff_of_true ?_ (.inl hone)
        exact triesOnce_singleton hmem rfl (.failure .nil) fun _ => hone
      · rw [if_neg hone, or_iff_right hone, ← cons_sentTo_subperm_iff]
        constructor
        · intro honce
          exact honce.once
        · intro hsub
          refine ⟨hsub, fun hfail u hu => ?_, .failure (recorded_remainingActions _ 0)⟩
          have hlater := triesOnce_remainingActions pool env
          refine List.mem_cons_of_mem _ (hlater.all (fun call hcall => ?_) u hu)
          exact hfail call (List.mem_cons_of_mem _ hcall)

def threeUpstreams : UpstreamPool :=
  ⟨[plainUpstream "a" 0, plainUpstream "b" 0, plainUpstream "c" 0], .roundRobin, 1⟩

/-- The primary `b` fails and `a` answers before `b` would be asked again. -/
def othersAnswer : Environment :=
  { Environment.failing with remaining := fun _ => .ok (textResponse "x") }

theorem first_candidate_answers :
    threeUpstreams.TriesOnce
      (threeUpstreams.queryActions (textRequest "q") othersAnswer) := by
  refine (failover_tries_once_iff _ _ _ rfl).2 fun primary hselect => .inr (.inr ?_)
  obtain rfl : plainUpstream "b" 0 = primary := Option.some.inj hselect
  exact ⟨0, textResponse "x", rfl, by decide⟩

/-- All three fail, and the primary is asked and its failure recorded twice. -/
theorem primary_asked_twice :
    sentTo (threeUpstreams.queryActions (textRequest "q") Environment.failing) =
        ["b", "a", "b", "c"].map (plainUpstream · 0) ∧
      ¬ threeUpstreams.TriesOnce
        (threeUpstreams.queryActions (textRequest "q") Environment.failing) := by
  have hsent : sentTo (threeUpstreams.queryActions (textRequest "q") Environment.failing) =
      ["b", "a", "b", "c"].map (plainUpstream · 0) := by
    decide
  refine ⟨hsent, fun h => ?_⟩
  have hlength := h.once.length_le
  rw [hsent] at hlength
  revert hlength
  decide

end UpstreamPool

end Conproxy
