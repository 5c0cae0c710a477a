import Mathlib.Data.Multiset.ZeroCons
import Mathlib.Order.Lattice
import Conproxy.Lib.Machine

/-!
# The priority queue

`PriorityQueue` of `priority.rs`: a heap of requests by priority and, within one, by the order of
their arrival. A full queue makes room at the wrong end: `peek` and `pop` see the request that is to
be served next, not the one with the lowest priority.
-/

namespace Conproxy

open Machine

set_option autoImplicit false

universe u

inductive Priority where
  | low
  | normal
  | high
  | critical
deriving DecidableEq

namespace Priority

def rank : Priority → Nat
  | .low => 0
  | .normal => 1
  | .high => 2
  | .critical => 3

theorem rank_injective : Function.Injective rank := by
  intro a b h
  cases a <;> cases b <;> first | rfl | cases h

instance : LinearOrder Priority := LinearOrder.lift' rank rank_injective

end Priority

structure PrioritizedRequest (T : Type u) where
  payload : T
  priority : Priority
  sequence : Nat
  enqueuedAt : Nat
deriving DecidableEq

namespace PrioritizedRequest

variable {T : Type u}

/-- Higher priority first, and within the same priority the older one. -/
def cmp (a b : PrioritizedRequest T) : Ordering :=
  match compare a.priority b.priority with
  | .eq => compare b.sequence a.sequence
  | other => other

end PrioritizedRequest

/-- The heap is given by its requests in the order of their arrival. -/
structure PriorityQueue (T : Type u) where
  heap : List (PrioritizedRequest T)
  sequence : Nat
  maxSize : Nat

inductive QueueCall (T : Type u) where
  | push (payload : T) (priority : Priority) (now : Nat)
  | pop

namespace PriorityQueue

variable {T : Type u}

def new (maxSize : Nat) : PriorityQueue T := ⟨[], 0, maxSize⟩

/-- `peek` of the heap. -/
def greatest : List (PrioritizedRequest T) → Option (PrioritizedRequest T)
  | [] => none
  | r :: rest =>
    match greatest rest with
    | some g => if r.cmp g = .lt then some g else some r
    | none => some r

def pop (q : PriorityQueue T) : Option (PrioritizedRequest T) × PriorityQueue T :=
  match greatest q.heap with
  | some g => (some g, { q with heap := q.heap.eraseP fun r => r.sequence = g.sequence })
  | none => (none, q)

def request (q : PriorityQueue T) (payload : T) (priority : Priority) (now : Nat) :
    PrioritizedRequest T :=
  ⟨payload, priority, q.sequence, now⟩

def add (q : PriorityQueue T) (payload : T) (priority : Priority) (now : Nat) : PriorityQueue T :=
  { q with
    heap := q.heap ++ [q.request payload priority now]
    sequence := q.sequence + 1 }

/-- The payload comes back if the request was rejected. -/
def push (q : PriorityQueue T) (payload : T) (priority : Priority) (now : Nat) :
    Option T × PriorityQueue T :=
  if q.maxSize ≤ q.heap.length then
    match greatest q.heap with
    | some lowest =>
      if priority ≤ lowest.priority then (some payload, q)
      else (none, q.pop.2.add payload priority now)
    | none => (none, q.add payload priority now)
  else (none, q.add payload priority now)

def step (q : PriorityQueue T) : QueueCall T → PriorityQueue T
  | .push payload priority now => (q.push payload priority now).2
  | .pop => q.pop.2

/-- Of the requests in the order of their arrival, the first one with the highest priority. -/
def ServedNext (heap : List (PrioritizedRequest T)) (r : PrioritizedRequest T)
    (rest : List (PrioritizedRequest T)) : Prop :=
  ∃ before after, heap = before ++ r :: after ∧ rest = before ++ after ∧
    (∀ b ∈ before, b.priority < r.priority) ∧ ∀ a ∈ after, a.priority ≤ r.priority

/-- One request is dropped, and none that is held has a lower priority. -/
def Displaced (heap rest : List (PrioritizedRequest T)) : Prop :=
  ∃ before victim after, heap = before ++ victim :: after ∧ rest = before ++ after ∧
    ∀ r ∈ heap, victim.priority ≤ r.priority

/-- What a call may do to the requests that are held. -/
def Contract (q : PriorityQueue T) : QueueCall T → Prop
  | .pop =>
    (q.heap = [] ∧ q.pop.1 = none ∧ q.pop.2.heap = []) ∨
      ∃ r, q.pop.1 = some r ∧ ServedNext q.heap r q.pop.2.heap
  | .push payload priority now =>
    if q.maxSize ≤ q.heap.length then
      ((q.push payload priority now).1 = some payload ∧
          (q.push payload priority now).2.heap = q.heap ∧ ∀ r ∈ q.heap, priority ≤ r.priority) ∨
        (q.push payload priority now).1 = none ∧ ∃ rest, Displaced q.heap rest ∧
          (q.push payload priority now).2.heap = rest ++ [q.request payload priority now]
    else
      (q.push payload priority now).1 = none ∧
        (q.push payload priority now).2.heap = q.heap ++ [q.request payload priority now]

/-- A push to a full queue finds a request, and none of lower priority or all of one priority. -/
def KeepsHighest (q : PriorityQueue T) : QueueCall T → Prop
  | .pop => True
  | .push _ priority _ => q.maxSize ≤ q.heap.length →
    q.heap ≠ [] ∧ ((∀ r ∈ q.heap, priority ≤ r.priority) ∨
      ∀ r ∈ q.heap, ∀ s ∈ q.heap, r.priority = s.priority)

instance (q : PriorityQueue T) : (c : QueueCall T) → Decidable (q.KeepsHighest c)
  | .pop => inferInstanceAs (Decidable True)
  | .push _ priority _ =>
    have : Decidable (q.heap ≠ []) :=
      decidable_of_iff (¬ q.heap.isEmpty = true) (not_congr List.isEmpty_iff)
    inferInstanceAs (Decidable (_ → _ ∧ ((∀ r ∈ q.heap, priority ≤ r.priority) ∨
      ∀ r ∈ q.heap, ∀ s ∈ q.heap, r.priority = s.priority)))

/-- The sequence numbers follow the arrivals. -/
structure Numbered (q : PriorityQueue T) : Prop where
  ordered : q.heap.Pairwise fun a b => a.sequence < b.sequence
  fresh : ∀ r ∈ q.heap, r.sequence < q.sequence

variable {q : PriorityQueue T} {heap : List (PrioritizedRequest T)}

theorem cmp_eq_lt_iff {a b : PrioritizedRequest T} :
    a.cmp b = .lt ↔
      a.priority < b.priority ∨ a.priority = b.priority ∧ b.sequence < a.sequence := by
  unfold PrioritizedRequest.cmp
  rcases lt_trichotomy a.priority b.priority with hlt | heq | hgt
  · rw [compare_lt_iff_lt.2 hlt]
    exact iff_of_true rfl (.inl hlt)
  · rw [compare_eq_iff_eq.2 heq, compare_lt_iff_lt]
    exact ⟨fun h => .inr ⟨heq, h⟩, fun h => (h.resolve_left heq.not_lt).2⟩
  · rw [compare_gt_iff_gt.2 hgt]
    refine iff_of_false nofun ?_
    rintro (hlt | ⟨heq, -⟩)
    · exact lt_asymm hlt hgt
    · exact heq.symm.not_lt hgt

/-- The greatest request is the one that is to be served next. -/
theorem exists_greatest (hne : heap ≠ [])
    (hordered : heap.Pairwise fun a b => a.sequence < b.sequence) :
    ∃ g before after, greatest heap = some g ∧ heap = before ++ g :: after ∧
      (∀ b ∈ before, b.priority < g.priority) ∧ ∀ a ∈ after, a.priority ≤ g.priority := by
  induction heap with
  | nil => exact absurd rfl hne
  | cons r rest ih =>
    obtain ⟨hfirst, hrest⟩ := List.pairwise_cons.1 hordered
    by_cases hempty : rest = []
    · rw [hempty]
      exact ⟨r, [], [], rfl, rfl, by simp, by simp⟩
    obtain ⟨g, before, after, hgreatest, rfl, hbefore, hafter⟩ := ih hempty hrest
    unfold greatest
    rw [hgreatest]
    dsimp only
    by_cases hlt : r.priority < g.priority
    · rw [if_pos (cmp_eq_lt_iff.2 (.inl hlt))]
      exact ⟨g, r :: before, after, rfl, rfl, List.forall_mem_cons.2 ⟨hlt, hbefore⟩, hafter⟩
    · have hle : g.priority ≤ r.priority := not_lt.1 hlt
      -- Of two with the same priority the one in front is older.
      have hcmp : ¬ r.cmp g = .lt := by
        rw [cmp_eq_lt_iff, not_or, not_and]
        exact ⟨hlt, fun _ => (hfirst g (by simp)).not_gt⟩
      rw [if_neg hcmp]
      refine ⟨r, [], _, rfl, rfl, by simp, fun a ha => ?_⟩
      rcases List.mem_append.1 ha with ha | ha
      · exact (hbefore a ha).le.trans hle
      · rcases List.mem_cons.1 ha with rfl | ha
        · exact hle
        · exact (hafter a ha).trans hle

theorem eraseP_sequence {before after : List (PrioritizedRequest T)} {g : PrioritizedRequest T}
    (hordered : (before ++ g :: after).Pairwise fun a b => a.sequence < b.sequence) :
    (before ++ g :: after).eraseP (fun r => r.sequence = g.sequence) = before ++ after := by
  have hbefore := (List.pairwise_append.1 hordered).2.2
  rw [List.eraseP_append_right, List.eraseP_cons_of_pos (by simp)]
  intro b hb
  simpa using (hbefore b hb g List.mem_cons_self).ne

/-- `pop` serves the requests by priority and within one in the order of their arrival. -/
theorem pop_spec (hq : q.Numbered) (hne : q.heap ≠ []) :
    ∃ g, greatest q.heap = some g ∧ q.pop.1 = some g ∧ ServedNext q.heap g q.pop.2.heap := by
  have hordered := hq.ordered
  obtain ⟨g, before, after, hgreatest, hheap, hbefore, hafter⟩ := exists_greatest hne hordered
  refine ⟨g, hgreatest, ?_, ⟨before, after, hheap, ?_, hbefore, hafter⟩⟩
  · rw [pop, hgreatest]
  · rw [pop, hgreatest]
    dsimp only
    rw [hheap] at hordered ⊢
    exact eraseP_sequence hordered

theorem priority_le_of_servedNext {r : PrioritizedRequest T}
    {rest : List (PrioritizedRequest T)} (h : ServedNext heap r rest) :
    r ∈ heap ∧ ∀ s ∈ heap, s.priority ≤ r.priority := by
  obtain ⟨before, after, rfl, -, hbefore, hafter⟩ := h
  refine ⟨by simp, fun s hs => ?_⟩
  rcases List.mem_append.1 hs with hs | hs
  · exact (hbefore s hs).le
  · rcases List.mem_cons.1 hs with rfl | hs
    · exact le_rfl
    · exact hafter s hs

theorem sublist_of_servedNext {r : PrioritizedRequest T} {rest : List (PrioritizedRequest T)}
    (h : ServedNext heap r rest) : rest.Sublist heap := by
  obtain ⟨before, after, rfl, rfl, -, -⟩ := h
  exact (List.sublist_cons_self r after).append_left before

theorem numbered_new (maxSize : Nat) : (new maxSize : PriorityQueue T).Numbered :=
  ⟨.nil, by simp [new]⟩

theorem Numbered.add (hq : q.Numbered) (payload : T) (priority : Priority) (now : Nat) :
    (q.add payload priority now).Numbered := by
  constructor
  · refine List.pairwise_append.2 ⟨hq.ordered, List.pairwise_singleton _ _, fun a ha b hb => ?_⟩
    rw [List.mem_singleton.1 hb]
    exact hq.fresh a ha
  · intro r hr
    rcases List.mem_append.1 hr with hr | hr
    · exact Nat.lt_succ_of_lt (hq.fresh r hr)
    · rw [List.mem_singleton.1 hr]
      exact Nat.lt_succ_self q.sequence

theorem Numbered.pop (hq : q.Numbered) : q.pop.2.Numbered := by
  by_cases hne : q.heap = []
  · rwa [PriorityQueue.pop, hne]
  · obtain ⟨g, hgreatest, -, hserved⟩ := pop_spec hq hne
    have hsub := sublist_of_servedNext hserved
    have hsequence : q.pop.2.sequence = q.sequence := by rw [PriorityQueue.pop, hgreatest]
    refine ⟨hq.ordered.sublist hsub, fun r hr => ?_⟩
    rw [hsequence]
    exact hq.fresh r (hsub.subset hr)

theorem Numbered.step (hq : q.Numbered) (c : QueueCall T) : (q.step c).Numbered := by
  cases c with
  | pop => exact hq.pop
  | push payload priority now =>
    change (q.push payload priority now).2.Numbered
    unfold push
    split
    · split
      · split
        · exact hq
        · exact hq.pop.add payload priority now
      · exact hq.add payload priority now
    · exact hq.add payload priority now

theorem contract_pop (hq : q.Numbered) : q.Contract .pop := by
  by_cases hne : q.heap = []
  · refine .inl ⟨hne, ?_, ?_⟩
    · rw [pop, hne]
      rfl
    · rw [pop, hne]
      exact hne
  · obtain ⟨g, -, hpop, hserved⟩ := pop_spec hq hne
    exact .inr ⟨g, hpop, hserved⟩

theorem not_contract_push_empty {payload : T} {priority : Priority} {now : Nat}
    (hfull : q.maxSize ≤ q.heap.length) (hempty : q.heap = []) :
    ¬ q.Contract (.push payload priority now) := by
  have hpush : (q.push payload priority now).1 = none := by
    rw [push, if_pos hfull, hempty]
    rfl
  rw [Contract, if_pos hfull, hpush]
  rintro (⟨hrejected, -⟩ | ⟨-, rest, ⟨before, victim, after, hheap, -⟩, -⟩)
  · cases hrejected
  · rw [hempty] at hheap
    exact absurd hheap.symm (by simp)

theorem priority_le_of_displaced {g : PrioritizedRequest T} {rest : List (PrioritizedRequest T)}
    (hserved : ServedNext heap g rest) (hdisplaced : Displaced heap rest) :
    ∀ r ∈ heap, g.priority ≤ r.priority := by
  obtain ⟨before, after, rfl, rfl, -, -⟩ := hserved
  obtain ⟨before', victim, after', hheap, hrest, hlowest⟩ := hdisplaced
  -- Both splits leave the same requests, so they take out the same one.
  have hserve : (before ++ g :: after).Perm (g :: (before ++ after)) := List.perm_middle
  have hdrop : (before ++ g :: after).Perm (victim :: (before ++ after)) := by
    rw [hheap, hrest]
    exact List.perm_middle
  have hsame : g ::ₘ ((before ++ after : List _) : Multiset (PrioritizedRequest T)) =
      victim ::ₘ ((before ++ after : List _) : Multiset (PrioritizedRequest T)) :=
    Multiset.coe_eq_coe.2 (hserve.symm.trans hdrop)
  have hpriority := congrArg PrioritizedRequest.priority ((Multiset.cons_inj_left _).1 hsame)
  exact fun r hr => hpriority.le.trans (hlowest r (hheap ▸ hr))

/-- With a full queue all is well if the request that is served next may as well be the victim. -/
theorem contract_push_full_iff (hq : q.Numbered) {payload : T} {priority : Priority} {now : Nat}
    (hfull : q.maxSize ≤ q.heap.length) (hne : q.heap ≠ []) :
    q.Contract (.push payload priority now) ↔
      (∀ r ∈ q.heap, priority ≤ r.priority) ∨
        ∀ r ∈ q.heap, ∀ s ∈ q.heap, r.priority = s.priority := by
  obtain ⟨g, hgreatest, -, hserved⟩ := pop_spec hq hne
  obtain ⟨hg, hhighest⟩ := priority_le_of_servedNext hserved
  rw [Contract, if_pos hfull]
  by_cases hle : priority ≤ g.priority
  · have hpush : q.push payload priority now = (some payload, q) := by
      rw [push, if_pos hfull, hgreatest]
      exact if_pos hle
    rw [hpush]
    constructor
    · rintro (⟨-, -, hall⟩ | ⟨haccepted, -⟩)
      · exact .inl hall
      · cases haccepted
    · rintro (hall | hsame)
      · exact .inl ⟨rfl, rfl, hall⟩
      · exact .inl ⟨rfl, rfl, fun r hr => hle.trans_eq (hsame g hg r hr)⟩
  · have hpush : q.push payload priority now = (none, q.pop.2.add payload priority now) := by
      rw [push, if_pos hfull, hgreatest]
      exact if_neg hle
    have hrequest : q.pop.2.request payload priority now = q.request payload priority now := by
      rw [pop, hgreatest]
      rfl
    rw [hpush]
    constructor
    · rintro (⟨hrejected, -⟩ | ⟨-, rest, hdisplaced, hheap⟩)
      · cases hrejected
      · -- What is dropped is the greatest request, so all have its priority.
        have hheap : q.pop.2.heap ++ [q.pop.2.request payload priority now] =
            rest ++ [q.request payload priority now] := hheap
        obtain ⟨rfl, -⟩ := List.append_inj' hheap rfl
        have hlowest := priority_le_of_displaced hserved hdisplaced
        have hsame (r : PrioritizedRequest T) (hr : r ∈ q.heap) : r.priority = g.priority :=
          le_antisymm (hhighest r hr) (hlowest r hr)
        exact .inr fun r hr s hs => (hsame r hr).trans (hsame s hs).symm
    · rintro (hall | hsame)
      · exact absurd (hall g hg) hle
      · obtain ⟨before, after, hheap, hrest, -, -⟩ := hserved
        refine .inr ⟨rfl, q.pop.2.heap, ⟨before, g, after, hheap, hrest, fun r hr => ?_⟩, ?_⟩
        · exact (hsame g hg r hr).le
        · rw [← hrequest]
          rfl

theorem contract_iff (hq : q.Numbered) (c : QueueCall T) : q.Contract c ↔ q.KeepsHighest c := by
  cases c with
  | pop => exact iff_of_true (contract_pop hq) trivial
  | push payload priority now =>
    by_cases hfull : q.maxSize ≤ q.heap.length
    · by_cases hne : q.heap = []
      · refine iff_of_false (not_contract_push_empty hfull hne) fun h => ?_
        exact (h hfull).1 hne
      · rw [contract_push_full_iff hq hfull hne]
        exact ⟨fun h _ => ⟨hne, h⟩, fun h => (h hfull).2⟩
    · refine iff_of_true ?_ fun h => absurd h hfull
      rw [Contract, if_neg hfull, push, if_neg hfull]
      exact ⟨rfl, rfl⟩

/-- In a run every call keeps the contract exactly if every push to a full queue finds a request
that it may drop, none of lower priority or all of one. -/
theorem priority_queue_contract_iff (maxSize : Nat) (calls : List (QueueCall T)) :
    AllSteps step Contract (new maxSize) calls ↔
      AllSteps step KeepsHighest (new maxSize) calls := by
  constructor
  · intro h
    exact allSteps_of_invariant (fun (q : PriorityQueue T) c (_ : q.Contract c) hq => hq.step c)
      (fun q c hcontract hq => (contract_iff hq c).1 hcontract) (numbered_new maxSize) h
  · intro h
    exact allSteps_of_invariant
      (fun (q : PriorityQueue T) c (_ : q.KeepsHighest c) hq => hq.step c)
      (fun q c hkeeps hq => (contract_iff hq c).2 hkeeps) (numbered_new maxSize) h

/-- The request that is dropped for the third one has the normal priority and not the low one. -/
theorem full_queue_drops_normal :
    ((run step (new 2) [.push 1 .low 0, .push 2 .normal 0, .push 3 .high 0]).heap.map
        PrioritizedRequest.payload) = [1, 3] ∧
      ¬ AllSteps step Contract (new 2)
        [.push 1 .low 0, .push 2 .normal 0, .push 3 .high 0] := by
  refine ⟨by decide, fun h => ?_⟩
  have hnumbered : (step (step (new 2) (.push 1 .low 0)) (.push 2 .normal 0)).Numbered :=
    ((numbered_new 2).step _).step _
  have hkeeps := (contract_iff hnumbered (.push 3 .high 0)).1 h.2.2.1
  revert hkeeps
  decide

end PriorityQueue

end Conproxy
