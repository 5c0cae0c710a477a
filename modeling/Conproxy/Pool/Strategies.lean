import Mathlib.Algebra.Ring.Nat
import Mathlib.Data.List.Sort

/-!
# Load balancing

The selections of `UpstreamPool` in `pool.rs` by strategy. They are over any kind of upstream,
given by what they read of one. Next to the upstream a selection returns the counter, which only
the strategies that draw advance.
-/

namespace Conproxy

set_option autoImplicit false

inductive LoadBalanceStrategy where
  | roundRobin
  | weighted
  | random
  | failover
deriving DecidableEq

/-- What a selection reads of an upstream. -/
structure UpstreamReads (α : Type) where
  weight : α → Nat
  priority : α → Nat
  isAvailable : α → Bool
  isHealthy : α → Bool

def UpstreamReads.comap {α β : Type} (r : UpstreamReads β) (f : α → β) : UpstreamReads α :=
  ⟨r.weight ∘ f, r.priority ∘ f, r.isAvailable ∘ f, r.isHealthy ∘ f⟩

namespace LoadBalanceStrategy

variable {α β : Type}

def fetchAdd (counter : Nat) : Nat := (counter + 1) % 2 ^ 64

def selectRoundRobin (counter : Nat) (available : List α) : Option α × Nat :=
  if available.isEmpty then (none, counter)
  else (available[counter % available.length]?, fetchAdd counter)

def totalWeight (weight : α → Nat) (available : List α) : Nat :=
  (available.map weight).foldl (fun a b => min (a + b) (2 ^ 32 - 1)) 0

/-- The loop over the accumulated weights. -/
def weightedAt (weight : α → Nat) (index : Nat) : List α → Nat → Option α
  | [], _ => none
  | u :: rest, accumulated =>
    let accumulated := min (accumulated + weight u) (2 ^ 32 - 1)
    if index < accumulated then some u else weightedAt weight index rest accumulated

def selectWeighted (weight : α → Nat) (counter : Nat) (available : List α) : Option α × Nat :=
  if available.isEmpty then (none, counter)
  else if totalWeight weight available = 0 then selectRoundRobin counter available
  else
    let index := counter % 2 ^ 32 % totalWeight weight available
    ((weightedAt weight index available 0).or available.getLast?, fetchAdd counter)

def selectRandom (counter : Nat) (available : List α) : Option α × Nat :=
  if available.isEmpty then (none, counter)
  else (available[counter * 2654435761 % 2 ^ 64 % available.length]?, fetchAdd counter)

def upstreamsByPriority (priority : α → Nat) (upstreams : List α) : List α :=
  upstreams.insertionSort fun a b => priority a ≤ priority b

def selectFailover (r : UpstreamReads α) (upstreams : List α) : Option α :=
  let sorted := upstreamsByPriority r.priority upstreams
  (sorted.find? fun u => r.isAvailable u && r.isHealthy u).or (sorted.find? r.isAvailable)

def selectFromAvailable (strategy : LoadBalanceStrategy) (r : UpstreamReads α) (counter : Nat)
    (upstreams available : List α) : Option α × Nat :=
  if available.isEmpty then (none, counter)
  else
    match strategy with
    | .roundRobin => selectRoundRobin counter available
    | .weighted => selectWeighted r.weight counter available
    | .random => selectRandom counter available
    | .failover => (selectFailover r upstreams, counter)

variable {r : UpstreamReads α} {weight priority : α → Nat} {strategy : LoadBalanceStrategy}
  {counter : Nat} {upstreams available : List α} {u : α}

theorem mem_upstreamsByPriority :
    u ∈ upstreamsByPriority priority upstreams ↔ u ∈ upstreams := List.mem_insertionSort _

theorem weightedAt_mem {index accumulated : Nat}
    (h : weightedAt weight index available accumulated = some u) : u ∈ available := by
  induction available generalizing accumulated with
  | nil => cases h
  | cons v rest ih =>
    unfold weightedAt at h
    dsimp only at h
    split at h
    · rw [Option.some.inj h]
      exact List.mem_cons_self
    · exact List.mem_cons_of_mem _ (ih h)

theorem exists_roundRobin (counter : Nat) (havailable : available ≠ []) :
    ∃ u ∈ available, (selectRoundRobin counter available).1 = some u := by
  have hlt := Nat.mod_lt counter (List.length_pos_of_ne_nil havailable)
  refine ⟨_, List.getElem_mem hlt, ?_⟩
  rw [selectRoundRobin, if_neg (by rwa [List.isEmpty_iff])]
  exact List.getElem?_eq_getElem hlt

theorem exists_weighted (weight : α → Nat) (counter : Nat) (havailable : available ≠ []) :
    ∃ u ∈ available, (selectWeighted weight counter available).1 = some u := by
  rw [selectWeighted, if_neg (by rwa [List.isEmpty_iff])]
  split
  · exact exists_roundRobin counter havailable
  · dsimp only
    cases hfound : weightedAt weight (counter % 2 ^ 32 % totalWeight weight available)
        available 0 with
    | some u => exact ⟨u, weightedAt_mem hfound, rfl⟩
    | none => exact ⟨_, List.getLast_mem havailable, List.getLast?_eq_some_getLast havailable⟩

theorem exists_random (counter : Nat) (havailable : available ≠ []) :
    ∃ u ∈ available, (selectRandom counter available).1 = some u := by
  have hlt := Nat.mod_lt (counter * 2654435761 % 2 ^ 64) (List.length_pos_of_ne_nil havailable)
  refine ⟨_, List.getElem_mem hlt, ?_⟩
  rw [selectRandom, if_neg (by rwa [List.isEmpty_iff])]
  exact List.getElem?_eq_getElem hlt

variable (r counter upstreams) in
/-- Every strategy but failover draws from the list that it is given. -/
theorem exists_selected (hstrategy : strategy ≠ .failover) (havailable : available ≠ []) :
    ∃ u ∈ available,
      (strategy.selectFromAvailable r counter upstreams available).1 = some u := by
  unfold selectFromAvailable
  rw [if_neg (by rwa [List.isEmpty_iff])]
  cases strategy with
  | roundRobin => exact exists_roundRobin counter havailable
  | weighted => exact exists_weighted r.weight counter havailable
  | random => exact exists_random counter havailable
  | failover => exact absurd rfl hstrategy

theorem selectFailover_mem (h : selectFailover r upstreams = some u) :
    u ∈ upstreams.filter r.isAvailable := by
  have hsorted {p : α → Bool} (hp : ∀ v, p v = true → r.isAvailable v = true)
      (hfind : (upstreamsByPriority r.priority upstreams).find? p = some u) :
      u ∈ upstreams.filter r.isAvailable :=
    List.mem_filter.2
      ⟨mem_upstreamsByPriority.1 (List.mem_of_find?_eq_some hfind), hp u (List.find?_some hfind)⟩
  rcases Option.or_eq_some_iff.1 h with hfirst | ⟨-, hsecond⟩
  · refine hsorted (fun v hv => ?_) hfirst
    rw [Bool.and_eq_true] at hv
    exact hv.1
  · exact hsorted (fun v hv => hv) hsecond

/-- What is selected is in the given list, or under failover in the list of those available. -/
theorem selectFromAvailable_mem
    (h : (strategy.selectFromAvailable r counter upstreams available).1 = some u) :
    u ∈ available ∨ u ∈ upstreams.filter r.isAvailable := by
  by_cases havailable : available = []
  · rw [havailable] at h
    cases h
  by_cases hstrategy : strategy = .failover
  · unfold selectFromAvailable at h
    rw [if_neg (by rwa [List.isEmpty_iff]), hstrategy] at h
    exact .inr (selectFailover_mem h)
  · obtain ⟨v, hv, hselected⟩ := exists_selected r counter upstreams hstrategy havailable
    rw [h] at hselected
    rw [Option.some.inj hselected]
    exact .inl hv

theorem selectRoundRobin_map (f : β → α) (counter : Nat) (available : List β) :
    selectRoundRobin counter (available.map f) =
      (selectRoundRobin counter available).map (.map f) id := by
  unfold selectRoundRobin
  rw [List.isEmpty_map, List.length_map, List.getElem?_map]
  split
  · rfl
  · rfl

theorem weightedAt_map (f : β → α) (index : Nat) (available : List β) (accumulated : Nat) :
    weightedAt weight index (available.map f) accumulated =
      (weightedAt (weight ∘ f) index available accumulated).map f := by
  induction available generalizing accumulated with
  | nil => rfl
  | cons u rest ih =>
    rw [List.map_cons, weightedAt, weightedAt, ih]
    dsimp only [Function.comp_apply]
    split
    · rfl
    · rfl

theorem selectWeighted_map (weight : α → Nat) (f : β → α) (counter : Nat) (available : List β) :
    selectWeighted weight counter (available.map f) =
      (selectWeighted (weight ∘ f) counter available).map (.map f) id := by
  have htotal : totalWeight weight (available.map f) = totalWeight (weight ∘ f) available := by
    rw [totalWeight, totalWeight, List.map_map]
  unfold selectWeighted
  rw [List.isEmpty_map, htotal]
  split
  · rfl
  · split
    · exact selectRoundRobin_map f counter available
    · dsimp only
      rw [weightedAt_map, List.getLast?_map, ← Option.map_or]
      rfl

theorem selectRandom_map (f : β → α) (counter : Nat) (available : List β) :
    selectRandom counter (available.map f) =
      (selectRandom counter available).map (.map f) id := by
  unfold selectRandom
  rw [List.isEmpty_map, List.length_map, List.getElem?_map]
  split
  · rfl
  · rfl

theorem selectFailover_map (f : β → α) (upstreams : List β) :
    selectFailover r (upstreams.map f) = (selectFailover (r.comap f) upstreams).map f := by
  have hsorted : upstreamsByPriority r.priority (upstreams.map f) =
      (upstreamsByPriority (r.priority ∘ f) upstreams).map f :=
    (List.map_insertionSort _ _ f upstreams fun _ _ _ _ => Iff.rfl).symm
  rw [selectFailover, selectFailover, hsorted, List.find?_map, List.find?_map, Option.map_or]
  rfl

/-- Upstreams that are read through a map are selected like their images. -/
theorem selectFromAvailable_map (strategy : LoadBalanceStrategy) (f : β → α) (counter : Nat)
    (upstreams available : List β) :
    strategy.selectFromAvailable r counter (upstreams.map f) (available.map f) =
      (strategy.selectFromAvailable (r.comap f) counter upstreams available).map (.map f) id := by
  unfold selectFromAvailable
  rw [List.isEmpty_map]
  split
  · rfl
  · cases strategy with
    | roundRobin => exact selectRoundRobin_map f counter available
    | weighted => exact selectWeighted_map r.weight f counter available
    | random => exact selectRandom_map f counter available
    | failover =>
      dsimp only
      rw [selectFailover_map]
      rfl

end LoadBalanceStrategy

end Conproxy
