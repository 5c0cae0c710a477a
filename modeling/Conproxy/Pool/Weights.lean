import Conproxy.Lib.Shares
import Conproxy.Pool.Live

/-!
# Weighted balancing

`select_weighted` reduces the counter by the sum of the weights and looks for the share that it
falls into. While the counter does not wrap, as many calls as the sum choose every upstream as often
as its weight says.
-/

namespace Conproxy

set_option autoImplicit false

open LoadBalanceStrategy (weightedAt)

namespace LivePool

/-- The sum of the weights, not cut off. -/
def weightSum (available : List LiveUpstream) : Nat := (available.map LiveUpstream.weight).sum

/-- The place of the upstream that the loop over the weights returns. -/
def weightedPlace (index : Nat) : List LiveUpstream → Nat → Option Nat
  | [], _ => none
  | u :: rest, accumulated =>
    let accumulated := min (accumulated + u.weight) (2 ^ 32 - 1)
    if index < accumulated then some 0 else (weightedPlace index rest accumulated).map (· + 1)

/-- What consecutive calls of `select_weighted` return. -/
def weightedCalls (available : List LiveUpstream) : LivePool → Nat → List (Option LiveUpstream)
  | _, 0 => []
  | pool, calls + 1 =>
    (pool.selectWeighted available).1 ::
      weightedCalls available (pool.selectWeighted available).2 calls

/-- The places that these calls choose. -/
def weightedPlaces (available : List LiveUpstream) : LivePool → Nat → List (Option Nat)
  | _, 0 => []
  | pool, calls + 1 =>
    weightedPlace (pool.currentIndex % 2 ^ 32 % totalWeight available) available 0 ::
      weightedPlaces available (pool.selectWeighted available).2 calls

variable {available : List LiveUpstream} {pool : LivePool}

theorem foldl_saturating {weights : List Nat} {total : Nat} (h : total + weights.sum < 2 ^ 32) :
    weights.foldl (fun a b => min (a + b) (2 ^ 32 - 1)) total = total + weights.sum := by
  induction weights generalizing total with
  | nil => rfl
  | cons weight rest ih =>
    rw [List.sum_cons] at h ⊢
    rw [List.foldl_cons, Nat.min_eq_left (by omega), ih (by omega), Nat.add_assoc]

theorem totalWeight_eq (h : weightSum available < 2 ^ 32) :
    totalWeight available = weightSum available := by
  rw [totalWeight, LoadBalanceStrategy.totalWeight, foldl_saturating (by rwa [Nat.zero_add]),
    Nat.zero_add]
  rfl

theorem weightedPlace_eq (available : List LiveUpstream) (index accumulated : Nat)
    (h : accumulated + weightSum available < 2 ^ 32) (hle : accumulated ≤ index) :
    weightedPlace index available accumulated =
      Shares.place (available.map LiveUpstream.weight) (index - accumulated) := by
  induction available generalizing accumulated with
  | nil => rfl
  | cons u rest ih =>
    have hsum : weightSum (u :: rest) = u.weight + weightSum rest := List.sum_cons
    rw [hsum] at h
    rw [weightedPlace, List.map_cons, Shares.place, Nat.min_eq_left (by omega)]
    by_cases hlt : index < accumulated + u.weight
    · rw [if_pos hlt, if_pos (by omega)]
    · rw [if_neg hlt, if_neg (by omega), ih _ (by omega) (by omega), Nat.sub_sub]

theorem weightedAt_eq_bind (index : Nat) (available : List LiveUpstream) (accumulated : Nat) :
    weightedAt LiveUpstream.weight index available accumulated =
      (weightedPlace index available accumulated).bind fun i => available[i]? := by
  induction available generalizing accumulated with
  | nil => rfl
  | cons u rest ih =>
    rw [weightedAt, weightedPlace]
    split
    · rfl
    · rw [ih]
      cases weightedPlace index rest (min (accumulated + u.weight) (2 ^ 32 - 1)) <;> rfl

theorem selectWeighted_eq (hpos : 0 < weightSum available) (hlt : weightSum available < 2 ^ 32) :
    pool.selectWeighted available =
      ((weightedPlace (pool.currentIndex % 2 ^ 32 % totalWeight available) available 0).bind
        fun i => available[i]?, pool.advance) := by
  have hne : available ≠ [] := by
    rintro rfl
    exact absurd hpos (Nat.lt_irrefl 0)
  have htotal : ¬ LoadBalanceStrategy.totalWeight LiveUpstream.weight available = 0 := by
    rw [← totalWeight, totalWeight_eq hlt]
    exact hpos.ne'
  have hselect : pool.selectWeighted available =
      ((weightedAt LiveUpstream.weight (pool.currentIndex % 2 ^ 32 % totalWeight available)
        available 0).or available.getLast?, pool.advance) := by
    rw [selectWeighted, LoadBalanceStrategy.selectWeighted, if_neg (by rwa [List.isEmpty_iff]),
      if_neg htotal]
    rfl
  rw [hselect, weightedAt_eq_bind]
  -- The index is below the sum, so the loop finds a share and there is no fallback.
  have hindex : pool.currentIndex % 2 ^ 32 % totalWeight available < weightSum available := by
    rw [totalWeight_eq hlt]
    exact Nat.mod_lt _ hpos
  have hplace := weightedPlace_eq available
    (pool.currentIndex % 2 ^ 32 % totalWeight available) 0 (by omega) (Nat.zero_le _)
  rw [Nat.sub_zero] at hplace
  obtain ⟨i, hi⟩ := Shares.exists_place hindex
  rw [hplace, hi, Option.bind_some]
  have hin : i < available.length := by
    have hlength := Shares.lt_length_of_place hi
    rwa [List.length_map] at hlength
  rw [List.getElem?_eq_getElem hin]
  rfl

theorem weightedCalls_eq (hpos : 0 < weightSum available) (hlt : weightSum available < 2 ^ 32)
    (pool : LivePool) (calls : Nat) :
    weightedCalls available pool calls =
      (weightedPlaces available pool calls).map fun place => place.bind fun i => available[i]? := by
  induction calls generalizing pool with
  | zero => rfl
  | succ calls ih =>
    rw [weightedCalls, weightedPlaces, List.map_cons, ← ih, selectWeighted_eq hpos hlt]

/-- While the counter stays in its block, the calls look at consecutive numbers. -/
theorem weightedPlaces_eq (hpos : 0 < weightSum available) (hlt : weightSum available < 2 ^ 32)
    (pool : LivePool) (calls : Nat) (hwindow : pool.currentIndex % 2 ^ 32 + calls ≤ 2 ^ 32) :
    weightedPlaces available pool calls =
      (List.range calls).map fun k =>
        Shares.place (available.map LiveUpstream.weight)
          ((pool.currentIndex % 2 ^ 32 + k) % weightSum available) := by
  induction calls generalizing pool with
  | zero => rfl
  | succ calls ih =>
    have hplace (index : Nat) := weightedPlace_eq available index 0
      (by rwa [Nat.zero_add]) (Nat.zero_le _)
    rw [weightedPlaces, hplace, Nat.sub_zero, totalWeight_eq hlt, selectWeighted_eq hpos hlt,
      List.range_succ_eq_map, List.map_cons, List.map_map, Nat.add_zero]
    refine congrArg _ ?_
    cases calls with
    | zero => rfl
    | succ calls =>
      have hnext : pool.advance.currentIndex % 2 ^ 32 = pool.currentIndex % 2 ^ 32 + 1 := by
        change (pool.currentIndex + 1) % 2 ^ 64 % 2 ^ 32 = _
        omega
      rw [ih pool.advance (by omega), hnext]
      refine List.map_congr_left fun k _ => ?_
      rw [Function.comp_apply, Nat.succ_eq_one_add, ← Nat.add_assoc]

/-- As many consecutive calls as the sum of the weights, with a counter that stays between two
multiples of `2 ^ 32`, choose each upstream as often as its weight says. -/
theorem weighted_proportional (available : List LiveUpstream) (pool : LivePool)
    (hpos : 0 < weightSum available) (hlt : weightSum available < 2 ^ 32)
    (hwindow : pool.currentIndex % 2 ^ 32 + weightSum available ≤ 2 ^ 32) :
    weightedCalls available pool (weightSum available) =
        (weightedPlaces available pool (weightSum available)).map
          (fun place => place.bind fun i => available[i]?) ∧
      ∀ i u, available[i]? = some u →
        (weightedPlaces available pool (weightSum available)).count (some i) = u.weight := by
  refine ⟨weightedCalls_eq hpos hlt pool _, fun i u hu => ?_⟩
  have hcount := Shares.count_place_window (available.map LiveUpstream.weight)
    (pool.currentIndex % 2 ^ 32) i
  rw [List.getD_eq_getElem?_getD, List.getElem?_map, hu] at hcount
  rw [weightedPlaces_eq hpos hlt pool _ hwindow, List.count, List.countP_map]
  refine (List.countP_congr fun k _ => ?_).trans hcount
  rw [Function.comp_apply, beq_iff_eq, decide_eq_true_eq]
  rfl

def weightedEndpoint (id : String) (weight : Nat) : UpstreamEndpointConfig :=
  { UpstreamEndpointConfig.ofUrl id "http://localhost" with weight := some weight }

/-- The window begins inside a round. -/
def threeWeights : LivePool :=
  { new false (["a", "b", "c"].zipWith weightedEndpoint [2, 0, 1]) .weighted with
    currentIndex := 4 }

theorem three_weights_proportional :
    (weightedPlaces threeWeights.upstreams threeWeights 3).count (some 0) = 2 ∧
      (weightedPlaces threeWeights.upstreams threeWeights 3).count (some 1) = 0 := by
  have hcount := (weighted_proportional threeWeights.upstreams threeWeights (by decide)
    (by decide) (by decide)).2
  exact ⟨hcount 0 (.new false (weightedEndpoint "a" 2)) rfl,
    hcount 1 (.new false (weightedEndpoint "b" 0)) rfl⟩

end LivePool

end Conproxy
