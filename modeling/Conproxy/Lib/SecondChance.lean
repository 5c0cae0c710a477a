import Mathlib.Logic.Function.Basic
import Mathlib.Data.List.Count
import Mathlib.Data.List.TakeWhile

/-!
# Scans that give a second chance

A scan goes over the slots of a queue, oldest first. A slot whose key has left is skipped, the
slot of a warm key cools the key and is passed over, and the first slot of a cold key is the
victim. The heat of a key is `none` if the key has left, `some 0` if it is cold.
-/

namespace SecondChance

set_option autoImplicit false

universe u

variable {κ : Type u} [DecidableEq κ]

def victim (heat : κ → Option Nat) : List κ → Option κ
  | [] => none
  | k :: rest =>
    match heat k with
    | none => victim heat rest
    | some 0 => some k
    | some (_ + 1) => victim (Function.update heat k (some 0)) rest

/-- The heat after a scan that has found no victim among the slots. -/
def cooled (heat : κ → Option Nat) (slots : List κ) (k : κ) : Option Nat :=
  if k ∈ slots then (heat k).map fun _ => 0 else heat k

variable {heat : κ → Option Nat} {slots : List κ} {k : κ}

theorem victim_of_none (h : heat k = none) : victim heat (k :: slots) = victim heat slots := by
  simp only [victim, h]

theorem victim_of_cold (h : heat k = some 0) : victim heat (k :: slots) = some k := by
  simp only [victim, h]

theorem victim_of_warm {n : Nat} (h : heat k = some n) (hn : n ≠ 0) :
    victim heat (k :: slots) = victim (Function.update heat k (some 0)) slots := by
  obtain ⟨n, rfl⟩ := Nat.exists_eq_succ_of_ne_zero hn
  simp only [victim, h]

@[simp] theorem cooled_nil (heat : κ → Option Nat) : cooled heat [] = heat := by
  funext k
  simp [cooled]

theorem cooled_of_notMem (h : k ∉ slots) : cooled heat slots k = heat k := if_neg h

theorem isSome_cooled (heat : κ → Option Nat) (slots : List κ) (k : κ) :
    (cooled heat slots k).isSome = (heat k).isSome := by
  unfold cooled
  split
  · simp
  · rfl

theorem cooled_cons_of_none (h : heat k = none) :
    cooled heat (k :: slots) = cooled heat slots := by
  funext j
  by_cases hj : j = k
  · subst hj
    simp [cooled, h]
  · simp [cooled, hj]

theorem cooled_cons_of_some {n : Nat} (h : heat k = some n) :
    cooled heat (k :: slots) = cooled (Function.update heat k (some 0)) slots := by
  funext j
  by_cases hj : j = k
  · subst hj
    simp [cooled, h]
  · simp [cooled, hj]

theorem victim_append (heat : κ → Option Nat) (slots rest : List κ) :
    victim heat (slots ++ rest) =
      match victim heat slots with
      | some k => some k
      | none => victim (cooled heat slots) rest := by
  induction slots generalizing heat with
  | nil => simp [victim]
  | cons k slots ih =>
    rw [List.cons_append]
    cases hk : heat k with
    | none => rw [victim_of_none hk, victim_of_none hk, cooled_cons_of_none hk, ih]
    | some n =>
      by_cases hn : n = 0
      · subst hn
        rw [victim_of_cold hk, victim_of_cold hk]
      · rw [victim_of_warm hk hn, victim_of_warm hk hn, cooled_cons_of_some hk, ih]

theorem victim_append_of_some {rest : List κ} (h : victim heat slots = some k) :
    victim heat (slots ++ rest) = some k := by
  rw [victim_append, h]

theorem victim_append_of_none {rest : List κ} (h : victim heat slots = none) :
    victim heat (slots ++ rest) = victim (cooled heat slots) rest := by
  rw [victim_append, h]

/-- Nothing is evicted exactly if every key that is there is warm and has one slot. -/
theorem victim_eq_none_iff (heat : κ → Option Nat) (slots : List κ) :
    victim heat slots = none ↔
      ∀ k ∈ slots, ∀ n, heat k = some n → n ≠ 0 ∧ slots.count k = 1 := by
  induction slots generalizing heat with
  | nil => simp [victim]
  | cons k slots ih =>
    cases hk : heat k with
    | none =>
      have hne (j : κ) (n : Nat) (hn : heat j = some n) : k ≠ j := by
        rintro rfl
        rw [hk] at hn
        cases hn
      rw [victim_of_none hk, ih]
      constructor
      · intro h j hj n hn
        rw [List.count_cons_of_ne (hne j n hn)]
        exact h j ((List.mem_cons.mp hj).resolve_left (hne j n hn).symm) n hn
      · intro h j hj n hn
        rw [← List.count_cons_of_ne (hne j n hn)]
        exact h j (List.mem_cons_of_mem _ hj) n hn
    | some n =>
      by_cases hn : n = 0
      · subst hn
        rw [victim_of_cold hk]
        refine iff_of_false (by simp) fun h => ?_
        exact (h k List.mem_cons_self 0 hk).1 rfl
      · rw [victim_of_warm hk hn, ih]
        constructor
        · intro h
          have hnew : k ∉ slots := fun hmem => (h k hmem 0 (Function.update_self ..)).1 rfl
          intro j hj m hm
          by_cases hne : j = k
          · subst hne
            rw [hk] at hm
            cases hm
            exact ⟨hn, by rw [List.count_cons_self, List.count_eq_zero_of_not_mem hnew]⟩
          · rw [List.count_cons_of_ne (Ne.symm hne)]
            exact h j ((List.mem_cons.mp hj).resolve_left hne) m
              (by rw [Function.update_of_ne hne, hm])
        · intro h
          have hcount := (h k List.mem_cons_self n hk).2
          rw [List.count_cons_self] at hcount
          have hnew : k ∉ slots := List.count_eq_zero.mp (by omega)
          intro j hj m hm
          have hne : j ≠ k := by
            rintro rfl
            exact hnew hj
          rw [Function.update_of_ne hne] at hm
          rw [← List.count_cons_of_ne hne.symm]
          exact h j (List.mem_cons_of_mem _ hj) m hm

theorem victim_mem (h : victim heat slots = some k) : k ∈ slots ∧ (heat k).isSome = true := by
  induction slots generalizing heat with
  | nil => cases h
  | cons j slots ih =>
    cases hj : heat j with
    | none =>
      rw [victim_of_none hj] at h
      exact ⟨List.mem_cons_of_mem _ (ih h).1, (ih h).2⟩
    | some n =>
      by_cases hn : n = 0
      · subst hn
        rw [victim_of_cold hj] at h
        cases h
        exact ⟨List.mem_cons_self, by rw [hj]; rfl⟩
      · rw [victim_of_warm hj hn] at h
        obtain ⟨hmem, hsome⟩ := ih h
        refine ⟨List.mem_cons_of_mem _ hmem, ?_⟩
        by_cases hk : k = j
        · rw [hk, hj]
          rfl
        · rwa [Function.update_of_ne hk] at hsome

theorem victim_append_cold {rest : List κ} (h : heat k = some 0) (hk : k ∉ slots) :
    victim heat (slots ++ k :: rest) = some ((victim heat slots).getD k) := by
  cases hv : victim heat slots with
  | some j => rw [victim_append_of_some hv, Option.getD_some]
  | none =>
    rw [victim_append_of_none hv, victim_of_cold, Option.getD_none]
    rw [cooled_of_notMem hk, h]

omit [DecidableEq κ] in
theorem append_singleton_eq (stop : κ → Bool) (slots : List κ) (hk : stop k = true) :
    ∃ j rest, stop j = true ∧
      slots ++ [k] = (slots.takeWhile fun i => !stop i) ++ j :: rest := by
  induction slots with
  | nil => exact ⟨k, [], hk, rfl⟩
  | cons i slots ih =>
    cases hi : stop i with
    | true => exact ⟨i, slots ++ [k], hi, by simp [hi]⟩
    | false =>
      obtain ⟨j, rest, hj, heq⟩ := ih
      exact ⟨j, rest, hj, by simp [hi, heq]⟩

theorem victim_eq_self_iff (h : heat k = some 0) (slots : List κ) :
    victim heat (slots ++ [k]) = some k ↔
      victim heat (slots.takeWhile fun i => !decide (i = k)) = none := by
  obtain ⟨j, rest, hj, heq⟩ := append_singleton_eq (k := k) (fun i => decide (i = k)) slots
    (by simp)
  obtain rfl : j = k := by simpa using hj
  have hnew : j ∉ slots.takeWhile fun i => !decide (i = j) := by
    intro hmem
    simpa using List.mem_takeWhile_imp hmem
  rw [heq, victim_append_cold h hnew]
  cases hv : victim heat (slots.takeWhile fun i => !decide (i = j)) with
  | none => simp
  | some v =>
    have hne : v ≠ j := by
      rintro rfl
      exact hnew (victim_mem hv).1
    simp [hne]

/-- The victim was cold from the start exactly if no warm key is met twice before the first cold
one. -/
theorem victim_cold_iff (h : heat k = some 0) (slots : List κ) :
    (∀ v, victim heat (slots ++ [k]) = some v → heat v = some 0) ↔
      victim heat (slots.takeWhile fun i => !decide (heat i = some 0)) = none := by
  obtain ⟨j, rest, hj, heq⟩ := append_singleton_eq (k := k) (fun i => decide (heat i = some 0))
    slots (by simp [h])
  have hcold : heat j = some 0 := by simpa using hj
  have hwarm (i : κ) (hi : i ∈ slots.takeWhile fun i => !decide (heat i = some 0)) :
      heat i ≠ some 0 := by
    simpa using List.mem_takeWhile_imp hi
  have hnew : j ∉ slots.takeWhile fun i => !decide (heat i = some 0) :=
    fun hmem => hwarm j hmem hcold
  rw [heq, victim_append_cold hcold hnew]
  cases hv : victim heat (slots.takeWhile fun i => !decide (heat i = some 0)) with
  | none => simp [hcold]
  | some v => simpa using hwarm v (victim_mem hv).1

end SecondChance
