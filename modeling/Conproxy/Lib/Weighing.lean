import Mathlib.Data.List.Infix

/-!
# Prefixes of a given weight

Every item of a list has a weight. When no item is weightless, a list has at most one prefix of
a given weight, and `takeWeight` finds it.
-/

namespace Weighing

set_option autoImplicit false

universe u

variable {α : Type u} (w : α → Nat)

def weight : List α → Nat
  | [] => 0
  | a :: as => w a + weight as

/-- The prefix that weighs exactly `n`, if there is one. -/
def takeWeight : Nat → List α → Option (List α)
  | n, [] => if n = 0 then some [] else none
  | n, a :: as =>
    if n = 0 then some []
    else if w a ≤ n then (takeWeight (n - w a) as).map (a :: ·) else none

@[simp] theorem weight_nil : weight w [] = 0 := rfl

@[simp] theorem weight_cons (a : α) (as : List α) : weight w (a :: as) = w a + weight w as :=
  rfl

variable {w}

theorem eq_nil_of_weight_eq_zero (hpos : ∀ a, 0 < w a) {as : List α} (h : weight w as = 0) :
    as = [] := by
  cases as with
  | nil => rfl
  | cons a as =>
    have ha := hpos a
    rw [weight_cons] at h
    omega

theorem takeWeight_eq_some_iff (hpos : ∀ a, 0 < w a) {n : Nat} {as bs : List α} :
    takeWeight w n as = some bs ↔ bs <+: as ∧ weight w bs = n := by
  induction as generalizing n bs with
  | nil =>
    rw [takeWeight, List.prefix_nil]
    by_cases hn : n = 0
    · subst hn
      constructor
      · intro h
        cases h
        exact ⟨rfl, rfl⟩
      · intro h
        rw [if_pos rfl, h.1]
    · rw [if_neg hn]
      constructor
      · intro h
        cases h
      · intro h
        rw [h.1] at h
        exact absurd h.2.symm hn
  | cons a as ih =>
    rw [takeWeight]
    by_cases hn : n = 0
    · subst hn
      rw [if_pos rfl]
      constructor
      · intro h
        cases h
        exact ⟨List.nil_prefix, rfl⟩
      · intro h
        rw [eq_nil_of_weight_eq_zero hpos h.2]
    · rw [if_neg hn]
      cases bs with
      | nil =>
        constructor
        · intro h
          split at h
          · cases ht : takeWeight w (n - w a) as <;> simp [ht] at h
          · cases h
        · intro h
          exact absurd h.2.symm hn
      | cons b bs =>
        rw [List.cons_prefix_cons, weight_cons]
        by_cases hle : w a ≤ n
        · rw [if_pos hle, Option.map_eq_some_iff]
          constructor
          · rintro ⟨cs, hcs, heq⟩
            cases heq
            have hrest := ih.1 hcs
            exact ⟨⟨rfl, hrest.1⟩, by omega⟩
          · rintro ⟨⟨rfl, hpre⟩, hsum⟩
            exact ⟨bs, ih.2 ⟨hpre, by omega⟩, rfl⟩
        · rw [if_neg hle]
          constructor
          · intro h
            cases h
          · rintro ⟨⟨rfl, _⟩, hsum⟩
            omega

end Weighing
