import Mathlib.Algebra.Order.BigOperators.Group.List

/-!
# Weights of places in lists

A weight for each place of a list. The total of an element counts all its places, its first weight
only the first one. With positive weights the totals over several lists are sums of first weights
exactly if no list has an element twice.
-/

namespace Conproxy.Ranks

set_option autoImplicit false

variable {α β M : Type*} [DecidableEq α] [DecidableEq β] [AddCommMonoid M]

/-- The weights of all places of `d`; the list starts at place `n`. -/
def total (w : Nat → M) (d : α) : Nat → List α → M
  | _, [] => 0
  | n, a :: rest => (if a = d then w n else 0) + total w d (n + 1) rest

/-- The weight of the first place of `d`. -/
def first (w : Nat → M) (d : α) (n : Nat) (l : List α) : M :=
  if d ∈ l then w (n + l.idxOf d) else 0

variable {w : Nat → M} {d : α}

theorem total_of_not_mem {l : List α} (h : d ∉ l) (n : Nat) : total w d n l = 0 := by
  induction l generalizing n with
  | nil => rfl
  | cons a rest ih =>
    rw [List.mem_cons, not_or] at h
    rw [total, if_neg (Ne.symm h.1), zero_add, ih h.2]

theorem first_cons_self (n : Nat) (rest : List α) : first w d n (d :: rest) = w n := by
  rw [first, if_pos List.mem_cons_self, List.idxOf_cons_self, Nat.add_zero]

theorem first_cons_ne {a : α} (h : a ≠ d) (n : Nat) (rest : List α) :
    first w d n (a :: rest) = first w d (n + 1) rest := by
  unfold first
  rw [List.idxOf_cons_ne rest h, Nat.succ_eq_add_one, Nat.add_right_comm n 1]
  simp [Ne.symm h, Nat.add_assoc]

theorem total_eq_first {l : List α} (h : l.Nodup) (n : Nat) : total w d n l = first w d n l := by
  induction l generalizing n with
  | nil => rfl
  | cons a rest ih =>
    obtain ⟨hnew, hrest⟩ := List.nodup_cons.1 h
    by_cases ha : a = d
    · subst ha
      rw [first_cons_self, total, if_pos rfl, total_of_not_mem hnew, add_zero]
    · rw [first_cons_ne ha, total, if_neg ha, zero_add, ih hrest]

theorem total_map {f : α → β} {l : List α} (h : ∀ a ∈ l, f a = f d → a = d) (n : Nat) :
    total w (f d) n (l.map f) = total w d n l := by
  induction l generalizing n with
  | nil => rfl
  | cons a rest ih =>
    have ha : f a = f d ↔ a = d := ⟨h a List.mem_cons_self, congrArg f⟩
    rw [List.map_cons, total, total, ih fun b hb => h b (List.mem_cons_of_mem a hb)]
    simp only [ha]

section Ordered

variable [PartialOrder M] [IsOrderedCancelAddMonoid M]

theorem first_le_total (hw : ∀ n, 0 ≤ w n) (n : Nat) (l : List α) :
    first w d n l ≤ total w d n l := by
  have hnonneg (n : Nat) (l : List α) : 0 ≤ total w d n l := by
    induction l generalizing n with
    | nil => exact le_rfl
    | cons a rest ih =>
      refine add_nonneg ?_ (ih (n + 1))
      split
      · exact hw n
      · exact le_rfl
  induction l generalizing n with
  | nil => exact le_rfl
  | cons a rest ih =>
    by_cases ha : a = d
    · subst ha
      rw [first_cons_self, total, if_pos rfl]
      exact le_add_of_nonneg_right (hnonneg (n + 1) rest)
    · rw [first_cons_ne ha, total, if_neg ha, zero_add]
      exact ih (n + 1)

theorem first_lt_total (hw : ∀ n, 0 < w n) {l : List α} (h : 2 ≤ l.count d) (n : Nat) :
    first w d n l < total w d n l := by
  induction l generalizing n with
  | nil => simp at h
  | cons a rest ih =>
    by_cases ha : a = d
    · subst ha
      rw [List.count_cons_self] at h
      have hmem : a ∈ rest := List.count_pos_iff.1 (by omega)
      have hagain : 0 < total w a (n + 1) rest :=
        (hw _).trans_le (by
          have hle := first_le_total (d := a) (fun n => (hw n).le) (n + 1) rest
          rwa [first, if_pos hmem] at hle)
      rw [first_cons_self, total, if_pos rfl]
      exact lt_add_of_pos_right _ hagain
    · rw [List.count_cons_of_ne ha] at h
      rw [first_cons_ne ha, total, if_neg ha, zero_add]
      exact ih h (n + 1)

theorem sum_total_eq_iff (hw : ∀ n, 0 < w n) (lists : List (List α)) :
    (∀ d, (lists.map (total w d 0)).sum = (lists.map (first w d 0)).sum) ↔
      ∀ l ∈ lists, l.Nodup := by
  constructor
  · intro h l hl
    rw [List.nodup_iff_count]
    intro d
    by_contra hcount
    have hlt := List.sum_lt_sum _ _
      (fun l _ => first_le_total (d := d) (fun n => (hw n).le) 0 l)
      ⟨l, hl, first_lt_total hw (by omega) 0⟩
    exact hlt.ne (h d).symm
  · intro h d
    rw [List.map_congr_left fun l hl => total_eq_first (h l hl) 0]

end Ordered

end Conproxy.Ranks
