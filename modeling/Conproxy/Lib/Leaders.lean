import Mathlib.Data.List.Sort

/-!
# The first items of a sorted list

`r a b` says that `a` may stand before `b`. An item is among the first `n` of the sorted list only
if fewer than `n` items must stand before it. The sort is stable, so for an item that comes first
in the list this is enough.
-/

namespace Leaders

set_option autoImplicit false

universe u

variable {α : Type u} (r : α → α → Prop) [DecidableRel r]

/-- How many items of a list must stand before one. -/
def ahead (a : α) (l : List α) : Nat := l.countP fun b => ¬ r a b

variable {r}

theorem ahead_perm {a : α} {l l' : List α} (h : l.Perm l') : ahead r a l = ahead r a l' :=
  h.countP_eq _

theorem ahead_eq_zero {a : α} {l : List α} (h : ∀ b ∈ l, r a b) : ahead r a l = 0 := by
  rw [ahead, List.countP_eq_zero]
  intro b hb
  simp [h b hb]

theorem ahead_lt_of_mem_take [Std.Total r] [IsTrans α r] {a : α} {l : List α} {n : Nat}
    (h : a ∈ (l.insertionSort r).take n) : ahead r a l < n := by
  obtain ⟨before, after, hsplit⟩ := List.append_of_mem h
  have hlen : before.length < n := by
    have htake := List.length_take_le n (l.insertionSort r)
    rw [hsplit, List.length_append, List.length_cons] at htake
    omega
  have hsorted := List.pairwise_insertionSort r l
  have hwhole : l.insertionSort r =
      before ++ a :: (after ++ (l.insertionSort r).drop n) := by
    rw [← List.cons_append, ← List.append_assoc, ← hsplit, List.take_append_drop]
  have hrest : ahead r a (a :: (after ++ (l.insertionSort r).drop n)) = 0 := by
    rw [hwhole, List.pairwise_append, List.pairwise_cons] at hsorted
    refine ahead_eq_zero (List.forall_mem_cons.2 ⟨?_, hsorted.2.1.1⟩)
    rcases Std.Total.total (r := r) a a with hrefl | hrefl <;> exact hrefl
  calc
    ahead r a l = ahead r a (l.insertionSort r) :=
      ahead_perm (List.perm_insertionSort r l).symm
    _ = ahead r a before + 0 := by
      rw [hwhole, ← hrest]
      exact List.countP_append
    _ ≤ before.length := List.countP_le_length
    _ < n := hlen

theorem length_takeWhile_le_countP (q : α → Bool) (l : List α) :
    (l.takeWhile q).length ≤ l.countP q := by
  induction l with
  | nil => exact Nat.le_refl _
  | cons b l ih =>
    cases hb : q b with
    | true =>
      rw [List.takeWhile_cons_of_pos hb, List.countP_cons_of_pos hb, List.length_cons]
      omega
    | false =>
      rw [List.takeWhile_cons_of_neg (by simp [hb])]
      exact Nat.zero_le _

theorem mem_take_append {front back : List α} {a : α} {n : Nat} (h : front.length < n) :
    a ∈ (front ++ a :: back).take n := by
  have hi : front.length < (front ++ a :: back).length := by simp
  refine List.mem_take_iff_getElem.2 ⟨front.length, by omega, ?_⟩
  rw [List.getElem_append_right (Nat.le_refl _)]
  simp

theorem mem_take_of_ahead_lt {a : α} {rest : List α} {n : Nat} (h : ahead r a rest < n) :
    a ∈ ((a :: rest).insertionSort r).take n := by
  rw [List.insertionSort_cons_eq_take_drop]
  refine mem_take_append ?_
  calc
    _ ≤ ahead r a (rest.insertionSort r) := length_takeWhile_le_countP _ _
    _ = ahead r a rest := ahead_perm (List.perm_insertionSort r rest)
    _ < n := h

end Leaders
