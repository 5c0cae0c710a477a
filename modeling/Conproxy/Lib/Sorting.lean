import Mathlib.Data.List.Sort
import Mathlib.Data.Set.List

/-!
# Sorting what compares

A list is sorted by a relation that orders its own elements, whatever it does to others.
-/

namespace Sorting

set_option autoImplicit false

universe u

variable {α : Type u} {le : α → α → Bool} {l : List α}

theorem pairwise_mergeSort {p : α → Prop}
    (trans : ∀ a b c, p a → p b → p c → le a b = true → le b c = true → le a c = true)
    (total : ∀ a b, p a → p b → (le a b || le b a) = true) (h : ∀ a ∈ l, p a) :
    (l.mergeSort le).Pairwise fun a b => le a b = true := by
  lift l to List {a // p a} using h
  rw [← List.map_mergeSort (r := fun a b => le a.1 b.1) fun a _ b _ => rfl, List.pairwise_map]
  apply List.pairwise_mergeSort
  · intro a b c hab hbc
    exact trans a.1 b.1 c.1 a.2 b.2 c.2 hab hbc
  · intro a b
    exact total a.1 b.1 a.2 b.2

section Forall₂

universe v

variable {β : Type v} {R : α → β → Prop} {r : α → α → Prop} {r' : β → β → Prop}
  [DecidableRel r] [DecidableRel r'] (hr : ∀ a b c d, R a c → R b d → (r a b ↔ r' c d))

include hr

theorem forall₂_orderedInsert {a : α} {b : β} {as : List α} {bs : List β} (hab : R a b)
    (h : List.Forall₂ R as bs) :
    List.Forall₂ R (as.orderedInsert r a) (bs.orderedInsert r' b) := by
  induction h with
  | nil => exact .cons hab .nil
  | @cons c d as bs hcd hrest ih =>
    rw [List.orderedInsert_cons, List.orderedInsert_cons]
    by_cases hle : r a c
    · rw [if_pos hle, if_pos ((hr a c b d hab hcd).1 hle)]
      exact .cons hab (.cons hcd hrest)
    · rw [if_neg hle, if_neg fun h => hle ((hr a c b d hab hcd).2 h)]
      exact .cons hcd ih

theorem forall₂_insertionSort {as : List α} {bs : List β} (h : List.Forall₂ R as bs) :
    List.Forall₂ R (as.insertionSort r) (bs.insertionSort r') := by
  induction h with
  | nil => exact .nil
  | cons hab _ ih => exact forall₂_orderedInsert hr hab ih

end Forall₂

end Sorting
