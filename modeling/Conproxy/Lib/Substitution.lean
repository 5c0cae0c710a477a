import Mathlib.Data.List.Basic

/-!
# Global replacement

`replaceAll` replaces every occurrence of a pattern that is not empty, from the left and without
overlaps. A pattern begins with a mark, and a text without the mark is never changed.
-/

namespace Substitution

set_option autoImplicit false

universe u

variable {α : Type u} [DecidableEq α]

/-- The counter tells how many elements of an occurrence are still to be passed over. -/
def replaceFrom (pattern replacement : List α) : Nat → List α → List α
  | _, [] => []
  | 0, a :: as =>
    if pattern.isPrefixOf (a :: as) then
      replacement ++ replaceFrom pattern replacement (pattern.length - 1) as
    else a :: replaceFrom pattern replacement 0 as
  | skip + 1, _ :: as => replaceFrom pattern replacement skip as

def replaceAll (pattern replacement text : List α) : List α :=
  replaceFrom pattern replacement 0 text

variable {mark : α} {name replacement : List α}

theorem replaceFrom_append (skip : Nat) {passed : List α} (h : passed.length = skip)
    (text : List α) :
    replaceFrom (mark :: name) replacement skip (passed ++ text) =
      replaceAll (mark :: name) replacement text := by
  induction passed generalizing skip with
  | nil =>
    obtain rfl : 0 = skip := h
    rfl
  | cons a passed ih =>
    obtain rfl : passed.length + 1 = skip := h
    exact ih passed.length rfl

theorem replaceAll_of_not_mem {plain : List α} (h : mark ∉ plain) (text : List α) :
    replaceAll (mark :: name) replacement (plain ++ text) =
      plain ++ replaceAll (mark :: name) replacement text := by
  induction plain with
  | nil => rfl
  | cons a plain ih =>
    have hne : (mark == a) = false := by
      apply beq_false_of_ne
      rintro rfl
      exact h List.mem_cons_self
    have hrest := ih fun hmem => h (List.mem_cons_of_mem a hmem)
    simp only [replaceAll, List.cons_append, replaceFrom, List.isPrefixOf, hne, Bool.false_and,
      Bool.false_eq_true, if_false]
    exact congrArg (a :: ·) hrest

theorem replaceAll_plain {plain : List α} (h : mark ∉ plain) :
    replaceAll (mark :: name) replacement plain = plain := by
  have hplain : replaceAll (mark :: name) replacement (plain ++ []) =
      plain ++ replaceAll (mark :: name) replacement [] := replaceAll_of_not_mem h []
  rw [List.append_nil] at hplain
  rw [hplain]
  exact List.append_nil plain

theorem replaceAll_match (text : List α) :
    replaceAll (mark :: name) replacement (mark :: name ++ text) =
      replacement ++ replaceAll (mark :: name) replacement text := by
  have hprefix : (mark :: name).isPrefixOf (mark :: (name ++ text)) = true := by
    rw [List.isPrefixOf_iff_prefix]
    exact ⟨text, rfl⟩
  have hskip : replaceFrom (mark :: name) replacement name.length (name ++ text) =
      replaceAll (mark :: name) replacement text := replaceFrom_append name.length rfl text
  rw [← hskip]
  simp only [replaceAll, List.cons_append, replaceFrom, hprefix, if_true]
  rfl

theorem replaceAll_other {text : List α} (h : ¬ name <+: text) :
    replaceAll (mark :: name) replacement (mark :: text) =
      mark :: replaceAll (mark :: name) replacement text := by
  have hprefix : (mark :: name).isPrefixOf (mark :: text) = false := by
    rw [← Bool.not_eq_true, List.isPrefixOf_iff_prefix, List.cons_prefix_cons]
    exact fun hboth => h hboth.2
  simp only [replaceAll, replaceFrom, hprefix, Bool.false_eq_true, if_false]

end Substitution
