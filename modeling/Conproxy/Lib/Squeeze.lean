import Mathlib.Data.List.Basic

/-!
# Squeezing runs of separators

`squeeze` writes one blank for every maximal run of separators. The flag says whether the
element before the list was a separator. A non-separator splits the work: what is written
after it does not depend on what came before.
-/

namespace Squeeze

set_option autoImplicit false

universe u

variable {α : Type u} (sep : α → Bool) (blank : α)

def squeeze : Bool → List α → List α
  | _, [] => []
  | wasSep, a :: as =>
    if sep a then
      if wasSep then squeeze true as else blank :: squeeze true as
    else a :: squeeze false as

variable {sep blank}

theorem squeeze_split {a : α} (ha : sep a = false) (wasSep : Bool) (as bs : List α) :
    squeeze sep blank wasSep (as ++ a :: bs) =
      squeeze sep blank wasSep (as ++ [a]) ++ squeeze sep blank false bs := by
  induction as generalizing wasSep with
  | nil => simp [squeeze, ha]
  | cons b as ih =>
    simp only [List.cons_append, squeeze, ih]
    split
    · split <;> simp
    · simp

theorem squeeze_map {f : α → α} (hf : ∀ a, sep (f a) = sep a) (hblank : f blank = blank)
    (wasSep : Bool) (as : List α) :
    squeeze sep blank wasSep (as.map f) = (squeeze sep blank wasSep as).map f := by
  induction as generalizing wasSep with
  | nil => rfl
  | cons a as ih =>
    simp only [List.map_cons, squeeze, hf, ih]
    split
    · split <;> simp [hblank]
    · simp

theorem countP_squeeze (hblank : sep blank = true) (wasSep : Bool) (as : List α) :
    (squeeze sep blank wasSep as).countP (fun a => !sep a) = as.countP fun a => !sep a := by
  induction as generalizing wasSep with
  | nil => rfl
  | cons a as ih =>
    cases ha : sep a with
    | true =>
      cases wasSep with
      | true => simp [squeeze, ha, ih]
      | false => simp [squeeze, ha, hblank, ih]
    | false => simp [squeeze, ha, ih]

end Squeeze
