import Mathlib.Data.List.AList

/-!
# Layers

A layer is put over a base: what the layer says wins, and the rest is the base's. A rule that
takes the base's value where the layer says nothing and does not depend on how three layers are
grouped is an overlay; records are layered field by field.
-/

namespace Layering

set_option autoImplicit false

universe u v

variable {α : Type u}

/-- The rule `lay` puts a layer, its first argument, over a base. -/
structure Overlay (lay : α → α → α) (nothing : α) : Prop where
  nothing_over : ∀ base, lay nothing base = base
  assoc : ∀ a b c, lay (lay a b) c = lay a (lay b c)

theorem Overlay.kept {lay : α → α → α} {nothing : α} (h : Overlay lay nothing) {own base : α}
    (hown : own = nothing) : lay own base = base := by
  rw [hown, h.nothing_over]

theorem overlay_or : Overlay (Option.or (α := α)) none where
  nothing_over _ := Option.none_or
  assoc _ _ _ := Option.or_assoc

/-- A list that says nothing is empty. -/
def unlessEmpty (own base : List α) : List α := if own.isEmpty then base else own

theorem overlay_unlessEmpty : Overlay (unlessEmpty (α := α)) [] where
  nothing_over _ := rfl
  assoc a _ _ := by
    cases a with
    | nil => rfl
    | cons x rest => rfl

variable {γ : Type v} {κ : Type u} {β : κ → Type v} [DecidableEq κ]

/-- A table that says nothing is empty. -/
def replaceUnlessEmpty (own base : AList β) : AList β := if own.entries.isEmpty then base else own

omit [DecidableEq κ] in
theorem overlay_replaceUnlessEmpty : Overlay (replaceUnlessEmpty (β := β)) ∅ where
  nothing_over _ := rfl
  assoc a b _ := by
    unfold replaceUnlessEmpty
    cases ha : a.entries.isEmpty with
    | true => rfl
    | false => simp [ha]

omit [DecidableEq κ] in
theorem replaceUnlessEmpty_of_ne {own base : AList β} (h : own ≠ ∅) :
    replaceUnlessEmpty own base = own := by
  apply if_neg
  intro hempty
  exact h (AList.ext (List.isEmpty_iff.mp hempty))

/-- The entries of the base, and those of the layer over them. -/
def extend (base layer : AList β) : AList β := layer ∪ base

theorem lookup_extend (base layer : AList β) (k : κ) :
    (extend base layer).lookup k = (layer.lookup k).or (base.lookup k) := by
  unfold extend
  by_cases hk : k ∈ layer
  · rw [AList.lookup_union_left hk]
    obtain ⟨b, hb⟩ := Option.isSome_iff_exists.mp (AList.lookup_isSome.mpr hk)
    rw [hb, Option.some_or]
  · rw [AList.lookup_union_right hk, AList.lookup_eq_none.mpr hk, Option.none_or]

theorem lookup_extend_of_none {base layer : AList β} {k : κ} (h : layer.lookup k = none) :
    (extend base layer).lookup k = base.lookup k := by
  rw [lookup_extend, h, Option.none_or]

theorem extend_empty (base : AList β) : extend base ∅ = base := AList.empty_union

theorem lookup_extend_assoc (a b c : AList β) (k : κ) :
    (extend (extend a b) c).lookup k = (extend a (extend b c)).lookup k := by
  rw [lookup_extend, lookup_extend, lookup_extend, lookup_extend, Option.or_assoc]

theorem or_eq_left_iff {own base : Option α} :
    own.or base = own ↔ (base.isSome = true → own.isSome = true) := by
  cases own with
  | none => simp
  | some a => simp

theorem unlessEmpty_eq_left_iff {own base : List α} :
    unlessEmpty own base = own ↔ (base ≠ [] → own ≠ []) := by
  cases own with
  | nil => simp [unlessEmpty]
  | cons a rest => simp [unlessEmpty]

/-- Every setting that the base makes is also made in the layer. -/
def Covers (settings : List (α → Bool)) (base own : α) : Prop :=
  ∀ made ∈ settings, made base = true → made own = true

section Covers

variable {settings settings' : List (α → Bool)} {base own : α}

@[simp] theorem covers_nil : Covers [] base own := fun _ hmade => absurd hmade List.not_mem_nil

@[simp] theorem covers_cons_iff {made : α → Bool} :
    Covers (made :: settings) base own ↔
      (made base = true → made own = true) ∧ Covers settings base own := List.forall_mem_cons

@[simp] theorem covers_append_iff :
    Covers (settings ++ settings') base own ↔
      Covers settings base own ∧ Covers settings' base own := List.forall_mem_append

@[simp] theorem covers_map_iff {part : γ → α} {base own : γ} :
    Covers (settings.map (· ∘ part)) base own ↔ Covers settings (part base) (part own) :=
  List.forall_mem_map

end Covers

theorem lookup_eq_none_iff {t : AList β} : (∀ k, t.lookup k = none) ↔ t = ∅ := by
  constructor
  · intro hnone
    apply AList.ext
    cases hentries : t.entries with
    | nil => rfl
    | cons e rest =>
      have hmem : e.1 ∈ t := AList.mem_keys.2 (by simp [AList.keys, List.keys, hentries])
      exact absurd hmem (AList.lookup_eq_none.1 (hnone e.1))
  · rintro rfl k
    exact AList.lookup_empty k

theorem lookup_replaceUnlessEmpty_iff {own base : AList β} :
    (∀ k, own.lookup k = (replaceUnlessEmpty own base).lookup k) ↔ (base ≠ ∅ → own ≠ ∅) := by
  by_cases hown : own = ∅
  · subst hown
    rw [overlay_replaceUnlessEmpty.nothing_over, not_imp_not]
    simp only [AList.lookup_empty, @eq_comm _ none, lookup_eq_none_iff, forall_const]
  · rw [replaceUnlessEmpty_of_ne hown]
    exact iff_of_true (fun _ => rfl) fun _ => hown

theorem lookup_extend_iff {base layer : AList β} :
    (∀ k, layer.lookup k = (extend base layer).lookup k) ↔ ∀ k ∈ base, k ∈ layer := by
  constructor
  · intro hsame k hk
    by_contra hnot
    have hnone := AList.lookup_eq_none.2 hnot
    have hlookup := hsame k
    rw [lookup_extend_of_none hnone, hnone] at hlookup
    exact AList.lookup_eq_none.1 hlookup.symm hk
  · intro hall k
    rw [lookup_extend]
    cases hlayer : layer.lookup k with
    | some b => rfl
    | none =>
      have hnot : k ∉ base := fun hk => AList.lookup_eq_none.1 hlayer (hall k hk)
      rw [AList.lookup_eq_none.2 hnot]
      rfl

end Layering
