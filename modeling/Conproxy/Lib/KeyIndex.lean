import Mathlib.Data.List.AList

/-!
# A table and the index of its owners

Every entry of a table belongs to an owner, and an index maps an owner to the key of its
entry. The two agree if the index is the inverse of the table: an owner has a key in the index
exactly if the entry under that key is the owner's.
-/

namespace KeyIndex

set_option autoImplicit false

universe u v w

variable {κ : Type u} {ι : Type v} {ε : Type w} [DecidableEq κ] [DecidableEq ι]

def Inverse (owner : ε → ι) (table : AList fun _ : κ => ε) (index : AList fun _ : ι => κ) :
    Prop :=
  ∀ i k, index.lookup i = some k ↔ ∃ e, table.lookup k = some e ∧ owner e = i

namespace Inverse

variable {owner : ε → ι} {table : AList fun _ : κ => ε} {index : AList fun _ : ι => κ}

theorem empty : Inverse owner (∅ : AList fun _ : κ => ε) (∅ : AList fun _ : ι => κ) := by
  intro i k
  simp

theorem key_unique (h : Inverse owner table index) {k k' : κ} {e e' : ε}
    (hk : table.lookup k = some e) (hk' : table.lookup k' = some e')
    (howner : owner e = owner e') : k = k' := by
  have hi := (h (owner e) k).mpr ⟨e, hk, rfl⟩
  have hi' := (h (owner e) k').mpr ⟨e', hk', howner.symm⟩
  rw [hi] at hi'
  exact Option.some.inj hi'

/-- An owner takes a key that is free or its own. -/
theorem insert (h : Inverse owner table index) (e : ε) (k : κ)
    (hown : ∀ k', index.lookup (owner e) = some k' → k' = k)
    (hkey : ∀ e', table.lookup k = some e' → owner e' = owner e) :
    Inverse owner (table.insert k e) (index.insert (owner e) k) := by
  intro i k'
  by_cases hi : i = owner e
  · subst hi
    rw [AList.lookup_insert]
    constructor
    · intro hk
      cases hk
      exact ⟨e, AList.lookup_insert _, rfl⟩
    · rintro ⟨e', hl, howner⟩
      by_cases hk : k' = k
      · rw [hk]
      · rw [AList.lookup_insert_ne hk] at hl
        exact congrArg some (hown k' ((h _ k').mpr ⟨e', hl, howner⟩)).symm
  · rw [AList.lookup_insert_ne hi, h i k']
    by_cases hk : k' = k
    · subst hk
      constructor
      · rintro ⟨e', hl, howner⟩
        exact absurd (howner.symm.trans (hkey e' hl)) hi
      · rintro ⟨e', hl, howner⟩
        rw [AList.lookup_insert] at hl
        cases hl
        exact absurd howner.symm hi
    · rw [AList.lookup_insert_ne hk]

theorem erase (h : Inverse owner table index) {i : ι} {k : κ} (hi : index.lookup i = some k) :
    Inverse owner (table.erase k) (index.erase i) := by
  obtain ⟨e, hl, howner⟩ := (h i k).mp hi
  intro j k'
  by_cases hj : j = i
  · subst hj
    rw [AList.lookup_erase]
    constructor
    · intro hk
      cases hk
    · rintro ⟨e', hl', howner'⟩
      by_cases hk : k' = k
      · rw [hk, AList.lookup_erase] at hl'
        cases hl'
      · rw [AList.lookup_erase_ne hk] at hl'
        exact absurd (h.key_unique hl' hl (howner'.trans howner.symm)) hk
  · rw [AList.lookup_erase_ne hj, h j k']
    by_cases hk : k' = k
    · subst hk
      constructor
      · rintro ⟨e', hl', howner'⟩
        rw [hl] at hl'
        cases hl'
        exact absurd (howner'.symm.trans howner) hj
      · rintro ⟨e', hl', -⟩
        rw [AList.lookup_erase] at hl'
        cases hl'
    · rw [AList.lookup_erase_ne hk]

theorem congr {index' : AList fun _ : ι => κ} (h : Inverse owner table index)
    (hindex : ∀ i, index'.lookup i = index.lookup i) : Inverse owner table index' := by
  intro i k
  rw [hindex i]
  exact h i k

end Inverse

end KeyIndex
