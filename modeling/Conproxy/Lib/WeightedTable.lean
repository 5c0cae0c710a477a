import Mathlib.Data.List.AList
import Mathlib.Algebra.Order.BigOperators.Group.List
import Mathlib.Algebra.GroupWithZero.Nat
import Mathlib.Algebra.Order.Group.Nat

/-!
# Weighted association tables

A finite map as an association list with distinct keys, and the sum of a weight over its
values. Insertion, replacement and erasure change the sum by exactly the weights involved,
so a counter kept beside the table can be compared with the sum after every update.
-/

namespace WeightedTable

set_option autoImplicit false

universe u v

variable {κ : Type u} {ν : Type v}

def weight (w : ν → Nat) (t : AList fun _ : κ => ν) : Nat :=
  (t.entries.map fun e => w e.2).sum

variable (w : ν → Nat) (t : AList fun _ : κ => ν) {k : κ} {v x : ν}

@[simp] theorem weight_empty : weight w (∅ : AList fun _ : κ => ν) = 0 := rfl

theorem length_keys_le {slots : List κ} (h : ∀ k ∈ t, k ∈ slots) :
    t.keys.length ≤ slots.length :=
  (List.subperm_of_subset t.keys_nodup h).length_le

variable [DecidableEq κ]

theorem entries_erase : (t.erase k).entries = t.entries.kerase k := rfl

theorem length_keys_insert (h : k ∈ t) : (t.insert k v).keys.length = t.keys.length := by
  have hk : k ∈ t.keys := h
  have hpos := List.length_pos_of_mem hk
  rw [AList.keys_insert, List.length_cons, List.length_erase_of_mem hk]
  omega

theorem length_keys_insert_le : (t.insert k v).keys.length ≤ t.keys.length + 1 := by
  rw [AList.keys_insert, List.length_cons]
  exact Nat.succ_le_succ List.length_erase_le

theorem length_keys_erase (h : k ∈ t) : (t.erase k).keys.length + 1 = t.keys.length := by
  have hk : k ∈ t.keys := h
  have hpos := List.length_pos_of_mem hk
  rw [AList.keys_erase, List.length_erase_of_mem hk]
  omega

theorem weight_erase_of_notMem (h : k ∉ t) : weight w (t.erase k) = weight w t := by
  have hk : k ∉ t.entries.keys := h
  unfold weight
  rw [entries_erase, List.kerase_of_notMem_keys hk]

theorem entries_perm_of_lookup (h : t.lookup k = some v) :
    t.entries.Perm (⟨k, v⟩ :: (t.erase k).entries) := by
  have hmem : k ∈ t.entries.keys := AList.lookup_isSome.mp (by simp [h])
  obtain ⟨b, l₁, l₂, -, hsplit, hrest⟩ := List.exists_of_kerase hmem
  have hb : b = v := by
    have hin : (⟨k, b⟩ : Sigma fun _ : κ => ν) ∈ t.entries := by simp [hsplit]
    have hl := List.mem_dlookup t.nodupKeys hin
    rw [show t.entries.dlookup k = some v from h] at hl
    exact (Option.some.inj hl).symm
  rw [entries_erase, hrest, hsplit, hb]
  exact List.perm_middle

theorem weight_erase_of_lookup (h : t.lookup k = some v) :
    weight w (t.erase k) + w v = weight w t := by
  unfold weight
  rw [((entries_perm_of_lookup t h).map fun e => w e.2).sum_nat, List.map_cons, List.sum_cons,
    Nat.add_comm]

theorem weight_erase_add (k : κ) :
    weight w (t.erase k) + ((t.lookup k).map w).getD 0 = weight w t := by
  cases h : t.lookup k with
  | some v => simpa using weight_erase_of_lookup w t h
  | none =>
    have hn : k ∉ t := AList.lookup_eq_none.mp h
    simpa using weight_erase_of_notMem w t hn

theorem countP_insert_of_not {q : (Sigma fun _ : κ => ν) → Bool} (hq : ∀ x, q ⟨k, x⟩ = false) :
    (t.insert k v).entries.countP q = t.entries.countP q := by
  rw [AList.entries_insert, List.countP_cons_of_neg (by simp [hq]), ← entries_erase]
  cases h : t.lookup k with
  | some x =>
    rw [(entries_perm_of_lookup t h).countP_eq, List.countP_cons_of_neg (by simp [hq])]
  | none =>
    have hk : k ∉ t.entries.keys := AList.lookup_eq_none.mp h
    rw [entries_erase, List.kerase_of_notMem_keys hk]

theorem weight_insert_eq : weight w (t.insert k v) = w v + weight w (t.erase k) := by
  unfold weight
  rw [AList.entries_insert, entries_erase]
  simp

theorem weight_insert_of_notMem (h : k ∉ t) : weight w (t.insert k v) = weight w t + w v := by
  rw [weight_insert_eq, weight_erase_of_notMem w t h, Nat.add_comm]

theorem weight_insert_of_lookup (h : t.lookup k = some v) :
    weight w (t.insert k x) + w v = weight w t + w x := by
  have he := weight_erase_of_lookup w t h
  rw [weight_insert_eq]
  omega

theorem weight_of_lookup_le (h : t.lookup k = some v) : w v ≤ weight w t := by
  have he := weight_erase_of_lookup w t h
  omega

@[simp] theorem erase_insert_self : (t.insert k v).erase k = t.erase k := by
  apply AList.ext
  simp [entries_erase, AList.entries_insert]

theorem mem_of_lookup (h : t.lookup k = some v) : k ∈ t :=
  AList.lookup_isSome.mp (by simp [h])

theorem lookup_of_mem (h : k ∈ t) : ∃ v, t.lookup k = some v :=
  Option.isSome_iff_exists.mp (AList.lookup_isSome.mpr h)

theorem mem_congr {t t' : AList fun _ : κ => ν} (h : t.lookup k = t'.lookup k) :
    k ∈ t ↔ k ∈ t' := by
  rw [← AList.lookup_isSome, ← AList.lookup_isSome, h]

theorem exists_mem_iff : (∃ k, k ∈ t) ↔ t.entries ≠ [] := by
  constructor
  · rintro ⟨k, hk⟩ hnil
    obtain ⟨v, hv⟩ := lookup_of_mem t hk
    have hentry := AList.mem_lookup_iff.mp hv
    rw [hnil] at hentry
    cases hentry
  · intro hne
    obtain ⟨e, he⟩ := List.exists_mem_of_ne_nil _ hne
    exact ⟨e.1, mem_of_lookup t (AList.mem_lookup_iff.mpr he)⟩

theorem forall_entries_iff (good : κ → ν → Prop) :
    (∀ e ∈ t.entries, good e.1 e.2) ↔ ∀ k v, t.lookup k = some v → good k v := by
  constructor
  · intro h k v hv
    exact h ⟨k, v⟩ (AList.mem_lookup_iff.mp hv)
  · rintro h ⟨k, v⟩ he
    exact h k v (AList.mem_lookup_iff.mpr he)

theorem weight_le_of_lookup {t t' : AList fun _ : κ => ν}
    (h : ∀ k v, t.lookup k = some v → ∃ v', t'.lookup k = some v' ∧ w v' = w v) :
    weight w t ≤ weight w t' := by
  have hweight (t : AList fun _ : κ => ν) :
      weight w t = ((t.entries.map fun e => (e.1, w e.2)).map Prod.snd).sum := by
    rw [List.map_map]
    rfl
  have hnodup : (t.entries.map fun e => (e.1, w e.2)).Nodup := by
    refine List.Nodup.of_map Prod.fst ?_
    rw [List.map_map]
    exact t.nodupKeys
  have hsub : (t.entries.map fun e => (e.1, w e.2)) ⊆ t'.entries.map fun e => (e.1, w e.2) := by
    intro x hx
    obtain ⟨⟨k, v⟩, he, rfl⟩ := List.mem_map.1 hx
    obtain ⟨v', hl, hv⟩ := h k v (AList.mem_lookup_iff.2 he)
    exact List.mem_map.2 ⟨⟨k, v'⟩, AList.mem_lookup_iff.1 hl, by rw [hv]⟩
  obtain ⟨l, hperm, hsublist⟩ := List.subperm_of_subset hnodup hsub
  rw [hweight t, hweight t', ← (hperm.map Prod.snd).sum_eq]
  exact (hsublist.map Prod.snd).sum_le_sum fun _ _ => Nat.zero_le _

theorem length_keys_of_mem_iff {t t' : AList fun _ : κ => ν} (hk : k ∈ t)
    (h : ∀ j, j ∈ t' ↔ j ≠ k ∧ j ∈ t) : t'.keys.length + 1 = t.keys.length := by
  rw [← length_keys_erase t hk]
  have hperm : t'.keys.Perm (t.erase k).keys := by
    refine (List.perm_ext_iff_of_nodup t'.keys_nodup (t.erase k).keys_nodup).2 fun j => ?_
    exact (h j).trans AList.mem_erase.symm
  rw [hperm.length_eq]

theorem lookup_foldl_erase (ks : List κ) (k : κ) :
    (ks.foldl (fun t k => t.erase k) t).lookup k = if k ∈ ks then none else t.lookup k := by
  induction ks generalizing t with
  | nil => simp
  | cons first rest ih =>
    rw [List.foldl_cons, ih]
    by_cases hrest : k ∈ rest
    · simp [hrest]
    · by_cases hfirst : k = first
      · subst hfirst
        simp
      · simp [hrest, hfirst, AList.lookup_erase_ne hfirst]

theorem length_keys_foldl_erase {ks : List κ} (hnodup : ks.Nodup) (hmem : ∀ k ∈ ks, k ∈ t) :
    (ks.foldl (fun t k => t.erase k) t).keys.length + ks.length = t.keys.length := by
  induction ks generalizing t with
  | nil => rfl
  | cons first rest ih =>
    obtain ⟨hfirst, hrest⟩ := List.nodup_cons.1 hnodup
    have hkept : ∀ k ∈ rest, k ∈ t.erase first := by
      intro k hk
      refine AList.mem_erase.2 ⟨?_, hmem k (List.mem_cons_of_mem _ hk)⟩
      rintro rfl
      exact hfirst hk
    have hlength := length_keys_erase t (hmem first List.mem_cons_self)
    have hih := ih (t.erase first) hrest hkept
    rw [List.foldl_cons, List.length_cons]
    omega

end WeightedTable
