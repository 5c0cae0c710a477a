import Mathlib.Data.List.Sort
import Mathlib.Data.List.Dedup

/-!
# Groups in the order of their keys

The items of a list are put into groups, one for each key, and the groups are listed by rising
keys. Inside a group the items keep their order, so the groups in sequence are the list sorted by
its keys in a stable way.
-/

namespace Grouping

set_option autoImplicit false

universe u v

variable {α : Type u} {κ : Type v} [LinearOrder κ]

def groupBy (key : α → κ) (items : List α) : List (List α) :=
  ((items.map key).dedup.insertionSort (· ≤ ·)).map fun k => items.filter fun a => key a = k

variable {key : α → κ} {items : List α}

/-- Filters for different keys that cover the items only change their order. -/
theorem perm_flatten_filters (ks : List κ) (hnodup : ks.Nodup) (hcover : ∀ a ∈ items, key a ∈ ks) :
    (ks.map fun k => items.filter fun a => key a = k).flatten.Perm items := by
  induction ks generalizing items with
  | nil =>
    rw [List.eq_nil_iff_forall_not_mem.2 fun a ha => List.not_mem_nil (hcover a ha)]
    exact .nil
  | cons k ks ih =>
    obtain ⟨hk, hks⟩ := List.nodup_cons.1 hnodup
    let others := items.filter fun a => !decide (key a = k)
    -- The later keys differ from the first one, so they only see the other items.
    have hlater : (ks.map fun j => items.filter fun a => key a = j) =
        ks.map fun j => others.filter fun a => key a = j := by
      refine List.map_congr_left fun j hj => ?_
      rw [List.filter_filter]
      refine List.filter_congr fun a _ => ?_
      by_cases ha : key a = j
      · have hne : j ≠ k := by
          rintro rfl
          exact hk hj
        simp [ha, hne]
      · simp [ha]
    have hothers : ∀ a ∈ others, key a ∈ ks := by
      intro a ha
      obtain ⟨hmem, hne⟩ := List.mem_filter.1 ha
      exact (List.mem_cons.1 (hcover a hmem)).resolve_left (by simpa using hne)
    rw [List.map_cons, List.flatten_cons, hlater]
    exact ((ih hks hothers).append_left _).trans (List.filter_append_perm _ items)

theorem ne_nil_of_mem_groupBy {group : List α} (h : group ∈ groupBy key items) : group ≠ [] := by
  obtain ⟨k, hk, rfl⟩ := List.mem_map.1 h
  rw [List.mem_insertionSort, List.mem_dedup] at hk
  obtain ⟨a, ha, hkey⟩ := List.mem_map.1 hk
  exact List.ne_nil_of_mem (List.mem_filter.2 ⟨ha, decide_eq_true hkey⟩)

theorem flatten_groupBy_perm (key : α → κ) (items : List α) :
    (groupBy key items).flatten.Perm items := by
  refine perm_flatten_filters _ ?_ fun a ha => ?_
  · exact (List.perm_insertionSort _ _).nodup_iff.2 (List.nodup_dedup _)
  · rw [List.mem_insertionSort, List.mem_dedup]
    exact List.mem_map_of_mem ha

theorem pairwise_lt_keys (key : α → κ) (items : List α) :
    ((items.map key).dedup.insertionSort (· ≤ ·)).Pairwise (· < ·) := by
  have hle := List.pairwise_insertionSort (· ≤ ·) (items.map key).dedup
  have hne : ((items.map key).dedup.insertionSort (· ≤ ·)).Nodup :=
    (List.perm_insertionSort _ _).nodup_iff.2 (List.nodup_dedup _)
  exact (hle.and hne).imp fun h => lt_of_le_of_ne h.1 h.2

theorem pairwise_flatten_groupBy {r : α → α → Prop}
    (hkeys : ∀ a ∈ items, ∀ b ∈ items, key a < key b → r a b)
    (hsame : items.Pairwise fun a b => key a = key b → r a b) :
    (groupBy key items).flatten.Pairwise r := by
  have hsorted := pairwise_lt_keys key items
  refine List.pairwise_flatten.2 ⟨fun group hgroup => ?_, List.pairwise_map.2 (hsorted.imp ?_)⟩
  · obtain ⟨k, -, rfl⟩ := List.mem_map.1 hgroup
    refine (hsame.filter _).imp_of_mem fun {a b} ha hb h => h ?_
    have hak : key a = k := by simpa using (List.mem_filter.1 ha).2
    have hbk : key b = k := by simpa using (List.mem_filter.1 hb).2
    exact hak.trans hbk.symm
  · intro j k hlt a ha b hb
    obtain ⟨ha, hj⟩ := List.mem_filter.1 ha
    obtain ⟨hb, hk⟩ := List.mem_filter.1 hb
    refine hkeys a ha b hb ?_
    rwa [of_decide_eq_true hj, of_decide_eq_true hk]

theorem filter_append_filter_of_sorted {k : κ} (hsorted : items.Pairwise fun a b => key a ≤ key b)
    (hleast : ∀ a ∈ items, k ≤ key a) :
    (items.filter fun a => key a = k) ++ (items.filter fun a => !decide (key a = k)) = items := by
  induction items with
  | nil => rfl
  | cons a rest ih =>
    obtain ⟨ha, hrest⟩ := List.pairwise_cons.1 hsorted
    by_cases heq : key a = k
    · have hfirst := ih hrest fun b hb => hleast b (List.mem_cons_of_mem _ hb)
      simpa [heq] using hfirst
    · have hlt : k < key a := lt_of_le_of_ne (hleast a List.mem_cons_self) (Ne.symm heq)
      have hne : ∀ b ∈ a :: rest, key b ≠ k := by
        intro b hb
        rcases List.mem_cons.1 hb with rfl | hb
        · exact heq
        · exact ((hlt.trans_le (ha b hb)).ne).symm
      rw [List.filter_eq_nil_iff.2 fun b hb => by simpa using hne b hb,
        List.filter_eq_self.2 fun b hb => by simpa using hne b hb]
      rfl

theorem flatten_filters_of_sorted (ks : List κ) (hks : ks.Pairwise (· < ·))
    (hcover : ∀ a ∈ items, key a ∈ ks) (hsorted : items.Pairwise fun a b => key a ≤ key b) :
    (ks.map fun k => items.filter fun a => key a = k).flatten = items := by
  induction ks generalizing items with
  | nil =>
    rw [List.eq_nil_iff_forall_not_mem.2 fun a ha => List.not_mem_nil (hcover a ha)]
    rfl
  | cons k ks ih =>
    obtain ⟨hk, hks⟩ := List.pairwise_cons.1 hks
    let others := items.filter fun a => !decide (key a = k)
    have hlater : (ks.map fun j => items.filter fun a => key a = j) =
        ks.map fun j => others.filter fun a => key a = j := by
      refine List.map_congr_left fun j hj => ?_
      rw [List.filter_filter]
      refine List.filter_congr fun a _ => ?_
      by_cases ha : key a = j
      · simp [ha, (hk j hj).ne']
      · simp [ha]
    have hothers : ∀ a ∈ others, key a ∈ ks := by
      intro a ha
      obtain ⟨hmem, hne⟩ := List.mem_filter.1 ha
      exact (List.mem_cons.1 (hcover a hmem)).resolve_left (by simpa using hne)
    have hleast : ∀ a ∈ items, k ≤ key a := by
      intro a ha
      rcases List.mem_cons.1 (hcover a ha) with heq | hmem
      · exact heq.ge
      · exact (hk _ hmem).le
    rw [List.map_cons, List.flatten_cons, hlater, ih hks hothers (hsorted.filter _)]
    exact filter_append_filter_of_sorted hsorted hleast

theorem flatten_groupBy_of_sorted (hsorted : items.Pairwise fun a b => key a ≤ key b) :
    (groupBy key items).flatten = items := by
  apply flatten_filters_of_sorted _ (pairwise_lt_keys key items) _ hsorted
  intro a ha
  rw [List.mem_insertionSort, List.mem_dedup]
  exact List.mem_map_of_mem ha

end Grouping
