import Conproxy.Cache.Operations

/-!
# Keys of the store

What the removal of some keys leaves in the map, and which keys the iterations of the bulk
operations name.
-/

namespace Conproxy

open CacheStore

set_option autoImplicit false

variable {p : Platform} {scan : Scan} {now : Clock}

theorem mem_trackedRemove (s : CacheStore) (h k : QueryHash) :
    k ∈ (s.trackedRemove p h).2.entries ↔ k ∈ s.entries ∧ k ≠ h := by
  unfold trackedRemove
  cases hl : s.entries.lookup h with
  | none =>
    have hnot := AList.lookup_eq_none.1 hl
    refine ⟨fun hk => ⟨hk, ?_⟩, And.left⟩
    rintro rfl
    exact hnot hk
  | some e =>
    rw [and_comm]
    exact AList.mem_erase

theorem lookup_trackedRemove (s : CacheStore) {h k : QueryHash} (hne : k ≠ h) :
    (s.trackedRemove p h).2.entries.lookup k = s.entries.lookup k := by
  unfold trackedRemove
  cases s.entries.lookup h with
  | none => rfl
  | some e => exact AList.lookup_erase_ne hne

theorem mem_removeAll (hashes : List QueryHash) (s : CacheStore) (k : QueryHash) :
    k ∈ (removeAll p hashes s).2.entries ↔ k ∈ s.entries ∧ k ∉ hashes := by
  induction hashes generalizing s with
  | nil => simp [removeAll]
  | cons h rest ih =>
    rw [removeAll_snd, List.foldl_cons, ← removeAll_snd, ih, mem_trackedRemove, List.mem_cons,
      not_or, and_assoc]

/-- Different hashes find their entries in the store they started from. -/
theorem removeAll_fst {hashes : List QueryHash} (hnodup : hashes.Nodup) (s : CacheStore) :
    (removeAll p hashes s).1 = hashes.filterMap s.entries.lookup := by
  induction hashes generalizing s with
  | nil => rfl
  | cons h rest ih =>
    rw [List.nodup_cons] at hnodup
    have hrest : (removeAll p rest (s.trackedRemove p h).2).1 =
        rest.filterMap s.entries.lookup := by
      rw [ih hnodup.2]
      refine List.filterMap_congr fun k hk => lookup_trackedRemove s ?_
      rintro rfl
      exact hnodup.1 hk
    have hfst : (s.trackedRemove p h).1 = s.entries.lookup h := by
      unfold trackedRemove
      cases s.entries.lookup h <;> rfl
    unfold removeAll
    rcases hr : s.trackedRemove p h with ⟨_ | old, s'⟩
    · rw [hr] at hrest hfst
      rw [List.filterMap_cons, ← hfst]
      exact hrest
    · rw [hr] at hrest hfst
      rw [List.filterMap_cons, ← hfst]
      exact congrArg (old :: ·) hrest

theorem length_removeAll {hashes : List QueryHash} (hnodup : hashes.Nodup) (s : CacheStore)
    (hmem : ∀ k ∈ hashes, k ∈ s.entries) : (removeAll p hashes s).1.length = hashes.length := by
  rw [removeAll_fst hnodup]
  refine List.filterMap_length_eq_length.2 fun k hk => ?_
  exact AList.lookup_isSome.2 (hmem k hk)

theorem entries_publishRemoves (texts : List String) (s : CacheStore) :
    (publishRemoves now texts s).entries = s.entries := by
  induction texts generalizing s with
  | nil => rfl
  | cons q rest ih => exact ih (s.publish now .remove (.remove q))

theorem nodup_iter (s : CacheStore) (scan : Scan) : ((s.iter scan).map Prod.fst).Nodup := by
  have hperm := (scan.perm (s.entries.entries.map fun e => (e.1, e.2))).map Prod.fst
  refine hperm.nodup_iff.2 ?_
  rw [List.map_map]
  exact s.entries.nodupKeys

theorem mem_iter_iff {s : CacheStore} {k : QueryHash} {e : CacheEntry} :
    (k, e) ∈ s.iter scan ↔ s.entries.lookup k = some e := by
  have hmem := AList.mem_lookup_iff (a := k) (b := e) (s := s.entries)
  rw [Option.mem_def] at hmem
  rw [hmem, iter, (scan.perm _).mem_iff, List.mem_map]
  constructor
  · rintro ⟨entry, hentry, heq⟩
    cases heq
    exact hentry
  · intro hentry
    exact ⟨⟨k, e⟩, hentry, rfl⟩

theorem mem_of_mem_iter {s : CacheStore} {k : QueryHash} {e : CacheEntry}
    (h : (k, e) ∈ s.iter scan) : k ∈ s.entries :=
  WeightedTable.mem_of_lookup _ (mem_iter_iff.1 h)

theorem nodup_upstreamHashes (s : CacheStore) (upstreamId : String) :
    (s.upstreamHashes scan now upstreamId).Nodup := by
  have hsorted := ((((s.iter scan).filter fun e => e.2.upstreamId = upstreamId).map fun e =>
    (e.1, age now e.2)).perm_insertionSort fun a b => b.2 ≤ a.2).map Prod.fst
  refine hsorted.nodup_iff.2 ?_
  rw [List.map_map]
  exact (nodup_iter s scan).sublist (List.filter_sublist.map Prod.fst)

theorem matchingHashes_sublist (s : CacheStore) (criteria : EvictCriteria) :
    (s.matchingHashes p scan now criteria).Sublist ((s.iter scan).map Prod.fst) := by
  have hfilter := (List.filter_sublist (l := s.iter scan)
    (p := fun e => criteria.matches p now e.2)).map Prod.fst
  unfold matchingHashes
  cases criteria.maxEntries with
  | none => exact hfilter
  | some max => exact (List.take_sublist max _).trans hfilter

theorem nodup_matchingHashes (s : CacheStore) (criteria : EvictCriteria) :
    (s.matchingHashes p scan now criteria).Nodup :=
  (nodup_iter s scan).sublist (matchingHashes_sublist s criteria)

theorem mem_of_mem_matchingHashes {s : CacheStore} {criteria : EvictCriteria} {k : QueryHash}
    (hk : k ∈ s.matchingHashes p scan now criteria) : k ∈ s.entries := by
  obtain ⟨e, he, rfl⟩ := List.mem_map.1 ((matchingHashes_sublist s criteria).subset hk)
  exact mem_of_mem_iter he

end Conproxy
