import Mathlib.Data.List.Nodup
import Conproxy.Federated

/-!
# What a federated merge keeps

`should_query_remote` asks the remote side also when the local results are too few or too weak, and
the merge of the fallback mode then leaves the answer out. The merges by priority do not look for
duplicates inside the first side.
-/

namespace Conproxy

set_option autoImplicit false

namespace FederatedSearchConfig

/-- The results before they are cut off, and the number of duplicates. -/
def merged (f : FederatedSearchConfig) (localResults remoteResults : List SearchResult) :
    List FederatedResult × Nat :=
  let fromLocal := localResults.map fun r => (⟨r, .fromLocal⟩ : FederatedResult)
  let fromRemote := remoteResults.map fun r => (⟨r, .fromRemote⟩ : FederatedResult)
  match f.mergeMode with
  | .localOnlyFallback => (if localResults.isEmpty then fromRemote else fromLocal, 0)
  | .localPriority => mergePriority fromLocal fromRemote
  | .remotePriority => mergePriority fromRemote fromLocal
  | .interleave => mergeInterleave fromLocal fromRemote

theorem merge_eq (f : FederatedSearchConfig) (localResults remoteResults : List SearchResult) :
    (f.merge localResults remoteResults).1 =
        (f.merged localResults remoteResults).1.take f.maxMergedResults ∧
      (f.merge localResults remoteResults).2.duplicatesRemoved =
        (f.merged localResults remoteResults).2 :=
  ⟨rfl, rfl⟩

def mergedIds (f : FederatedSearchConfig) (localResults remoteResults : List SearchResult) :
    List String :=
  (f.merged localResults remoteResults).1.map fun r => r.result.id

/-- The merge keeps the new ids of a remote side that was to be asked, has no id twice, and
accounts for every result. -/
structure KeepsResults (f : FederatedSearchConfig)
    (localResults remoteResults : List SearchResult) : Prop where
  represented : f.shouldQueryRemote localResults ≠ .localSufficient → remoteResults ≠ [] →
    ∀ r ∈ remoteResults, r.id ∉ localResults.map SearchResult.id →
      r.id ∈ f.mergedIds localResults remoteResults
  distinct : (f.mergedIds localResults remoteResults).Nodup
  balanced : (f.merged localResults remoteResults).1.length +
      (f.merge localResults remoteResults).2.duplicatesRemoved =
    localResults.length + remoteResults.length

/-- The side that a mode copies has no id twice, and the fallback has only one side. -/
def CopiesApart (f : FederatedSearchConfig) (localResults remoteResults : List SearchResult) :
    Prop :=
  match f.mergeMode with
  | .localOnlyFallback =>
    (localResults = [] ∧ (remoteResults.map SearchResult.id).Nodup) ∨
      (remoteResults = [] ∧ (localResults.map SearchResult.id).Nodup)
  | .localPriority => (localResults.map SearchResult.id).Nodup
  | .remotePriority => (remoteResults.map SearchResult.id).Nodup
  | .interleave => True

theorem length_dropSeen (seen : List String) (results : List FederatedResult) :
    (dropSeen seen results).1.length + (dropSeen seen results).2 = results.length := by
  induction results generalizing seen with
  | nil => rfl
  | cons r rest ih =>
    rw [dropSeen, List.length_cons]
    split
    · rw [← Nat.add_assoc, ih]
    · rw [List.length_cons, Nat.add_right_comm, ih]

theorem nodup_dropSeen (seen : List String) (results : List FederatedResult) :
    ((dropSeen seen results).1.map fun r => r.result.id).Nodup ∧
      ∀ r ∈ (dropSeen seen results).1, r.result.id ∉ seen := by
  induction results generalizing seen with
  | nil => exact ⟨.nil, by simp [dropSeen]⟩
  | cons r rest ih =>
    rw [dropSeen]
    split
    · exact ih seen
    · rename_i hnew
      obtain ⟨hnodup, hunseen⟩ := ih (r.result.id :: seen)
      refine ⟨List.nodup_cons.2 ⟨fun hmem => ?_, hnodup⟩, fun s hs => ?_⟩
      · obtain ⟨s, hs, heq⟩ := List.mem_map.1 hmem
        exact hunseen s hs (heq ▸ List.mem_cons_self)
      · rcases List.mem_cons.1 hs with rfl | hs
        · exact hnew
        · exact fun hseen => hunseen s hs (List.mem_cons_of_mem _ hseen)

theorem id_mem_dropSeen (seen : List String) {results : List FederatedResult}
    {r : FederatedResult} (hr : r ∈ results) (hnew : r.result.id ∉ seen) :
    r.result.id ∈ (dropSeen seen results).1.map fun s => s.result.id := by
  induction results generalizing seen with
  | nil => cases hr
  | cons s rest ih =>
    rw [dropSeen]
    rcases List.mem_cons.1 hr with rfl | hr
    · rw [if_neg hnew]
      exact List.mem_cons_self
    · split
      · exact ih seen hr hnew
      · by_cases heq : r.result.id = s.result.id
        · rw [heq]
          exact List.mem_cons_self
        · refine List.mem_cons_of_mem _ (ih (s.result.id :: seen) hr ?_)
          exact fun hmem => (List.mem_cons.1 hmem).elim heq hnew

variable {primary secondary : List FederatedResult}

theorem nodup_mergePriority_iff :
    ((mergePriority primary secondary).1.map fun r => r.result.id).Nodup ↔
      (primary.map fun r => r.result.id).Nodup := by
  obtain ⟨hnodup, hunseen⟩ := nodup_dropSeen (primary.map fun r => r.result.id) secondary
  rw [mergePriority, List.map_append, List.nodup_append']
  refine ⟨fun h => h.1, fun h => ⟨h, hnodup, fun id hid hsecond => ?_⟩⟩
  obtain ⟨r, hr, rfl⟩ := List.mem_map.1 hsecond
  exact hunseen r hr hid

theorem length_mergePriority :
    (mergePriority primary secondary).1.length + (mergePriority primary secondary).2 =
      primary.length + secondary.length := by
  rw [mergePriority, List.length_append, Nat.add_assoc, length_dropSeen]

theorem id_mem_mergePriority {r : FederatedResult} (hr : r ∈ primary ∨ r ∈ secondary) :
    r.result.id ∈ (mergePriority primary secondary).1.map fun s => s.result.id := by
  rw [mergePriority, List.map_append, List.mem_append]
  by_cases hseen : r.result.id ∈ primary.map fun s => s.result.id
  · exact .inl hseen
  · refine .inr (id_mem_dropSeen _ (hr.resolve_left fun hmem => ?_) hseen)
    exact hseen (List.mem_map_of_mem hmem)

variable {f : FederatedSearchConfig} {localResults remoteResults : List SearchResult}

theorem ids_tagged (results : List SearchResult) (source : ResultSource) :
    (results.map fun r => (⟨r, source⟩ : FederatedResult)).map (fun r => r.result.id) =
      results.map SearchResult.id := List.map_map

theorem tagged_mem {results : List SearchResult} (source : ResultSource) {r : SearchResult}
    (hr : r ∈ results) :
    (⟨r, source⟩ : FederatedResult) ∈ results.map fun r => (⟨r, source⟩ : FederatedResult) :=
  List.mem_map_of_mem hr

theorem keepsResults_of_priority {primary secondary : List FederatedResult}
    (hmerged : f.merged localResults remoteResults = mergePriority primary secondary)
    (hsides : ∀ r ∈ remoteResults, ⟨r, .fromRemote⟩ ∈ primary ∨ ⟨r, .fromRemote⟩ ∈ secondary)
    (hlength : primary.length + secondary.length = localResults.length + remoteResults.length) :
    f.KeepsResults localResults remoteResults ↔ (primary.map fun r => r.result.id).Nodup := by
  have hdistinct : (f.mergedIds localResults remoteResults).Nodup ↔
      (primary.map fun r => r.result.id).Nodup := by
    rw [mergedIds, hmerged, nodup_mergePriority_iff]
  refine ⟨fun h => hdistinct.1 h.distinct, fun h => ⟨fun _ _ r hr _ => ?_, hdistinct.2 h, ?_⟩⟩
  · rw [mergedIds, hmerged]
    exact id_mem_mergePriority (hsides r hr)
  · rw [(merge_eq f localResults remoteResults).2, hmerged, length_mergePriority, hlength]

/-- One side is the whole result of the fallback mode. -/
theorem keepsResults_fallback_iff (hmode : f.mergeMode = .localOnlyFallback) :
    f.KeepsResults localResults remoteResults ↔
      (localResults = [] ∧ (remoteResults.map SearchResult.id).Nodup) ∨
        (remoteResults = [] ∧ (localResults.map SearchResult.id).Nodup) := by
  have hduplicates : (f.merge localResults remoteResults).2.duplicatesRemoved = 0 := by
    rw [(merge_eq f localResults remoteResults).2, merged, hmode]
  cases localResults with
  | nil =>
    have hmerged : (f.merged [] remoteResults).1 = remoteResults.map fun r => ⟨r, .fromRemote⟩ := by
      rw [merged, hmode]
      rfl
    have hids : f.mergedIds [] remoteResults = remoteResults.map SearchResult.id := by
      rw [mergedIds, hmerged, ids_tagged]
    constructor
    · intro h
      exact .inl ⟨rfl, hids ▸ h.distinct⟩
    · intro h
      have hnodup : (remoteResults.map SearchResult.id).Nodup := by
        rcases h with ⟨-, hnodup⟩ | ⟨rfl, -⟩
        · exact hnodup
        · exact .nil
      refine ⟨fun _ _ r hr _ => ?_, ?_, ?_⟩
      · rw [hids]
        exact List.mem_map_of_mem hr
      · rwa [hids]
      · rw [hduplicates, hmerged, List.length_map]
        exact (Nat.zero_add _).symm
  | cons first rest =>
    have hmerged : (f.merged (first :: rest) remoteResults).1 =
        (first :: rest).map fun r => ⟨r, .fromLocal⟩ := by
      rw [merged, hmode]
      rfl
    have hids : f.mergedIds (first :: rest) remoteResults =
        (first :: rest).map SearchResult.id := by
      rw [mergedIds, hmerged, ids_tagged]
    constructor
    · intro h
      -- The number of results leaves no room for those of the remote side.
      have hbalanced := h.balanced
      rw [hduplicates, hmerged, List.length_map, Nat.add_zero, Nat.left_eq_add] at hbalanced
      exact .inr ⟨List.eq_nil_of_length_eq_zero hbalanced, hids ▸ h.distinct⟩
    · rintro (⟨hlocal, -⟩ | ⟨rfl, hnodup⟩)
      · cases hlocal
      · refine ⟨fun _ hne => absurd rfl hne, ?_, ?_⟩
        · rwa [hids]
        · rw [hduplicates, hmerged, List.length_map]
          rfl

theorem keepsResults_interleave (hmode : f.mergeMode = .interleave) :
    f.KeepsResults localResults remoteResults := by
  have hmerged : f.merged localResults remoteResults =
      mergeInterleave (localResults.map fun r => ⟨r, .fromLocal⟩)
        (remoteResults.map fun r => ⟨r, .fromRemote⟩) := by
    rw [merged, hmode]
  refine ⟨fun _ _ r hr _ => ?_, ?_, ?_⟩
  · rw [mergedIds, hmerged]
    refine id_mem_dropSeen (r := ⟨r, .fromRemote⟩) [] ?_ List.not_mem_nil
    exact List.mem_mergeSort.2 (List.mem_append_right _ (tagged_mem .fromRemote hr))
  · rw [mergedIds, hmerged]
    exact (nodup_dropSeen [] _).1
  · rw [(merge_eq f localResults remoteResults).2, hmerged, mergeInterleave, length_dropSeen,
      List.length_mergeSort, List.length_append, List.length_map, List.length_map]

/-- A merge keeps what it was given exactly if the side that its mode copies has no id twice, and in
the fallback mode only one side has results. -/
theorem keeps_results_iff (f : FederatedSearchConfig)
    (localResults remoteResults : List SearchResult) :
    f.KeepsResults localResults remoteResults ↔ f.CopiesApart localResults remoteResults := by
  rw [CopiesApart]
  cases hmode : f.mergeMode with
  | localOnlyFallback => exact keepsResults_fallback_iff hmode
  | localPriority =>
    rw [← ids_tagged localResults .fromLocal]
    refine keepsResults_of_priority (by rw [merged, hmode])
      (fun r hr => .inr (tagged_mem .fromRemote hr)) ?_
    rw [List.length_map, List.length_map]
  | remotePriority =>
    rw [← ids_tagged remoteResults .fromRemote]
    refine keepsResults_of_priority (by rw [merged, hmode])
      (fun r hr => .inl (tagged_mem .fromRemote hr)) ?_
    rw [List.length_map, List.length_map, Nat.add_comm]
  | interleave => exact iff_of_true (keepsResults_interleave hmode) trivial

def default : FederatedSearchConfig where
  enabled := false
  minLocalResults := 3
  minLocalConfidence := .finite (7 / 10)
  fallbackOnEmpty := true
  fallbackOnLowConfidence := true
  mergeMode := .localOnlyFallback
  maxMergedResults := 10

def bareResult (id : String) : SearchResult := ⟨id, .finite 1, "", none, none⟩

/-- One local result is too few, and the remote result that was asked for is left out. -/
theorem fallback_discards_remote :
    default.shouldQueryRemote [bareResult "1"] = .belowMinResults ∧
      default.mergedIds [bareResult "1"] [bareResult "2"] = ["1"] ∧
      ¬ default.KeepsResults [bareResult "1"] [bareResult "2"] := by
  refine ⟨by decide, by decide, fun h => ?_⟩
  have hmem := h.represented (by decide) (List.cons_ne_nil _ _) (bareResult "2")
    (List.mem_singleton.2 rfl) (by decide)
  revert hmem
  decide

end FederatedSearchConfig

end Conproxy
