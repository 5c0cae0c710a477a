import Mathlib.Data.List.Nodup

/-!
# Cutting a list into chunks

A list is cut into chunks of one length, only the last of which may be shorter. What is computed
chunk by chunk is put back by index: `scatter` writes values into the places they came from.
-/

namespace Chunks

set_option autoImplicit false

universe u v

variable {α : Type u} {β : Type v}

/-- The chunks of the first `fuel` elements at least. -/
def cut (size : Nat) : Nat → List α → List (List α)
  | 0, _ => []
  | fuel + 1, l => if l.isEmpty then [] else l.take size :: cut size fuel (l.drop size)

def chunks (size : Nat) (l : List α) : List (List α) := cut size l.length l

theorem flatten_cut {size : Nat} (hsize : 0 < size) {fuel : Nat} {l : List α}
    (hfuel : l.length ≤ fuel) : (cut size fuel l).flatten = l := by
  induction fuel generalizing l with
  | zero => exact (List.length_eq_zero_iff.1 (Nat.le_zero.1 hfuel)).symm
  | succ fuel ih =>
    unfold cut
    split
    · rename_i hempty
      exact (List.isEmpty_iff.1 hempty).symm
    · have hrest : (l.drop size).length ≤ fuel := by
        rw [List.length_drop]
        omega
      rw [List.flatten_cons, ih hrest, List.take_append_drop]

theorem flatten_chunks {size : Nat} (hsize : 0 < size) (l : List α) :
    (chunks size l).flatten = l :=
  flatten_cut hsize (Nat.le_refl _)

theorem length_le_of_mem_cut {size fuel : Nat} {l chunk : List α} (h : chunk ∈ cut size fuel l) :
    chunk.length ≤ size := by
  induction fuel generalizing l with
  | zero => cases h
  | succ fuel ih =>
    unfold cut at h
    split at h
    · cases h
    · rcases List.mem_cons.1 h with rfl | hrest
      · exact List.length_take_le _ _
      · exact ih hrest

theorem length_le_of_mem_chunks {size : Nat} {l chunk : List α} (h : chunk ∈ chunks size l) :
    chunk.length ≤ size :=
  length_le_of_mem_cut h

theorem chunks_of_length_le {size : Nat} {l : List α} (hl : l ≠ []) (hsize : l.length ≤ size) :
    chunks size l = [l] := by
  cases l with
  | nil => exact absurd rfl hl
  | cons a rest =>
    have hdrop : (a :: rest).drop size = [] := List.drop_eq_nil_of_le hsize
    have hend (fuel : Nat) : cut size fuel ([] : List α) = [] := by cases fuel <;> rfl
    unfold chunks
    rw [List.length_cons, cut, hdrop, hend, List.take_of_length_le hsize]
    rfl

def scatter (values : List (Nat × β)) (places : List (Option β)) : List (Option β) :=
  values.foldl (fun places value => places.set value.1 (some value.2)) places

theorem scatter_append (values values' : List (Nat × β)) (places : List (Option β)) :
    scatter (values ++ values') places = scatter values' (scatter values places) :=
  List.foldl_append

theorem length_scatter (values : List (Nat × β)) (places : List (Option β)) :
    (scatter values places).length = places.length := by
  induction values generalizing places with
  | nil => rfl
  | cons value rest ih => exact (ih _).trans List.length_set

theorem getElem?_scatter_of_notMem {values : List (Nat × β)} {i : Nat}
    (h : i ∉ values.map Prod.fst) (places : List (Option β)) :
    (scatter values places)[i]? = places[i]? := by
  induction values generalizing places with
  | nil => rfl
  | cons value rest ih =>
    rw [List.map_cons, List.mem_cons, not_or] at h
    exact (ih h.2 _).trans (List.getElem?_set_ne (Ne.symm h.1))

/-- If all values for a place are the same, it holds this value, or what it held before. -/
theorem getElem?_scatter {values : List (Nat × β)} {i : Nat} {b : β}
    (hvalues : ∀ value ∈ values, value.1 = i → value.2 = b) {places : List (Option β)}
    (hplace : i ∈ values.map Prod.fst ∧ i < places.length ∨ places[i]? = some (some b)) :
    (scatter values places)[i]? = some (some b) := by
  induction values generalizing places with
  | nil => exact hplace.resolve_left fun h => by cases h.1
  | cons value rest ih =>
    show (scatter rest (places.set value.1 (some value.2)))[i]? = some (some b)
    refine ih (fun value' hvalue' => hvalues value' (List.mem_cons_of_mem _ hvalue')) ?_
    by_cases hi : value.1 = i
    · refine .inr ?_
      have hlt : i < places.length := by
        rcases hplace with ⟨-, hlt⟩ | hsome
        · exact hlt
        · exact (List.getElem?_eq_some_iff.1 hsome).1
      rw [hi, List.getElem?_set_self hlt, hvalues value List.mem_cons_self hi]
    · rcases hplace with ⟨hmem, hlt⟩ | hsome
      · refine .inl ⟨?_, ?_⟩
        · exact (List.mem_cons.1 hmem).resolve_left (Ne.symm hi)
        · rw [List.length_set]
          exact hlt
      · refine .inr ?_
        rw [List.getElem?_set_ne hi]
        exact hsome

end Chunks
