import Conproxy.Lib.FirstSeen

/-!
# The most recent items

A history has its newest item first, and of the items with one key the newest one counts. A bounded
collection of the most recent of these can be kept without the history: the new item is put in
front, an older one with its key goes, and so does what is then too much at the end.
-/

namespace Recency

open FirstSeen

set_option autoImplicit false

universe u v

variable {α : Type u} {κ : Type v} [DecidableEq κ] {key : α → κ} {m : Nat}

/-- The newest items of the `m` most recent keys. -/
def recent (key : α → κ) (m : Nat) (history : List α) : List α := (firstSeen key history).take m

/-- Every key that was among the most recent ones and then was not. -/
def dropped (key : α → κ) (m : Nat) : List α → List κ
  | [] => []
  | a :: earlier =>
    (((recent key m earlier).map key).filter fun k => k ∉ (recent key m (a :: earlier)).map key) ++
      dropped key m earlier

theorem firstSeen_cons (a : α) (items : List α) :
    firstSeen key (a :: items) = a :: (firstSeen key items).filter fun b => key b ≠ key a := by
  have happend : firstSeen key ([a] ++ items) = _ := firstSeen_append [a] items
  have hseen (b : α) : (!seen key [a] (key b)) = decide (key b ≠ key a) := by
    simp [seen, eq_comm]
  simp only [hseen] at happend
  exact happend

variable (key) in
theorem recent_distinct (m : Nat) (history : List α) :
    (recent key m history).Pairwise fun a b => key a ≠ key b :=
  (firstSeen_distinct history).sublist (List.take_sublist m _)

variable (key) in
theorem length_recent_le (m : Nat) (history : List α) : (recent key m history).length ≤ m :=
  List.length_take_le m _

theorem length_le_filter_ne {l : List α} (h : l.Pairwise fun a b => key a ≠ key b) (k : κ) :
    l.length ≤ (l.filter fun b => key b ≠ k).length + 1 := by
  induction l with
  | nil => exact Nat.zero_le _
  | cons a rest ih =>
    obtain ⟨hfirst, hrest⟩ := List.pairwise_cons.1 h
    by_cases heq : key a = k
    · have hall : (rest.filter fun b => key b ≠ k) = rest :=
        List.filter_eq_self.2 fun b hb => by simpa [heq] using (hfirst b hb).symm
      rw [List.filter_cons_of_neg (by simpa using heq), hall, List.length_cons]
    · rw [List.filter_cons_of_pos (by simpa using heq)]
      exact Nat.succ_le_succ (ih hrest)

theorem take_filter_ne {l : List α} (h : l.Pairwise fun a b => key a ≠ key b) (k : κ) (m : Nat) :
    ((l.take (m + 1)).filter fun b => key b ≠ k).take m =
      (l.filter fun b => key b ≠ k).take m := by
  by_cases hlength : l.length ≤ m + 1
  · rw [List.take_of_length_le hlength]
  · have hfront := length_le_filter_ne (h.sublist (List.take_sublist (m + 1) l)) k
    rw [List.length_take_of_le (Nat.le_of_not_le hlength)] at hfront
    conv_rhs => rw [← List.take_append_drop (m + 1) l, List.filter_append]
    rw [List.take_append_of_le_length (Nat.le_of_succ_le_succ hfront)]

theorem recent_cons (a : α) (earlier : List α) :
    recent key m (a :: earlier) =
      (a :: (recent key m earlier).filter fun b => key b ≠ key a).take m := by
  cases m with
  | zero => rfl
  | succ m =>
    rw [recent, recent, firstSeen_cons, List.take_succ_cons, List.take_succ_cons,
      take_filter_ne (firstSeen_distinct earlier)]

/-- A new item drops one key if the collection is full and does not have its key. -/
theorem length_dropped_cons (hm : 0 < m) (a : α) (earlier : List α) :
    (dropped key m (a :: earlier)).length =
      ((recent key m earlier).filter fun b => key b ≠ key a).length + 1 - m +
        (dropped key m earlier).length := by
  obtain ⟨n, rfl⟩ := Nat.exists_eq_succ_of_ne_zero hm.ne'
  rw [dropped, List.length_append, recent_cons, List.take_succ_cons]
  refine congrArg (· + _) ?_
  have hdistinct := recent_distinct key (n + 1) earlier
  have hbound := length_recent_le key (n + 1) earlier
  generalize recent key (n + 1) earlier = l at hdistinct hbound ⊢
  by_cases hroom : (l.filter fun b => key b ≠ key a).length ≤ n
  · rw [List.take_of_length_le hroom, Nat.sub_eq_zero_of_le (Nat.succ_le_succ hroom),
      List.length_eq_zero_iff, List.filter_eq_nil_iff]
    simp only [List.mem_map, List.map_cons, List.mem_cons, List.mem_filter, decide_eq_true_eq,
      not_not, forall_exists_index, and_imp]
    rintro k b hb rfl
    by_cases heq : key b = key a
    · exact .inl heq
    · exact .inr ⟨b, ⟨hb, heq⟩, rfl⟩
  · -- Nothing has the key, and the last item goes.
    have hle := List.length_filter_le (fun b => decide (key b ≠ key a)) l
    have hall : (l.filter fun b => key b ≠ key a) = l :=
      List.filter_sublist.eq_of_length_le (by omega)
    have hlength : l.length = n + 1 := by
      rw [hall] at hroom
      omega
    rw [hall, hlength]
    obtain ⟨front, z, rfl⟩ := (List.eq_nil_or_concat' l).resolve_left
      (List.ne_nil_of_length_pos (by omega))
    have hfront : front.length = n := by simpa using hlength
    have hne : ∀ b ∈ front ++ [z], key b ≠ key a := fun b hb =>
      of_decide_eq_true (List.filter_eq_self.1 hall b hb)
    have hlast := (List.pairwise_append.1 hdistinct).2.2
    rw [List.take_left' hfront, List.map_append, List.filter_append,
      List.filter_eq_nil_iff.2 fun k hk => by simp [hk], List.nil_append, List.map_singleton,
      List.filter_cons_of_pos]
    · simp
    · rw [decide_eq_true_eq, List.map_cons, List.mem_cons, List.mem_map]
      rintro (heq | ⟨b, hb, heq⟩)
      · exact hne z (by simp) heq
      · exact hlast b hb z (List.mem_singleton.2 rfl) heq

end Recency
