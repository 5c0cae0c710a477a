import Mathlib.Data.List.Infix
import Mathlib.Data.List.Nodup

/-!
# The first item of every key

Items are collected in order, and an item whose key was seen before is dropped. If the items come
in blocks, the result does not depend on the order of the blocks as soon as of any two blocks one
only continues the other.
-/

namespace FirstSeen

set_option autoImplicit false

universe u v w

variable {α : Type u} {β : Type w} {κ : Type v} [DecidableEq κ] {key : α → κ}

def seen (key : α → κ) (items : List α) (k : κ) : Bool := items.any fun b => key b = k

def add (key : α → κ) (collected : List α) (a : α) : List α :=
  if collected.any fun b => key b = key a then collected else collected ++ [a]

def firstSeen (key : α → κ) (items : List α) : List α := items.foldl (add key) []

theorem seen_iff {items : List α} {k : κ} : seen key items k = true ↔ ∃ a ∈ items, key a = k := by
  simp [seen]

theorem add_of_seen {collected : List α} {a : α} (h : seen key collected (key a) = true) :
    add key collected a = collected :=
  if_pos h

theorem add_of_not_seen {collected : List α} {a : α} (h : seen key collected (key a) = false) :
    add key collected a = collected ++ [a] :=
  if_neg (by rw [Bool.not_eq_true]; exact h)

theorem seen_append (a b : List α) (k : κ) :
    seen key (a ++ b) k = (seen key a k || seen key b k) :=
  List.any_append

/-- What is collected already stays in front; of the rest the new keys are added. -/
theorem foldl_add (items collected : List α) :
    items.foldl (add key) collected =
      collected ++ (firstSeen key items).filter fun a => !seen key collected (key a) := by
  induction items using List.reverseRecOn with
  | nil => simp [firstSeen]
  | append_singleton items a ih =>
    have hsplit : firstSeen key (items ++ [a]) = add key (firstSeen key items) a := by
      simp [firstSeen]
    rw [List.foldl_append, ih, hsplit, List.foldl_cons, List.foldl_nil]
    -- A key is seen in the result if it is collected already or among the first items.
    have hseen : seen key (collected ++ (firstSeen key items).filter fun a =>
          !seen key collected (key a)) (key a) =
        (seen key collected (key a) || seen key (firstSeen key items) (key a)) := by
      rw [seen_append]
      cases hold : seen key collected (key a) with
      | true => simp
      | false =>
        rw [Bool.false_or, Bool.false_or, Bool.eq_iff_iff, seen_iff, seen_iff]
        constructor
        · rintro ⟨b, hb, hkey⟩
          exact ⟨b, List.mem_of_mem_filter hb, hkey⟩
        · rintro ⟨b, hb, hkey⟩
          refine ⟨b, List.mem_filter.mpr ⟨hb, ?_⟩, hkey⟩
          rw [hkey, hold]
          rfl
    cases hfirst : seen key (firstSeen key items) (key a) with
    | true =>
      rw [add_of_seen hfirst, add_of_seen]
      rw [hseen, hfirst, Bool.or_true]
    | false =>
      rw [hfirst, Bool.or_false] at hseen
      rw [add_of_not_seen hfirst]
      cases hold : seen key collected (key a) with
      | true =>
        rw [add_of_seen (hseen.trans hold)]
        simp [hold]
      | false =>
        rw [add_of_not_seen (hseen.trans hold)]
        simp [hold]

theorem seen_firstSeen (items : List α) (k : κ) :
    seen key (firstSeen key items) k = seen key items k := by
  induction items using List.reverseRecOn with
  | nil => rfl
  | append_singleton items a ih =>
    have hsplit : firstSeen key (items ++ [a]) = add key (firstSeen key items) a := by
      simp [firstSeen]
    rw [hsplit]
    cases hfirst : seen key (firstSeen key items) (key a) with
    | false => rw [add_of_not_seen hfirst, seen_append, seen_append, ih]
    | true =>
      rw [add_of_seen hfirst, seen_append, ih]
      by_cases hk : key a = k
      · rw [hk, ih] at hfirst
        rw [hfirst, Bool.true_or]
      · simp [seen, hk]

theorem firstSeen_append (a b : List α) :
    firstSeen key (a ++ b) =
      firstSeen key a ++ (firstSeen key b).filter fun x => !seen key a (key x) := by
  have h : b.foldl (add key) (firstSeen key a) = _ := foldl_add b (firstSeen key a)
  simp only [seen_firstSeen] at h
  rw [← h]
  exact List.foldl_append

theorem prefix_firstSeen_append (a b : List α) : firstSeen key a <+: firstSeen key (a ++ b) := by
  rw [firstSeen_append]
  exact List.prefix_append _ _

theorem firstSeen_sublist (items : List α) : (firstSeen key items).Sublist items := by
  induction items using List.reverseRecOn with
  | nil => exact List.Sublist.slnil
  | append_singleton items a ih =>
    rw [firstSeen_append]
    exact ih.append (List.filter_sublist.trans (List.Sublist.refl [a]))

theorem mem_of_mem_firstSeen {items : List α} {a : α} (h : a ∈ firstSeen key items) : a ∈ items :=
  (firstSeen_sublist items).subset h

theorem firstSeen_eq_nil_iff {items : List α} : firstSeen key items = [] ↔ items = [] := by
  constructor
  · intro h
    rw [List.eq_nil_iff_forall_not_mem]
    intro a ha
    have hseen : seen key (firstSeen key items) (key a) = true := by
      rw [seen_firstSeen, seen_iff]
      exact ⟨a, ha, rfl⟩
    rw [h] at hseen
    cases hseen
  · rintro rfl
    rfl

theorem isEmpty_firstSeen (items : List α) : (firstSeen key items).isEmpty = items.isEmpty := by
  rw [Bool.eq_iff_iff, List.isEmpty_iff, List.isEmpty_iff, firstSeen_eq_nil_iff]

theorem firstSeen_distinct (items : List α) :
    (firstSeen key items).Pairwise fun a b => key a ≠ key b := by
  induction items using List.reverseRecOn with
  | nil => exact .nil
  | append_singleton items a ih =>
    rw [firstSeen_append, List.pairwise_append]
    refine ⟨ih, (List.pairwise_singleton _ a).sublist List.filter_sublist, ?_⟩
    intro b hb c hc hkey
    have hnew := (List.mem_filter.mp hc).2
    rw [seen_iff.mpr ⟨b, mem_of_mem_firstSeen hb, hkey⟩] at hnew
    cases hnew

/-- The item found for a key is the first one of the list. -/
theorem find?_firstSeen (items : List α) (k : κ) :
    (firstSeen key items).find? (fun a => key a = k) = items.find? fun a => key a = k := by
  induction items using List.reverseRecOn with
  | nil => rfl
  | append_singleton items a ih =>
    rw [firstSeen_append, List.find?_append, List.find?_append, ih]
    cases hfind : items.find? fun a => key a = k with
    | some b => rfl
    | none =>
      rw [Option.none_or, Option.none_or]
      by_cases hk : key a = k
      · have hnew : seen key items (key a) = false := by
          rw [Bool.eq_false_iff, ne_eq, seen_iff]
          rintro ⟨b, hb, hkey⟩
          simpa [hkey, hk] using List.find?_eq_none.mp hfind b hb
        have hone : firstSeen key [a] = [a] := rfl
        rw [hone, List.filter_singleton, hnew]
        rfl
      · have hone : firstSeen key [a] = [a] := rfl
        rw [hone, List.filter_singleton]
        cases seen key items (key a) with
        | true => simp [hk]
        | false => rfl

theorem firstSeen_map {key' : β → κ} {f : β → α} {items : List β}
    (h : ∀ b ∈ items, key (f b) = key' b) :
    firstSeen key (items.map f) = (firstSeen key' items).map f := by
  induction items using List.reverseRecOn with
  | nil => rfl
  | append_singleton items b ih =>
    have hitems : ∀ c ∈ items, key (f c) = key' c := fun c hc => h c (List.mem_append_left _ hc)
    have hb : key (f b) = key' b := h b (List.mem_append_right _ (List.mem_singleton_self b))
    have hseen : seen key (items.map f) (key (f b)) = seen key' items (key' b) := by
      rw [Bool.eq_iff_iff, seen_iff, seen_iff, hb]
      simp only [List.mem_map, exists_exists_and_eq_and]
      constructor
      · rintro ⟨c, hc, hkey⟩
        exact ⟨c, hc, (hitems c hc).symm.trans hkey⟩
      · rintro ⟨c, hc, hkey⟩
        exact ⟨c, hc, (hitems c hc).trans hkey⟩
    have hone : firstSeen key [f b] = [f b] := rfl
    have hone' : firstSeen key' [b] = [b] := rfl
    rw [List.map_append, List.map_singleton, firstSeen_append, firstSeen_append, ih hitems,
      List.map_append, hone, hone', List.filter_singleton, List.filter_singleton, hseen]
    cases seen key' items (key' b) with
    | true => rfl
    | false => rfl

theorem firstSeen_append_of_shorter {a b : List α} (h : firstSeen key b <+: firstSeen key a) :
    firstSeen key (a ++ b) = firstSeen key a := by
  rw [firstSeen_append, List.append_right_eq_self, List.filter_eq_nil_iff]
  intro x hx
  rw [seen_iff.mpr ⟨x, mem_of_mem_firstSeen (h.subset hx), rfl⟩]
  simp

theorem firstSeen_append_of_longer {a b : List α}
    (h : firstSeen key a <+: firstSeen key b) : firstSeen key (a ++ b) = firstSeen key b := by
  obtain ⟨rest, hrest⟩ := h
  have hdistinct : (firstSeen key b).Pairwise fun x y => key x ≠ key y := firstSeen_distinct b
  rw [← hrest, List.pairwise_append] at hdistinct
  rw [firstSeen_append, ← hrest, List.filter_append]
  have hold : (firstSeen key a).filter (fun x => !seen key a (key x)) = [] := by
    rw [List.filter_eq_nil_iff]
    intro x hx
    rw [seen_iff.mpr ⟨x, mem_of_mem_firstSeen hx, rfl⟩]
    simp
  have hnew : rest.filter (fun x => !seen key a (key x)) = rest := by
    rw [List.filter_eq_self]
    intro x hx
    rw [Bool.not_eq_true', ← seen_firstSeen, Bool.eq_false_iff, ne_eq, seen_iff]
    rintro ⟨y, hy, hkey⟩
    exact hdistinct.2.2 y hy x hx hkey
  rw [hold, hnew, List.nil_append]

/-- Of the blocks of any two items one only continues the other. -/
def Chain (key : α → κ) (block : β → List α) (items : List β) : Prop :=
  ∀ a ∈ items, ∀ b ∈ items, firstSeen key (block a) <+: firstSeen key (block b) ∨
    firstSeen key (block b) <+: firstSeen key (block a)

/-- The longest block decides. -/
theorem Chain.flatMap {block : β → List α} {items : List β} (h : Chain key block items) :
    (∀ b ∈ items, firstSeen key (block b) <+: firstSeen key (items.flatMap block)) ∧
      (firstSeen key (items.flatMap block) = [] ∨
        ∃ b ∈ items, firstSeen key (items.flatMap block) = firstSeen key (block b)) := by
  induction items with
  | nil => exact ⟨fun b hb => (List.not_mem_nil hb).elim, .inl rfl⟩
  | cons a rest ih =>
    have hrest : Chain key block rest := fun b hb c hc =>
      h b (List.mem_cons_of_mem _ hb) c (List.mem_cons_of_mem _ hc)
    obtain ⟨hstarts, hlongest⟩ := ih hrest
    rw [List.flatMap_cons]
    -- The rest is a block of its own here: the longest one of it.
    have hcompare : firstSeen key (block a) <+: firstSeen key (rest.flatMap block) ∨
        firstSeen key (rest.flatMap block) <+: firstSeen key (block a) := by
      rcases hlongest with hnil | ⟨b, hb, hlast⟩
      · rw [hnil]
        exact .inr List.nil_prefix
      · rw [hlast]
        exact h a List.mem_cons_self b (List.mem_cons_of_mem _ hb)
    rcases hcompare with hle | hge
    · rw [firstSeen_append_of_longer hle]
      refine ⟨?_, ?_⟩
      · intro b hb
        rcases List.mem_cons.mp hb with rfl | hb
        · exact hle
        · exact hstarts b hb
      · rcases hlongest with hnil | ⟨b, hb, hlast⟩
        · exact .inl hnil
        · exact .inr ⟨b, List.mem_cons_of_mem _ hb, hlast⟩
    · rw [firstSeen_append_of_shorter hge]
      refine ⟨?_, .inr ⟨a, List.mem_cons_self, rfl⟩⟩
      intro b hb
      rcases List.mem_cons.mp hb with rfl | hb
      · exact List.prefix_rfl
      · exact (hstarts b hb).trans hge

theorem Chain.perm {block : β → List α} {items items' : List β} (h : Chain key block items)
    (hperm : items'.Perm items) :
    firstSeen key (items'.flatMap block) = firstSeen key (items.flatMap block) := by
  have h' : Chain key block items' := fun a ha b hb =>
    h a (hperm.mem_iff.mp ha) b (hperm.mem_iff.mp hb)
  have hle {xs ys : List β} (hxs : Chain key block xs) (hys : Chain key block ys)
      (hmem : ∀ b ∈ xs, b ∈ ys) :
      firstSeen key (xs.flatMap block) <+: firstSeen key (ys.flatMap block) := by
    rcases hxs.flatMap.2 with hnil | ⟨b, hb, hlast⟩
    · rw [hnil]
      exact List.nil_prefix
    · rw [hlast]
      exact hys.flatMap.1 b (hmem b hb)
  exact (hle h' h fun b hb => hperm.mem_iff.mp hb).eq_of_length_le
    (hle h h' fun b hb => hperm.mem_iff.mpr hb).length_le

theorem chain_of_perm {block : β → List α} {items : List β}
    (h : ∀ items' : List β, items'.Perm items →
      firstSeen key (items'.flatMap block) = firstSeen key (items.flatMap block)) :
    Chain key block items := by
  -- With an item moved to the front, the result starts with its block.
  have hstarts (a : β) (ha : a ∈ items) :
      firstSeen key (block a) <+: firstSeen key (items.flatMap block) := by
    obtain ⟨before, after, rfl⟩ := List.append_of_mem ha
    rw [← h (a :: (before ++ after)) List.perm_middle.symm, List.flatMap_cons]
    exact prefix_firstSeen_append (block a) _
  intro a ha b hb
  exact List.prefix_or_prefix_of_prefix (hstarts a ha) (hstarts b hb)

end FirstSeen
