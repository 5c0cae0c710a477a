import Conproxy.Lib.Squeeze

/-!
# Words

The words of a list are the pieces between its separators that are not empty. A list that does not
end in a separator is squeezed to its words with one blank between them.
-/

namespace Squeeze

set_option autoImplicit false

universe u

variable {α : Type u} {sep : α → Bool} {blank : α}

def words (sep : α → Bool) (as : List α) : List (List α) :=
  (as.splitOnP sep).filter fun word => !word.isEmpty

@[simp] theorem words_nil : words sep [] = [] := rfl

theorem words_append_cons {a : α} (ha : sep a = true) (as bs : List α) :
    words sep (as ++ a :: bs) = words sep as ++ words sep bs := by
  rw [words, List.splitOnP_append_cons as bs ha, List.filter_append]
  rfl

theorem words_cons_sep {a : α} (ha : sep a = true) (as : List α) :
    words sep (a :: as) = words sep as :=
  words_append_cons ha [] as

theorem words_append_left {ss : List α} (hss : ∀ a ∈ ss, sep a = true) (as : List α) :
    words sep (ss ++ as) = words sep as := by
  induction ss with
  | nil => rfl
  | cons a ss ih =>
    rw [List.cons_append, words_cons_sep (hss a List.mem_cons_self)]
    exact ih fun b hb => hss b (List.mem_cons_of_mem a hb)

theorem words_append_right {ss : List α} (hss : ∀ a ∈ ss, sep a = true) (as : List α) :
    words sep (as ++ ss) = words sep as := by
  cases ss with
  | nil => rw [List.append_nil]
  | cons a ss =>
    have htail := words_append_left (fun b hb => hss b (List.mem_cons_of_mem a hb)) []
    rw [List.append_nil] at htail
    rw [words_append_cons (hss a List.mem_cons_self), htail, words_nil, List.append_nil]

theorem words_of_forall {word : List α} (hword : ∀ a ∈ word, sep a = false) (hne : word ≠ []) :
    words sep word = [word] := by
  rw [words, List.splitOnP_eq_singleton hword]
  simp [hne]

theorem splitOnP_cons_sep {a : α} (ha : sep a = true) (as : List α) :
    (a :: as).splitOnP sep = [] :: as.splitOnP sep := by
  rw [List.splitOnP_cons_eq_if_modifyHead, if_pos ha]

theorem splitOnP_cons_word {a : α} (ha : sep a = false) {as word : List α}
    {rest : List (List α)} (h : as.splitOnP sep = word :: rest) :
    (a :: as).splitOnP sep = (a :: word) :: rest := by
  rw [List.splitOnP_cons_eq_if_modifyHead, if_neg (by simp [ha]), h, List.modifyHead_cons]

theorem mem_words {as word : List α} (h : word ∈ words sep as) :
    word ≠ [] ∧ ∀ a ∈ word, sep a = false ∧ a ∈ as := by
  obtain ⟨hsplit, hne⟩ := List.mem_filter.mp h
  refine ⟨by simpa using hne, ?_⟩
  clear h hne
  induction as generalizing word with
  | nil =>
    obtain rfl : word = [] := by simpa using hsplit
    intro a ha
    cases ha
  | cons b as ih =>
    cases hb : sep b with
    | true =>
      rw [splitOnP_cons_sep hb] at hsplit
      cases hsplit with
      | head =>
        intro a ha
        cases ha
      | tail _ hrest =>
        intro a ha
        exact (ih hrest a ha).imp_right (List.mem_cons_of_mem b)
    | false =>
      obtain ⟨first, rest, hfirst⟩ := List.exists_cons_of_ne_nil (List.splitOnP_ne_nil sep as)
      rw [splitOnP_cons_word hb hfirst] at hsplit
      rw [hfirst] at ih
      cases hsplit with
      | head =>
        intro a ha
        cases ha with
        | head => exact ⟨hb, List.mem_cons_self⟩
        | tail _ hrest =>
          exact (ih List.mem_cons_self a hrest).imp_right (List.mem_cons_of_mem b)
      | tail _ hrest =>
        intro a ha
        exact (ih (List.mem_cons_of_mem first hrest) a ha).imp_right (List.mem_cons_of_mem b)

theorem words_intercalate (hblank : sep blank = true) {ws : List (List α)}
    (hws : ∀ word ∈ ws, word ≠ [] ∧ ∀ a ∈ word, sep a = false) :
    words sep ([blank].intercalate ws) = ws := by
  induction ws with
  | nil => rfl
  | cons word rest ih =>
    obtain ⟨hne, hword⟩ := hws word List.mem_cons_self
    have hrest := ih fun w hw => hws w (List.mem_cons_of_mem word hw)
    cases rest with
    | nil => rw [List.intercalate_singleton, words_of_forall hword hne]
    | cons next rest =>
      rw [List.intercalate_cons_cons, List.append_assoc, List.singleton_append,
        words_append_cons hblank, hrest, words_of_forall hword hne]
      rfl

/-- The list does not end in a separator. -/
def EndsInWord (sep : α → Bool) (as : List α) : Prop := ∀ a, as.getLast? = some a → sep a = false

theorem EndsInWord.tail {a b : α} {as : List α} (h : EndsInWord sep (a :: b :: as)) :
    EndsInWord sep (b :: as) := by
  intro c hc
  exact h c (by rw [List.getLast?_cons_cons]; exact hc)

theorem words_cons_word {a : α} (ha : sep a = false) {as word : List α} {rest : List (List α)}
    (h : as.splitOnP sep = word :: rest) :
    words sep (a :: as) = (a :: word) :: rest.filter fun word => !word.isEmpty := by
  rw [words, splitOnP_cons_word ha h, List.filter_cons_of_pos rfl]

theorem words_ne_nil {a : α} {as : List α} (h : EndsInWord sep (a :: as)) :
    words sep (a :: as) ≠ [] := by
  induction as generalizing a with
  | nil =>
    rw [words_cons_word (h a rfl) List.splitOnP_nil]
    exact List.cons_ne_nil _ _
  | cons b as ih =>
    cases ha : sep a with
    | true =>
      rw [words_cons_sep ha]
      exact ih h.tail
    | false =>
      obtain ⟨word, rest, hsplit⟩ :=
        List.exists_cons_of_ne_nil (List.splitOnP_ne_nil sep (b :: as))
      rw [words_cons_word ha hsplit]
      exact List.cons_ne_nil _ _

theorem intercalate_cons (word : List α) (rest : List (List α)) :
    [blank].intercalate (word :: rest) = word ++ rest.flatMap (blank :: ·) := by
  induction rest generalizing word with
  | nil => rw [List.intercalate_singleton, List.flatMap_nil, List.append_nil]
  | cons next rest ih =>
    rw [List.intercalate_cons_cons, ih, List.flatMap_cons, List.append_assoc,
      List.singleton_append, List.cons_append]

theorem cons_intercalate {ws : List (List α)} (h : ws ≠ []) :
    blank :: [blank].intercalate ws = ws.flatMap (blank :: ·) := by
  obtain ⟨word, rest, rfl⟩ := List.exists_cons_of_ne_nil h
  rw [intercalate_cons, List.flatMap_cons, List.cons_append]

theorem mem_intercalate {a : α} {between : List α} {ws : List (List α)}
    (h : a ∈ between.intercalate ws) : a ∈ between ∨ ∃ word ∈ ws, a ∈ word := by
  induction ws with
  | nil => cases h
  | cons word rest ih =>
    cases rest with
    | nil =>
      rw [List.intercalate_singleton] at h
      exact Or.inr ⟨word, List.mem_cons_self, h⟩
    | cons next rest =>
      rw [List.intercalate_cons_cons, List.append_assoc] at h
      rcases List.mem_append.mp h with hword | hlater
      · exact Or.inr ⟨word, List.mem_cons_self, hword⟩
      · rcases List.mem_append.mp hlater with hbetween | hrest
        · exact Or.inl hbetween
        · exact (ih hrest).imp_right fun ⟨found, hfound, ha⟩ =>
            ⟨found, List.mem_cons_of_mem word hfound, ha⟩

/-- The flag stands for a separator before the list. Without one the first piece continues a word,
and every later word has a blank before it. -/
theorem squeeze_of_endsInWord {as word : List α} {rest : List (List α)}
    (hsplit : as.splitOnP sep = word :: rest) (h : EndsInWord sep as) :
    squeeze sep blank true as = [blank].intercalate (words sep as) ∧
      squeeze sep blank false as =
        word ++ (rest.filter fun word => !word.isEmpty).flatMap (blank :: ·) := by
  induction as generalizing word rest with
  | nil =>
    cases hsplit
    exact ⟨rfl, rfl⟩
  | cons a as ih =>
    obtain ⟨next, later, hnext⟩ := List.exists_cons_of_ne_nil (List.splitOnP_ne_nil sep as)
    cases ha : sep a with
    | true =>
      rw [splitOnP_cons_sep ha] at hsplit
      obtain ⟨rfl, rfl⟩ := List.cons.inj hsplit
      cases as with
      | nil => exact absurd (h a rfl) (by simp [ha])
      | cons b as =>
        have hrest := (ih hnext h.tail).1
        have hblank : blank :: squeeze sep blank true (b :: as) =
            (words sep (b :: as)).flatMap (blank :: ·) := by
          rw [hrest, cons_intercalate (words_ne_nil h.tail)]
        rw [words_cons_sep ha]
        unfold squeeze
        rw [if_pos ha, if_pos ha]
        exact ⟨hrest, hblank⟩
    | false =>
      have hends : EndsInWord sep as := by
        cases as with
        | nil =>
          intro b hb
          cases hb
        | cons b as => exact h.tail
      have hrest := (ih hnext hends).2
      rw [splitOnP_cons_word ha hnext] at hsplit
      obtain ⟨rfl, rfl⟩ := List.cons.inj hsplit
      rw [words_cons_word ha hnext, intercalate_cons]
      unfold squeeze
      rw [if_neg (by simp [ha]), if_neg (by simp [ha]), hrest]
      exact ⟨rfl, rfl⟩

/-- The separators at the end, and what comes before them. -/
theorem exists_endsInWord (sep : α → Bool) (as : List α) :
    ∃ front seps, as = front ++ seps ∧ (∀ a ∈ seps, sep a = true) ∧ EndsInWord sep front := by
  induction as with
  | nil => exact ⟨[], [], rfl, fun a ha => absurd ha List.not_mem_nil, fun a ha => by cases ha⟩
  | cons a as ih =>
    obtain ⟨front, seps, rfl, hseps, hfront⟩ := ih
    cases front with
    | nil =>
      cases ha : sep a with
      | true =>
        refine ⟨[], a :: seps, rfl, fun b hb => ?_, hfront⟩
        rcases List.mem_cons.mp hb with rfl | hb
        · exact ha
        · exact hseps b hb
      | false =>
        refine ⟨[a], seps, rfl, hseps, fun b hb => ?_⟩
        rw [← Option.some.inj hb]
        exact ha
    | cons b front =>
      refine ⟨a :: b :: front, seps, rfl, hseps, fun c hc => hfront c ?_⟩
      rw [List.getLast?_cons_cons] at hc
      exact hc

theorem squeeze_seps {as : List α} (h : ∀ a ∈ as, sep a = true) :
    squeeze sep blank true as = [] := by
  induction as with
  | nil => rfl
  | cons a as ih =>
    unfold squeeze
    rw [if_pos (h a List.mem_cons_self), if_pos rfl]
    exact ih fun b hb => h b (List.mem_cons_of_mem a hb)

/-- Separators at the end leave one blank behind. -/
theorem squeeze_append_seps {as seps : List α} (has : EndsInWord sep as) (hne : as ≠ [])
    (hseps : ∀ a ∈ seps, sep a = true) (hne' : seps ≠ []) (wasSep : Bool) :
    squeeze sep blank wasSep (as ++ seps) = squeeze sep blank wasSep as ++ [blank] := by
  induction as generalizing wasSep with
  | nil => exact absurd rfl hne
  | cons a as ih =>
    have hrest (was : Bool) (h : as = [] → was = false) :
        squeeze sep blank was (as ++ seps) = squeeze sep blank was as ++ [blank] := by
      cases as with
      | nil =>
        obtain ⟨b, rest, rfl⟩ := List.exists_cons_of_ne_nil hne'
        have hrest : squeeze sep blank true rest = [] :=
          squeeze_seps fun c hc => hseps c (List.mem_cons_of_mem b hc)
        rw [List.nil_append, h rfl]
        unfold squeeze
        rw [if_pos (hseps b List.mem_cons_self), if_neg Bool.false_ne_true, hrest]
        rfl
      | cons b as => exact ih has.tail (List.cons_ne_nil b as) was
    rw [List.cons_append]
    unfold squeeze
    cases ha : sep a with
    | true =>
      have hnil : as = [] → true = false := by
        rintro rfl
        exact ha.symm.trans (has a rfl)
      rw [if_pos rfl, if_pos rfl, hrest true hnil]
      split
      · rfl
      · rfl
    | false =>
      rw [if_neg Bool.false_ne_true, if_neg Bool.false_ne_true, hrest false fun _ => rfl]
      rfl

theorem exists_getLast?_squeeze {as : List α} (has : EndsInWord sep as) (hne : as ≠ [])
    (wasSep : Bool) :
    ∃ a, (squeeze sep blank wasSep as).getLast? = some a ∧ sep a = false := by
  induction as generalizing wasSep with
  | nil => exact absurd rfl hne
  | cons a as ih =>
    cases as with
    | nil =>
      have ha := has a rfl
      refine ⟨a, ?_, ha⟩
      unfold squeeze
      rw [if_neg (by simp [ha])]
      rfl
    | cons b as =>
      have hrest (was : Bool) := ih has.tail (List.cons_ne_nil b as) was
      unfold squeeze
      split
      · split
        · exact hrest true
        · obtain ⟨c, hc, hsep⟩ := hrest true
          exact ⟨c, by rw [List.getLast?_cons, hc]; rfl, hsep⟩
      · obtain ⟨c, hc, hsep⟩ := hrest false
        exact ⟨c, by rw [List.getLast?_cons, hc]; rfl, hsep⟩

theorem squeeze_eq_intercalate {as : List α} (hfirst : ∀ a, as.head? = some a → sep a = false)
    (hlast : EndsInWord sep as) :
    squeeze sep blank false as = [blank].intercalate (words sep as) := by
  cases as with
  | nil => rfl
  | cons a as =>
    obtain ⟨word, rest, hsplit⟩ :=
      List.exists_cons_of_ne_nil (List.splitOnP_ne_nil sep (a :: as))
    rw [← (squeeze_of_endsInWord hsplit hlast).1]
    have ha := hfirst a rfl
    unfold squeeze
    rw [if_neg (by simp [ha]), if_neg (by simp [ha])]

end Squeeze
