import Mathlib.Data.List.DropRight
import Mathlib.Data.List.Infix

/-!
# Streaks

The streak of a history is the part at its end in which every item has a property, and a run is
such a part anywhere in it. A history is unrecovered if it has a run of bad items with no run of
good ones behind it. Both can be followed item by item with the two streaks alone.
-/

namespace Streaks

set_option autoImplicit false

universe u

variable {α : Type u} {p bad good : α → Bool} {n m : Nat} {l : List α} {a : α}

def streak (p : α → Bool) (l : List α) : Nat := (l.rtakeWhile p).length

def HasRun (p : α → Bool) (n : Nat) (l : List α) : Prop :=
  ∃ run, run <:+: l ∧ n ≤ run.length ∧ ∀ a ∈ run, p a = true

/-- A run of `n` bad items that is not followed by a run of `m` good ones. -/
def Unrecovered (bad good : α → Bool) (n m : Nat) (l : List α) : Prop :=
  ∃ before run after, l = before ++ run ++ after ∧ n ≤ run.length ∧
    (∀ a ∈ run, bad a = true) ∧ ¬ HasRun good m after

@[simp] theorem streak_nil : streak p ([] : List α) = 0 := rfl

theorem streak_concat_pos (h : p a = true) : streak p (l ++ [a]) = streak p l + 1 := by
  rw [streak, List.rtakeWhile_concat_pos p l a h, List.length_append]
  rfl

theorem streak_concat_neg (h : p a = false) : streak p (l ++ [a]) = 0 := by
  rw [streak, List.rtakeWhile_concat_neg p l a (by rw [h]; exact Bool.false_ne_true)]
  rfl

theorem streak_le_length (p : α → Bool) (l : List α) : streak p l ≤ l.length :=
  (List.rtakeWhile_suffix p l).length_le

theorem streak_behind (h : p a = false) (before after : List α) :
    streak p (before ++ a :: after) = streak p after := by
  induction after using List.reverseRecOn with
  | nil => exact streak_concat_neg h
  | append_singleton after b ih =>
    rw [← List.cons_append, ← List.append_assoc]
    cases hb : p b with
    | true => rw [streak_concat_pos hb, streak_concat_pos hb, ih]
    | false => rw [streak_concat_neg hb, streak_concat_neg hb]

theorem length_le_streak {run : List α} (before : List α) (h : ∀ a ∈ run, p a = true) :
    run.length ≤ streak p (before ++ run) := by
  induction run using List.reverseRecOn with
  | nil => exact Nat.zero_le _
  | append_singleton run b ih =>
    rw [← List.append_assoc, streak_concat_pos (h b (by simp)), List.length_append]
    exact Nat.succ_le_succ (ih fun a ha => h a (List.mem_append_left _ ha))

theorem streak_le_append (before l : List α) : streak p l ≤ streak p (before ++ l) := by
  have hall : ∀ a ∈ l.rtakeWhile p, p a = true := fun a ha => List.mem_rtakeWhile_imp ha
  have hlength := length_le_streak (before ++ l.rdropWhile p) hall
  rwa [List.append_assoc, List.rdropWhile_append_rtakeWhile] at hlength

theorem hasRun_streak (p : α → Bool) (l : List α) : HasRun p (streak p l) l :=
  ⟨l.rtakeWhile p, (List.rtakeWhile_suffix p l).isInfix, le_rfl,
    fun _ ha => List.mem_rtakeWhile_imp ha⟩

theorem HasRun.mono {l' : List α} (h : HasRun p n l) (hsub : l <:+: l') : HasRun p n l' := by
  obtain ⟨run, hrun, hlength, hall⟩ := h
  exact ⟨run, hrun.trans hsub, hlength, hall⟩

theorem HasRun.of_le (h : HasRun p m l) (hle : n ≤ m) : HasRun p n l := by
  obtain ⟨run, hrun, hlength, hall⟩ := h
  exact ⟨run, hrun, hle.trans hlength, hall⟩

theorem hasRun_concat_iff :
    HasRun p n (l ++ [a]) ↔ HasRun p n l ∨ n ≤ streak p (l ++ [a]) := by
  constructor
  · rintro ⟨run, ⟨before, after, heq⟩, hlength, hall⟩
    rcases List.eq_nil_or_concat' after with rfl | ⟨after, b, rfl⟩
    · rw [List.append_nil] at heq
      rw [← heq]
      exact .inr (hlength.trans (length_le_streak before hall))
    · rw [← List.append_assoc] at heq
      obtain ⟨heq, -⟩ := List.append_inj' heq rfl
      exact .inl ⟨run, ⟨before, after, heq⟩, hlength, hall⟩
  · rintro (h | h)
    · exact h.mono (List.prefix_append l [a]).isInfix
    · exact (hasRun_streak p (l ++ [a])).of_le h

theorem not_hasRun_nil (hm : 0 < m) : ¬ HasRun p m ([] : List α) := by
  rintro ⟨run, hrun, hlength, -⟩
  rw [List.infix_nil.1 hrun] at hlength
  exact absurd hlength (Nat.not_le.2 hm)

theorem not_unrecovered_nil (hn : 0 < n) : ¬ Unrecovered bad good n m ([] : List α) := by
  rintro ⟨before, run, after, heq, hlength, -, -⟩
  obtain ⟨hfront, -⟩ := List.append_eq_nil_iff.1 heq.symm
  obtain ⟨-, rfl⟩ := List.append_eq_nil_iff.1 hfront
  exact absurd hlength (Nat.not_le.2 hn)

/-- The next item makes a history unrecovered if it completes a bad run, and leaves it so unless it
completes a good one. -/
theorem unrecovered_concat_iff (hexcl : ∀ a, bad a = true → good a = false) (hn : 0 < n)
    (hm : 0 < m) :
    Unrecovered bad good n m (l ++ [a]) ↔
      n ≤ streak bad (l ++ [a]) ∨
        Unrecovered bad good n m l ∧ streak good (l ++ [a]) < m := by
  constructor
  · rintro ⟨before, run, after, heq, hlength, hbad, hgood⟩
    rcases List.eq_nil_or_concat' after with rfl | ⟨after, b, rfl⟩
    · rw [List.append_nil] at heq
      rw [heq]
      exact .inl (hlength.trans (length_le_streak before hbad))
    · rw [← List.append_assoc] at heq
      obtain ⟨rfl, hlast⟩ := List.append_inj' heq rfl
      obtain rfl : a = b := List.head_eq_of_cons_eq hlast
      refine .inr ⟨⟨before, run, after, rfl, hlength, hbad, fun h => hgood ?_⟩, ?_⟩
      · exact h.mono (List.prefix_append after [a]).isInfix
      -- The streak of good items does not reach back over the bad run.
      · obtain ⟨rest, c, rfl⟩ := (List.eq_nil_or_concat' run).resolve_left
          (List.ne_nil_of_length_pos (hn.trans_le hlength))
        have hc : good c = false := hexcl c (hbad c (by simp))
        have hstreak : streak good (before ++ (rest ++ [c]) ++ after ++ [a]) =
            streak good (after ++ [a]) := by
          rw [← streak_behind hc (before ++ rest) (after ++ [a])]
          simp
        rw [hstreak]
        by_contra hle
        exact hgood (hasRun_concat_iff.2 (.inr (Nat.not_lt.1 hle)))
  · rintro (h | ⟨⟨before, run, after, rfl, hlength, hbad, hgood⟩, hlt⟩)
    · refine ⟨(l ++ [a]).rdropWhile bad, (l ++ [a]).rtakeWhile bad, [], ?_, h,
        fun b hb => List.mem_rtakeWhile_imp hb, not_hasRun_nil hm⟩
      rw [List.append_nil, List.rdropWhile_append_rtakeWhile]
    · refine ⟨before, run, after ++ [a], by rw [List.append_assoc], hlength, hbad, fun h => ?_⟩
      rcases hasRun_concat_iff.1 h with hold | hnew
      · exact hgood hold
      · have hle := streak_le_append (p := good) (before ++ run) (after ++ [a])
        rw [← List.append_assoc] at hle
        exact absurd (hnew.trans hle) (Nat.not_le.2 hlt)

end Streaks
