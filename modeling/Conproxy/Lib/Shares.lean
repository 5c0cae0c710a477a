import Mathlib.Algebra.GroupWithZero.Nat
import Mathlib.Data.Nat.Count

/-!
# Shares

Shares laid one behind the other divide the numbers below their sum: the place of a number is the
one of the share that it falls into. As many numbers fall into a share as it is large, and so do as
many of the residues of any window that is as long as the sum.
-/

namespace Shares

set_option autoImplicit false

def place : List Nat → Nat → Option Nat
  | [], _ => none
  | share :: rest, x => if x < share then some 0 else (place rest (x - share)).map (· + 1)

theorem place_of_lt {share x : Nat} (rest : List Nat) (h : x < share) :
    place (share :: rest) x = some 0 := if_pos h

theorem place_add (share : Nat) (rest : List Nat) (x : Nat) :
    place (share :: rest) (share + x) = (place rest x).map (· + 1) := by
  rw [place, if_neg (Nat.not_lt.2 (Nat.le_add_right share x)), Nat.add_sub_cancel_left]

theorem exists_place {shares : List Nat} {x : Nat} (h : x < shares.sum) :
    ∃ i, place shares x = some i := by
  induction shares generalizing x with
  | nil => exact absurd h (Nat.not_lt_zero x)
  | cons share rest ih =>
    by_cases hlt : x < share
    · exact ⟨0, place_of_lt rest hlt⟩
    · obtain ⟨y, rfl⟩ := Nat.exists_eq_add_of_le (Nat.not_lt.1 hlt)
      rw [List.sum_cons] at h
      obtain ⟨i, hi⟩ := ih (Nat.lt_of_add_lt_add_left h)
      exact ⟨i + 1, by rw [place_add, hi, Option.map_some]⟩

theorem lt_length_of_place {shares : List Nat} {x i : Nat} (h : place shares x = some i) :
    i < shares.length := by
  induction shares generalizing x i with
  | nil => cases h
  | cons share rest ih =>
    rw [place] at h
    split at h
    · obtain rfl := Option.some.inj h
      exact Nat.zero_lt_succ _
    · obtain ⟨j, hj, rfl⟩ := Option.map_eq_some_iff.1 h
      exact Nat.succ_lt_succ (ih hj)

/-- Every share holds as many numbers as it is large. -/
theorem count_place (shares : List Nat) (i : Nat) :
    Nat.count (fun x => place shares x = some i) shares.sum = shares.getD i 0 := by
  induction shares generalizing i with
  | nil => rfl
  | cons share rest ih =>
    rw [List.sum_cons, Nat.count_add]
    simp only [place_add]
    cases i with
    | zero =>
      have hfirst : Nat.count (fun x => place (share :: rest) x = some 0) share = share :=
        Nat.count_iff_forall.2 fun _ hx => place_of_lt rest hx
      have hlater : Nat.count (fun x => (place rest x).map (· + 1) = some 0) rest.sum = 0 :=
        Nat.count_iff_forall_not.2 fun _ => by simp
      rw [hfirst, hlater]
      rfl
    | succ i =>
      have hfirst : Nat.count (fun x => place (share :: rest) x = some (i + 1)) share = 0 :=
        Nat.count_iff_forall_not.2 fun _ hx => by simp [place_of_lt rest hx]
      have hlater (x : Nat) :
          (place rest x).map (· + 1) = some (i + 1) ↔ place rest x = some i := by
        cases place rest x <;> simp
      rw [hfirst, Nat.zero_add]
      simp only [hlater]
      exact ih i

/-- Every window of `n` numbers has the same residues by `n`. -/
theorem count_window (p : Nat → Prop) [DecidablePred p] (start n : Nat) :
    Nat.count (fun k => p ((start + k) % n)) n = Nat.count p n := by
  have hfront := Nat.count_add (fun k => p (k % n)) start n
  have hback := Nat.count_add (fun k => p (k % n)) n start
  simp only [Nat.add_mod_left] at hback
  rw [Nat.add_comm n start, Nat.add_comm (Nat.count _ n)] at hback
  have hsame := Nat.add_left_cancel (hfront.symm.trans hback)
  rw [hsame]
  have hmod (k : Nat) (hk : k < n) : p (k % n) ↔ p k := by rw [Nat.mod_eq_of_lt hk]
  exact le_antisymm (Nat.count_mono_left fun k hk => (hmod k hk).1)
    (Nat.count_mono_left fun k hk => (hmod k hk).2)

theorem count_place_window (shares : List Nat) (start i : Nat) :
    Nat.count (fun k => place shares ((start + k) % shares.sum) = some i) shares.sum =
      shares.getD i 0 :=
  (count_window (fun x => place shares x = some i) start shares.sum).trans (count_place shares i)

end Shares
