import Mathlib.Data.List.Basic
import Conproxy.Lib.Machine

/-!
# How long a run can go on

A run whose steps all lower a measure is no longer than the measure. `remaining` is the measure of a
list of tasks that adds up what each of them has still to do.
-/

namespace Machine

set_option autoImplicit false

universe u v

variable {σ : Type u} {α : Type v} {step : σ → α → σ}

theorem length_add_le_of_lowers {work : σ → Nat} {ok : σ → α → Prop}
    (hstep : ∀ s a, ok s a → work (step s a) < work s) {s : σ} {as : List α}
    (has : AllSteps step ok s as) : as.length + work (run step s as) ≤ work s := by
  induction as generalizing s with
  | nil => exact Nat.le_of_eq (Nat.zero_add _)
  | cons a as ih =>
    have hfirst := hstep s a has.1
    have hrest := ih has.2
    rw [List.length_cons, run_cons]
    omega

theorem length_le_of_lowers {work : σ → Nat} {ok : σ → α → Prop}
    (hstep : ∀ s a, ok s a → work (step s a) < work s) {s : σ} {as : List α}
    (has : AllSteps step ok s as) : as.length ≤ work s :=
  Nat.le_trans (Nat.le_add_right _ _) (length_add_le_of_lowers hstep has)

section Tasks

variable {τ : Type u} (rank : τ → Nat)

def remaining : List τ → Nat
  | [] => 0
  | t :: ts => rank t + remaining ts

theorem remaining_set {ts : List τ} {i : Nat} {t : τ} (h : ts[i]? = some t) (t' : τ) :
    remaining rank (ts.set i t') + rank t = remaining rank ts + rank t' := by
  induction ts generalizing i with
  | nil => cases h
  | cons head ts ih =>
    cases i with
    | zero =>
      obtain rfl : head = t := by simpa using h
      simp only [List.set_cons_zero, remaining]
      omega
    | succ i =>
      have hrest := ih (by simpa using h)
      simp only [List.set_cons_succ, remaining]
      omega

theorem remaining_set_lt {ts : List τ} {i : Nat} {t t' : τ} (h : ts[i]? = some t)
    (hlt : rank t' < rank t) : remaining rank (ts.set i t') < remaining rank ts := by
  have hset := remaining_set rank h t'
  omega

/-- A step of one task that costs each of the others one more at most. -/
theorem remaining_set_le_add_length {rank' : τ → Nat} {ts : List τ} {i : Nat} {t : τ}
    (h : ts[i]? = some t) (t' : τ) (hothers : ∀ x ∈ ts, rank' x ≤ rank x + 1) :
    remaining rank' (ts.set i t') + rank t + 1 ≤
      remaining rank ts + rank' t' + ts.length := by
  have hall (xs : List τ) (hxs : ∀ x ∈ xs, rank' x ≤ rank x + 1) :
      remaining rank' xs ≤ remaining rank xs + xs.length := by
    induction xs with
    | nil => exact Nat.le_refl 0
    | cons x xs ih =>
      have hfirst := hxs x List.mem_cons_self
      have hrest := ih fun y hy => hxs y (List.mem_cons_of_mem x hy)
      simp only [remaining, List.length_cons]
      omega
  induction ts generalizing i with
  | nil => cases h
  | cons head ts ih =>
    cases i with
    | zero =>
      obtain rfl : head = t := by simpa using h
      have hrest := hall ts fun x hx => hothers x (List.mem_cons_of_mem head hx)
      simp only [List.set_cons_zero, remaining, List.length_cons]
      omega
    | succ i =>
      have hfirst := hothers head List.mem_cons_self
      have hrest := ih (by simpa using h) fun x hx => hothers x (List.mem_cons_of_mem head hx)
      simp only [List.set_cons_succ, remaining, List.length_cons]
      omega

end Tasks

end Machine
