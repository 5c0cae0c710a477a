import Mathlib.Data.List.Basic
import Conproxy.Lib.Machine

/-!
# The states of a run

The trace of a run is the list of the states that its steps lead to.
-/

namespace Machine

set_option autoImplicit false

universe u v

variable {σ : Type u} {α : Type v} (step : σ → α → σ)

def trace : σ → List α → List σ
  | _, [] => []
  | s, a :: as => step s a :: trace (step s a) as

theorem getLastD_trace (s : σ) (as : List α) : (trace step s as).getLastD s = run step s as := by
  induction as generalizing s with
  | nil => rfl
  | cons a as ih => exact List.getLastD_cons.trans (ih (step s a))

theorem run_eq_foldl (s : σ) (as : List α) : run step s as = as.foldl step s := by
  induction as generalizing s with
  | nil => rfl
  | cons a as ih => exact ih (step s a)

variable {step}

theorem run_mem_trace {as : List α} (has : as ≠ []) (s : σ) :
    run step s as ∈ trace step s as := by
  cases as with
  | nil => exact absurd rfl has
  | cons a as =>
    rw [run_cons, ← getLastD_trace]
    exact List.getLastD_mem_cons

theorem trace_preserves {Inv : σ → Prop} (hstep : ∀ s a, Inv s → Inv (step s a)) {s : σ}
    (hs : Inv s) {as : List α} {s' : σ} (h : s' ∈ trace step s as) : Inv s' := by
  induction as generalizing s with
  | nil => cases h
  | cons a as ih =>
    cases h with
    | head => exact hstep s a hs
    | tail _ hrest => exact ih (hstep s a hs) hrest

theorem le_add_length_of_mem_trace (size : σ → Nat)
    (hstep : ∀ s a, size (step s a) ≤ size s + 1) {s s' : σ} {as : List α}
    (h : s' ∈ trace step s as) : size s' ≤ size s + as.length := by
  induction as generalizing s with
  | nil => cases h
  | cons a as ih =>
    have hone := hstep s a
    rw [List.length_cons]
    cases h with
    | head => omega
    | tail _ hrest =>
      have hle := ih hrest
      omega

end Machine
