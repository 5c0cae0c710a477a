import Mathlib.Data.List.Basic
import Conproxy.Lib.Machine

/-!
# The outputs of a run

A step puts out a list, which depends on the state in which it is taken, and a run puts out the
lists of its steps one after the other. A machine refines a second one when its outputs are actions
of the second one that lead to the same states.
-/

namespace Machine

set_option autoImplicit false

universe u v w x

variable {σ : Type u} {α : Type v} {β : Type w} (step : σ → α → σ) (out : σ → α → List β)

def outputs : σ → List α → List β
  | _, [] => []
  | s, a :: as => out s a ++ outputs (step s a) as

@[simp] theorem outputs_nil (s : σ) : outputs step out s [] = [] := rfl

@[simp] theorem outputs_cons (s : σ) (a : α) (as : List α) :
    outputs step out s (a :: as) = out s a ++ outputs step out (step s a) as := rfl

variable {step out}

/-- What is put out is what was pending, from its beginning, when no step puts out more than the
beginning of it. -/
theorem outputs_prefix {pending : σ → List β}
    (hstep : ∀ s a, out s a ++ pending (step s a) <+: pending s) (s : σ) (as : List α) :
    outputs step out s as ++ pending (run step s as) <+: pending s := by
  induction as generalizing s with
  | nil => exact List.prefix_rfl
  | cons a as ih =>
    have hrest := (List.prefix_append_right_inj (out s a)).mpr (ih (step s a))
    rw [outputs_cons, List.append_assoc]
    exact hrest.trans (hstep s a)

theorem run_outputs {τ : Type x} {image : σ → τ} {step' : τ → β → τ} {Inv : σ → Prop}
    (hkeep : ∀ s a, Inv s → Inv (step s a))
    (hstep : ∀ s a, Inv s → image (step s a) = run step' (image s) (out s a)) {s : σ} (hs : Inv s)
    (as : List α) :
    image (run step s as) = run step' (image s) (outputs step out s as) := by
  induction as generalizing s with
  | nil => rfl
  | cons a as ih =>
    rw [run_cons, ih (hkeep s a hs), hstep s a hs, outputs_cons, run_append]

/-- Where the share of a step in the outputs does not depend on the state, the share of the run is
read off its actions. -/
theorem filterMap_outputs {γ : Type x} {share : β → Option γ} {own : α → List γ} {Inv : σ → Prop}
    (hkeep : ∀ s a, Inv s → Inv (step s a))
    (hstep : ∀ s a, Inv s → (out s a).filterMap share = own a) {s : σ} (hs : Inv s)
    (as : List α) : (outputs step out s as).filterMap share = as.flatMap own := by
  induction as generalizing s with
  | nil => rfl
  | cons a as ih =>
    rw [outputs_cons, List.filterMap_append, hstep s a hs, ih (hkeep s a hs), List.flatMap_cons]

end Machine
