import Mathlib.Data.List.Forall2
import Conproxy.Lib.Outputs

/-!
# Noninterference

Two runs of one machine that share their actions, but for hidden ones, which may stand anywhere in
either run. An observer of the outputs cannot tell them apart if the states stay related under a
hidden action on one side and under a shared action on both.
-/

namespace Machine

set_option autoImplicit false

universe u v w

variable {σ : Type u} {α : Type v} {β : Type w}

/-- Two lists of actions that differ in hidden ones, and in which an action may stand for
another one. -/
inductive Interleaved (hidden : α → Prop) (paired : α → α → Prop) : List α → List α → Prop
  | nil : Interleaved hidden paired [] []
  | left {a : α} {as bs : List α} (h : hidden a) (hrest : Interleaved hidden paired as bs) :
    Interleaved hidden paired (a :: as) bs
  | right {b : α} {as bs : List α} (h : hidden b) (hrest : Interleaved hidden paired as bs) :
    Interleaved hidden paired as (b :: bs)
  | pair {a b : α} {as bs : List α} (h : paired a b) (hrest : Interleaved hidden paired as bs) :
    Interleaved hidden paired (a :: as) (b :: bs)

/-- What the steps have to do: nothing is put out for a hidden action, and the outputs of a shared
one are the same to the observer. `ok` is what is known of every step of a run. -/
structure Unwinding (step : σ → α → σ) (out : σ → α → List β) (ok : σ → α → Prop)
    (hidden : α → Prop) (paired : α → α → Prop) (related : σ → σ → Prop)
    (same : β → β → Prop) : Prop where
  symm : ∀ s s', related s s' → related s' s
  silent : ∀ s a, hidden a → out s a = []
  hide : ∀ s s' a, hidden a → ok s a → related s s' → related (step s a) s'
  share : ∀ s s' a b, paired a b → ok s a → ok s' b → related s s' →
    related (step s a) (step s' b)
  alike : ∀ s s' a b, paired a b → ok s a → ok s' b → related s s' →
    List.Forall₂ same (out s a) (out s' b)

variable {step : σ → α → σ} {out : σ → α → List β} {ok : σ → α → Prop} {hidden : α → Prop}
  {paired : α → α → Prop} {related : σ → σ → Prop} {same : β → β → Prop}

theorem Unwinding.outputs (hu : Unwinding step out ok hidden paired related same)
    {as bs : List α} (hruns : Interleaved hidden paired as bs) {s s' : σ} (hs : related s s')
    (has : AllSteps step ok s as) (hbs : AllSteps step ok s' bs) :
    List.Forall₂ same (outputs step out s as) (outputs step out s' bs) := by
  induction hruns generalizing s s' with
  | nil => exact .nil
  | left h _ ih =>
    rw [outputs_cons, hu.silent _ _ h, List.nil_append]
    exact ih (hu.hide _ _ _ h has.1 hs) has.2 hbs
  | right h _ ih =>
    rw [outputs_cons, hu.silent _ _ h, List.nil_append]
    exact ih (hu.symm _ _ (hu.hide _ _ _ h hbs.1 (hu.symm _ _ hs))) has hbs.2
  | pair h _ ih =>
    rw [outputs_cons, outputs_cons]
    exact List.rel_append (hu.alike _ _ _ _ h has.1 hbs.1 hs)
      (ih (hu.share _ _ _ _ h has.1 hbs.1 hs) has.2 hbs.2)

end Machine
