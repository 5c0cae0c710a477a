import Mathlib.Logic.Basic

/-!
# Runs of a deterministic machine

A machine is a total step function on a state and an action. `run` takes the actions of a
list one after the other, and `AllSteps` says that a condition holds of every step of the
run in the state in which the step is taken.
-/

namespace Machine

set_option autoImplicit false

universe u v

variable {σ : Type u} {α : Type v} (step : σ → α → σ)

def run : σ → List α → σ
  | s, [] => s
  | s, a :: as => run (step s a) as

def AllSteps (ok : σ → α → Prop) : σ → List α → Prop
  | _, [] => True
  | s, a :: as => ok s a ∧ AllSteps ok (step s a) as

instance decidableAllSteps (ok : σ → α → Prop) [∀ s a, Decidable (ok s a)] :
    ∀ (s : σ) (as : List α), Decidable (AllSteps step ok s as)
  | _, [] => inferInstanceAs (Decidable True)
  | s, a :: as =>
    have := decidableAllSteps ok (step s a) as
    inferInstanceAs (Decidable (ok s a ∧ AllSteps step ok (step s a) as))

@[simp] theorem run_nil (s : σ) : run step s [] = s := rfl

@[simp] theorem run_cons (s : σ) (a : α) (as : List α) :
    run step s (a :: as) = run step (step s a) as := rfl

theorem run_append (s : σ) (as bs : List α) :
    run step s (as ++ bs) = run step (run step s as) bs := by
  induction as generalizing s with
  | nil => rfl
  | cons a as ih => exact ih (step s a)

variable {step}

theorem allSteps_append {ok : σ → α → Prop} (s : σ) (as bs : List α) :
    AllSteps step ok s (as ++ bs) ↔
      AllSteps step ok s as ∧ AllSteps step ok (run step s as) bs := by
  induction as generalizing s with
  | nil =>
    constructor
    · intro h
      exact ⟨trivial, h⟩
    · intro h
      exact h.2
  | cons a as ih => exact (and_congr_right fun _ => ih (step s a)).trans and_assoc.symm

theorem run_invariant {ok : σ → α → Prop} {Inv : σ → Prop}
    (hstep : ∀ s a, ok s a → Inv s → Inv (step s a)) {s : σ} (hs : Inv s)
    {as : List α} (has : AllSteps step ok s as) : Inv (run step s as) := by
  induction as generalizing s with
  | nil => exact hs
  | cons a as ih => exact ih (hstep s a has.1 hs) has.2

/-- What every admissible step does from a state with the invariant, every step of an admissible
run does. -/
theorem allSteps_of_invariant {ok ok' : σ → α → Prop} {Inv : σ → Prop}
    (hstep : ∀ s a, ok s a → Inv s → Inv (step s a)) (h : ∀ s a, ok s a → Inv s → ok' s a)
    {s : σ} (hs : Inv s) {as : List α} (has : AllSteps step ok s as) :
    AllSteps step ok' s as := by
  induction as generalizing s with
  | nil => trivial
  | cons a as ih => exact ⟨h s a has.1 hs, ih (hstep s a has.1 hs) has.2⟩

theorem allSteps_imp {ok ok' : σ → α → Prop} (h : ∀ s a, ok s a → ok' s a) {s : σ}
    {as : List α} (has : AllSteps step ok s as) : AllSteps step ok' s as := by
  induction as generalizing s with
  | nil => trivial
  | cons a as ih => exact ⟨h s a has.1, ih has.2⟩

theorem allSteps_and {ok ok' : σ → α → Prop} {s : σ} {as : List α}
    (has : AllSteps step ok s as) (has' : AllSteps step ok' s as) :
    AllSteps step (fun s a => ok s a ∧ ok' s a) s as := by
  induction as generalizing s with
  | nil => trivial
  | cons a as ih => exact ⟨⟨has.1, has'.1⟩, ih has.2 has'.2⟩

/-- Next to an invariant, a property that a step keeps exactly if it meets a condition holds
after every step of a run exactly if every step of the run meets the condition. -/
theorem allSteps_congr_of_invariant {Inv Good : σ → Prop} {ok : σ → α → Prop}
    (hinv : ∀ s a, Inv s → Inv (step s a))
    (hstep : ∀ s a, Inv s → Good s → (Good (step s a) ↔ ok s a)) {s : σ} (hs : Inv s)
    (hgood : Good s) {as : List α} :
    AllSteps step (fun s a => Good (step s a)) s as ↔ AllSteps step ok s as := by
  induction as generalizing s with
  | nil => exact Iff.rfl
  | cons a as ih =>
    have hs' := hinv s a hs
    constructor
    · rintro ⟨hkept, hrest⟩
      exact ⟨(hstep s a hs hgood).1 hkept, (ih hs' hkept).1 hrest⟩
    · rintro ⟨hok, hrest⟩
      have hkept := (hstep s a hs hgood).2 hok
      exact ⟨hkept, (ih hs' hkept).2 hrest⟩

/-- Two conditions on a step that agree next to an invariant, which the second one keeps, agree on
the runs. -/
theorem allSteps_congr {Inv : σ → Prop} {given ok ok' : σ → α → Prop}
    (hiff : ∀ s a, given s a → Inv s → (ok s a ↔ ok' s a))
    (hkeep : ∀ s a, given s a → Inv s → ok' s a → Inv (step s a)) {s : σ} (hs : Inv s)
    {as : List α} (hgiven : AllSteps step given s as) :
    AllSteps step ok s as ↔ AllSteps step ok' s as := by
  induction as generalizing s with
  | nil => exact Iff.rfl
  | cons a as ih =>
    have hstep := hiff s a hgiven.1 hs
    constructor
    · rintro ⟨hok, hrest⟩
      have hok' := hstep.1 hok
      exact ⟨hok', (ih (hkeep s a hgiven.1 hs hok') hgiven.2).1 hrest⟩
    · rintro ⟨hok', hrest⟩
      exact ⟨hstep.2 hok', (ih (hkeep s a hgiven.1 hs hok') hgiven.2).2 hrest⟩

theorem allSteps_of_forall {ok : σ → α → Prop} {as : List α} (h : ∀ a ∈ as, ∀ s, ok s a)
    (s : σ) : AllSteps step ok s as := by
  induction as generalizing s with
  | nil => trivial
  | cons a as ih =>
    exact ⟨h a (by simp) s, ih (fun b hb => h b (by simp [hb])) (step s a)⟩

theorem run_preserves {Inv : σ → Prop} (hstep : ∀ s a, Inv s → Inv (step s a)) {s : σ}
    (hs : Inv s) (as : List α) : Inv (run step s as) := by
  induction as generalizing s with
  | nil => exact hs
  | cons a as ih => exact ih (hstep s a hs)

theorem allSteps_iff_getElem? {ok : σ → α → Prop} {s : σ} {as : List α} :
    AllSteps step ok s as ↔ ∀ i a, as[i]? = some a → ok (run step s (as.take i)) a := by
  induction as generalizing s with
  | nil => simp [AllSteps]
  | cons b rest ih =>
    constructor
    · rintro ⟨hb, hrest⟩ i a hi
      cases i with
      | zero =>
        obtain rfl : b = a := by simpa using hi
        exact hb
      | succ i => exact ih.1 hrest i a (by simpa using hi)
    · intro h
      exact ⟨h 0 b rfl, ih.2 fun i a hi => h (i + 1) a (by simpa using hi)⟩

end Machine
