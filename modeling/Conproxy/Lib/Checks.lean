import Mathlib.Data.List.AList

/-!
# Sequences of checks

A check passes or fails with an error. Checks in sequence stop at the first one that fails.
-/

namespace Checks

set_option autoImplicit false

universe u v w

variable {ε : Type u} {α : Type v} {β : Type w}

def require (ok : Prop) [Decidable ok] (error : ε) : Except ε Unit :=
  if ok then .ok () else .error error

/-- The check of a value that may be absent. -/
def ifSome (value : Option α) (check : α → Except ε Unit) : Except ε Unit :=
  match value with
  | some a => check a
  | none => .ok ()

def forEach (items : List α) (check : α → Except ε Unit) : Except ε Unit :=
  match items with
  | [] => .ok ()
  | a :: rest =>
    match check a with
    | .ok () => forEach rest check
    | .error e => .error e

@[simp] theorem require_eq_ok_iff {ok : Prop} [Decidable ok] {error : ε} :
    require ok error = .ok () ↔ ok := by
  unfold require
  split
  · simp [*]
  · simp [*]

@[simp] theorem ifSome_eq_ok_iff {value : Option α} {check : α → Except ε Unit} :
    ifSome value check = .ok () ↔ ∀ a, value = some a → check a = .ok () := by
  cases value with
  | none => simp [ifSome]
  | some a => simp [ifSome]

@[simp] theorem forEach_eq_ok_iff {items : List α} {check : α → Except ε Unit} :
    forEach items check = .ok () ↔ ∀ a ∈ items, check a = .ok () := by
  induction items with
  | nil => simp [forEach]
  | cons a rest ih =>
    unfold forEach
    cases hcheck : check a with
    | ok => simp [hcheck, ih]
    | error e => simp [hcheck]

@[simp] theorem bind_eq_ok_iff {first : Except ε Unit} {second : Except ε Unit} :
    (first >>= fun _ => second) = .ok () ↔ first = .ok () ∧ second = .ok () := by
  cases first with
  | ok => simp [bind, Except.bind]
  | error e => simp [bind, Except.bind]

theorem bind_result_eq_ok_iff {ε α β : Type} {first : Except ε α} {next : α → Except ε β} {b : β} :
    (first >>= next) = .ok b ↔ ∃ a, first = .ok a ∧ next a = .ok b := by
  cases first with
  | ok a => simp [bind, Except.bind]
  | error e => simp [bind, Except.bind]

@[simp] theorem mapError_eq_ok_iff {ε' : Type u} {step : Except ε α} {f : ε → ε'} {a : α} :
    step.mapError f = .ok a ↔ step = .ok a := by
  cases step with
  | ok => simp [Except.mapError]
  | error e => simp [Except.mapError]

theorem exists_forall₂_iff (related : α → β → Prop) (passes : β → Prop) (items : List α) :
    (∃ results, List.Forall₂ related items results ∧ ∀ b ∈ results, passes b) ↔
      ∀ a ∈ items, ∃ b, related a b ∧ passes b := by
  induction items with
  | nil => simp
  | cons a rest ih =>
    rw [List.forall_mem_cons, ← ih]
    constructor
    · rintro ⟨results, hresults, hpass⟩
      obtain ⟨b, later, hb, hlater, rfl⟩ := List.forall₂_cons_left_iff.mp hresults
      rw [List.forall_mem_cons] at hpass
      exact ⟨⟨b, hb, hpass.1⟩, later, hlater, hpass.2⟩
    · rintro ⟨⟨b, hb, hpass⟩, later, hlater, hpasses⟩
      exact ⟨b :: later, .cons hb hlater, List.forall_mem_cons.mpr ⟨hpass, hpasses⟩⟩

theorem exists_result {related : α → β → Prop} {items : List α} {results : List β}
    (h : List.Forall₂ related items results) {a : α} (ha : a ∈ items) :
    ∃ b ∈ results, related a b := by
  induction h with
  | nil => cases ha
  | @cons a' b' rest later hrelated _ ih =>
    rcases List.mem_cons.mp ha with rfl | hrest
    · exact ⟨b', List.mem_cons_self, hrelated⟩
    · obtain ⟨b, hb, hrel⟩ := ih hrest
      exact ⟨b, List.mem_cons_of_mem _ hb, hrel⟩

theorem exists_item {related : α → β → Prop} {items : List α} {results : List β}
    (h : List.Forall₂ related items results) {b : β} (hb : b ∈ results) :
    ∃ a ∈ items, related a b :=
  exists_result (List.Forall₂.flip h) hb

/-- The results of a step for each item, in the order of the items. -/
theorem mapM_eq_ok_iff {ε α β : Type u} {step : α → Except ε β} {items : List α}
    {results : List β} :
    items.mapM step = .ok results ↔ List.Forall₂ (fun a b => step a = .ok b) items results := by
  induction items generalizing results with
  | nil =>
    rw [List.mapM_nil, List.forall₂_nil_left_iff]
    simp [pure, Except.pure, eq_comm]
  | cons a rest ih =>
    rw [List.mapM_cons, List.forall₂_cons_left_iff]
    cases hstep : step a with
    | error e => simp [bind, Except.bind]
    | ok b =>
      cases hrest : rest.mapM step with
      | error e =>
        have hnone (later : List β) : ¬ List.Forall₂ (fun a b => step a = .ok b) rest later := by
          rw [← ih, hrest]
          simp
        simp [bind, Except.bind, hnone]
      | ok later =>
        simp only [bind, Except.bind, pure, Except.pure, Except.ok.injEq]
        constructor
        · rintro rfl
          exact ⟨b, later, rfl, ih.mp hrest, rfl⟩
        · rintro ⟨b', later', rfl, hlater, rfl⟩
          rw [ih.mpr hlater] at hrest
          cases hrest
          rfl

end Checks
