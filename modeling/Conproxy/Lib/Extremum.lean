import Mathlib.Data.List.Basic
import Conproxy.Lib.Costs
import Conproxy.Lib.Progress

/-!
# A shared extremum

Any number of writers raise a shared cell to their values with a compare-and-swap loop: a writer
loads the cell, and as long as its own value is beyond what it has seen it tries to swap its value
in for that. A swap fails when the cell has changed meanwhile, or for no reason, and the writer
has then seen the cell again. A step names a writer and says whether a swap fails for no reason.

What is beyond what is given by a relation `lt`: the cell goes up in it.
-/

namespace Extremum

open Machine

set_option autoImplicit false

universe u

variable {α : Type u}

inductive Phase (α : Type u) where
  | load
  | swap (current : α)
  | done
deriving DecidableEq

structure Writer (α : Type u) where
  value : α
  phase : Phase α
deriving DecidableEq

structure Cell (α : Type u) where
  value : α
  writers : List (Writer α)

/-- The writers before their loops. -/
def start (value : α) (values : List α) : Cell α := ⟨value, values.map fun a => ⟨a, .load⟩⟩

/-- A strict order whose negation is transitive, as it is in every linear order. -/
structure Strict (lt : α → α → Prop) : Prop where
  irrefl : ∀ a, ¬ lt a a
  asymm : ∀ {a b}, lt a b → ¬ lt b a
  negTrans : ∀ {a b c}, ¬ lt b a → ¬ lt c b → ¬ lt c a

/-- The cell holds the first value or one of a writer, it is not below the first value nor below
what the writers that are done have brought, and a writer that is about to swap is beyond what it
has seen. -/
structure Raised (lt : α → α → Prop) (first : α) (c : Cell α) : Prop where
  held : c.value = first ∨ c.value ∈ c.writers.map Writer.value
  first_le : ¬ lt c.value first
  done_le : ∀ w ∈ c.writers, w.phase = .done → ¬ lt c.value w.value
  armed : ∀ w ∈ c.writers, ∀ current, w.phase = .swap current → lt current w.value

theorem raised_start {lt : α → α → Prop} (hlt : Strict lt) (first : α) (values : List α) :
    Raised lt first (start first values) where
  held := .inl rfl
  first_le := hlt.irrefl first
  done_le w hw hdone := by
    obtain ⟨a, -, rfl⟩ := List.mem_map.mp hw
    cases hdone
  armed w hw current hswap := by
    obtain ⟨a, -, rfl⟩ := List.mem_map.mp hw
    cases hswap

section Test

variable (lt : α → α → Prop) [DecidableRel lt]

/-- The condition of the loop, once the cell has been seen. -/
def Writer.test (w : Writer α) (seen : α) : Writer α :=
  if lt seen w.value then { w with phase := .swap seen } else { w with phase := .done }

variable {lt} {w : Writer α} {seen : α}

theorem test_eq (w : Writer α) (seen : α) :
    w.test lt seen = ⟨w.value, if lt seen w.value then .swap seen else .done⟩ := by
  unfold Writer.test
  split <;> rfl

theorem test_value (w : Writer α) (seen : α) : (w.test lt seen).value = w.value := by
  rw [test_eq]

theorem test_armed {current : α} (h : (w.test lt seen).phase = .swap current) :
    lt current w.value := by
  unfold Writer.test at h
  split at h
  · rename_i hlt
    cases h
    exact hlt
  · cases h

theorem test_done (h : (w.test lt seen).phase = .done) : ¬ lt seen w.value := by
  unfold Writer.test at h
  split at h
  · cases h
  · assumption

variable (lt) in
theorem test_cases (w : Writer α) (seen : α) :
    (w.test lt seen).phase = .swap seen ∨ (w.test lt seen).phase = .done := by
  unfold Writer.test
  split
  · exact .inl rfl
  · exact .inr rfl

end Test

variable [DecidableEq α] (lt : α → α → Prop) [DecidableRel lt]

def Writer.step (cell : α) (w : Writer α) (spurious : Bool) : α × Writer α :=
  match w.phase with
  | .load => (cell, w.test lt cell)
  | .swap current =>
    if cell = current ∧ spurious = false then (w.value, { w with phase := .done })
    else (cell, w.test lt cell)
  | .done => (cell, w)

def step (c : Cell α) (e : Nat × Bool) : Cell α :=
  match c.writers[e.1]? with
  | none => c
  | some w =>
    let (value, w) := w.step lt c.value e.2
    ⟨value, c.writers.set e.1 w⟩

theorem step_writer_cases (cell : α) (w : Writer α) (spurious : Bool) :
    (w.phase = .swap cell ∧ spurious = false ∧
      w.step lt cell spurious = (w.value, { w with phase := .done })) ∨
    ((w.phase = .load ∨ ∃ current, w.phase = .swap current ∧
        ¬ (cell = current ∧ spurious = false)) ∧
      w.step lt cell spurious = (cell, w.test lt cell)) ∨
    (w.phase = .done ∧ w.step lt cell spurious = (cell, w)) := by
  obtain ⟨value, phase⟩ := w
  cases phase with
  | load => exact .inr (.inl ⟨.inl rfl, rfl⟩)
  | swap current =>
    by_cases hswap : cell = current ∧ spurious = false
    · obtain ⟨rfl, rfl⟩ := hswap
      exact .inl ⟨rfl, rfl, if_pos ⟨rfl, rfl⟩⟩
    · exact .inr (.inl ⟨.inr ⟨current, rfl, hswap⟩, if_neg hswap⟩)
  | done => exact .inr (.inr ⟨rfl, rfl⟩)

variable {lt}

theorem step_writer_value (cell : α) (w : Writer α) (spurious : Bool) :
    (w.step lt cell spurious).2.value = w.value := by
  rcases step_writer_cases lt cell w spurious with ⟨-, -, heq⟩ | ⟨-, heq⟩ | ⟨-, heq⟩
  · rw [heq]
  · rw [heq]
    exact test_value w cell
  · rw [heq]

variable {c : Cell α} {first : α} {e : Nat × Bool} {w : Writer α}

theorem step_of_none (h : c.writers[e.1]? = none) : step lt c e = c := by
  unfold step
  rw [h]

theorem step_of_some (h : c.writers[e.1]? = some w) :
    step lt c e = ⟨(w.step lt c.value e.2).1, c.writers.set e.1 (w.step lt c.value e.2).2⟩ := by
  unfold step
  rw [h]

variable (lt) in
theorem map_value_step (c : Cell α) (e : Nat × Bool) :
    (step lt c e).writers.map Writer.value = c.writers.map Writer.value := by
  cases h : c.writers[e.1]? with
  | none => rw [step_of_none h]
  | some w =>
    have hvalue : (c.writers.map Writer.value)[e.1]? = some w.value := by
      rw [List.getElem?_map, h]
      rfl
    obtain ⟨hlen, hget⟩ := List.getElem?_eq_some_iff.mp hvalue
    rw [step_of_some h, List.map_set, step_writer_value, ← hget, List.set_getElem_self]

theorem map_value_run (c : Cell α) (es : List (Nat × Bool)) :
    (run (step lt) c es).writers.map Writer.value = c.writers.map Writer.value := by
  induction es generalizing c with
  | nil => rfl
  | cons e es ih => exact (ih (step lt c e)).trans (map_value_step lt c e)

theorem Raised.not_lt_step (hlt : Strict lt) (h : Raised lt first c) (hw : w ∈ c.writers)
    (spurious : Bool) : ¬ lt (w.step lt c.value spurious).1 c.value := by
  rcases step_writer_cases lt c.value w spurious with
    ⟨hphase, -, heq⟩ | ⟨-, heq⟩ | ⟨-, heq⟩
  · rw [heq]
    exact hlt.asymm (h.armed w hw c.value hphase)
  · rw [heq]
    exact hlt.irrefl _
  · rw [heq]
    exact hlt.irrefl _

/-- A writer after its step: what it brought is in the cell when it is done, and it is beyond what
it has seen when it is about to swap. -/
theorem Raised.writer_step (hlt : Strict lt) (h : Raised lt first c) (hw : w ∈ c.writers)
    (spurious : Bool) :
    ((w.step lt c.value spurious).2.phase = .done →
      ¬ lt (w.step lt c.value spurious).1 w.value) ∧
    ∀ current, (w.step lt c.value spurious).2.phase = .swap current → lt current w.value := by
  rcases step_writer_cases lt c.value w spurious with
    ⟨-, -, heq⟩ | ⟨-, heq⟩ | ⟨hphase, heq⟩
  · rw [heq]
    exact ⟨fun _ => hlt.irrefl _, nofun⟩
  · rw [heq]
    exact ⟨test_done, fun _ => test_armed⟩
  · rw [heq]
    exact ⟨h.done_le w hw, h.armed w hw⟩

theorem Raised.step (hlt : Strict lt) (h : Raised lt first c) (e : Nat × Bool) :
    Raised lt first (step lt c e) := by
  cases hw : c.writers[e.1]? with
  | none =>
    rw [step_of_none hw]
    exact h
  | some w =>
    have hmem : w ∈ c.writers := List.mem_of_getElem? hw
    have hrises := h.not_lt_step hlt hmem e.2
    obtain ⟨hdone, harmed⟩ := h.writer_step hlt hmem e.2
    have hvalues := map_value_step lt c e
    rw [step_of_some hw] at hvalues ⊢
    constructor
    · rw [hvalues]
      rcases step_writer_cases lt c.value w e.2 with ⟨-, -, heq⟩ | ⟨-, heq⟩ | ⟨-, heq⟩
      · rw [heq]
        exact .inr (List.mem_map_of_mem hmem)
      · rw [heq]
        exact h.held
      · rw [heq]
        exact h.held
    · exact hlt.negTrans h.first_le hrises
    · intro x hx hphase
      rcases List.mem_or_eq_of_mem_set hx with hx | rfl
      · exact hlt.negTrans (h.done_le x hx hphase) hrises
      · rw [step_writer_value]
        exact hdone hphase
    · intro x hx current hphase
      rcases List.mem_or_eq_of_mem_set hx with hx | rfl
      · exact h.armed x hx current hphase
      · rw [step_writer_value]
        exact harmed current hphase

theorem Raised.run (hlt : Strict lt) (h : Raised lt first c) (es : List (Nat × Bool)) :
    Raised lt first (run (Extremum.step lt) c es) :=
  run_preserves (fun _ e h => h.step hlt e) h es

/-- The steps that a writer has still to take when no other one disturbs it, and the `n` that it
may disturb. -/
def Writer.weight (n : Nat) (cell : α) (w : Writer α) : Nat :=
  match w.phase with
  | .load => 2 + n
  | .swap current => if current = cell then 1 + n else 2 + n
  | .done => 0

def potential (c : Cell α) : Nat :=
  remaining (Writer.weight c.writers.length c.value) c.writers

/-- A step of a writer that is not done, and no failure for no reason. -/
def Writer.counts (cell : α) (w : Writer α) (spurious : Bool) : Nat :=
  match w.phase with
  | .load => 1
  | .swap current => if cell = current ∧ spurious = true then 0 else 1
  | .done => 0

def counts (c : Cell α) (e : Nat × Bool) : Nat :=
  match c.writers[e.1]? with
  | none => 0
  | some w => w.counts c.value e.2

variable (lt) in
theorem weight_test_le (n : Nat) (cell : α) (w : Writer α) :
    (w.test lt cell).weight n cell ≤ 1 + n := by
  unfold Writer.weight
  rcases test_cases lt w cell with hphase | hphase
  · rw [hphase]
    exact Nat.le_of_eq (if_pos rfl)
  · rw [hphase]
    exact Nat.zero_le _

theorem weight_le_succ (n : Nat) (cell cell' : α) (w : Writer α) :
    w.weight n cell' ≤ w.weight n cell + 1 := by
  unfold Writer.weight
  cases w.phase with
  | load => exact Nat.le_succ _
  | swap current =>
    dsimp only
    split <;> split <;> omega
  | done => exact Nat.zero_le _

variable (lt) in
theorem counts_add_weight_le (n : Nat) {cell : α} {w : Writer α} {spurious : Bool}
    (h : w.phase = .load ∨ ∃ current, w.phase = .swap current ∧
      ¬ (cell = current ∧ spurious = false)) :
    w.counts cell spurious + (w.test lt cell).weight n cell ≤ w.weight n cell := by
  have htest := weight_test_le lt n cell w
  rcases h with hphase | ⟨current, hphase, hnot⟩
  · rw [Writer.counts, Writer.weight.eq_def n cell w, hphase]
    dsimp only
    omega
  · rw [Writer.counts, Writer.weight.eq_def n cell w, hphase]
    dsimp only
    by_cases hcell : cell = current
    · have hspurious : spurious = true := by simpa [hcell] using hnot
      rw [if_pos ⟨hcell, hspurious⟩, if_pos hcell.symm]
      omega
    · rw [if_neg fun h => hcell h.1, if_neg fun h => hcell h.symm]
      omega

theorem counts_add_potential_le (c : Cell α) (e : Nat × Bool) :
    counts c e + potential (step lt c e) ≤ potential c := by
  cases hw : c.writers[e.1]? with
  | none =>
    rw [step_of_none hw, counts, hw]
    exact Nat.le_of_eq (Nat.zero_add _)
  | some w =>
    rw [step_of_some hw, counts, hw]
    unfold potential
    rw [List.length_set]
    dsimp only
    rcases step_writer_cases lt c.value w e.2 with
      ⟨hphase, hspurious, heq⟩ | ⟨hphase, heq⟩ | ⟨hphase, heq⟩
    · -- the swap succeeds, and what it was given pays for the others
      have hset := remaining_set_le_add_length (Writer.weight c.writers.length c.value) hw
        { w with phase := .done } fun x _ => weight_le_succ c.writers.length c.value w.value x
      have hold : w.weight c.writers.length c.value = 1 + c.writers.length := by
        rw [Writer.weight, hphase]
        exact if_pos rfl
      have hnew : Writer.weight c.writers.length w.value { w with phase := .done } = 0 := rfl
      have hcount : w.counts c.value e.2 ≤ 1 := by
        rw [Writer.counts, hphase]
        dsimp only
        split <;> omega
      rw [heq]
      dsimp only
      omega
    · have hset := remaining_set (Writer.weight c.writers.length c.value) hw (w.test lt c.value)
      have hpays := counts_add_weight_le lt c.writers.length hphase
      rw [heq]
      dsimp only
      omega
    · have hset := remaining_set (Writer.weight c.writers.length c.value) hw w
      have hcount : w.counts c.value e.2 = 0 := by
        rw [Writer.counts, hphase]
      rw [heq]
      dsimp only
      omega

theorem potential_start (value : α) (values : List α) :
    potential (start value values) = values.length * (2 + values.length) := by
  have hload (n : Nat) : remaining (Writer.weight n value)
      (values.map fun a => (⟨a, .load⟩ : Writer α)) = values.length * (2 + n) := by
    induction values with
    | nil => exact (Nat.zero_mul _).symm
    | cons a rest ih =>
      rw [List.map_cons, remaining, ih, List.length_cons, Nat.succ_mul, Nat.add_comm]
      rfl
  unfold potential start
  rw [hload, List.length_map]

end Extremum
