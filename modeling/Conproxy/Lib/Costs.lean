import Conproxy.Lib.Machine

/-!
# The cost of a run

A run costs what its steps cost together. A potential that every step lowers by what the step
costs, counted in some unit, bounds the cost of the whole run. Where the steps have times, the
potential may rise at some rate between two of them, and the bound grows with the time.
-/

namespace Machine

set_option autoImplicit false

universe u v

variable {σ : Type u} {α : Type v} (step : σ → α → σ)

def total (cost : σ → α → Nat) : σ → List α → Nat
  | _, [] => 0
  | s, a :: as => cost s a + total cost (step s a) as

@[simp] theorem total_nil (cost : σ → α → Nat) (s : σ) : total step cost s [] = 0 := rfl

@[simp] theorem total_cons (cost : σ → α → Nat) (s : σ) (a : α) (as : List α) :
    total step cost s (a :: as) = cost s a + total step cost (step s a) as := rfl

variable {step}

theorem mul_total_le_potential {ok : σ → α → Prop} {cost : σ → α → Nat} {potential : σ → Nat}
    {unit : Nat}
    (hpays : ∀ s a, ok s a → unit * cost s a + potential (step s a) ≤ potential s) {s : σ}
    {as : List α} (has : AllSteps step ok s as) :
    unit * total step cost s as ≤ potential s := by
  induction as generalizing s with
  | nil => simp
  | cons a as ih =>
    have hstep := hpays s a has.1
    have hrest := ih has.2
    rw [total_cons, Nat.mul_add]
    omega

theorem total_add_potential_le {cost : σ → α → Nat} {potential : σ → Nat}
    (hpays : ∀ s a, cost s a + potential (step s a) ≤ potential s) (s : σ) (as : List α) :
    total step cost s as + potential (run step s as) ≤ potential s := by
  induction as generalizing s with
  | nil => simp
  | cons a as ih =>
    have hstep := hpays s a
    have hrest := ih (step s a)
    rw [total_cons, run_cons]
    omega

/-- The amortised bound at a rate: what the steps cost is in the potential at first, or comes in
with the time. -/
theorem mul_total_le_of_rate {time : α → Nat} {Inv : Nat → σ → Prop} {ok : σ → α → Prop}
    {cost : σ → α → Nat} {potential : Nat → σ → Nat} {unit rate : Nat}
    (hkeep : ∀ last s a, last ≤ time a → Inv last s → ok s a → Inv (time a) (step s a))
    (hpays : ∀ last s a, last ≤ time a → Inv last s → ok s a →
      unit * cost s a + potential (time a) (step s a) ≤
        potential last s + (time a - last) * rate)
    {last till : Nat} {s : σ} {as : List α} (hs : Inv last s) (has : AllSteps step ok s as)
    (hordered : (last :: (as.map time ++ [till])).Pairwise (· ≤ ·)) :
    unit * total step cost s as ≤ potential last s + (till - last) * rate := by
  induction as generalizing last s with
  | nil => simp
  | cons a as ih =>
    obtain ⟨hfirst, hrest⟩ := List.pairwise_cons.mp hordered
    have hle : last ≤ time a := hfirst _ (by simp)
    have htill : time a ≤ till := (List.pairwise_cons.mp hrest).1 till (by simp)
    have hstep := hpays last s a hle hs has.1
    have hmore := ih (hkeep last s a hle hs has.1) has.2 hrest
    have hsplit : (till - last) * rate = (time a - last) * rate + (till - time a) * rate := by
      rw [← Nat.add_mul]
      congr 1
      omega
    rw [total_cons, Nat.mul_add, hsplit]
    omega

end Machine
