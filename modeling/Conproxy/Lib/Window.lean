import Mathlib.Data.List.Rotate
import Mathlib.Data.List.DropRight
import Conproxy.Lib.Machine

/-!
# The last elements of a history, in a ring

A ring of `size` cells is filled by appending and overwritten at a running position afterwards.
`Holds` says where every element that is still there stands. One write preserves it, as long as
the position and the length of the history agree modulo the size: a position that wraps at a
modulus does so up to the first wrap, and for ever if the size divides the modulus.
-/

namespace Window

set_option autoImplicit false

universe u

variable {α : Type u}

def write (size pos : Nat) (a : α) (cells : List α) : List α :=
  if cells.length < size then cells ++ [a] else cells.set (pos % size) a

theorem length_write_le {size pos : Nat} {cells : List α} (h : cells.length ≤ size) (a : α) :
    (write size pos a cells).length ≤ size := by
  unfold write
  split
  · rw [List.length_append, List.length_singleton]
    omega
  · rw [List.length_set]
    exact h

/-- The cells hold the last elements of `xs`, each at its position modulo the size. -/
structure Holds (size : Nat) (xs cells : List α) : Prop where
  length : cells.length = min xs.length size
  get : ∀ j, j < xs.length → xs.length ≤ j + size → cells[j % size]? = xs[j]?

variable {size pos : Nat} {xs cells : List α}

theorem holds_nil : Holds size ([] : List α) [] where
  length := by simp
  get j hj := absurd hj (Nat.not_lt_zero j)

theorem mod_ne_of_lt {j n : Nat} (hlt : j < n) (hsize : n < j + size) : j % size ≠ n % size := by
  intro heq
  have hmod : (n - j) % size = 0 := Nat.sub_mod_eq_zero_of_mod_eq heq.symm
  rw [Nat.mod_eq_of_lt (by omega)] at hmod
  omega

theorem Holds.append (h : Holds size xs cells) (hroom : cells.length < size) (a : α) :
    Holds size (xs ++ [a]) (cells ++ [a]) := by
  have hlength := h.length
  have heq : cells.length = xs.length := by omega
  constructor
  · rw [List.length_append, List.length_append, List.length_singleton]
    omega
  · intro j hj hsize
    rw [List.length_append, List.length_singleton] at hj
    rw [Nat.mod_eq_of_lt (by omega)]
    by_cases hlt : j < xs.length
    · have hget := h.get j hlt (by omega)
      rw [Nat.mod_eq_of_lt (by omega)] at hget
      rw [List.getElem?_append_left (heq ▸ hlt), List.getElem?_append_left hlt, hget]
    · rw [List.getElem?_append_right (by omega), List.getElem?_append_right (by omega), heq]

theorem Holds.overwrite (h : Holds size xs cells) (hfull : ¬ cells.length < size)
    (hpos : pos % size = xs.length % size) (a : α) :
    Holds size (xs ++ [a]) (cells.set (pos % size) a) := by
  have hlength := h.length
  constructor
  · rw [List.length_set, List.length_append, List.length_singleton]
    omega
  · intro j hj hsize
    rw [List.length_append, List.length_singleton] at hj hsize
    rw [hpos]
    by_cases hlt : j < xs.length
    · -- the cell of an element that stays is not the one that is overwritten
      rw [List.getElem?_set_ne (mod_ne_of_lt hlt (by omega)).symm,
        List.getElem?_append_left hlt]
      exact h.get j hlt (by omega)
    · obtain rfl : j = xs.length := by omega
      have hcell : xs.length % size < size := Nat.mod_lt _ (by omega)
      rw [List.getElem?_set_self (by omega), List.getElem?_append_right (Nat.le_refl _),
        Nat.sub_self]
      rfl

theorem Holds.write (h : Holds size xs cells) (hpos : pos % size = xs.length % size) (a : α) :
    Holds size (xs ++ [a]) (write size pos a cells) := by
  unfold Window.write
  split
  · rename_i hroom
    exact h.append hroom a
  · rename_i hfull
    exact h.overwrite hfull hpos a

theorem Holds.rtake_eq_rotate (h : Holds size xs cells) (hfull : size ≤ xs.length) :
    xs.rtake size = cells.rotate (xs.length % size) := by
  have hlength := h.length
  have hcells : cells.length = size := by omega
  apply List.ext_getElem?
  intro i
  rw [List.rtake, List.getElem?_drop]
  by_cases hi : i < size
  · rw [List.getElem?_rotate (by omega), hcells, ← h.get _ (by omega) (by omega)]
    congr 1
    have hsum : xs.length - size + i + size = i + xs.length := by omega
    rw [← Nat.add_mod_right, hsum, Nat.add_mod_mod]
  · rw [List.getElem?_eq_none (by omega), List.getElem?_eq_none (by rw [List.length_rotate]; omega)]

theorem Holds.eq_self (h : Holds size xs cells) (hroom : xs.length ≤ size) : cells = xs := by
  have hlength := h.length
  apply List.ext_getElem?
  intro i
  by_cases hi : i < xs.length
  · have hget := h.get i hi (by omega)
    rwa [Nat.mod_eq_of_lt (by omega)] at hget
  · rw [List.getElem?_eq_none (by omega), List.getElem?_eq_none (by omega)]

theorem Holds.perm (h : Holds size xs cells) : cells.Perm (xs.rtake size) := by
  by_cases hfull : size ≤ xs.length
  · rw [h.rtake_eq_rotate hfull]
    exact (List.rotate_perm cells _).symm
  · rw [h.eq_self (by omega), List.rtake, Nat.sub_eq_zero_of_le (by omega), List.drop_zero]

/-- The element written `i` writes before the last one. -/
theorem Holds.get_newest (h : Holds size xs cells) {i : Nat} (hi : i < cells.length) :
    cells[(xs.length - 1 - i) % cells.length]? = xs.reverse[i]? := by
  have hlength := h.length
  rw [List.getElem?_reverse (by omega)]
  by_cases hfull : size ≤ xs.length
  · have hcells : cells.length = size := by omega
    rw [hcells]
    exact h.get _ (by omega) (by omega)
  · rw [h.eq_self (by omega), Nat.mod_eq_of_lt (by omega)]

theorem Holds.read_newest (h : Holds size xs cells) {m : Nat} (hm : m ≤ cells.length) :
    ((List.range m).filterMap fun i => cells[(xs.length - 1 - i) % cells.length]?) =
      xs.reverse.take m := by
  induction m with
  | zero => rfl
  | succ m ih =>
    rw [List.range_succ, List.filterMap_append, ih (by omega), List.take_add_one,
      ← h.get_newest (by omega)]
    congr 1

/-- One call of a ring: a write, or a reset that empties it. -/
inductive RingCall (α : Type u) where
  | write (a : α)
  | reset

/-- What has been written since the last reset, after `xs`. -/
def history : List α → List (RingCall α) → List α
  | xs, [] => xs
  | xs, .write a :: rest => history (xs ++ [a]) rest
  | _, .reset :: rest => history [] rest

theorem length_history_le (xs : List α) (calls : List (RingCall α)) :
    (history xs calls).length ≤ xs.length + calls.length := by
  induction calls generalizing xs with
  | nil => exact Nat.le_refl _
  | cons call rest ih =>
    rw [List.length_cons]
    cases call with
    | write a =>
      have h := ih (xs ++ [a])
      rw [List.length_append, List.length_singleton] at h
      exact h.trans (by omega)
    | reset =>
      have h := ih []
      rw [List.length_nil] at h
      exact h.trans (by omega)

theorem history_writes (xs as : List α) : history xs (as.map RingCall.write) = xs ++ as := by
  induction as generalizing xs with
  | nil => exact (List.append_nil xs).symm
  | cons a as ih => exact (ih (xs ++ [a])).trans (List.append_cons xs a as).symm

def RingCall.map {β : Type u} (f : α → β) : RingCall α → RingCall β
  | .write a => .write (f a)
  | .reset => .reset

theorem history_map {β : Type u} (f : α → β) (xs : List α) (calls : List (RingCall α)) :
    history (xs.map f) (calls.map (RingCall.map f)) = (history xs calls).map f := by
  induction calls generalizing xs with
  | nil => rfl
  | cons call rest ih =>
    cases call with
    | write a =>
      have h := ih (xs ++ [a])
      rw [List.map_append] at h
      exact h
    | reset => exact ih []

structure RingState (α : Type u) where
  cells : List α
  pos : Nat

def RingState.step (size modulus : Nat) (r : RingState α) : RingCall α → RingState α
  | .write a => ⟨Window.write size r.pos a r.cells, (r.pos + 1) % modulus⟩
  | .reset => ⟨[], 0⟩

/-- The writes after `xs` come before the first wrap of the position. -/
def BeforeWrap (modulus : Nat) (xs : List α) (calls : List (RingCall α)) : Prop :=
  ∀ before, before <+: calls → (history xs before).length ≤ modulus

theorem beforeWrap_of_length_le {modulus : Nat} {calls : List (RingCall α)}
    (h : calls.length ≤ modulus) : BeforeWrap modulus [] calls := by
  intro before hbefore
  have hle := length_history_le [] before
  have hlength := hbefore.length_le
  rw [List.length_nil] at hle
  omega

theorem BeforeWrap.tail {modulus : Nat} {call : RingCall α} {rest : List (RingCall α)}
    (h : BeforeWrap modulus xs (call :: rest)) : BeforeWrap modulus (history xs [call]) rest := by
  intro before hbefore
  have hle := h (call :: before) (List.cons_prefix_cons.mpr ⟨rfl, hbefore⟩)
  cases call with
  | write a => exact hle
  | reset => exact hle

theorem beforeWrap_map {β : Type u} {f : α → β} {modulus : Nat} {calls : List (RingCall α)}
    (h : BeforeWrap modulus xs calls) :
    BeforeWrap modulus (xs.map f) (calls.map (RingCall.map f)) := by
  intro before hbefore
  obtain ⟨before', hprefix, rfl⟩ := List.prefix_map_iff.mp hbefore
  rw [history_map, List.length_map]
  exact h before' hprefix

/-- The ring holds the last elements after every run in which its position can be told modulo the
size. -/
theorem run_holds {modulus : Nat} {r : RingState α} {calls : List (RingCall α)}
    (hwrap : size ∣ modulus ∨ BeforeWrap modulus xs calls) (h : Holds size xs r.cells)
    (hpos : r.pos = xs.length % modulus) :
    Holds size (history xs calls) (Machine.run (RingState.step size modulus) r calls).cells ∧
      (Machine.run (RingState.step size modulus) r calls).pos =
        (history xs calls).length % modulus := by
  induction calls generalizing xs r with
  | nil => exact ⟨h, hpos⟩
  | cons call rest ih =>
    have hrest := hwrap.imp_right BeforeWrap.tail
    cases call with
    | reset => exact ih hrest holds_nil (Nat.zero_mod modulus).symm
    | write a =>
      refine ih hrest (h.write ?_ a) ?_
      · rw [hpos]
        rcases hwrap with hdvd | hbefore
        · exact Nat.mod_mod_of_dvd _ hdvd
        · have hle := hbefore [.write a] (List.cons_prefix_cons.mpr ⟨rfl, List.nil_prefix⟩)
          simp only [history, List.length_append, List.length_singleton] at hle
          rw [Nat.mod_eq_of_lt (show xs.length < modulus by omega)]
      · rw [List.length_append, List.length_singleton, ← Nat.mod_add_mod xs.length modulus 1,
          ← hpos]
        rfl

end Window
