import Conproxy.Lib.SecondChance

/-!
# Rounds over two queues

A round scans a small queue and, if that has no victim, a main one. A warm key at the front is
cooled and its slot moves to the tail of the main queue; each scan looks only at the slots that its
queue has when it starts. So a round over warm keys of the main queue, each with one slot, finds
nothing.

The slots can be cut where this will happen: every key in front of the cut is cold or has two slots
there, and the keys that have none there are kept until the round that finds nothing. A round before
it moves the cut along, and no round makes a new one.
-/

namespace SecondChance

set_option autoImplicit false

universe u

variable {κ : Type u} [DecidableEq κ]

structure Queues (κ : Type u) where
  heat : κ → Option Nat
  small : List κ
  main : List κ

def scanSmall (heat : κ → Option Nat) (main : List κ) : List κ → Option κ × Queues κ
  | [] => (none, ⟨heat, [], main⟩)
  | k :: rest =>
    match heat k with
    | none => scanSmall heat main rest
    | some 0 => (some k, ⟨Function.update heat k none, rest, main⟩)
    | some (_ + 1) => scanSmall (Function.update heat k (some 0)) (main ++ [k]) rest

/-- The scan of the main queue once the small one is empty; the tail has been scanned. -/
def scanMain (heat : κ → Option Nat) (tail : List κ) : List κ → Option κ × Queues κ
  | [] => (none, ⟨heat, [], tail⟩)
  | k :: rest =>
    match heat k with
    | none => scanMain heat tail rest
    | some 0 => (some k, ⟨Function.update heat k none, [], rest ++ tail⟩)
    | some (_ + 1) => scanMain (Function.update heat k (some 0)) (tail ++ [k]) rest

namespace Queues

def slots (q : Queues κ) : List κ := q.small ++ q.main

def round (q : Queues κ) : Option κ × Queues κ :=
  match scanSmall q.heat q.main q.small with
  | (some k, q') => (some k, q')
  | (none, q') => scanMain q'.heat [] q'.main

/-- Every key that is there has a slot. -/
def Resident (q : Queues κ) : Prop := ∀ k, (q.heat k).isSome = true → k ∈ q.slots

end Queues

variable {heat : κ → Option Nat} {main tail slots small small' front : List κ} {k : κ}

section Equations

variable {rest : List κ}

theorem scanSmall_cons :
    scanSmall heat main (k :: rest) =
      match heat k with
      | none => scanSmall heat main rest
      | some 0 => (some k, ⟨Function.update heat k none, rest, main⟩)
      | some (_ + 1) => scanSmall (Function.update heat k (some 0)) (main ++ [k]) rest :=
  rfl

theorem scanSmall_of_none (h : heat k = none) :
    scanSmall heat main (k :: rest) = scanSmall heat main rest := by
  rw [scanSmall_cons, h]

theorem scanSmall_of_cold (h : heat k = some 0) :
    scanSmall heat main (k :: rest) = (some k, ⟨Function.update heat k none, rest, main⟩) := by
  rw [scanSmall_cons, h]

theorem scanSmall_of_warm {n : Nat} (h : heat k = some n) (hn : n ≠ 0) :
    scanSmall heat main (k :: rest) =
      scanSmall (Function.update heat k (some 0)) (main ++ [k]) rest := by
  obtain ⟨n, rfl⟩ := Nat.exists_eq_succ_of_ne_zero hn
  rw [scanSmall_cons, h]

theorem scanMain_cons :
    scanMain heat tail (k :: rest) =
      match heat k with
      | none => scanMain heat tail rest
      | some 0 => (some k, ⟨Function.update heat k none, [], rest ++ tail⟩)
      | some (_ + 1) => scanMain (Function.update heat k (some 0)) (tail ++ [k]) rest :=
  rfl

theorem scanMain_of_none (h : heat k = none) :
    scanMain heat tail (k :: rest) = scanMain heat tail rest := by
  rw [scanMain_cons, h]

theorem scanMain_of_cold (h : heat k = some 0) :
    scanMain heat tail (k :: rest) =
      (some k, ⟨Function.update heat k none, [], rest ++ tail⟩) := by
  rw [scanMain_cons, h]

theorem scanMain_of_warm {n : Nat} (h : heat k = some n) (hn : n ≠ 0) :
    scanMain heat tail (k :: rest) =
      scanMain (Function.update heat k (some 0)) (tail ++ [k]) rest := by
  obtain ⟨n, rfl⟩ := Nat.exists_eq_succ_of_ne_zero hn
  rw [scanMain_cons, h]

end Equations

/-! ## Which round finds nothing -/

theorem scanSmall_fst (heat : κ → Option Nat) (main slots : List κ) :
    (scanSmall heat main slots).1 = victim heat slots := by
  induction slots generalizing heat main with
  | nil => rfl
  | cons k rest ih =>
    cases hk : heat k with
    | none => rw [scanSmall_of_none hk, victim_of_none hk, ih]
    | some n =>
      by_cases hn : n = 0
      · subst hn
        rw [scanSmall_of_cold hk, victim_of_cold hk]
      · rw [scanSmall_of_warm hk hn, victim_of_warm hk hn, ih]

theorem scanMain_fst (heat : κ → Option Nat) (tail slots : List κ) :
    (scanMain heat tail slots).1 = victim heat slots := by
  induction slots generalizing heat tail with
  | nil => rfl
  | cons k rest ih =>
    cases hk : heat k with
    | none => rw [scanMain_of_none hk, victim_of_none hk, ih]
    | some n =>
      by_cases hn : n = 0
      · subst hn
        rw [scanMain_of_cold hk, victim_of_cold hk]
      · rw [scanMain_of_warm hk hn, victim_of_warm hk hn, ih]

/-- The keys of the slots that are there. -/
def living (heat : κ → Option Nat) (slots : List κ) : List κ :=
  slots.filter fun k => (heat k).isSome

omit [DecidableEq κ] in
theorem living_congr {heat' : κ → Option Nat} (h : ∀ k, (heat' k).isSome = (heat k).isSome)
    (slots : List κ) : living heat' slots = living heat slots := by
  unfold living
  simp only [h]

theorem isSome_update_cold {n : Nat} (h : heat k = some n) (j : κ) :
    (Function.update heat k (some 0) j).isSome = (heat j).isSome := by
  by_cases hj : j = k
  · rw [hj, Function.update_self, h]
    rfl
  · rw [Function.update_of_ne hj]

theorem scanSmall_none (h : victim heat slots = none) (main : List κ) :
    (scanSmall heat main slots).2 = ⟨cooled heat slots, [], main ++ living heat slots⟩ := by
  induction slots generalizing heat main with
  | nil => simp [scanSmall, living]
  | cons k rest ih =>
    cases hk : heat k with
    | none =>
      rw [victim_of_none hk] at h
      rw [scanSmall_of_none hk, ih h, cooled_cons_of_none hk]
      simp [living, hk]
    | some n =>
      by_cases hn : n = 0
      · subst hn
        rw [victim_of_cold hk] at h
        cases h
      · rw [victim_of_warm hk hn] at h
        rw [scanSmall_of_warm hk hn, ih h, cooled_cons_of_some hk,
          living_congr (isSome_update_cold hk)]
        simp [living, hk]

theorem scanMain_none (h : victim heat slots = none) (tail : List κ) :
    (scanMain heat tail slots).2 = ⟨cooled heat slots, [], tail ++ living heat slots⟩ := by
  induction slots generalizing heat tail with
  | nil => simp [scanMain, living]
  | cons k rest ih =>
    cases hk : heat k with
    | none =>
      rw [victim_of_none hk] at h
      rw [scanMain_of_none hk, ih h, cooled_cons_of_none hk]
      simp [living, hk]
    | some n =>
      by_cases hn : n = 0
      · subst hn
        rw [victim_of_cold hk] at h
        cases h
      · rw [victim_of_warm hk hn] at h
        rw [scanMain_of_warm hk hn, ih h, cooled_cons_of_some hk,
          living_congr (isSome_update_cold hk)]
        simp [living, hk]

/-- The keys that are there are warm, and have one slot, in the main queue. -/
def Stalled (q : Queues κ) : Prop :=
  ∀ k n, q.heat k = some n → n ≠ 0 ∧ q.slots.count k = 1 ∧ k ∉ q.small

theorem round_of_stalled {q : Queues κ} (h : Stalled q) :
    q.round = (none, ⟨cooled q.heat q.main, [], living q.heat q.main⟩) := by
  have hsmall : ∀ k ∈ q.small, q.heat k = none := by
    intro k hk
    cases hheat : q.heat k with
    | none => rfl
    | some n => exact absurd hk (h k n hheat).2.2
  have hfirst : victim q.heat q.small = none := by
    rw [victim_eq_none_iff]
    intro k hk n hn
    rw [hsmall k hk] at hn
    cases hn
  have hcooled : cooled q.heat q.small = q.heat := by
    funext k
    unfold cooled
    split
    · rename_i hk
      rw [hsmall k hk]
      rfl
    · rfl
  have hliving : living q.heat q.small = [] :=
    List.filter_eq_nil_iff.2 fun k hk => by simp [hsmall k hk]
  have hsecond : victim q.heat q.main = none := by
    rw [victim_eq_none_iff]
    intro k hk n hn
    obtain ⟨hwarm, hcount, hnot⟩ := h k n hn
    rw [Queues.slots, List.count_append, List.count_eq_zero_of_not_mem hnot, Nat.zero_add] at hcount
    exact ⟨hwarm, hcount⟩
  have hscan : scanSmall q.heat q.main q.small = (none, ⟨q.heat, [], q.main⟩) := by
    refine Prod.ext ?_ ?_
    · rw [scanSmall_fst, hfirst]
    · rw [scanSmall_none hfirst, hcooled, hliving, List.append_nil]
  unfold Queues.round
  rw [hscan]
  refine Prod.ext ?_ ?_
  · exact (scanMain_fst _ _ _).trans hsecond
  · exact scanMain_none hsecond []

/-- A round finds nothing exactly if it stalls. -/
theorem round_none_iff {q : Queues κ} (hresident : q.Resident) :
    q.round.1 = none ↔ Stalled q := by
  constructor
  · intro h k n hk
    unfold Queues.round at h
    rcases hscan : scanSmall q.heat q.main q.small with ⟨_ | v, q'⟩
    · have hfirst : victim q.heat q.small = none := by
        rw [← scanSmall_fst q.heat q.main q.small, hscan]
      have hq' := scanSmall_none hfirst q.main
      rw [hscan] at h hq'
      dsimp only at h hq'
      rw [hq', scanMain_fst, victim_eq_none_iff] at h
      have hnot : k ∉ q.small := by
        intro hmem
        have hpromoted : k ∈ living q.heat q.small :=
          List.mem_filter.2 ⟨hmem, by rw [hk]; rfl⟩
        refine (h k (List.mem_append_right _ hpromoted) 0 ?_).1 rfl
        simp [cooled, hmem, hk]
      have hmain : k ∈ q.main := by
        have hslot := hresident k (by rw [hk]; rfl)
        exact (List.mem_append.1 hslot).resolve_left hnot
      have hheat : cooled q.heat q.small k = some n := (cooled_of_notMem hnot).trans hk
      obtain ⟨hwarm, hcount⟩ := h k (List.mem_append_left _ hmain) n hheat
      have hliving : k ∉ living q.heat q.small := fun hmem => hnot (List.mem_filter.1 hmem).1
      rw [List.count_append, List.count_eq_zero_of_not_mem hliving, Nat.add_zero] at hcount
      refine ⟨hwarm, ?_, hnot⟩
      rw [Queues.slots, List.count_append, List.count_eq_zero_of_not_mem hnot, hcount]
    · rw [hscan] at h
      cases h
  · intro h
    rw [round_of_stalled h]

/-! ## Cuts -/

/-- Every key in front of the cut is cold or has two slots there, and every other key is warm and
has one slot, in the main queue. -/
structure Cut (heat : κ → Option Nat) (slots small front : List κ) : Prop where
  first : front <+: slots
  spent : ∀ k ∈ front, ∀ n, heat k = some n → n = 0 ∨ 2 ≤ front.count k
  single : ∀ k ∉ front, ∀ n, heat k = some n → n ≠ 0 ∧ slots.count k = 1 ∧ k ∉ small

/-- A cut behind which there are keys, and these are the ones that are kept. -/
def Keeps (heat : κ → Option Nat) (slots small : List κ) (kept : κ → Prop) : Prop :=
  ∃ front, Cut heat slots small front ∧
    (∀ k, kept k ↔ (heat k).isSome = true ∧ k ∉ front) ∧ ∃ k, kept k

variable {kept : κ → Prop}

theorem Keeps.warm (h : Keeps heat slots small kept) (hk : kept k) : heat k ≠ some 0 := by
  obtain ⟨front, hcut, hkept, -⟩ := h
  exact fun hcold => (hcut.single k ((hkept k).1 hk).2 0 hcold).1 rfl

/-- The keys in the small queue after its first slot has gone. -/
def Behind (k : κ) (small small' : List κ) : Prop := ∀ j, j ≠ k → (j ∈ small ↔ j ∈ small')

theorem keeps_drop (hk : heat k = none) (hsmall : Behind k small small') :
    Keeps heat (k :: slots) small kept ↔ Keeps heat slots small' kept := by
  have hne {j : κ} {n : Nat} (hj : heat j = some n) : j ≠ k := by
    rintro rfl
    rw [hk] at hj
    cases hj
  constructor
  · rintro ⟨front, hcut, hkept, hsome⟩
    cases front with
    | nil =>
      refine ⟨[], ⟨List.nil_prefix, nofun, fun j hj n hn => ?_⟩, hkept, hsome⟩
      obtain ⟨hwarm, hcount, hnot⟩ := hcut.single j hj n hn
      rw [List.count_cons_of_ne (hne hn).symm] at hcount
      exact ⟨hwarm, hcount, fun hmem => hnot ((hsmall j (hne hn)).2 hmem)⟩
    | cons i front =>
      obtain ⟨rfl, hfirst⟩ := List.cons_prefix_cons.1 hcut.first
      refine ⟨front, ⟨hfirst, fun j hj n hn => ?_, fun j hj n hn => ?_⟩, fun j => ?_, hsome⟩
      · have hspent := hcut.spent j (List.mem_cons_of_mem _ hj) n hn
        rwa [List.count_cons_of_ne (hne hn).symm] at hspent
      · have hnew : j ∉ i :: front := by simp [hne hn, hj]
        obtain ⟨hwarm, hcount, hnot⟩ := hcut.single j hnew n hn
        rw [List.count_cons_of_ne (hne hn).symm] at hcount
        exact ⟨hwarm, hcount, fun hmem => hnot ((hsmall j (hne hn)).2 hmem)⟩
      · rw [hkept, List.mem_cons, not_or]
        refine and_congr_right fun hlive => ⟨fun h => h.2, fun h => ⟨?_, h⟩⟩
        rintro rfl
        rw [hk] at hlive
        cases hlive
  · rintro ⟨front, hcut, hkept, hsome⟩
    refine ⟨k :: front, ⟨List.cons_prefix_cons.2 ⟨rfl, hcut.first⟩, fun j hj n hn => ?_,
      fun j hj n hn => ?_⟩, fun j => ?_, hsome⟩
    · rw [List.count_cons_of_ne (hne hn).symm]
      exact hcut.spent j ((List.mem_cons.1 hj).resolve_left (hne hn)) n hn
    · obtain ⟨hwarm, hcount, hnot⟩ :=
        hcut.single j (fun hmem => hj (List.mem_cons_of_mem _ hmem)) n hn
      rw [List.count_cons_of_ne (hne hn).symm]
      exact ⟨hwarm, hcount, fun hmem => hnot ((hsmall j (hne hn)).1 hmem)⟩
    · rw [hkept, List.mem_cons, not_or]
      refine and_congr_right fun hlive => ⟨fun h => ⟨?_, h⟩, fun h => h.2⟩
      rintro rfl
      rw [hk] at hlive
      cases hlive

theorem keeps_take (hk : heat k = some 0) (hsmall : Behind k small small') :
    Keeps heat (k :: slots) small kept ↔
      Keeps (Function.update heat k none) slots small' kept := by
  have hne {j : κ} {n : Nat} (hj : Function.update heat k none j = some n) : j ≠ k := by
    rintro rfl
    rw [Function.update_self] at hj
    cases hj
  constructor
  · rintro ⟨front, hcut, hkept, hsome⟩
    cases front with
    | nil => exact absurd rfl (hcut.single k List.not_mem_nil 0 hk).1
    | cons i front =>
      obtain ⟨rfl, hfirst⟩ := List.cons_prefix_cons.1 hcut.first
      refine ⟨front, ⟨hfirst, fun j hj n hn => ?_, fun j hj n hn => ?_⟩, fun j => ?_, hsome⟩
      · have hj' := hne hn
        rw [Function.update_of_ne hj'] at hn
        have hspent := hcut.spent j (List.mem_cons_of_mem _ hj) n hn
        rwa [List.count_cons_of_ne hj'.symm] at hspent
      · have hj' := hne hn
        rw [Function.update_of_ne hj'] at hn
        obtain ⟨hwarm, hcount, hnot⟩ := hcut.single j (by simp [hj', hj]) n hn
        rw [List.count_cons_of_ne hj'.symm] at hcount
        exact ⟨hwarm, hcount, fun hmem => hnot ((hsmall j hj').2 hmem)⟩
      · rw [hkept, List.mem_cons, not_or]
        by_cases hj : j = i
        · subst hj
          simp
        · rw [Function.update_of_ne hj]
          exact and_congr_right fun _ => ⟨fun h => h.2, fun h => ⟨hj, h⟩⟩
  · rintro ⟨front, hcut, hkept, hsome⟩
    have hold {j : κ} {n : Nat} (hj : j ≠ k) (hn : heat j = some n) :
        Function.update heat k none j = some n := by
      rw [Function.update_of_ne hj, hn]
    refine ⟨k :: front, ⟨List.cons_prefix_cons.2 ⟨rfl, hcut.first⟩, fun j hj n hn => ?_,
      fun j hj n hn => ?_⟩, fun j => ?_, hsome⟩
    · by_cases hj' : j = k
      · subst hj'
        rw [hk] at hn
        cases hn
        exact .inl rfl
      · rw [List.count_cons_of_ne (Ne.symm hj')]
        exact hcut.spent j ((List.mem_cons.1 hj).resolve_left hj') n (hold hj' hn)
    · rw [List.mem_cons, not_or] at hj
      obtain ⟨hwarm, hcount, hnot⟩ := hcut.single j hj.2 n (hold hj.1 hn)
      rw [List.count_cons_of_ne (Ne.symm hj.1)]
      exact ⟨hwarm, hcount, fun hmem => hnot ((hsmall j hj.1).1 hmem)⟩
    · rw [hkept, List.mem_cons, not_or]
      by_cases hj : j = k
      · subst hj
        simp
      · rw [Function.update_of_ne hj]
        exact and_congr_right fun _ => ⟨fun h => ⟨hj, h⟩, fun h => h.2⟩

theorem keeps_of_pass {n : Nat} (hk : heat k = some n) (hsmall : Behind k small small')
    (h : Keeps (Function.update heat k (some 0)) (slots ++ [k]) small' kept) :
    Keeps heat (k :: slots) small kept := by
  obtain ⟨front, hcut, hkept, hsome⟩ := h
  have hmem : k ∈ front := by
    by_contra hnot
    exact (hcut.single k hnot 0 (Function.update_self ..)).1 rfl
  have hold {j : κ} {m : Nat} (hj : j ≠ k) (hm : heat j = some m) :
      Function.update heat k (some 0) j = some m := by
    rw [Function.update_of_ne hj, hm]
  have hfirst : front <+: slots := by
    rcases List.prefix_concat_iff.1 hcut.first with rfl | hfirst
    · -- With all slots in front of the cut there is nothing to keep.
      obtain ⟨j, hj⟩ := hsome
      obtain ⟨hlive, hnot⟩ := (hkept j).1 hj
      obtain ⟨m, hm⟩ := Option.isSome_iff_exists.1 hlive
      have hcount := (hcut.single j hnot m hm).2.1
      rw [List.count_eq_zero_of_not_mem hnot] at hcount
      omega
    · exact hfirst
  refine ⟨k :: front, ⟨List.cons_prefix_cons.2 ⟨rfl, hfirst⟩, fun j hj m hm => ?_,
    fun j hj m hm => ?_⟩, fun j => ?_, hsome⟩
  · by_cases hj' : j = k
    · subst hj'
      have hpos := List.count_pos_iff.2 hmem
      rw [List.count_cons_self]
      omega
    · rw [List.count_cons_of_ne (Ne.symm hj')]
      exact hcut.spent j ((List.mem_cons.1 hj).resolve_left hj') m (hold hj' hm)
  · rw [List.mem_cons, not_or] at hj
    obtain ⟨hwarm, hcount, hnot⟩ := hcut.single j hj.2 m (hold hj.1 hm)
    rw [List.count_append, List.count_singleton, if_neg (by simpa using Ne.symm hj.1)] at hcount
    rw [List.count_cons_of_ne (Ne.symm hj.1)]
    exact ⟨hwarm, hcount, fun hin => hnot ((hsmall j hj.1).1 hin)⟩
  · rw [hkept, isSome_update_cold hk, List.mem_cons, not_or]
    refine and_congr_right fun _ => ⟨fun h => ⟨?_, h⟩, fun h => h.2⟩
    rintro rfl
    exact h hmem

/-- A warm key moves on in front of the cut if there are keys that are not kept. -/
theorem keeps_pass {n : Nat} (hk : heat k = some n) (hn : n ≠ 0) (hsmall : Behind k small small')
    (hother : ∃ j, (heat j).isSome = true ∧ ¬ kept j) (h : Keeps heat (k :: slots) small kept) :
    Keeps (Function.update heat k (some 0)) (slots ++ [k]) small' kept := by
  obtain ⟨front, hcut, hkept, hsome⟩ := h
  cases front with
  | nil =>
    obtain ⟨j, hlive, hnot⟩ := hother
    exact absurd ((hkept j).2 ⟨hlive, List.not_mem_nil⟩) hnot
  | cons i front =>
    obtain ⟨rfl, hfirst⟩ := List.cons_prefix_cons.1 hcut.first
    have hmem : i ∈ front := by
      have hspent := (hcut.spent i List.mem_cons_self n hk).resolve_left hn
      rw [List.count_cons_self] at hspent
      exact List.count_pos_iff.1 (by omega)
    refine ⟨front, ⟨hfirst.trans (List.prefix_append _ _), fun j hj m hm => ?_,
      fun j hj m hm => ?_⟩, fun j => ?_, hsome⟩
    · by_cases hj' : j = i
      · subst hj'
        rw [Function.update_self] at hm
        cases hm
        exact .inl rfl
      · rw [Function.update_of_ne hj'] at hm
        have hspent := hcut.spent j (List.mem_cons_of_mem _ hj) m hm
        rwa [List.count_cons_of_ne (Ne.symm hj')] at hspent
    · have hj' : j ≠ i := by
        rintro rfl
        exact hj hmem
      rw [Function.update_of_ne hj'] at hm
      obtain ⟨hwarm, hcount, hnot⟩ := hcut.single j (by simp [hj', hj]) m hm
      rw [List.count_cons_of_ne hj'.symm] at hcount
      rw [List.count_append, hcount, List.count_singleton, if_neg (by simpa using hj'.symm)]
      exact ⟨hwarm, rfl, fun hin => hnot ((hsmall j hj').2 hin)⟩
    · rw [hkept, isSome_update_cold hk, List.mem_cons, not_or]
      refine and_congr_right fun _ => ⟨fun h => h.2, fun h => ⟨?_, h⟩⟩
      rintro rfl
      exact h hmem

/-! ## Rounds and cuts -/

namespace Queues

def Keeps (q : Queues κ) (kept : κ → Prop) : Prop := SecondChance.Keeps q.heat q.slots q.small kept

/-- A key is there that is not kept. -/
def HasOther (heat : κ → Option Nat) (kept : κ → Prop) : Prop :=
  ∃ j, (heat j).isSome = true ∧ ¬ kept j

end Queues

open Queues

omit [DecidableEq κ] in
theorem behind_cons (k : κ) (rest : List κ) : Behind k (k :: rest) rest := fun j hj => by
  simp [hj]

omit [DecidableEq κ] in
theorem behind_nil (k : κ) : Behind k [] [] := fun _ _ => Iff.rfl

theorem hasOther_update {n : Nat} (hk : heat k = some n) (h : HasOther heat kept) :
    HasOther (Function.update heat k (some 0)) kept := by
  obtain ⟨j, hlive, hnot⟩ := h
  exact ⟨j, by rwa [isSome_update_cold hk], hnot⟩

theorem keeps_of_scanSmall (h : (scanSmall heat main slots).2.Keeps kept) :
    Keeps heat (slots ++ main) slots kept := by
  induction slots generalizing heat main with
  | nil => exact h
  | cons k rest ih =>
    cases hk : heat k with
    | none =>
      rw [scanSmall_of_none hk] at h
      exact (keeps_drop hk (behind_cons k rest)).2 (ih h)
    | some n =>
      by_cases hn : n = 0
      · subst hn
        rw [scanSmall_of_cold hk] at h
        exact (keeps_take hk (behind_cons k rest)).2 h
      · rw [scanSmall_of_warm hk hn] at h
        have hpass := ih h
        rw [← List.append_assoc] at hpass
        exact keeps_of_pass hk (behind_cons k rest) hpass

theorem keeps_scanSmall (hother : HasOther heat kept)
    (h : Keeps heat (slots ++ main) slots kept) : (scanSmall heat main slots).2.Keeps kept := by
  induction slots generalizing heat main with
  | nil => exact h
  | cons k rest ih =>
    cases hk : heat k with
    | none =>
      rw [scanSmall_of_none hk]
      exact ih hother ((keeps_drop hk (behind_cons k rest)).1 h)
    | some n =>
      by_cases hn : n = 0
      · subst hn
        rw [scanSmall_of_cold hk]
        exact (keeps_take hk (behind_cons k rest)).1 h
      · rw [scanSmall_of_warm hk hn]
        refine ih (hasOther_update hk hother) ?_
        rw [← List.append_assoc]
        exact keeps_pass hk hn (behind_cons k rest) hother h

theorem keeps_of_scanMain (h : (scanMain heat tail slots).2.Keeps kept) :
    Keeps heat (slots ++ tail) [] kept := by
  induction slots generalizing heat tail with
  | nil => exact h
  | cons k rest ih =>
    cases hk : heat k with
    | none =>
      rw [scanMain_of_none hk] at h
      exact (keeps_drop hk (behind_nil k)).2 (ih h)
    | some n =>
      by_cases hn : n = 0
      · subst hn
        rw [scanMain_of_cold hk] at h
        exact (keeps_take hk (behind_nil k)).2 h
      · rw [scanMain_of_warm hk hn] at h
        have hpass := ih h
        rw [← List.append_assoc] at hpass
        exact keeps_of_pass hk (behind_nil k) hpass

theorem keeps_scanMain (hother : HasOther heat kept)
    (h : Keeps heat (slots ++ tail) [] kept) : (scanMain heat tail slots).2.Keeps kept := by
  induction slots generalizing heat tail with
  | nil => exact h
  | cons k rest ih =>
    cases hk : heat k with
    | none =>
      rw [scanMain_of_none hk]
      exact ih hother ((keeps_drop hk (behind_nil k)).1 h)
    | some n =>
      by_cases hn : n = 0
      · subst hn
        rw [scanMain_of_cold hk]
        exact (keeps_take hk (behind_nil k)).1 h
      · rw [scanMain_of_warm hk hn]
        refine ih (hasOther_update hk hother) ?_
        rw [← List.append_assoc]
        exact keeps_pass hk hn (behind_nil k) hother h

theorem isSome_update_none (v j : κ) :
    (Function.update heat v none j).isSome = true ↔ j ≠ v ∧ (heat j).isSome = true := by
  by_cases hj : j = v
  · simp [hj]
  · simp [hj]

theorem scanSmall_found {v : κ} (h : (scanSmall heat main slots).1 = some v) (j : κ) :
    ((scanSmall heat main slots).2.heat j).isSome = true ↔ j ≠ v ∧ (heat j).isSome = true := by
  induction slots generalizing heat main with
  | nil => cases h
  | cons k rest ih =>
    cases hk : heat k with
    | none =>
      rw [scanSmall_of_none hk] at h ⊢
      exact ih h
    | some n =>
      by_cases hn : n = 0
      · subst hn
        rw [scanSmall_of_cold hk] at h ⊢
        cases h
        exact isSome_update_none v j
      · rw [scanSmall_of_warm hk hn] at h ⊢
        rw [ih h, isSome_update_cold hk]

theorem scanMain_found {v : κ} (h : (scanMain heat tail slots).1 = some v) (j : κ) :
    ((scanMain heat tail slots).2.heat j).isSome = true ↔ j ≠ v ∧ (heat j).isSome = true := by
  induction slots generalizing heat tail with
  | nil => cases h
  | cons k rest ih =>
    cases hk : heat k with
    | none =>
      rw [scanMain_of_none hk] at h ⊢
      exact ih h
    | some n =>
      by_cases hn : n = 0
      · subst hn
        rw [scanMain_of_cold hk] at h ⊢
        cases h
        exact isSome_update_none v j
      · rw [scanMain_of_warm hk hn] at h ⊢
        rw [ih h, isSome_update_cold hk]

variable {q : Queues κ}

theorem round_cases (q : Queues κ) :
    (∃ v, (scanSmall q.heat q.main q.small).1 = some v ∧
        q.round = scanSmall q.heat q.main q.small) ∨
      (scanSmall q.heat q.main q.small).1 = none ∧
        (scanSmall q.heat q.main q.small).2 =
          ⟨cooled q.heat q.small, [], q.main ++ living q.heat q.small⟩ ∧
        q.round =
          scanMain (cooled q.heat q.small) [] (q.main ++ living q.heat q.small) := by
  unfold Queues.round
  rcases hscan : scanSmall q.heat q.main q.small with ⟨_ | v, q'⟩
  · have hfirst : victim q.heat q.small = none := by
      rw [← scanSmall_fst q.heat q.main q.small, hscan]
    have hq' := scanSmall_none hfirst q.main
    rw [hscan] at hq'
    dsimp only at hq'
    rw [hq']
    exact .inr ⟨rfl, rfl, rfl⟩
  · exact .inl ⟨v, rfl, rfl⟩

theorem round_found {v : κ} (h : q.round.1 = some v) (j : κ) :
    (q.round.2.heat j).isSome = true ↔ j ≠ v ∧ (q.heat j).isSome = true := by
  rcases round_cases q with ⟨-, -, hround⟩ | ⟨-, -, hround⟩
  · rw [hround] at h ⊢
    exact scanSmall_found h j
  · rw [hround] at h ⊢
    rw [scanMain_found h, isSome_cooled]

theorem round_none (hresident : q.Resident) (h : q.round.1 = none) (j : κ) :
    q.round.2.heat j = (q.heat j).map fun _ => 0 := by
  have hstalled := (round_none_iff hresident).1 h
  rw [round_of_stalled hstalled]
  cases hj : q.heat j with
  | none => simp [cooled, hj]
  | some n =>
    have hslot := hresident j (by rw [hj]; rfl)
    have hmain : j ∈ q.main :=
      (List.mem_append.1 hslot).resolve_left (hstalled j n hj).2.2
    simp [cooled, hmain, hj]

theorem keeps_of_round (h : q.round.2.Keeps kept) : q.Keeps kept := by
  rcases round_cases q with ⟨-, -, hround⟩ | ⟨-, hscan, hround⟩
  · rw [hround] at h
    exact keeps_of_scanSmall h
  · rw [hround] at h
    have hmain := keeps_of_scanMain h
    rw [List.append_nil] at hmain
    refine keeps_of_scanSmall ?_
    rw [hscan]
    exact hmain

theorem keeps_round (hother : HasOther q.heat kept) (h : q.Keeps kept) :
    q.round.2.Keeps kept := by
  have hsmall := keeps_scanSmall hother h
  rcases round_cases q with ⟨-, -, hround⟩ | ⟨-, hscan, hround⟩
  · rw [hround]
    exact hsmall
  · rw [hscan] at hsmall
    rw [hround]
    refine keeps_scanMain ?_ ?_
    · obtain ⟨j, hlive, hnot⟩ := hother
      exact ⟨j, by rwa [isSome_cooled], hnot⟩
    · rw [List.append_nil]
      exact hsmall

theorem keeps_of_stalled (h : Stalled q) (hlive : ∃ j, (q.heat j).isSome = true) :
    q.Keeps fun j => (q.heat j).isSome = true :=
  ⟨[], ⟨List.nil_prefix, nofun, fun k _ n hn => h k n hn⟩,
    fun _ => (and_iff_left List.not_mem_nil).symm, hlive⟩

theorem round_of_kept (h : q.Keeps kept) (hall : ∀ j, (q.heat j).isSome = true → kept j) :
    q.round.1 = none := by
  obtain ⟨front, hcut, hkept, -⟩ := h
  have hstalled : Stalled q := fun k n hk =>
    hcut.single k ((hkept k).1 (hall k (by rw [hk]; rfl))).2 n hk
  rw [round_of_stalled hstalled]

theorem round_takes_other (hresident : q.Resident) (h : q.Keeps kept)
    (hother : HasOther q.heat kept) :
    ∃ v, q.round.1 = some v ∧ ¬ kept v ∧ q.round.2.Keeps kept := by
  have hkeeps := keeps_round hother h
  cases hround : q.round.1 with
  | none =>
    obtain ⟨j, hlive, hnot⟩ := hother
    obtain ⟨n, hn⟩ := Option.isSome_iff_exists.1 hlive
    obtain ⟨hwarm, hcount, -⟩ := (round_none_iff hresident).1 hround j n hn
    obtain ⟨front, hcut, hkept, -⟩ := h
    have hfront : j ∈ front := by
      by_contra hbehind
      exact hnot ((hkept j).2 ⟨hlive, hbehind⟩)
    have htwice := (hcut.spent j hfront n hn).resolve_left hwarm
    have hle := hcut.first.sublist.count_le j
    omega
  | some v =>
    refine ⟨v, rfl, fun hv => ?_, hkeeps⟩
    obtain ⟨front, -, hkept, -⟩ := hkeeps
    exact ((round_found hround v).1 ((hkept v).1 hv).1).1 rfl

theorem round_takes (hresident : q.Resident) (hfree : ∀ kept, ¬ q.Keeps kept)
    (hlive : ∃ j, (q.heat j).isSome = true) :
    ∃ v, q.round.1 = some v ∧ ∀ kept, ¬ q.round.2.Keeps kept := by
  cases hround : q.round.1 with
  | none => exact absurd (keeps_of_stalled ((round_none_iff hresident).1 hround) hlive) (hfree _)
  | some v => exact ⟨v, rfl, fun kept h => hfree kept (keeps_of_round h)⟩

theorem free_of_round_none (hresident : q.Resident) (h : q.round.1 = none) (kept : κ → Prop) :
    ¬ q.round.2.Keeps kept := by
  intro hkeeps
  have hwarm := fun k hk => SecondChance.Keeps.warm (k := k) hkeeps hk
  obtain ⟨front, -, hkept, k, hk⟩ := hkeeps
  refine hwarm k hk ?_
  have hlive := ((hkept k).1 hk).1
  rw [round_none hresident h] at hlive ⊢
  cases hheat : q.heat k with
  | none =>
    rw [hheat] at hlive
    cases hlive
  | some n => rfl

end SecondChance
