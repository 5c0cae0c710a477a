import Mathlib.Algebra.Order.Ring.Nat
import Mathlib.Tactic.IntervalCases

/-!
# The proleptic Gregorian calendar

Dates from the year 0 on. `next` is the following day, and `dayCount` counts the days before a date
by the lengths of the years and months before it. The two agree, so a valid date is determined by
its count, and later dates have greater counts.
-/

namespace Calendar

set_option autoImplicit false

def isLeap (year : Nat) : Bool := year % 4 = 0 && (year % 100 ≠ 0 || year % 400 = 0)

def monthLength (year : Nat) : Nat → Nat
  | 2 => if isLeap year then 29 else 28
  | 4 | 6 | 9 | 11 => 30
  | _ => 31

def yearLength (year : Nat) : Nat := if isLeap year then 366 else 365

structure Date where
  year : Nat
  month : Nat
  day : Nat
deriving DecidableEq

namespace Date

structure Valid (d : Date) : Prop where
  month_pos : 1 ≤ d.month
  month_le : d.month ≤ 12
  day_pos : 1 ≤ d.day
  day_le : d.day ≤ monthLength d.year d.month

def next (d : Date) : Date :=
  if d.day < monthLength d.year d.month then ⟨d.year, d.month, d.day + 1⟩
  else if d.month < 12 then ⟨d.year, d.month + 1, 1⟩
  else ⟨d.year + 1, 1, 1⟩

/-- Later in the calendar. -/
def Before (a b : Date) : Prop :=
  a.year < b.year ∨
    a.year = b.year ∧ (a.month < b.month ∨ a.month = b.month ∧ a.day < b.day)

end Date

def daysBeforeYear : Nat → Nat
  | 0 => 0
  | year + 1 => daysBeforeYear year + yearLength year

/-- The months are counted from one. -/
def daysBeforeMonth (year : Nat) : Nat → Nat
  | 0 => 0
  | 1 => 0
  | month + 2 => daysBeforeMonth year (month + 1) + monthLength year (month + 1)

def Date.dayCount (d : Date) : Nat :=
  daysBeforeYear d.year + daysBeforeMonth d.year d.month + (d.day - 1)

theorem isLeap_iff {year : Nat} :
    isLeap year = true ↔ year % 4 = 0 ∧ (year % 100 ≠ 0 ∨ year % 400 = 0) := by
  simp [isLeap]

theorem one_le_monthLength (year month : Nat) : 1 ≤ monthLength year month := by
  unfold monthLength
  split
  · split <;> omega
  · omega
  · omega
  · omega
  · omega
  · omega

theorem daysBeforeMonth_succ (year : Nat) {month : Nat} (h : 1 ≤ month) :
    daysBeforeMonth year (month + 1) = daysBeforeMonth year month + monthLength year month := by
  obtain ⟨m, rfl⟩ := Nat.exists_eq_add_of_le' h
  rfl

theorem daysBeforeMonth_mono (year : Nat) {m k : Nat} (hm : 1 ≤ m) (h : m ≤ k) :
    daysBeforeMonth year m ≤ daysBeforeMonth year k := by
  induction h with
  | refl => exact Nat.le_refl _
  | @step k hle ih =>
    have hk : 1 ≤ k := hm.trans hle
    rw [daysBeforeMonth_succ year hk]
    omega

theorem daysBeforeMonth_thirteen (year : Nat) : daysBeforeMonth year 13 = yearLength year := by
  simp only [daysBeforeMonth, monthLength, yearLength]
  split <;> rfl

theorem daysBeforeYear_mono {y k : Nat} (h : y ≤ k) : daysBeforeYear y ≤ daysBeforeYear k := by
  induction h with
  | refl => exact Nat.le_refl _
  | step hle ih => exact ih.trans (Nat.le_add_right _ _)

namespace Date

theorem Valid.next {d : Date} (h : d.Valid) : d.next.Valid := by
  obtain ⟨hpos, hle, hday, hlast⟩ := h
  unfold Date.next
  split
  · rename_i hmore
    exact ⟨hpos, hle, Nat.le_add_left 1 _, hmore⟩
  · split
    · rename_i hmore
      exact ⟨Nat.le_add_left 1 _, hmore, Nat.le_refl 1, one_le_monthLength _ _⟩
    · exact ⟨Nat.le_refl 1, Nat.le_add_left 1 11, Nat.le_refl 1, one_le_monthLength _ _⟩

theorem Valid.dayCount_next {d : Date} (h : d.Valid) : d.next.dayCount = d.dayCount + 1 := by
  obtain ⟨hpos, hle, hday, hlast⟩ := h
  unfold Date.next dayCount
  split
  · dsimp only
    omega
  · split
    · have hmonth := daysBeforeMonth_succ d.year hpos
      dsimp only
      omega
    · have hyear := daysBeforeMonth_succ d.year hpos
      obtain hmonth : d.month = 12 := by omega
      rw [show d.month + 1 = 13 by omega, daysBeforeMonth_thirteen] at hyear
      change daysBeforeYear d.year + yearLength d.year + 0 + 0 = _
      omega

theorem Valid.dayCount_bounds {d : Date} (h : d.Valid) :
    daysBeforeYear d.year + daysBeforeMonth d.year d.month ≤ d.dayCount ∧
      d.dayCount < daysBeforeYear d.year + daysBeforeMonth d.year (d.month + 1) := by
  obtain ⟨hpos, hle, hday, hlast⟩ := h
  have hmonth := daysBeforeMonth_succ d.year hpos
  unfold dayCount
  omega

theorem Valid.dayCount_lt_year {d : Date} (h : d.Valid) :
    d.dayCount < daysBeforeYear (d.year + 1) := by
  have hbounds := h.dayCount_bounds.2
  have hle : d.month + 1 ≤ 13 := Nat.succ_le_succ h.month_le
  have hmono := daysBeforeMonth_mono d.year (Nat.le_add_left 1 _) hle
  rw [daysBeforeMonth_thirteen] at hmono
  rw [daysBeforeYear]
  omega

theorem Valid.dayCount_lt {a b : Date} (ha : a.Valid) (hb : b.Valid) (h : a.Before b) :
    a.dayCount < b.dayCount := by
  rcases h with hyear | ⟨hyear, hmonth | ⟨hmonth, hday⟩⟩
  · have hlast := ha.dayCount_lt_year
    have hle : a.year + 1 ≤ b.year := hyear
    have hmono := daysBeforeYear_mono hle
    have hfirst := hb.dayCount_bounds.1
    omega
  · have hlast := ha.dayCount_bounds.2
    have hle : a.month + 1 ≤ b.month := hmonth
    have hmono := daysBeforeMonth_mono a.year (Nat.le_add_left 1 _) hle
    have hfirst := hb.dayCount_bounds.1
    rw [← hyear] at hfirst
    omega
  · have hpos := ha.day_pos
    unfold dayCount
    rw [hyear, hmonth]
    omega

theorem before_or_eq_or_after (a b : Date) : a.Before b ∨ a = b ∨ b.Before a := by
  unfold Before
  rcases Nat.lt_trichotomy a.year b.year with hyear | hyear | hyear
  · exact Or.inl (Or.inl hyear)
  · rcases Nat.lt_trichotomy a.month b.month with hmonth | hmonth | hmonth
    · exact Or.inl (Or.inr ⟨hyear, Or.inl hmonth⟩)
    · rcases Nat.lt_trichotomy a.day b.day with hday | hday | hday
      · exact Or.inl (Or.inr ⟨hyear, Or.inr ⟨hmonth, hday⟩⟩)
      · obtain ⟨y, m, d⟩ := a
        obtain ⟨y', m', d'⟩ := b
        obtain rfl : y = y' := hyear
        obtain rfl : m = m' := hmonth
        obtain rfl : d = d' := hday
        exact Or.inr (Or.inl rfl)
      · exact Or.inr (Or.inr (Or.inr ⟨hyear.symm, Or.inr ⟨hmonth.symm, hday⟩⟩))
    · exact Or.inr (Or.inr (Or.inr ⟨hyear.symm, Or.inl hmonth⟩))
  · exact Or.inr (Or.inr (Or.inl hyear))

theorem Valid.eq_of_dayCount {a b : Date} (ha : a.Valid) (hb : b.Valid)
    (h : a.dayCount = b.dayCount) : a = b := by
  rcases before_or_eq_or_after a b with hlt | heq | hlt
  · exact absurd h (Nat.ne_of_lt (ha.dayCount_lt hb hlt))
  · exact heq
  · exact absurd h.symm (Nat.ne_of_lt (hb.dayCount_lt ha hlt))

theorem Valid.before_of_dayCount {a b : Date} (ha : a.Valid) (hb : b.Valid)
    (h : a.dayCount < b.dayCount) : a.Before b := by
  rcases before_or_eq_or_after a b with hlt | rfl | hlt
  · exact hlt
  · exact absurd h (Nat.lt_irrefl _)
  · exact absurd (hb.dayCount_lt ha hlt) (Nat.lt_asymm h)

/-- The date `n` days later. -/
def later (d : Date) : Nat → Date
  | 0 => d
  | n + 1 => (d.later n).next

theorem Valid.later {d : Date} (h : d.Valid) (n : Nat) :
    (d.later n).Valid ∧ (d.later n).dayCount = d.dayCount + n := by
  induction n with
  | zero => exact ⟨h, rfl⟩
  | succ n ih => exact ⟨ih.1.next, ih.1.dayCount_next.trans (congrArg (· + 1) ih.2)⟩

end Date

theorem daysBeforeYear_eq (year : Nat) :
    daysBeforeYear year + (year + 99) / 100 = 365 * year + (year + 3) / 4 + (year + 399) / 400 := by
  induction year with
  | zero => rfl
  | succ year ih =>
    rw [daysBeforeYear, yearLength]
    split
    · rename_i hleap
      have h := isLeap_iff.mp hleap
      omega
    · rename_i hleap
      have h := mt isLeap_iff.mpr hleap
      omega

/-- The days of the months from March on that come before the month `mp` months after March. -/
def daysSinceMarch (mp : Nat) : Nat := (153 * mp + 2) / 5

/-- The date `doy` days after the first of March. -/
def marchDate (year doy : Nat) : Date :=
  let mp := (5 * doy + 2) / 153
  let day := doy - daysSinceMarch mp + 1
  if mp < 10 then ⟨year, mp + 3, day⟩ else ⟨year + 1, mp - 9, day⟩

theorem daysSinceMarch_bounds (doy : Nat) :
    daysSinceMarch ((5 * doy + 2) / 153) ≤ doy ∧
      doy < daysSinceMarch ((5 * doy + 2) / 153 + 1) := by
  unfold daysSinceMarch
  omega

theorem daysSinceMarch_succ (year : Nat) {mp : Nat} (h : mp ≤ 10) :
    daysSinceMarch (mp + 1) =
      daysSinceMarch mp + monthLength year (if mp < 10 then mp + 3 else mp - 9) := by
  interval_cases mp <;> rfl

theorem daysBeforeMonth_march (year : Nat) :
    daysBeforeMonth year 3 + 306 = yearLength year := by
  simp only [daysBeforeMonth, monthLength, yearLength]
  split <;> rfl

theorem daysBeforeMonth_of_march (year mp : Nat) (h : mp ≤ 10) :
    daysBeforeMonth year (mp + 3) = daysBeforeMonth year 3 + daysSinceMarch mp := by
  induction mp with
  | zero => rfl
  | succ mp ih =>
    have hbefore := ih (by omega)
    have hstep := daysSinceMarch_succ year (Nat.le_of_succ_le h)
    rw [if_pos (by omega)] at hstep
    have hnext : daysBeforeMonth year (mp + 1 + 3) =
        daysBeforeMonth year (mp + 3) + monthLength year (mp + 3) :=
      daysBeforeMonth_succ year (Nat.le_add_left 1 (mp + 2))
    omega

section MarchDate

variable {year doy : Nat}

theorem marchDate_of_lt (h : (5 * doy + 2) / 153 < 10) :
    marchDate year doy = ⟨year, (5 * doy + 2) / 153 + 3,
      doy - daysSinceMarch ((5 * doy + 2) / 153) + 1⟩ :=
  if_pos h

theorem marchDate_of_not_lt (h : ¬(5 * doy + 2) / 153 < 10) :
    marchDate year doy = ⟨year + 1, (5 * doy + 2) / 153 - 9,
      doy - daysSinceMarch ((5 * doy + 2) / 153) + 1⟩ :=
  if_neg h

theorem marchDate_valid (h : doy < 365 ∨ doy = 365 ∧ isLeap (year + 1) = true) :
    (marchDate year doy).Valid := by
  obtain ⟨hfrom, hto⟩ := daysSinceMarch_bounds doy
  have hmp : (5 * doy + 2) / 153 ≤ 11 := by omega
  by_cases hlt : (5 * doy + 2) / 153 < 10
  · rw [marchDate_of_lt hlt]
    have hlength := daysSinceMarch_succ year (Nat.le_of_lt hlt)
    rw [if_pos hlt] at hlength
    refine ⟨Nat.le_add_left 1 _, ?_, Nat.le_add_left 1 _, ?_⟩ <;> dsimp only <;> omega
  · rw [marchDate_of_not_lt hlt]
    generalize (5 * doy + 2) / 153 = mp at *
    refine ⟨?_, ?_, Nat.le_add_left 1 _, ?_⟩
    · dsimp only
      omega
    · dsimp only
      omega
    · rcases (by omega : mp = 10 ∨ mp = 11) with rfl | rfl
      · have hlength := daysSinceMarch_succ (year + 1) (Nat.le_refl 10)
        rw [if_neg (by omega)] at hlength
        dsimp only
        omega
      · -- the year that begins in March ends with February
        change doy - daysSinceMarch 11 + 1 ≤ if isLeap (year + 1) then 29 else 28
        have hfebruary : daysSinceMarch 11 = 337 := rfl
        rcases h with h | ⟨h, hleap⟩
        · split <;> omega
        · rw [if_pos hleap]
          omega

/-- The days before it are those before the March that begins its year, and its days since. -/
theorem marchDate_dayCount (h : doy ≤ 365) :
    (marchDate year doy).dayCount + 306 = daysBeforeYear (year + 1) + doy := by
  obtain ⟨hfrom, hto⟩ := daysSinceMarch_bounds doy
  have hmp : (5 * doy + 2) / 153 ≤ 11 := by omega
  by_cases hlt : (5 * doy + 2) / 153 < 10
  · rw [marchDate_of_lt hlt]
    have hmonths := daysBeforeMonth_of_march year _ (Nat.le_of_lt hlt)
    have hyear := daysBeforeMonth_march year
    unfold Date.dayCount
    rw [daysBeforeYear]
    dsimp only
    omega
  · rw [marchDate_of_not_lt hlt]
    generalize (5 * doy + 2) / 153 = mp at *
    unfold Date.dayCount
    dsimp only
    rcases (by omega : mp = 10 ∨ mp = 11) with rfl | rfl
    · have hmonths : daysBeforeMonth (year + 1) (10 - 9) = 0 := rfl
      have hdays : daysSinceMarch 10 = 306 := rfl
      omega
    · have hmonths : daysBeforeMonth (year + 1) (11 - 9) = 31 := rfl
      have hdays : daysSinceMarch 11 = 337 := rfl
      omega

end MarchDate

end Calendar
