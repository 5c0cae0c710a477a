import Conproxy.Lib.Calendar
import Mathlib.Algebra.Ring.Nat

/-!
# The times of a context pack

An entry's time of caching is a count of milliseconds since the Unix epoch, and a context pack shows
it as a date and a time of day. A value of a machine type is an integer here, and every operation is
checked: an `Overflow` is a result, or the result of a cast, that its type does not hold.
-/

namespace Conproxy

open Calendar

set_option autoImplicit false

inductive Overflow
  | i64 (value : Int)
  | i32 (value : Int)
  | u32 (value : Int)

def asI64 (value : Int) : Except Overflow Int :=
  if -2 ^ 63 ≤ value ∧ value < 2 ^ 63 then .ok value else .error (.i64 value)

def asI32 (value : Int) : Except Overflow Int :=
  if -2 ^ 31 ≤ value ∧ value < 2 ^ 31 then .ok value else .error (.i32 value)

def asU32 (value : Int) : Except Overflow Int :=
  if 0 ≤ value ∧ value < 2 ^ 32 then .ok value else .error (.u32 value)

theorem asI64_ok {value : Int} (hlow : -2 ^ 63 ≤ value) (hhigh : value < 2 ^ 63) :
    asI64 value = .ok value :=
  if_pos ⟨hlow, hhigh⟩

theorem asI32_ok {value : Int} (hlow : -2 ^ 31 ≤ value) (hhigh : value < 2 ^ 31) :
    asI32 value = .ok value :=
  if_pos ⟨hlow, hhigh⟩

theorem asU32_ok {value : Int} (hlow : 0 ≤ value) (hhigh : value < 2 ^ 32) :
    asU32 value = .ok value :=
  if_pos ⟨hlow, hhigh⟩

def eraOf (z : Int) : Except Overflow Int := do
  let start ← if 0 ≤ z then pure z else asI64 (z - 146096)
  return start.tdiv 146097

def doeOf (z era : Int) : Except Overflow Int := do
  let before ← asI64 (era * 146097)
  let since ← asI64 (z - before)
  asU32 since

def yoeOf (doe : Int) : Except Overflow Int := do
  let fours ← asU32 (doe - doe / 1460)
  let centuries ← asU32 (fours + doe / 36524)
  let days ← asU32 (centuries - doe / 146096)
  return days / 365

def yearOf (yoe era : Int) : Except Overflow Int := do
  let years ← asI32 yoe
  let before ← asI64 (era * 400)
  let before ← asI32 before
  asI32 (years + before)

def doyOf (doe yoe : Int) : Except Overflow Int := do
  let days ← asU32 (365 * yoe)
  let days ← asU32 (days + yoe / 4)
  let days ← asU32 (days - yoe / 100)
  asU32 (doe - days)

def mpOf (doy : Int) : Except Overflow Int := do
  let scaled ← asU32 (5 * doy)
  let scaled ← asU32 (scaled + 2)
  return scaled / 153

def dayOf (doy mp : Int) : Except Overflow Int := do
  let days ← asU32 (153 * mp)
  let days ← asU32 (days + 2)
  let day ← asU32 (doy - days / 5)
  asU32 (day + 1)

def monthOf (mp : Int) : Except Overflow Int :=
  if mp < 10 then asU32 (mp + 3) else asU32 (mp - 9)

def civilYearOf (y m : Int) : Except Overflow Int :=
  if m ≤ 2 then asI32 (y + 1) else pure y

/-- The year, the month and the day. The source never answers with its `None`. -/
def daysToYmd (days : Int) : Except Overflow (Option (Int × Int × Int)) := do
  let z ← asI64 (days + 719468)
  let era ← eraOf z
  let doe ← doeOf z era
  let yoe ← yoeOf doe
  let y ← yearOf yoe era
  let doy ← doyOf doe yoe
  let mp ← mpOf doy
  let d ← dayOf doy mp
  let m ← monthOf mp
  let y ← civilYearOf y m
  return some (y, m, d)

/-- A number padded with zeros to a width that counts its sign. -/
def zeroPadded (width : Nat) : Int → String
  | .ofNat n => String.ofList (List.leftpad width '0' (Nat.toDigits 10 n))
  | .negSucc n => String.ofList ('-' :: List.leftpad (width - 1) '0' (Nat.toDigits 10 (n + 1)))

def chronoLikeFormat (secs nsec : Int) : Except Overflow (Option String) := do
  let days := secs / 86400
  let secsOfDay ← asU32 (secs % 86400)
  let some (year, month, day) ← daysToYmd days | return none
  let hour := secsOfDay / 3600
  let minute := secsOfDay % 3600 / 60
  let second := secsOfDay % 60
  return some (zeroPadded 4 year ++ "-" ++ zeroPadded 2 month ++ "-" ++ zeroPadded 2 day ++ "T" ++
    zeroPadded 2 hour ++ ":" ++ zeroPadded 2 minute ++ ":" ++ zeroPadded 2 second ++ "." ++
    zeroPadded 9 nsec ++ "Z")

def formatCachedAtMs (ms : UInt64) : Except Overflow String := do
  let secs ← asI64 (ms.toNat / 1000 : Nat)
  let nsec ← asU32 (ms.toNat % 1000 * 1000000 : Nat)
  match ← chronoLikeFormat secs nsec with
  | some s => return s
  | none => return "<invalid>"

private theorem ok_bind {α β : Type} (a : α) (f : α → Except Overflow β) :
    (Except.ok a >>= f) = f a := rfl

theorem eraOf_ok {z : Int} (h : 0 ≤ z) : eraOf z = .ok (z / 146097) := by
  unfold eraOf
  rw [if_pos h]
  exact congrArg Except.ok (Int.tdiv_eq_ediv_of_nonneg h)

section Steps

variable {era doe yoe doy mp : Int}

theorem doeOf_ok (hera : 0 ≤ era ∧ era < 2 ^ 40) (hdoe : 0 ≤ doe ∧ doe < 146097) :
    doeOf (146097 * era + doe) era = .ok doe := by
  unfold doeOf
  rw [asI64_ok (by omega) (by omega), ok_bind, asI64_ok (by omega) (by omega), ok_bind]
  rw [show 146097 * era + doe - era * 146097 = doe by omega]
  exact asU32_ok hdoe.1 (by omega)

/-- A day of an era lies `q` centuries, then `s` times four years, then `u` years and `v` days in
it. Only the last year of four can have a day 365, and only when its four years have a leap day. -/
theorem years_before {q s u v : Int} (hq : 0 ≤ q ∧ q ≤ 3) (hs : 0 ≤ s ∧ s ≤ 24)
    (hu : 0 ≤ u ∧ u ≤ 3) (hv : 0 ≤ v ∧ v ≤ 365) (hleap : v = 365 → u = 3 ∧ (s = 24 → q = 3))
    (hdoe : doe = 36524 * q + 1461 * s + 365 * u + v) :
    (doe - doe / 1460 + doe / 36524 - doe / 146096) / 365 = 100 * q + 4 * s + u := by
  have hcenturies : doe / 36524 - doe / 146096 = q := by
    have hbounds : doe < 36524 * (q + 1) ∨ doe = 146096 := by omega
    rcases hbounds with hlt | rfl
    · have hcentury : doe / 36524 = q := by omega
      have hlast : doe / 146096 = 0 := by omega
      omega
    · omega
  -- a leap day is counted too early within the year that ends with it, and taken back here
  have hlost : doe / 1460 = 25 * q + s + (24 * q + s + 365 * u + v) / 1460 := by omega
  have hfirst : v = 0 → (24 * q + s + 365 * u + v) / 1460 = 0 := by omega
  have hlast : v = 365 → (24 * q + s + 365 * u + v) / 1460 = 1 := by omega
  have hbound : 0 ≤ (24 * q + s + 365 * u + v) / 1460 ∧
      (24 * q + s + 365 * u + v) / 1460 ≤ 1 := by omega
  generalize (24 * q + s + 365 * u + v) / 1460 = lost at *
  omega

theorem exists_years (hdoe : 0 ≤ doe ∧ doe < 146097) :
    ∃ q s u v : Int, (0 ≤ q ∧ q ≤ 3) ∧ (0 ≤ s ∧ s ≤ 24) ∧ (0 ≤ u ∧ u ≤ 3) ∧ (0 ≤ v ∧ v ≤ 365) ∧
      (v = 365 → u = 3 ∧ (s = 24 → q = 3)) ∧ doe = 36524 * q + 1461 * s + 365 * u + v := by
  obtain ⟨q, hq, hlow, hhigh⟩ : ∃ q : Int, (0 ≤ q ∧ q ≤ 3) ∧ 36524 * q ≤ doe ∧
      (doe < 36524 * (q + 1) ∨ q = 3) := by
    by_cases hlast : doe < 36524 * 3
    · exact ⟨doe / 36524, by omega⟩
    · exact ⟨3, by omega⟩
  obtain ⟨s, hs⟩ : ∃ s : Int, (0 ≤ s ∧ s ≤ 24) ∧ 1461 * s ≤ doe - 36524 * q ∧
      doe - 36524 * q < 1461 * (s + 1) :=
    ⟨(doe - 36524 * q) / 1461, by omega⟩
  obtain ⟨u, hu⟩ : ∃ u : Int, (0 ≤ u ∧ u ≤ 3) ∧ 365 * u ≤ doe - 36524 * q - 1461 * s ∧
      (doe - 36524 * q - 1461 * s < 365 * (u + 1) ∨ u = 3) := by
    by_cases hlast : doe - 36524 * q - 1461 * s < 365 * 3
    · exact ⟨(doe - 36524 * q - 1461 * s) / 365, by omega⟩
    · exact ⟨3, by omega⟩
  exact ⟨q, s, u, doe - (36524 * q + 1461 * s + 365 * u), hq, hs.1, hu.1, by omega, by omega,
    by omega⟩

/-- The year of the era and the day of that year. -/
theorem exists_yoe (hdoe : 0 ≤ doe ∧ doe < 146097) :
    ∃ yoe doy : Nat, yoe < 400 ∧ (doy < 365 ∨ doy = 365 ∧ isLeap (yoe + 1) = true) ∧
      yoeOf doe = .ok yoe ∧ doe = 365 * yoe + yoe / 4 - yoe / 100 + doy := by
  obtain ⟨q, s, u, v, hq, hs, hu, hv, hleap, hsum⟩ := exists_years hdoe
  obtain ⟨yoe, hyoe⟩ := Int.eq_ofNat_of_zero_le (show 0 ≤ 100 * q + 4 * s + u by omega)
  obtain ⟨doy, rfl⟩ := Int.eq_ofNat_of_zero_le hv.1
  have hfours : (yoe : Int) / 4 = 25 * q + s := by omega
  have hhundreds : (yoe : Int) / 100 = q := by omega
  refine ⟨yoe, doy, by omega, ?_, ?_, by rw [hfours, hhundreds]; omega⟩
  · rcases (by omega : doy < 365 ∨ doy = 365) with hlt | rfl
    · exact Or.inl hlt
    · obtain ⟨rfl, hcentury⟩ := hleap rfl
      refine Or.inr ⟨rfl, isLeap_iff.mpr ⟨by omega, ?_⟩⟩
      by_cases hlast : s = 24
      · have hq := hcentury hlast
        omega
      · omega
  · unfold yoeOf
    rw [asU32_ok (by omega) (by omega), ok_bind, asU32_ok (by omega) (by omega), ok_bind,
      asU32_ok (by omega) (by omega), ok_bind, years_before hq hs hu hv hleap hsum]
    exact congrArg Except.ok hyoe

theorem yearOf_ok (hyoe : 0 ≤ yoe ∧ yoe < 400) (hera : 0 ≤ era ∧ era < 2 ^ 22) :
    yearOf yoe era = .ok (400 * era + yoe) := by
  unfold yearOf
  rw [asI32_ok (by omega) (by omega), ok_bind, asI64_ok (by omega) (by omega), ok_bind,
    asI32_ok (by omega) (by omega), ok_bind, asI32_ok (by omega) (by omega)]
  apply congrArg Except.ok
  omega

theorem doyOf_ok (hyoe : 0 ≤ yoe ∧ yoe < 400) (hdoy : 0 ≤ doy ∧ doy ≤ 365) :
    doyOf (365 * yoe + yoe / 4 - yoe / 100 + doy) yoe = .ok doy := by
  unfold doyOf
  rw [asU32_ok (by omega) (by omega), ok_bind, asU32_ok (by omega) (by omega), ok_bind,
    asU32_ok (by omega) (by omega), ok_bind, asU32_ok (by omega) (by omega)]
  apply congrArg Except.ok
  omega

theorem mpOf_ok (hdoy : 0 ≤ doy ∧ doy ≤ 365) : mpOf doy = .ok ((5 * doy + 2) / 153) := by
  unfold mpOf
  rw [asU32_ok (by omega) (by omega), ok_bind, asU32_ok (by omega) (by omega), ok_bind]
  rfl

theorem dayOf_ok (hdoy : 0 ≤ doy ∧ doy ≤ 365) :
    dayOf doy ((5 * doy + 2) / 153) =
      .ok (doy - (153 * ((5 * doy + 2) / 153) + 2) / 5 + 1) := by
  unfold dayOf
  rw [asU32_ok (by omega) (by omega), ok_bind, asU32_ok (by omega) (by omega), ok_bind,
    asU32_ok (by omega) (by omega), ok_bind, asU32_ok (by omega) (by omega)]

end Steps

section March

variable {year doy : Nat}

theorem monthOf_march (h : doy ≤ 365) :
    monthOf ((5 * doy + 2) / 153) = .ok (marchDate year doy).month := by
  unfold monthOf
  by_cases hlt : (5 * doy + 2) / 153 < 10
  · rw [marchDate_of_lt hlt, if_pos (by omega), asU32_ok (by omega) (by omega)]
    apply congrArg Except.ok
    dsimp only
    omega
  · rw [marchDate_of_not_lt hlt, if_neg (by omega), asU32_ok (by omega) (by omega)]
    apply congrArg Except.ok
    dsimp only
    omega

theorem civilYearOf_march (h : doy ≤ 365) (hyear : year < 2 ^ 30) :
    civilYearOf year (marchDate year doy).month = .ok (marchDate year doy).year := by
  unfold civilYearOf
  by_cases hlt : (5 * doy + 2) / 153 < 10
  · rw [marchDate_of_lt hlt, if_neg (by dsimp only; omega)]
    rfl
  · rw [marchDate_of_not_lt hlt, if_pos (by dsimp only; omega), asI32_ok (by omega) (by omega)]
    rfl

theorem dayOf_march (h : doy ≤ 365) :
    dayOf doy ((5 * doy + 2) / 153) = .ok (marchDate year doy).day := by
  obtain ⟨hfrom, -⟩ := daysSinceMarch_bounds doy
  have hday : (marchDate year doy).day = doy - daysSinceMarch ((5 * doy + 2) / 153) + 1 := by
    unfold marchDate
    dsimp only
    split <;> rfl
  have hmp : (5 * (doy : Int) + 2) / 153 = ((5 * doy + 2) / 153 : Nat) := by omega
  rw [dayOf_ok (by omega), hday, hmp]
  apply congrArg Except.ok
  unfold daysSinceMarch at hfrom ⊢
  generalize (5 * doy + 2) / 153 = mp at hfrom ⊢
  omega

end March

def unixEpoch : Date := ⟨1970, 1, 1⟩

/-- The date as `days_to_ymd` returns one. -/
def ymd (d : Date) : Int × Int × Int := (d.year, d.month, d.day)

/-- The last day of a millisecond count of 64 bits. -/
def lastCachedDay : Nat := (2 ^ 64 - 1) / 86400000

theorem unixEpoch_valid : unixEpoch.Valid := by
  constructor <;> decide

theorem unixEpoch_dayCount : unixEpoch.dayCount = 719528 := by
  have hyears := daysBeforeYear_eq 1970
  have hmonths : daysBeforeMonth unixEpoch.year unixEpoch.month = 0 := rfl
  unfold Date.dayCount
  rw [hmonths, show unixEpoch.year = 1970 from rfl, show unixEpoch.day = 1 from rfl]
  omega

theorem daysToYmd_of_era {era : Nat} {doe : Int} (hera : era < 2 ^ 21)
    (hdoe : 0 ≤ doe ∧ doe < 146097) :
    ∃ d : Date, d.Valid ∧ (d.dayCount : Int) = 146097 * era + doe + 60 ∧
      daysToYmd (146097 * era + doe - 719468) = .ok (some (ymd d)) := by
  obtain ⟨yoe, doy, hyoe, hdoy, hyear, hsum⟩ := exists_yoe hdoe
  have hlast : doy ≤ 365 := by omega
  have hleap : doy < 365 ∨ doy = 365 ∧ isLeap (400 * era + yoe + 1) = true := by
    apply hdoy.imp_right
    rintro ⟨hday, hleap⟩
    have h := isLeap_iff.mp hleap
    exact ⟨hday, isLeap_iff.mpr (by omega)⟩
  have hy : (400 * (era : Int) + yoe) = (400 * era + yoe : Nat) := by omega
  refine ⟨marchDate (400 * era + yoe) doy, marchDate_valid hleap, ?_, ?_⟩
  · have hcount : (marchDate (400 * era + yoe) doy).dayCount + 306 =
        daysBeforeYear (400 * era + yoe + 1) + doy := marchDate_dayCount hlast
    have hyears := daysBeforeYear_eq (400 * era + yoe + 1)
    have hhundreds : (400 * era + yoe + 1 + 99) / 100 = 4 * era + yoe / 100 + 1 := by omega
    have hfours : (400 * era + yoe + 1 + 3) / 4 = 100 * era + yoe / 4 + 1 := by omega
    have hcycles : (400 * era + yoe + 1 + 399) / 400 = era + 1 := by omega
    rw [hhundreds, hfours, hcycles] at hyears
    omega
  · have hquotient : (146097 * (era : Int) + doe) / 146097 = era := by omega
    unfold daysToYmd
    rw [Int.sub_add_cancel, asI64_ok (by omega) (by omega), ok_bind, eraOf_ok (by omega), ok_bind,
      hquotient, doeOf_ok (by omega) hdoe, ok_bind, hyear, ok_bind, yearOf_ok (by omega) (by omega),
      ok_bind, hsum, doyOf_ok (by omega) (by omega), ok_bind, mpOf_ok (by omega), ok_bind,
      dayOf_march hlast, ok_bind, monthOf_march hlast, ok_bind, hy,
      civilYearOf_march hlast (by omega), ok_bind]
    rfl

theorem daysToYmd_ok {n : Nat} (h : n ≤ lastCachedDay) :
    ∃ d : Date, d.Valid ∧ d.dayCount = unixEpoch.dayCount + n ∧
      daysToYmd n = .ok (some (ymd d)) := by
  unfold lastCachedDay at h
  have hera : (n + 719468) / 146097 < 2 ^ 21 := by omega
  have hdoe : 0 ≤ ((n : Int) + 719468) % 146097 ∧ ((n : Int) + 719468) % 146097 < 146097 := by
    omega
  obtain ⟨d, hvalid, hcount, hymd⟩ := daysToYmd_of_era hera hdoe
  refine ⟨d, hvalid, ?_, ?_⟩
  · rw [unixEpoch_dayCount]
    omega
  · rw [← hymd]
    apply congrArg daysToYmd
    omega

theorem daysToYmd_eq {n : Nat} (h : n ≤ lastCachedDay) :
    daysToYmd n = .ok (some (ymd (unixEpoch.later n))) := by
  obtain ⟨d, hvalid, hcount, hymd⟩ := daysToYmd_ok h
  obtain ⟨hlater, hsame⟩ := unixEpoch_valid.later n
  rw [hymd, hvalid.eq_of_dayCount hlater (hcount.trans hsame.symm)]

theorem daysToYmd_dayCount {d : Date} (hvalid : d.Valid) {n : Nat}
    (hcount : d.dayCount = unixEpoch.dayCount + n) (h : n ≤ lastCachedDay) :
    daysToYmd n = .ok (some (ymd d)) := by
  obtain ⟨d', hvalid', hcount', hymd⟩ := daysToYmd_ok h
  rw [hymd, hvalid'.eq_of_dayCount hvalid (hcount'.trans hcount.symm)]

theorem later_before {n m : Nat} (h : n < m) :
    (unixEpoch.later n).Before (unixEpoch.later m) := by
  obtain ⟨hn, hcount⟩ := unixEpoch_valid.later n
  obtain ⟨hm, hcount'⟩ := unixEpoch_valid.later m
  exact hn.before_of_dayCount hm (by omega)

/-- An instant of universal time, to the millisecond. -/
structure Instant where
  date : Date
  hour : Nat
  minute : Nat
  second : Nat
  milli : Nat

namespace Instant

structure Valid (i : Instant) : Prop where
  date : i.date.Valid
  hour : i.hour < 24
  minute : i.minute < 60
  second : i.second < 60
  milli : i.milli < 1000

/-- The milliseconds from the beginning of the year 0. -/
def millis (i : Instant) : Nat :=
  (((i.date.dayCount * 24 + i.hour) * 60 + i.minute) * 60 + i.second) * 1000 + i.milli

def iso8601 (i : Instant) : String :=
  zeroPadded 4 i.date.year ++ "-" ++ zeroPadded 2 i.date.month ++ "-" ++
    zeroPadded 2 i.date.day ++ "T" ++ zeroPadded 2 i.hour ++ ":" ++ zeroPadded 2 i.minute ++ ":" ++
    zeroPadded 2 i.second ++ "." ++ zeroPadded 9 (i.milli * 1000000) ++ "Z"

def epoch : Instant := ⟨unixEpoch, 0, 0, 0, 0⟩

def afterEpoch (ms : Nat) : Instant where
  date := unixEpoch.later (ms / 86400000)
  hour := ms / 3600000 % 24
  minute := ms / 60000 % 60
  second := ms / 1000 % 60
  milli := ms % 1000

theorem afterEpoch_valid (ms : Nat) : (afterEpoch ms).Valid where
  date := (unixEpoch_valid.later _).1
  hour := Nat.mod_lt _ (by omega)
  minute := Nat.mod_lt _ (by omega)
  second := Nat.mod_lt _ (by omega)
  milli := Nat.mod_lt _ (by omega)

theorem millis_afterEpoch (ms : Nat) : (afterEpoch ms).millis = epoch.millis + ms := by
  obtain ⟨-, hcount⟩ := unixEpoch_valid.later (ms / 86400000)
  simp only [millis, afterEpoch, epoch, hcount]
  omega

end Instant

theorem chronoLikeFormat_ok {ms : Nat} (h : ms < 2 ^ 64) :
    chronoLikeFormat (ms / 1000 : Nat) (ms % 1000 * 1000000 : Nat) =
      .ok (some (Instant.afterEpoch ms).iso8601) := by
  have hday : ms / 86400000 ≤ lastCachedDay := by
    unfold lastCachedDay
    omega
  have hsecs : ((ms / 1000 : Nat) : Int) / 86400 = (ms / 86400000 : Nat) := by omega
  have hrest : ((ms / 1000 : Nat) : Int) % 86400 = (ms / 1000 % 86400 : Nat) := by omega
  have hhour : ((ms / 1000 % 86400 : Nat) : Int) / 3600 = (ms / 3600000 % 24 : Nat) := by omega
  have hminute : ((ms / 1000 % 86400 : Nat) : Int) % 3600 / 60 = (ms / 60000 % 60 : Nat) := by
    omega
  have hsecond : ((ms / 1000 % 86400 : Nat) : Int) % 60 = (ms / 1000 % 60 : Nat) := by omega
  unfold chronoLikeFormat
  rw [hsecs, hrest, asU32_ok (by omega) (by omega), ok_bind, daysToYmd_eq hday, ok_bind]
  simp only [ymd, hhour, hminute, hsecond]
  rfl

theorem formatCachedAtMs_ok (ms : UInt64) :
    formatCachedAtMs ms = .ok (Instant.afterEpoch ms.toNat).iso8601 := by
  have hms : ms.toNat < 2 ^ 64 := ms.toNat_lt
  unfold formatCachedAtMs
  rw [asI64_ok (by omega) (by omega), ok_bind, asU32_ok (by omega) (by omega), ok_bind,
    chronoLikeFormat_ok hms, ok_bind]
  rfl

/-- Every count of milliseconds is shown as the instant it counts to, and the days of all these
counts are turned into dates and back, in their order. -/
theorem cached_at_is_civil :
    (∀ ms : UInt64, ∃ i : Instant, i.Valid ∧ i.millis = Instant.epoch.millis + ms.toNat ∧
      formatCachedAtMs ms = .ok i.iso8601) ∧
    (∀ n ≤ lastCachedDay, ∃ d : Date, d.Valid ∧ d = unixEpoch.later n ∧
      d.dayCount = unixEpoch.dayCount + n ∧ daysToYmd n = .ok (some (ymd d))) ∧
    (∀ d : Date, d.Valid → ∀ n ≤ lastCachedDay, d.dayCount = unixEpoch.dayCount + n →
      daysToYmd n = .ok (some (ymd d))) ∧
    ∀ n m, n < m → m ≤ lastCachedDay → ∃ a b : Date, daysToYmd n = .ok (some (ymd a)) ∧
      daysToYmd m = .ok (some (ymd b)) ∧ a.Before b := by
  refine ⟨fun ms => ?_, fun n h => ?_, fun d hvalid n h hcount => ?_, fun n m hlt h => ?_⟩
  · exact ⟨_, Instant.afterEpoch_valid _, Instant.millis_afterEpoch _, formatCachedAtMs_ok ms⟩
  · obtain ⟨hvalid, hcount⟩ := unixEpoch_valid.later n
    exact ⟨_, hvalid, rfl, hcount, daysToYmd_eq h⟩
  · exact daysToYmd_dayCount hvalid hcount h
  · have hn : n ≤ lastCachedDay := by omega
    exact ⟨_, _, daysToYmd_eq hn, daysToYmd_eq h, later_before hlt⟩

end Conproxy
