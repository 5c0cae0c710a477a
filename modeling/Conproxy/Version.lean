import Conproxy.Lib.Machine
import Conproxy.Cache.Operations

/-!
# The version check worker

`workers/version.rs`: the worker asks the upstream for its version and clears the cache if what
both the new and the last observation carry differs. Every observation replaces the last one,
also one that carries less. What a check has fetched is an input.
-/

namespace Conproxy

open Machine

set_option autoImplicit false

/-- A natural number to 53 significant bits, ties to even, as an `f64` holds it. -/
def roundTo53 (n : Nat) : Nat :=
  if n < 2 ^ 53 then n
  else
    let unit := 2 ^ (Nat.log2 n - 52)
    let low := n / unit
    let rest := n % unit
    if unit < 2 * rest ∨ 2 * rest = unit ∧ low % 2 = 1 then (low + 1) * unit else low * unit

/-- `(max_val * 0.01) as u64`: the `f64` nearest to 0.01 is `5764607523034235 / 2^59`. -/
def onePercent (n : Nat) : Nat := roundTo53 (roundTo53 n * 5764607523034235) / 2 ^ 59

example : onePercent 1000 = 10 ∧ onePercent 99 = 0 ∧ onePercent 100 = 1 := by decide

structure UpstreamVersion where
  version : Option String
  corpusHash : Option String
  docCount : Option Nat
  lastModified : Option Nat
deriving DecidableEq

namespace UpstreamVersion

def empty : UpstreamVersion := ⟨none, none, none, none⟩

/-- Both sides have a value, and the two are told apart. -/
def bothDiffer {α : Type} (differ : α → α → Bool) : Option α → Option α → Bool
  | some a, some b => differ a b
  | _, _ => false

def docCountsDiffer (a b : Nat) : Bool :=
  let diff := if b < a then a - b else b - a
  decide (onePercent (max a b) < diff)

def differsFrom (v other : UpstreamVersion) : Bool :=
  bothDiffer (fun a b => a != b) v.version other.version ||
    bothDiffer (fun a b => a != b) v.corpusHash other.corpusHash ||
    bothDiffer docCountsDiffer v.docCount other.docCount ||
    bothDiffer (fun a b => a != b) v.lastModified other.lastModified

def isEmpty (v : UpstreamVersion) : Bool :=
  v.version.isNone && v.corpusHash.isNone && v.docCount.isNone && v.lastModified.isNone

end UpstreamVersion

structure VersionCheckWorker where
  cache : CacheStore
  invalidateOnChange : Bool
  currentVersion : UpstreamVersion
  changesDetected : Nat

/-- A check, with what was fetched; a fetch that failed has brought nothing. -/
structure VersionCheck where
  now : Clock
  fetched : Option UpstreamVersion

namespace VersionCheckWorker

def new (cache : CacheStore) (invalidateOnChange : Bool) : VersionCheckWorker :=
  ⟨cache, invalidateOnChange, .empty, 0⟩

def detects (w : VersionCheckWorker) (newVersion : UpstreamVersion) : Bool :=
  !w.currentVersion.isEmpty && newVersion.differsFrom w.currentVersion

def checkVersion (w : VersionCheckWorker) (check : VersionCheck) : VersionCheckWorker :=
  match check.fetched with
  | some newVersion =>
    let w :=
      if w.detects newVersion then
        { w with
          changesDetected := w.changesDetected + 1
          cache := if w.invalidateOnChange then w.cache.clear check.now else w.cache }
      else w
    { w with currentVersion := newVersion }
  | none => w

def Clears (w : VersionCheckWorker) (check : VersionCheck) : Prop :=
  w.invalidateOnChange = true ∧ ∃ v, check.fetched = some v ∧ w.detects v = true

end VersionCheckWorker

/-- The fields whose change must not be missed. -/
inductive VersionField where
  | version
  | corpusHash
deriving DecidableEq

namespace UpstreamVersion

def get (v : UpstreamVersion) : VersionField → Option String
  | .version => v.version
  | .corpusHash => v.corpusHash

/-- Both observations carry the field, with different values. -/
def Conflicts (v other : UpstreamVersion) : Prop :=
  ∃ field a b, v.get field = some a ∧ other.get field = some b ∧ a ≠ b

/-- What the old observation carries, the new one carries too. -/
def Carries (old new : UpstreamVersion) : Prop :=
  ∀ field, (old.get field).isSome = true → (new.get field).isSome = true

/-- An observation of one field alone. -/
def only (field : VersionField) (value : String) : UpstreamVersion :=
  match field with
  | .version => { empty with version := some value }
  | .corpusHash => { empty with corpusHash := some value }

variable {v other : UpstreamVersion} {field : VersionField} {a b : String}

theorem get_only (field : VersionField) (value : String) :
    (only field value).get field = some value := by
  cases field <;> rfl

theorem isEmpty_of_get (h : v.get field = some a) : v.isEmpty = false := by
  cases field with
  | version =>
    have h : v.version = some a := h
    simp [isEmpty, h]
  | corpusHash =>
    have h : v.corpusHash = some a := h
    simp [isEmpty, h]

theorem differsFrom_of_get (hv : v.get field = some a) (hother : other.get field = some b)
    (hne : a ≠ b) : v.differsFrom other = true := by
  cases field with
  | version =>
    have hv : v.version = some a := hv
    have hother : other.version = some b := hother
    simp [differsFrom, bothDiffer, hv, hother, hne]
  | corpusHash =>
    have hv : v.corpusHash = some a := hv
    have hother : other.corpusHash = some b := hother
    simp [differsFrom, bothDiffer, hv, hother, hne]

theorem differsFrom_only (hother : other.get field = none) (value : String) :
    (only field value).differsFrom other = false := by
  cases field with
  | version =>
    have hother : other.version = none := hother
    simp [differsFrom, only, empty, bothDiffer, hother]
  | corpusHash =>
    have hother : other.corpusHash = none := hother
    simp [differsFrom, only, empty, bothDiffer, hother]

end UpstreamVersion

namespace VersionCheckWorker

def before (cache : CacheStore) (checks : List VersionCheck) (i : Nat) : VersionCheckWorker :=
  run checkVersion (new cache true) (checks.take i)

/-- Whenever two observations conflict, a check after the first and not after the second clears
the cache. -/
def NoneMissed (cache : CacheStore) (checks : List VersionCheck) : Prop :=
  ∀ (i j : Nat) (ci cj : VersionCheck) (vi vj : UpstreamVersion), i < j →
    checks[i]? = some ci → ci.fetched = some vi → checks[j]? = some cj → cj.fetched = some vj →
    vi.Conflicts vj →
    ∃ k c, i < k ∧ k ≤ j ∧ checks[k]? = some c ∧ (before cache checks k).Clears c

/-- The observation carries what the last one did, or clears the cache. -/
def Keeps (w : VersionCheckWorker) (check : VersionCheck) : Prop :=
  ∀ v, check.fetched = some v → w.currentVersion.Carries v ∨ w.Clears check

variable {w : VersionCheckWorker} {check : VersionCheck} {cache : CacheStore}
  {checks : List VersionCheck} {v : UpstreamVersion} {field : VersionField} {a b : String}

theorem currentVersion_checkVersion (w : VersionCheckWorker) (check : VersionCheck) :
    (w.checkVersion check).currentVersion = check.fetched.getD w.currentVersion := by
  unfold checkVersion
  cases check.fetched <;> rfl

theorem invalidateOnChange_checkVersion (w : VersionCheckWorker) (check : VersionCheck) :
    (w.checkVersion check).invalidateOnChange = w.invalidateOnChange := by
  unfold checkVersion
  cases check.fetched with
  | none => rfl
  | some v =>
    dsimp only
    split <;> rfl

theorem before_succ {i : Nat} (h : checks[i]? = some check) :
    before cache checks (i + 1) = (before cache checks i).checkVersion check := by
  unfold before
  rw [List.take_add_one, h, run_append]
  rfl

theorem invalidateOnChange_before (cache : CacheStore) (checks : List VersionCheck) (i : Nat) :
    (before cache checks i).invalidateOnChange = true := by
  have hstep (w : VersionCheckWorker) (check : VersionCheck) (h : w.invalidateOnChange = true) :
      (w.checkVersion check).invalidateOnChange = true :=
    (invalidateOnChange_checkVersion w check).trans h
  have hnew : (new cache true).invalidateOnChange = true := rfl
  exact run_preserves hstep hnew _

theorem clears_of_conflict (hw : w.invalidateOnChange = true) (hfetched : check.fetched = some v)
    (hcurrent : w.currentVersion.get field = some a) (hv : v.get field = some b)
    (hne : a ≠ b) : w.Clears check := by
  refine ⟨hw, v, hfetched, ?_⟩
  rw [detects, UpstreamVersion.isEmpty_of_get hcurrent,
    UpstreamVersion.differsFrom_of_get hv hcurrent hne.symm]
  rfl

theorem get_checkVersion (hw : w.invalidateOnChange = true) (hkeeps : w.Keeps check)
    (hclears : ¬ w.Clears check) (hcurrent : w.currentVersion.get field = some a) :
    (w.checkVersion check).currentVersion.get field = some a := by
  rw [currentVersion_checkVersion]
  cases hfetched : check.fetched with
  | none => exact hcurrent
  | some v =>
    have hcarries := (hkeeps v hfetched).resolve_right hclears
    obtain ⟨b, hb⟩ := Option.isSome_iff_exists.mp (hcarries field (by rw [hcurrent]; rfl))
    by_cases hne : a = b
    · rw [hne]
      exact hb
    · exact absurd (clears_of_conflict hw hfetched hcurrent hb hne) hclears

theorem before_append {i : Nat} (hi : i ≤ checks.length) (more : List VersionCheck) :
    before cache (checks ++ more) i = before cache checks i := by
  unfold before
  rw [List.take_append_of_le_length hi]

/-- Checks that keep the fields miss nothing, and neither does the check after them. -/
theorem noneMissed_of_keeps (hkeeps : AllSteps checkVersion Keeps (new cache true) checks)
    (last : VersionCheck) : NoneMissed cache (checks ++ [last]) := by
  rintro i j ci cj vi vj hij hci hvi hcj hvj ⟨field, a, b, ha, hb, hne⟩
  by_contra hnone
  have hclears (k : Nat) (c : VersionCheck) (hik : i < k) (hkj : k ≤ j)
      (hc : (checks ++ [last])[k]? = some c) :
      ¬ (before cache (checks ++ [last]) k).Clears c :=
    fun h => hnone ⟨k, c, hik, hkj, hc, h⟩
  have hj : j ≤ checks.length := by
    have hlt := (List.getElem?_eq_some_iff.mp hcj).1
    simp at hlt
    omega
  -- By induction on `k`, the value of the first observation is still known at every check.
  have hknown : ∀ k, i + 1 ≤ k → k ≤ j →
      (before cache (checks ++ [last]) k).currentVersion.get field = some a := by
    intro k hik
    induction k, hik using Nat.le_induction with
    | base =>
      intro _
      rw [before_succ hci, currentVersion_checkVersion, hvi]
      exact ha
    | succ k hik ih =>
      intro hkj
      obtain ⟨c, hc⟩ : ∃ c, checks[k]? = some c :=
        ⟨checks[k], List.getElem?_eq_getElem (by omega)⟩
      have hc' : (checks ++ [last])[k]? = some c := by
        rw [List.getElem?_append_left (by omega), hc]
      rw [before_succ hc']
      refine get_checkVersion (invalidateOnChange_before _ _ _) ?_
        (hclears k c (by omega) (by omega) hc') (ih (by omega))
      rw [before_append (by omega)]
      exact allSteps_iff_getElem?.mp hkeeps k c hc
  exact hclears j cj hij le_rfl hcj (clears_of_conflict (invalidateOnChange_before _ _ _) hvj
    (hknown j hij le_rfl) hb hne)

theorem noneMissed_of_append {more : List VersionCheck}
    (h : NoneMissed cache (checks ++ more)) : NoneMissed cache checks := by
  intro i j ci cj vi vj hij hci hvi hcj hvj hconflict
  have hj := (List.getElem?_eq_some_iff.mp hcj).1
  have hget (k : Nat) (hk : k ≤ j) : (checks ++ more)[k]? = checks[k]? :=
    List.getElem?_append_left (by omega)
  obtain ⟨k, c, hik, hkj, hc, hclears⟩ := h i j ci cj vi vj hij
    (by rw [hget i (by omega), hci]) hvi (by rw [hget j le_rfl, hcj]) hvj hconflict
  rw [hget k hkj] at hc
  rw [before_append (by omega)] at hclears
  exact ⟨k, c, hik, hkj, hc, hclears⟩

/-- What the worker knows was fetched by a check, and no check after it fetched anything. -/
theorem exists_check_of_current {k : Nat}
    (h : (before cache checks k).currentVersion.get field = some a) :
    ∃ i c v, i < k ∧ checks[i]? = some c ∧ c.fetched = some v ∧ v.get field = some a ∧
      ∀ m c', i < m → m < k → checks[m]? = some c' → c'.fetched = none := by
  induction k with
  | zero => cases field <;> cases h
  | succ k ih =>
    have hearlier (hcurrent : (before cache checks k).currentVersion.get field = some a)
        (hnone : ∀ c', checks[k]? = some c' → c'.fetched = none) :
        ∃ i c v, i < k + 1 ∧ checks[i]? = some c ∧ c.fetched = some v ∧ v.get field = some a ∧
          ∀ m c', i < m → m < k + 1 → checks[m]? = some c' → c'.fetched = none := by
      obtain ⟨i, c, v, hik, hc, hv, hget, hrest⟩ := ih hcurrent
      refine ⟨i, c, v, by omega, hc, hv, hget, ?_⟩
      intro m c' him hmk hc'
      rcases Nat.lt_succ_iff_lt_or_eq.mp hmk with hlt | rfl
      · exact hrest m c' him hlt hc'
      · exact hnone c' hc'
    cases hc : checks[k]? with
    | none =>
      refine hearlier ?_ (by simp [hc])
      have hsame : before cache checks (k + 1) = before cache checks k := by
        unfold before
        rw [List.take_add_one, hc, Option.toList_none, List.append_nil]
      rwa [hsame] at h
    | some c =>
      rw [before_succ hc, currentVersion_checkVersion] at h
      cases hv : c.fetched with
      | none =>
        rw [hv] at h
        exact hearlier h (by simp [hc, hv])
      | some v =>
        rw [hv] at h
        exact ⟨k, c, v, by omega, hc, hv, h, fun m c' hkm hmk => absurd hmk (by omega)⟩

theorem getElem?_continued {k m : Nat} (hk : k < checks.length) (hm : m ≤ k)
    (last : VersionCheck) : (checks.take (k + 1) ++ [last])[m]? = checks[m]? := by
  have hlength : (checks.take (k + 1)).length = k + 1 := by simp; omega
  rw [List.getElem?_append_left (by omega), List.getElem?_take_of_lt (by omega)]

theorem getElem?_continued_last {k : Nat} (hk : k < checks.length) (last : VersionCheck) :
    (checks.take (k + 1) ++ [last])[k + 1]? = some last := by
  have hlength : (checks.take (k + 1)).length = k + 1 := by simp; omega
  rw [List.getElem?_append_right (by omega), hlength]
  simp

theorem before_continued {k m : Nat} (hk : k < checks.length) (hm : m ≤ k + 1)
    (last : VersionCheck) :
    before cache (checks.take (k + 1) ++ [last]) m = before cache checks m := by
  have hlength : (checks.take (k + 1)).length = k + 1 := by simp; omega
  rw [before_append (by omega)]
  unfold before
  rw [List.take_take, min_eq_left hm]

/-- After a check that drops a field and does not clear the cache, the next one can miss a
change of that field. -/
theorem keeps_of_noneMissed {k : Nat} (hcheck : checks[k]? = some check)
    (h : ∀ value, NoneMissed cache
      (checks.take (k + 1) ++ [⟨check.now, some (.only field value)⟩]))
    (hv : check.fetched = some v) (hclears : ¬ (before cache checks k).Clears check)
    (hcurrent : (before cache checks k).currentVersion.get field = some a) :
    v.get field ≠ none := by
  intro hdropped
  obtain ⟨i, c, vi, hik, hc, hvi, ha, hrest⟩ := exists_check_of_current hcurrent
  have hk := (List.getElem?_eq_some_iff.mp hcheck).1
  have hne : a ≠ a ++ "'" := by
    intro heq
    have := congrArg String.length heq
    simp at this
  obtain ⟨m, c', him, hmk, hc', hcleared⟩ := h (a ++ "'") i (k + 1) c _ vi _ (by omega)
    (by rw [getElem?_continued hk (by omega), hc]) hvi (getElem?_continued_last hk _) rfl
    ⟨field, a, a ++ "'", ha, UpstreamVersion.get_only _ _, hne⟩
  rw [before_continued hk hmk] at hcleared
  rcases Nat.lt_trichotomy m k with hlt | rfl | hgt
  · rw [getElem?_continued hk (by omega)] at hc'
    obtain ⟨-, v', hv', -⟩ := hcleared
    rw [hrest m c' him hlt hc'] at hv'
    cases hv'
  · rw [getElem?_continued hk le_rfl, hcheck] at hc'
    cases hc'
    exact hclears hcleared
  · obtain rfl : m = k + 1 := by omega
    rw [getElem?_continued_last hk] at hc'
    cases hc'
    obtain ⟨-, v', hv', hdetects⟩ := hcleared
    cases hv'
    rw [before_succ hcheck, detects, currentVersion_checkVersion, hv] at hdetects
    simp [UpstreamVersion.differsFrom_only hdropped] at hdetects

/-- Version 1, a check without an observation, version 1 with a corpus hash, then version 2 with
the same hash. -/
def hashFromThenOn : List VersionCheck :=
  [⟨⟨0, 0⟩, some (.only .version "1")⟩, ⟨⟨1, 1⟩, none⟩,
    ⟨⟨2, 2⟩, some { UpstreamVersion.only .version "1" with corpusHash := some "h" }⟩,
    ⟨⟨3, 3⟩, some { UpstreamVersion.only .version "2" with corpusHash := some "h" }⟩]

/-- Version 1, then a corpus hash alone, then version 2. -/
def hashBetween : List VersionCheck :=
  [⟨⟨0, 0⟩, some (.only .version "1")⟩, ⟨⟨1, 1⟩, some (.only .corpusHash "h")⟩,
    ⟨⟨2, 2⟩, some (.only .version "2")⟩]

end VersionCheckWorker

end Conproxy
