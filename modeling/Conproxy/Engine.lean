import Conproxy.Lib.SocketText
import Conproxy.Normalization
import Conproxy.Cache.Rounds

/-!
# The memory cap of an engine

An engine without a fixed cap takes a fraction of the memory budget, which a ticker reads again and
again. The ticker moves the cap only past a band of five percent, never under the floor, and shrinks
the store when it does. The other calls of the store come in between. A fixed cap is read from a
text with an optional unit.
-/

namespace Conproxy

open Machine CacheStore SocketText

set_option autoImplicit false

def dynamicCapFloorBytes : Nat := 16 * 1024 * 1024

def absDiff (a b : Nat) : Nat := if a < b then b - a else a - b

/-- The store and the variable of the ticker. -/
structure Engine where
  cache : CacheStore
  current : Nat

inductive EngineEvent where
  | call (call : Call)
  | tick (budget : Nat)

namespace Engine

section Ticker

-- The share of a budget is a product of floating-point numbers, which stays open here.
variable (p : Platform) (capForFraction : Nat → Nat)

def dynamicCap (budget : Nat) : Nat := max (capForFraction budget) dynamicCapFloorBytes

/-- `EngineBuilder::build` over the store of the new proxy, which may hold restored entries. -/
def build (cache : CacheStore) (budget : Nat) : Engine :=
  ⟨cache.setMaxMemoryBytes (dynamicCap capForFraction budget), 0⟩

def Moves (e : Engine) (cap : Nat) : Prop :=
  cap ≠ e.current ∧ e.current / 20 < absDiff cap e.current

instance (e : Engine) (cap : Nat) : Decidable (e.Moves cap) :=
  inferInstanceAs (Decidable (_ ∧ _))

/-- One turn of `memory_ticker`. -/
def memoryTick (e : Engine) (budget : Nat) : Engine :=
  let cap := dynamicCap capForFraction budget
  if e.Moves cap then ⟨((e.cache.setMaxMemoryBytes cap).enforceMemoryLimit p).2, cap⟩ else e

def step (e : Engine) : EngineEvent → Engine
  | .call call => { e with cache := exec p e.cache call }
  | .tick budget => e.memoryTick p capForFraction budget

end Ticker

def lastBudget : Option Nat → List EngineEvent → Option Nat
  | last, [] => last
  | last, .call _ :: rest => lastBudget last rest
  | _, .tick budget :: rest => lastBudget (some budget) rest

/-- Only the ticker sets the cap, no entry is replaced past a cap that is enforced, and a new cap is
one that the eviction can reach. -/
def Admits (p : Platform) (capForFraction : Nat → Nat) (e : Engine) : EngineEvent → Prop
  | .call call => call.op.memoryLimit = none ∧ (0 < e.current → Affordable p e.cache call)
  | .tick budget => e.Moves (dynamicCap capForFraction budget) → ∀ front, e.cache.Cuts front →
      e.cache.keptBytes p front ≤ dynamicCap capForFraction budget

variable {p : Platform} {capForFraction : Nat → Nat} {e : Engine} {budget cap capacity : Nat}
  {last : Option Nat}

/-- What holds between two events: from the first turn on, the cap is the one the ticker knows, it
is enforced, and it is close to the share of the last budget. -/
structure InForce (p : Platform) (capForFraction : Nat → Nat) (capacity : Nat) (last : Option Nat)
    (e : Engine) : Prop where
  fits : e.cache.core.Fits capacity
  exact : e.cache.core.Exact p
  floor_le : dynamicCapFloorBytes ≤ e.cache.maxMemoryBytes
  ticked : last.isSome = true → 0 < e.current
  cap_eq : 0 < e.current → e.cache.maxMemoryBytes = e.current
  capped : 0 < e.current → Capped p e.cache
  near : ∀ b ∈ last, 20 * absDiff (dynamicCap capForFraction b) e.current ≤ e.current

theorem floor_le_dynamicCap (capForFraction : Nat → Nat) (budget : Nat) :
    dynamicCapFloorBytes ≤ dynamicCap capForFraction budget := le_max_right _ _

theorem dynamicCap_pos (capForFraction : Nat → Nat) (budget : Nat) :
    0 < dynamicCap capForFraction budget :=
  Nat.lt_of_lt_of_le (by decide) (floor_le_dynamicCap capForFraction budget)

theorem near_self (n : Nat) : 20 * absDiff n n ≤ n := by
  simp [absDiff]

theorem near_of_not_moves (h : ¬ e.Moves cap) : 20 * absDiff cap e.current ≤ e.current := by
  by_cases heq : cap = e.current
  · rw [heq]
    exact near_self e.current
  · have hle : ¬ e.current / 20 < absDiff cap e.current := fun hlt => h ⟨heq, hlt⟩
    omega

theorem moves_of_zero (h : e.current = 0) (hcap : 0 < cap) : e.Moves cap := by
  rw [Moves, h, absDiff, if_neg (Nat.not_lt_zero _)]
  omega

theorem maxMemoryBytes_exec (s : CacheStore) (call : Call) (hop : call.op.memoryLimit = none) :
    (exec p s call).maxMemoryBytes = s.maxMemoryBytes := by
  have hset (n : Nat) : call.op ≠ .setMaxMemoryBytes n := by
    intro hn
    rw [hn] at hop
    cases hop
  refine (exec_steps (p := p) s call hset).invariant
    (fun s' => s'.maxMemoryBytes = s.maxMemoryBytes) (fun _ => True) ?_ ?_ (fun _ _ => trivial) rfl
  · intro s₁ s₂ h hs
    exact h.limit.trans hs
  · intro i s₂ h _ hs
    exact h.limit.trans hs

theorem bytes_of_len_zero {s : CacheStore} (hs : s.core.Exact p) (hempty : s.len = 0) :
    s.totalMemoryBytes.value = 0 := by
  have hkeys : s.entries.keys = [] := List.length_eq_zero_iff.1 hempty
  have hvalue : s.totalMemoryBytes.value =
      WeightedTable.weight (CacheEntry.approximateSize p) s.entries := hs.value_eq
  rw [hvalue, WeightedTable.weight, List.map_eq_nil_iff.1 hkeys]
  rfl

theorem capped_of_reachable {s : CacheStore} (hs : s.core.Resident) (hexact : s.core.Exact p)
    (hcap : 0 < cap) (hreach : ∀ front, s.Cuts front → s.keptBytes p front ≤ cap) :
    Capped p ((s.setMaxMemoryBytes cap).enforceMemoryLimit p).2 := by
  have hexact' : ((s.setMaxMemoryBytes cap).enforceMemoryLimit p).2.core.Exact p :=
    exec_exact (s.setMaxMemoryBytes cap) (callNow .enforceMemoryLimit) hexact
  have hlimit : ((s.setMaxMemoryBytes cap).enforceMemoryLimit p).2.maxMemoryBytes = cap :=
    (shrunk_enforceMemoryLimit (p := p) (s.setMaxMemoryBytes cap)).limit
  have hshrinks : ShrinksToLimit p (s.setMaxMemoryBytes cap) :=
    (shrinksToLimit_iff (s := s.setMaxMemoryBytes cap) hs hexact hcap).2 hreach
  refine ⟨hexact', fun _ => ?_⟩
  rcases hshrinks.fits with hle | hempty
  · exact hle.trans hlimit.ge
  · rw [bytes_of_len_zero hexact' hempty]
    exact Nat.zero_le _

namespace InForce

theorem call {call : Call} (h : e.InForce p capForFraction capacity last)
    (hcall : e.Admits p capForFraction (.call call)) :
    (e.step p capForFraction (.call call)).InForce p capForFraction capacity last := by
  obtain ⟨hop, haffordable⟩ := hcall
  have hcap : (e.step p capForFraction (.call call)).cache.maxMemoryBytes =
      e.cache.maxMemoryBytes := maxMemoryBytes_exec e.cache call hop
  constructor
  · exact exec_fits e.cache call h.fits
  · exact exec_exact e.cache call h.exact
  · rw [hcap]
    exact h.floor_le
  · exact h.ticked
  · rw [hcap]
    exact h.cap_eq
  · intro hpos
    exact exec_capped e.cache call (haffordable hpos) (h.capped hpos)
  · exact h.near

theorem tick (h : e.InForce p capForFraction capacity last)
    (hreach : e.Admits p capForFraction (.tick budget)) :
    (e.step p capForFraction (.tick budget)).InForce p capForFraction capacity (some budget) := by
  have hpos := dynamicCap_pos capForFraction budget
  by_cases hmoves : e.Moves (dynamicCap capForFraction budget)
  · have hlimit : ((e.cache.setMaxMemoryBytes (dynamicCap capForFraction
        budget)).enforceMemoryLimit p).2.maxMemoryBytes = dynamicCap capForFraction budget :=
      (shrunk_enforceMemoryLimit (p := p) _).limit
    have hcapped := capped_of_reachable h.fits.resident h.exact hpos (hreach hmoves)
    have hfits := exec_fits (p := p)
      (e.cache.setMaxMemoryBytes (dynamicCap capForFraction budget))
      (callNow .enforceMemoryLimit) h.fits
    rw [step, memoryTick, if_pos hmoves]
    refine ⟨hfits, hcapped.exact, ?_, fun _ => hpos, fun _ => hlimit, fun _ => hcapped, ?_⟩
    · exact (floor_le_dynamicCap capForFraction budget).trans hlimit.ge
    · intro b hb
      cases hb
      exact near_self _
  · have hcurrent : 0 < e.current := by
      rw [Nat.pos_iff_ne_zero]
      exact fun hzero => hmoves (moves_of_zero hzero hpos)
    rw [step, memoryTick, if_neg hmoves]
    refine ⟨h.fits, h.exact, h.floor_le, fun _ => hcurrent, h.cap_eq, h.capped, ?_⟩
    intro b hb
    cases hb
    exact near_of_not_moves hmoves

theorem run (h : e.InForce p capForFraction capacity last) {events : List EngineEvent}
    (hevents : AllSteps (step p capForFraction) (Admits p capForFraction) e events) :
    (Machine.run (step p capForFraction) e events).InForce p capForFraction capacity
      (lastBudget last events) := by
  induction events generalizing e last with
  | nil => exact h
  | cons event rest ih =>
    cases event with
    | call call => exact ih (h.call hevents.1) hevents.2
    | tick budget => exact ih (h.tick hevents.1) hevents.2

end InForce

theorem build_inForce (capForFraction : Nat → Nat) {s : CacheStore} (hfits : s.core.Fits capacity)
    (hexact : s.core.Exact p) (budget : Nat) :
    (build capForFraction s budget).InForce p capForFraction capacity none := by
  constructor
  · exact hfits
  · exact hexact
  · exact floor_le_dynamicCap capForFraction budget
  · exact fun h => absurd h (by simp)
  · exact fun h => absurd h (Nat.lt_irrefl 0)
  · exact fun h => absurd h (Nat.lt_irrefl 0)
  · exact fun b hb => absurd hb (by simp)

end Engine

open Engine in
/-- Whatever was called before the engine was built, and whatever is called while the ticker runs:
the cap is never under the floor, and after the first turn it is within five percent of the share of
the budget that was read last, and the entries fit it. -/
theorem dynamic_cap_in_force (p : Platform) (freshDuration staleDuration : Duration)
    (maxEntries : Nat) (ttlJitterPercent : ℚ) (before : List Call) (capForFraction : Nat → Nat)
    (budget : Nat) (events : List EngineEvent) :
    let e := build capForFraction (Machine.run (exec p)
      (withJitter freshDuration staleDuration maxEntries ttlJitterPercent) before) budget
    let s := (Machine.run (step p capForFraction) e events).cache
    AllSteps (step p capForFraction) (Admits p capForFraction) e events →
      dynamicCapFloorBytes ≤ s.maxMemoryBytes ∧
        ∀ b ∈ lastBudget none events,
          20 * absDiff (max (capForFraction b) dynamicCapFloorBytes) s.maxMemoryBytes ≤
              s.maxMemoryBytes ∧
            s.memoryUsage p ≤ s.maxMemoryBytes := by
  intro e s hevents
  have hstart : e.InForce p capForFraction (max maxEntries 1) none :=
    build_inForce capForFraction
      (run_fits (withJitter_fits freshDuration staleDuration maxEntries _) before)
      (run_exact ⟨rfl, rfl⟩ before) budget
  have hend := hstart.run hevents
  refine ⟨hend.floor_le, fun b hb => ?_⟩
  have hpos := hend.ticked (Option.isSome_of_mem hb)
  constructor
  · rw [hend.cap_eq hpos]
    exact hend.near b hb
  · have hvalue : s.totalMemoryBytes.value = s.memoryUsage p := hend.exact.value_eq
    rw [← hvalue]
    exact (hend.capped hpos).capped ((dynamicCap_pos (fun _ => 0) 0).trans_le hend.floor_le)

/-- Three turns with an insertion between them: the first budget, one close to it, and a smaller one
that takes the cap to the floor. -/
def resizes : List EngineEvent :=
  [.tick 100000000, .call (callNow (.insert "q" (textResponse "a") "u")), .tick 99000000,
    .tick 20000000]

theorem dynamic_cap_after_resizes :
    let e := Engine.build (· * 7 / 10) (Machine.run (exec Platform.sample) (withJitter 1 1 1 0) [])
      100000000
    let s := (Machine.run (Engine.step Platform.sample (· * 7 / 10)) e resizes).cache
    dynamicCapFloorBytes ≤ s.maxMemoryBytes ∧ 0 < s.memoryUsage Platform.sample ∧
      s.memoryUsage Platform.sample ≤ s.maxMemoryBytes := by
  have hadmits : AllSteps (Engine.step Platform.sample (· * 7 / 10))
      (Engine.Admits Platform.sample (· * 7 / 10))
      (Engine.build (· * 7 / 10) (withJitter 1 1 1 0) 100000000) resizes := by
    refine ⟨fun _ front hcut => ?_, ⟨rfl, fun _ => by decide +kernel⟩, fun hmoves => ?_,
      fun _ front hcut => ?_, trivial⟩
    · exact (keptBytes_of_small (by decide +kernel) hcut).le.trans (Nat.zero_le _)
    · exact absurd hmoves (by decide +kernel)
    · exact (keptBytes_of_small (by decide +kernel) hcut).le.trans (Nat.zero_le _)
  obtain ⟨hfloor, hlast⟩ := dynamic_cap_in_force Platform.sample 1 1 1 0 [] (· * 7 / 10) 100000000
    resizes hadmits
  exact ⟨hfloor, by decide +kernel, (hlast 20000000 rfl).2⟩

/-! ## A fixed cap -/

def afterPlus (text : List Char) : List Char :=
  if text.head? = some '+' then text.tail else text

/-- `str::parse::<u64>`. -/
def parseU64 (text : List Char) : Option Nat :=
  let digits := afterPlus text
  if digits = [] ∨ digits.all (isDigitOf 10) = false ∨ 2 ^ 64 ≤ valueOf 10 digits then none
  else some (valueOf 10 digits)

def stripSuffix (suffix text : List Char) : Option (List Char) :=
  if suffix <:+ text then some (text.take (text.length - suffix.length)) else none

def saturatingMul (a b : Nat) : Nat := min (a * b) (2 ^ 64 - 1)

def gib : List Char := ['g', 'i', 'b']
def mib : List Char := ['m', 'i', 'b']
def kib : List Char := ['k', 'i', 'b']

/-- The number before the unit of a text in lower case, and the bytes of the unit. -/
def memoryUnit (lower : List Char) : Option (List Char × Nat) :=
  match stripSuffix gib lower with
  | some n => some (n, saturatingMul (saturatingMul 1024 1024) 1024)
  | none =>
    match stripSuffix mib lower with
    | some n => some (n, saturatingMul 1024 1024)
    | none => (stripSuffix kib lower).map fun n => (n, 1024)

/-- The error is the text of `EngineError::Config`. -/
def parseMemory (raw : String) : Except String Nat :=
  let s := trim raw.toList
  match parseU64 s with
  | some n => .ok n
  | none =>
    match memoryUnit (s.map Char.toLower) with
    | none => .error ("invalid max_memory: " ++ raw)
    | some (num, mul) =>
      match parseU64 (trim num) with
      | none => .error ("invalid max_memory: " ++ raw)
      | some n => .ok (saturatingMul n mul)

inductive SizeUnit where
  | byte
  | kib
  | mib
  | gib

namespace SizeUnit

def text : SizeUnit → List Char
  | byte => []
  | kib => Conproxy.kib
  | mib => Conproxy.mib
  | gib => Conproxy.gib

def factor : SizeUnit → Nat
  | byte => 1
  | kib => 1024
  | mib => 1024 ^ 2
  | gib => 1024 ^ 3

end SizeUnit

/-- Digits of a number that a `u64` holds, with or without a plus sign. -/
def WholeNumber (text : List Char) (v : Nat) : Prop :=
  ∃ sign digits, text = sign ++ digits ∧ (sign = [] ∨ sign = ['+']) ∧ digits ≠ [] ∧
    (∀ c ∈ digits, c.isDigit = true) ∧ valueOf 10 digits = v ∧ v < 2 ^ 64

def Blank (text : List Char) : Prop := ∀ c ∈ text, isWhitespace c = true

/-- A number, and after it a unit in any case, with white space around and between them. -/
def Denotes (raw : String) (v : Nat) (unit : SizeUnit) : Prop :=
  ∃ before number gap suffix after,
    raw.toList = before ++ (number ++ (gap ++ (suffix ++ after))) ∧ Blank before ∧ Blank gap ∧
      Blank after ∧ WholeNumber number v ∧ suffix.map Char.toLower = unit.text

theorem exists_sign (text : List Char) :
    ∃ sign, text = sign ++ afterPlus text ∧ (sign = [] ∨ sign = ['+']) := by
  unfold afterPlus
  split
  · rename_i hplus
    cases text with
    | nil => cases hplus
    | cons c rest =>
      cases hplus
      exact ⟨['+'], rfl, .inr rfl⟩
  · exact ⟨[], rfl, .inl rfl⟩

theorem afterPlus_append {sign digits : List Char} (hsign : sign = [] ∨ sign = ['+'])
    (hdigits : ∀ c ∈ digits, c.isDigit = true) : afterPlus (sign ++ digits) = digits := by
  rcases hsign with rfl | rfl
  · apply if_neg
    intro hplus
    exact absurd (hdigits '+' (List.mem_of_head? hplus)) (by decide)
  · rfl

theorem all_isDigitOf_iff {digits : List Char} :
    digits.all (isDigitOf 10) = true ↔ ∀ c ∈ digits, c.isDigit = true := by
  simp only [List.all_eq_true, isDigitOf_ten]

theorem parseU64_eq_some_iff {text : List Char} {v : Nat} :
    parseU64 text = some v ↔ WholeNumber text v := by
  constructor
  · intro h
    obtain ⟨sign, htext, hsign⟩ := exists_sign text
    by_cases hbad : afterPlus text = [] ∨ (afterPlus text).all (isDigitOf 10) = false ∨
        2 ^ 64 ≤ valueOf 10 (afterPlus text)
    · cases (if_pos hbad).symm.trans h
    · obtain rfl := Option.some.inj ((if_neg hbad).symm.trans h)
      obtain ⟨hne, hgood⟩ := not_or.mp hbad
      obtain ⟨hall, hbound⟩ := not_or.mp hgood
      exact ⟨sign, afterPlus text, htext, hsign, hne,
        all_isDigitOf_iff.mp ((Bool.not_eq_false _).mp hall), rfl, Nat.lt_of_not_le hbound⟩
  · rintro ⟨sign, digits, rfl, hsign, hne, hdigits, rfl, hbound⟩
    have hafter := afterPlus_append hsign hdigits
    have hgood : ¬(digits = [] ∨ digits.all (isDigitOf 10) = false ∨
        2 ^ 64 ≤ valueOf 10 digits) := by
      rintro (h | h | h)
      · exact hne h
      · exact absurd ((all_isDigitOf_iff.mpr hdigits).symm.trans h) (by decide)
      · omega
    rw [parseU64, hafter]
    exact if_neg hgood

theorem WholeNumber.plain {text : List Char} {v : Nat} (h : WholeNumber text v) :
    ∀ c ∈ text, c = '+' ∨ c.isDigit = true := by
  obtain ⟨sign, digits, rfl, hsign, -, hdigits, -, -⟩ := h
  intro c hc
  rcases List.mem_append.mp hc with hc | hc
  · rcases hsign with rfl | rfl
    · cases hc
    · exact .inl (List.mem_singleton.mp hc)
  · exact .inr (hdigits c hc)

theorem WholeNumber.ne_nil {text : List Char} {v : Nat} (h : WholeNumber text v) : text ≠ [] := by
  obtain ⟨sign, digits, rfl, -, hne, -, -, -⟩ := h
  exact fun hnil => hne (List.append_eq_nil_iff.mp hnil).2

theorem toNat_of_plain {c : Char} (h : c = '+' ∨ c.isDigit = true) :
    43 ≤ c.toNat ∧ c.toNat ≤ 57 := by
  rcases h with rfl | h
  · decide
  · have hdigit := Char.isDigit_iff_toNat.mp h
    change 48 ≤ c.toNat ∧ c.toNat ≤ 57 at hdigit
    omega

theorem isWhitespace_of_plain {c : Char} (h : c = '+' ∨ c.isDigit = true) :
    isWhitespace c = false := by
  have hrange := toNat_of_plain h
  simp only [isWhitespace]
  grind

theorem toLower_of_plain {c : Char} (h : c = '+' ∨ c.isDigit = true) : c.toLower = c := by
  have hrange := toNat_of_plain h
  apply Char.toNat_inj.mp
  rw [toNat_toLower, if_neg]
  omega

theorem eq_of_toLower_plain {c : Char} (h : c.toLower = '+' ∨ c.toLower.isDigit = true) :
    c.toLower = c := by
  have hrange := toNat_of_plain h
  apply Char.toNat_inj.mp
  have hlower := toNat_toLower c
  by_cases hupper : 65 ≤ c.toNat ∧ c.toNat ≤ 90
  · rw [if_pos hupper] at hlower
    omega
  · exact hlower.trans (if_neg hupper)

theorem map_toLower_of_plain {text : List Char} (h : ∀ c ∈ text, c = '+' ∨ c.isDigit = true) :
    text.map Char.toLower = text := by
  conv_rhs => rw [← List.map_id text]
  exact List.map_congr_left fun c hc => toLower_of_plain (h c hc)

theorem eq_of_map_toLower_plain {text : List Char}
    (h : ∀ c ∈ text.map Char.toLower, c = '+' ∨ c.isDigit = true) :
    text.map Char.toLower = text := by
  conv_rhs => rw [← List.map_id text]
  exact List.map_congr_left fun c hc => eq_of_toLower_plain (h _ (List.mem_map_of_mem hc))

theorem Blank.map_toLower {text : List Char} (h : Blank text) : text.map Char.toLower = text := by
  conv_rhs => rw [← List.map_id text]
  exact List.map_congr_left fun c hc => toLower_of_isWhitespace (h c hc)

theorem Blank.of_map_toLower {text : List Char} (h : Blank (text.map Char.toLower)) :
    Blank text := by
  intro c hc
  rw [← isWhitespace_toLower]
  exact h _ (List.mem_map_of_mem hc)

theorem Blank.append {as bs : List Char} (has : Blank as) (hbs : Blank bs) : Blank (as ++ bs) := by
  intro c hc
  rcases List.mem_append.mp hc with hc | hc
  · exact has c hc
  · exact hbs c hc

theorem dropWhile_blank_append {before rest : List Char} (hbefore : Blank before)
    (hhead : ∀ c ∈ rest.head?, isWhitespace c = false) :
    (before ++ rest).dropWhile isWhitespace = rest := by
  rw [List.dropWhile_append_of_pos hbefore]
  cases rest with
  | nil => rfl
  | cons c rest => exact List.dropWhile_cons_of_neg (by rw [hhead c rfl]; decide)

theorem trim_append {before mid after : List Char} (hbefore : Blank before) (hafter : Blank after)
    (hne : mid ≠ []) (hhead : ∀ c ∈ mid.head?, isWhitespace c = false)
    (hlast : ∀ c ∈ mid.getLast?, isWhitespace c = false) :
    trim (before ++ (mid ++ after)) = mid := by
  have hfront : (before ++ (mid ++ after)).dropWhile isWhitespace = mid ++ after := by
    apply dropWhile_blank_append hbefore
    rw [List.head?_append_of_ne_nil _ hne]
    exact hhead
  have hback : (after.reverse ++ mid.reverse).dropWhile isWhitespace = mid.reverse := by
    apply dropWhile_blank_append
    · exact fun c hc => hafter c (List.mem_reverse.mp hc)
    · rw [List.head?_reverse]
      exact hlast
  rw [trim, hfront, List.reverse_append, hback, List.reverse_reverse]

theorem stripSuffix_eq_some_iff {suffix text rest : List Char} :
    stripSuffix suffix text = some rest ↔ text = rest ++ suffix := by
  unfold stripSuffix
  constructor
  · intro h
    split at h
    · rename_i hsuffix
      obtain ⟨front, rfl⟩ := hsuffix
      obtain rfl := Option.some.inj h
      simp
    · cases h
  · rintro rfl
    rw [if_pos (List.suffix_append rest suffix)]
    simp

theorem stripSuffix_append (rest suffix : List Char) :
    stripSuffix suffix (rest ++ suffix) = some rest := stripSuffix_eq_some_iff.mpr rfl

theorem stripSuffix_append_ne {suffix suffix' : List Char}
    (hlength : suffix.length = suffix'.length) (hne : suffix ≠ suffix') (rest : List Char) :
    stripSuffix suffix' (rest ++ suffix) = none := by
  rw [Option.eq_none_iff_forall_ne_some]
  intro rest' h
  exact hne (List.append_inj' (stripSuffix_eq_some_iff.mp h) hlength).2

theorem memoryUnit_eq_some {lower num : List Char} {mul : Nat}
    (h : memoryUnit lower = some (num, mul)) :
    ∃ unit : SizeUnit, lower = num ++ unit.text ∧ mul = unit.factor := by
  unfold memoryUnit at h
  split at h
  · rename_i hgib
    cases h
    exact ⟨.gib, stripSuffix_eq_some_iff.mp hgib, rfl⟩
  · split at h
    · rename_i hmib
      cases h
      exact ⟨.mib, stripSuffix_eq_some_iff.mp hmib, rfl⟩
    · obtain ⟨num', hkib, hnum⟩ := Option.map_eq_some_iff.mp h
      cases hnum
      exact ⟨.kib, stripSuffix_eq_some_iff.mp hkib, rfl⟩

theorem memoryUnit_append {unit : SizeUnit} (hunit : unit.text ≠ []) (num : List Char) :
    memoryUnit (num ++ unit.text) = some (num, unit.factor) := by
  cases unit with
  | byte => exact absurd rfl hunit
  | kib =>
    have hgib : stripSuffix gib (num ++ kib) = none :=
      @stripSuffix_append_ne kib gib rfl (by decide) num
    have hmib : stripSuffix mib (num ++ kib) = none :=
      @stripSuffix_append_ne kib mib rfl (by decide) num
    rw [memoryUnit, SizeUnit.text, hgib, hmib, stripSuffix_append]
    rfl
  | mib =>
    have hgib : stripSuffix gib (num ++ mib) = none :=
      @stripSuffix_append_ne mib gib rfl (by decide) num
    rw [memoryUnit, SizeUnit.text, hgib, stripSuffix_append]
    rfl
  | gib =>
    rw [memoryUnit, SizeUnit.text, stripSuffix_append]
    rfl

theorem getLast?_unit {unit : SizeUnit} {suffix : List Char} (hunit : unit.text ≠ [])
    (hsuffix : suffix.map Char.toLower = unit.text) :
    ∃ c, suffix.getLast? = some c ∧ c.toLower = 'b' := by
  have hlast : (suffix.map Char.toLower).getLast? = some 'b' := by
    rw [hsuffix]
    cases unit with
    | byte => exact absurd rfl hunit
    | kib | mib | gib => rfl
  rw [List.getLast?_map] at hlast
  exact Option.map_eq_some_iff.mp hlast

theorem parseMemory_of_number {raw : String} {v : Nat} (h : WholeNumber (trim raw.toList) v) :
    parseMemory raw = .ok v := by
  rw [parseMemory, parseU64_eq_some_iff.mpr h]

theorem parseMemory_of_unit {raw : String} {num : List Char} {v : Nat} {unit : SizeUnit}
    (hnot : parseU64 (trim raw.toList) = none) (hunit : unit.text ≠ [])
    (hlower : (trim raw.toList).map Char.toLower = num ++ unit.text)
    (hnum : WholeNumber (trim num) v) :
    parseMemory raw = .ok (saturatingMul v unit.factor) := by
  rw [parseMemory, hnot]
  dsimp only
  rw [hlower, memoryUnit_append hunit]
  dsimp only
  rw [parseU64_eq_some_iff.mpr hnum]

theorem saturatingMul_one {v : Nat} (h : v < 2 ^ 64) : saturatingMul v 1 = v := by
  rw [saturatingMul, Nat.mul_one]
  omega

theorem WholeNumber.lt {text : List Char} {v : Nat} (h : WholeNumber text v) : v < 2 ^ 64 := by
  obtain ⟨sign, digits, -, -, -, -, -, hbound⟩ := h
  exact hbound

theorem parseMemory_of_denotes {raw : String} {v : Nat} {unit : SizeUnit}
    (h : Denotes raw v unit) : parseMemory raw = .ok (saturatingMul v unit.factor) := by
  obtain ⟨before, number, gap, suffix, after, hraw, hbefore, hgap, hafter, hnumber, hsuffix⟩ := h
  have hne := hnumber.ne_nil
  have hhead : ∀ c ∈ number.head?, isWhitespace c = false := fun c hc =>
    isWhitespace_of_plain (hnumber.plain c (List.mem_of_head? hc))
  have hlast : ∀ c ∈ number.getLast?, isWhitespace c = false := fun c hc =>
    isWhitespace_of_plain (hnumber.plain c (List.mem_of_getLast? hc))
  by_cases hunit : unit.text = []
  · have htrim : trim raw.toList = number := by
      rw [List.map_eq_nil_iff.mp (hsuffix.trans hunit), List.nil_append] at hraw
      rw [hraw]
      exact trim_append hbefore (hgap.append hafter) hne hhead hlast
    cases unit with
    | byte =>
      rw [SizeUnit.factor, saturatingMul_one hnumber.lt]
      exact parseMemory_of_number (htrim ▸ hnumber)
    | kib | mib | gib => cases hunit
  · obtain ⟨c, hc, hlower⟩ := getLast?_unit hunit hsuffix
    have hcnot : isWhitespace c = false := by
      rw [← isWhitespace_toLower, hlower]
      decide
    have hend : (number ++ (gap ++ suffix)).getLast? = some c := by
      rw [← List.append_assoc]
      exact List.mem_getLast?_append_of_mem_getLast? hc
    have htrim : trim raw.toList = number ++ (gap ++ suffix) := by
      rw [hraw, ← List.append_assoc gap, ← List.append_assoc number]
      apply trim_append hbefore hafter
      · exact fun hnil => hne (List.append_eq_nil_iff.mp hnil).1
      · rw [List.head?_append_of_ne_nil _ hne]
        exact hhead
      · rw [hend]
        intro d hd
        rw [← Option.some.inj hd]
        exact hcnot
    have hnot : parseU64 (trim raw.toList) = none := by
      rw [Option.eq_none_iff_forall_ne_some, htrim]
      intro w hw
      have hplain := (parseU64_eq_some_iff.mp hw).plain c (List.mem_of_getLast? hend)
      rw [← toLower_of_plain hplain, hlower] at hplain
      exact absurd hplain (by decide)
    have hwhole : (trim raw.toList).map Char.toLower = (number ++ gap) ++ unit.text := by
      rw [htrim, List.map_append, List.map_append, hsuffix, hgap.map_toLower,
        map_toLower_of_plain hnumber.plain, List.append_assoc]
    have hnum : trim ([] ++ (number ++ gap)) = number :=
      trim_append (fun c hc => absurd hc (by simp)) hgap hne hhead hlast
    rw [List.nil_append] at hnum
    rw [← hnum] at hnumber
    exact parseMemory_of_unit hnot hunit hwhole hnumber

theorem denotes_of_parseMemory {raw : String} {n : Nat} (h : parseMemory raw = .ok n) :
    ∃ v unit, Denotes raw v unit ∧ n = saturatingMul v unit.factor := by
  obtain ⟨before, after, hbefore, hafter, hraw⟩ := exists_trim raw.toList
  unfold parseMemory at h
  dsimp only at h
  split at h
  · rename_i v hnumber
    obtain rfl := Except.ok.inj h
    have hnumber := parseU64_eq_some_iff.mp hnumber
    refine ⟨v, .byte, ⟨before, trim raw.toList, [], [], after, hraw, hbefore, ?_, hafter, hnumber,
      rfl⟩, (saturatingMul_one hnumber.lt).symm⟩
    exact fun c hc => absurd hc (by simp)
  · split at h
    · cases h
    · rename_i num mul hunit
      split at h
      · cases h
      · rename_i v hnumber
        obtain rfl := Except.ok.inj h
        obtain ⟨unit, hlower, rfl⟩ := memoryUnit_eq_some hunit
        have hnumber := parseU64_eq_some_iff.mp hnumber
        obtain ⟨front, gap, hfront, hgap, hnum⟩ := exists_trim num
        rw [hnum, List.append_assoc, List.append_assoc] at hlower
        obtain ⟨front', rest, hs, hfront', hrest⟩ := List.map_eq_append_iff.mp hlower
        obtain ⟨number, rest', rfl, hnumber', hrest⟩ := List.map_eq_append_iff.mp hrest
        obtain ⟨gap', suffix, rfl, hgap', hsuffix⟩ := List.map_eq_append_iff.mp hrest
        have hsame : number.map Char.toLower = number :=
          eq_of_map_toLower_plain fun c hc => hnumber.plain c (hnumber' ▸ hc)
        refine ⟨v, unit, ⟨before ++ front', number, gap', suffix, after, ?_, ?_, ?_, hafter, ?_,
          hsuffix⟩, rfl⟩
        · rw [hraw, hs]
          simp only [List.append_assoc]
        · exact Blank.append hbefore (.of_map_toLower (hfront' ▸ hfront))
        · exact .of_map_toLower (hgap' ▸ hgap)
        · rw [← hsame, hnumber']
          exact hnumber

theorem parseMemory_error {raw message : String} (h : parseMemory raw = .error message) :
    message = "invalid max_memory: " ++ raw := by
  unfold parseMemory at h
  dsimp only at h
  split at h
  · cases h
  · split at h
    · exact (Except.error.inj h).symm
    · split at h
      · exact (Except.error.inj h).symm
      · cases h

/-- What `parse_memory` accepts: a number with or without a unit in any case, white space around and
between them, capped at the largest `u64`. Every other text is in the error. -/
theorem parseMemory_spec (raw : String) (n : Nat) (message : String) :
    (parseMemory raw = .ok n ↔
        ∃ v unit, Denotes raw v unit ∧ n = min (v * unit.factor) (2 ^ 64 - 1)) ∧
      (parseMemory raw = .error message ↔
        (∀ v unit, ¬ Denotes raw v unit) ∧ message = "invalid max_memory: " ++ raw) := by
  refine ⟨⟨denotes_of_parseMemory, ?_⟩, ?_, ?_⟩
  · rintro ⟨v, unit, h, rfl⟩
    exact parseMemory_of_denotes h
  · intro h
    refine ⟨fun v unit hdenotes => ?_, parseMemory_error h⟩
    cases h.symm.trans (parseMemory_of_denotes hdenotes)
  · rintro ⟨hnone, rfl⟩
    cases h : parseMemory raw with
    | ok n =>
      obtain ⟨v, unit, hdenotes, -⟩ := denotes_of_parseMemory h
      exact absurd hdenotes (hnone v unit)
    | error message => rw [parseMemory_error h]

example : (parseMemory " 256MiB ").toOption = some 268435456 := by decide +kernel

end Conproxy
