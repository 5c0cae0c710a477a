import Mathlib.Data.List.Infix
import Conproxy.Lib.Squeeze

/-!
# Query text and cache keys

Lower-casing, normalization and the context key. `str::to_lowercase` maps every character by
the Unicode table except the capital sigma, whose image depends on the letters around it, so
the function is not a map over characters. `foldCase` identifies the two small sigmas and is
one; two texts with equal images under `toLowercase` have equal images under `foldCase`.
-/

namespace Conproxy

open Squeeze

set_option autoImplicit false

/-- `char::is_whitespace`: the Unicode `White_Space` property. -/
def isWhitespace (c : Char) : Bool :=
  let n := c.toNat
  (9 ≤ n && n ≤ 13) || n == 0x20 || n == 0x85 || n == 0xA0 || n == 0x1680 ||
    (0x2000 ≤ n && n ≤ 0x200A) || n == 0x2028 || n == 0x2029 || n == 0x202F ||
    n == 0x205F || n == 0x3000

/-- `char::is_control`: the general category `Cc`. -/
def isControl (c : Char) : Bool := c.toNat < 32 || (127 ≤ c.toNat && c.toNat ≤ 159)

def trim (cs : List Char) : List Char :=
  ((cs.dropWhile isWhitespace).reverse.dropWhile isWhitespace).reverse

/-- The Unicode tables that `to_lowercase` reads. Lower-casing neither creates nor destroys
white space, and on ASCII it is the usual one. -/
structure CaseTables where
  lower : Char → List Char
  cased : Char → Bool
  caseIgnorable : Char → Bool
  lower_ascii : ∀ c : Char, c.toNat < 128 → lower c = [c.toLower]
  lower_whitespace : ∀ c, isWhitespace c = true → lower c = [c]
  lower_nonspace : ∀ c, isWhitespace c = false →
    lower c ≠ [] ∧ ∀ d ∈ lower c, isWhitespace d = false

theorem isWhitespace_toLower (c : Char) : isWhitespace c.toLower = isWhitespace c := by
  unfold Char.toLower
  split
  · rename_i h
    have hlo : 65 ≤ c.toNat := UInt32.le_iff_toNat_le.mp h.1
    have hhi : c.toNat ≤ 90 := UInt32.le_iff_toNat_le.mp h.2
    have hval (hv) : Char.toNat ⟨c.val + ('a'.val - 'A'.val), hv⟩ = c.toNat + 32 := by
      change (c.val + 32).toNat = c.toNat + 32
      rw [UInt32.toNat_add]
      change (c.toNat + 32) % _ = c.toNat + 32
      omega
    have hold : isWhitespace c = false := by
      simp only [isWhitespace]
      grind
    rw [hold]
    simp only [isWhitespace, hval]
    grind
  · rfl

theorem toLower_of_isWhitespace {c : Char} (hc : isWhitespace c = true) : c.toLower = c := by
  unfold Char.toLower
  split
  · rename_i h
    have hlo : 65 ≤ c.toNat := UInt32.le_iff_toNat_le.mp h.1
    have hhi : c.toNat ≤ 90 := UInt32.le_iff_toNat_le.mp h.2
    simp only [isWhitespace] at hc
    grind
  · rfl

/-- The tables restricted to ASCII, where every other character is its own small letter. -/
def CaseTables.ascii : CaseTables where
  lower c := [c.toLower]
  cased c := c.isAlpha
  caseIgnorable c := c == ':' || c == '.' || c == '^'
  lower_ascii := by simp
  lower_whitespace := by
    intro c hc
    simp [toLower_of_isWhitespace hc]
  lower_nonspace := by
    intro c hc
    simpa [isWhitespace_toLower] using hc

namespace CaseTables

variable (u : CaseTables)

def caseIgnorableThenCased (cs : List Char) : Bool :=
  match cs.dropWhile u.caseIgnorable with
  | [] => false
  | c :: _ => u.cased c

/-- `map_uppercase_sigma`: the final form at the end of a word. -/
def mapUppercaseSigma (before after : List Char) : Char :=
  if u.caseIgnorableThenCased before && !u.caseIgnorableThenCased after then 'ς' else 'σ'

/-- The loop of `to_lowercase`; `before` is the text already read, last character first. -/
def toLowercaseFrom (before : List Char) : List Char → List Char
  | [] => []
  | c :: rest =>
    (if c = 'Σ' then [u.mapUppercaseSigma before rest] else u.lower c) ++
      toLowercaseFrom (c :: before) rest

def toLowercase (cs : List Char) : List Char := u.toLowercaseFrom [] cs

def foldSigma (c : Char) : Char := if c = 'ς' then 'σ' else c

def foldChar (c : Char) : List Char :=
  if c = 'Σ' then ['σ'] else (u.lower c).map foldSigma

def foldCase (cs : List Char) : List Char := cs.flatMap u.foldChar

@[simp] theorem foldCase_append (as bs : List Char) :
    u.foldCase (as ++ bs) = u.foldCase as ++ u.foldCase bs := List.flatMap_append

theorem map_foldSigma_toLowercaseFrom (before cs : List Char) :
    (u.toLowercaseFrom before cs).map foldSigma = u.foldCase cs := by
  induction cs generalizing before with
  | nil => rfl
  | cons c rest ih =>
    have ht := ih (c :: before)
    simp only [foldCase] at ht
    simp only [toLowercaseFrom, foldCase, List.map_append, List.flatMap_cons, ht]
    congr 1
    by_cases hc : c = 'Σ'
    · simp only [hc, if_true, foldChar, mapUppercaseSigma, List.map_cons, List.map_nil]
      split <;> simp [foldSigma]
    · simp only [hc, if_false, foldChar]

theorem foldCase_colon : u.foldCase [':'] = [':'] := by
  have h : u.lower ':' = [':'] := u.lower_ascii ':' (by decide)
  simp [foldCase, foldChar, h, foldSigma]

end CaseTables

theorem isWhitespace_foldSigma (c : Char) :
    isWhitespace (CaseTables.foldSigma c) = isWhitespace c := by
  unfold CaseTables.foldSigma
  split
  · rename_i h
    subst h
    decide
  · rfl

def normalizeQuery (u : CaseTables) (query : String) : String :=
  String.ofList (squeeze isWhitespace ' ' false (u.toLowercase (trim query.toList)))

/-- `context_query`: the context-isolated key text of a query. -/
def contextQuery (contextId query : String) : String := "ctx:" ++ contextId ++ ":" ++ query

/-- The part of a key that the context fixes, up to case and spacing. -/
def keyPrefix (u : CaseTables) (contextId : String) : List Char :=
  squeeze isWhitespace ' ' false (u.foldCase ("ctx:" ++ contextId ++ ":").toList)

/-- Neither context's key prefix continues the other's. -/
def Separated (u : CaseTables) (c d : String) : Prop :=
  ¬ keyPrefix u c <+: keyPrefix u d ∧ ¬ keyPrefix u d <+: keyPrefix u c

instance (u : CaseTables) (c d : String) : Decidable (Separated u c d) :=
  inferInstanceAs (Decidable (_ ∧ _))

theorem trim_append_colon (as cs : List Char) :
    trim ('c' :: as ++ ':' :: cs) =
      'c' :: as ++ ':' :: (cs.reverse.dropWhile isWhitespace).reverse := by
  have hstart : ('c' :: as ++ ':' :: cs).dropWhile isWhitespace = 'c' :: as ++ ':' :: cs := by
    simp [isWhitespace]
  unfold trim
  rw [hstart]
  simp only [List.reverse_append, List.reverse_cons, List.append_assoc]
  rw [List.dropWhile_append]
  split
  · rename_i hempty
    have hnil : cs.reverse.dropWhile isWhitespace = [] := by simpa using hempty
    simp [hnil, isWhitespace]
  · simp

theorem fold_normalizeQuery_contextQuery (u : CaseTables) (contextId query : String) :
    ∃ rest, (normalizeQuery u (contextQuery contextId query)).toList.map CaseTables.foldSigma =
      keyPrefix u contextId ++ rest := by
  have hkey : (contextQuery contextId query).toList =
      'c' :: ('t' :: 'x' :: ':' :: contextId.toList) ++ ':' :: query.toList := by
    simp [contextQuery]
  have hpre : ("ctx:" ++ contextId ++ ":").toList =
      'c' :: ('t' :: 'x' :: ':' :: contextId.toList) ++ [':'] := by simp
  unfold normalizeQuery keyPrefix
  rw [String.toList_ofList, hkey, hpre, trim_append_colon,
    ← squeeze_map isWhitespace_foldSigma (by decide),
    CaseTables.toLowercase, CaseTables.map_foldSigma_toLowercaseFrom]
  rw [List.append_cons _ ':' (List.reverse _), CaseTables.foldCase_append,
    CaseTables.foldCase_append, CaseTables.foldCase_colon, List.append_assoc,
    List.singleton_append, squeeze_split (by decide)]
  exact ⟨_, rfl⟩

theorem normalizeQuery_contextQuery_ne {u : CaseTables} {c d : String} (h : Separated u c d)
    (q r : String) :
    normalizeQuery u (contextQuery c q) ≠ normalizeQuery u (contextQuery d r) := by
  intro heq
  obtain ⟨rest, hc⟩ := fold_normalizeQuery_contextQuery u c q
  obtain ⟨rest', hd⟩ := fold_normalizeQuery_contextQuery u d r
  rw [heq, hd] at hc
  have hleft : keyPrefix u c <+: keyPrefix u d ++ rest' := ⟨rest, hc.symm⟩
  rcases List.prefix_or_prefix_of_prefix hleft (List.prefix_append _ _) with hp | hp
  · exact h.1 hp
  · exact h.2 hp

/-- The number of characters other than white space after lower-casing, which trimming and
squeezing leave alone. -/
def visible (u : CaseTables) (cs : List Char) : Nat :=
  (u.foldCase cs).countP fun c => !isWhitespace c

theorem visible_append (u : CaseTables) (as bs : List Char) :
    visible u (as ++ bs) = visible u as + visible u bs := by
  simp [visible]

theorem foldChar_whitespace (u : CaseTables) {c : Char} (hc : isWhitespace c = true) :
    u.foldChar c = [c] := by
  have hsigma : c ≠ 'Σ' := by
    rintro rfl
    exact absurd hc (by decide)
  have hfinal : c ≠ 'ς' := by
    rintro rfl
    exact absurd hc (by decide)
  simp [CaseTables.foldChar, hsigma, u.lower_whitespace c hc, CaseTables.foldSigma, hfinal]

theorem visible_dropWhile (u : CaseTables) (cs : List Char) :
    visible u (cs.dropWhile isWhitespace) = visible u cs := by
  induction cs with
  | nil => rfl
  | cons c rest ih =>
    cases hc : isWhitespace c with
    | true =>
      have hfirst : visible u [c] = 0 := by
        simp [visible, CaseTables.foldCase, foldChar_whitespace u hc, hc]
      have hcons := visible_append u [c] rest
      rw [hfirst, Nat.zero_add] at hcons
      rw [List.dropWhile_cons_of_pos hc, ih]
      exact hcons.symm
    | false => rw [List.dropWhile_cons_of_neg (by simp [hc])]

theorem visible_reverse (u : CaseTables) (cs : List Char) :
    visible u cs.reverse = visible u cs :=
  ((List.reverse_perm cs).flatMap_right u.foldChar).countP_eq _

theorem visible_trim (u : CaseTables) (cs : List Char) : visible u (trim cs) = visible u cs := by
  unfold trim
  rw [visible_reverse, visible_dropWhile, visible_reverse, visible_dropWhile]

theorem countP_normalizeQuery (u : CaseTables) (query : String) :
    (normalizeQuery u query).toList.countP (fun c => !isWhitespace c) =
      visible u query.toList := by
  have hsigma (cs : List Char) : (cs.map CaseTables.foldSigma).countP (fun c => !isWhitespace c) =
      cs.countP fun c => !isWhitespace c := by
    rw [List.countP_map]
    refine List.countP_congr fun c _ => ?_
    simp [isWhitespace_foldSigma]
  unfold normalizeQuery
  rw [String.toList_ofList, countP_squeeze (by decide), ← hsigma, CaseTables.toLowercase,
    CaseTables.map_foldSigma_toLowercaseFrom]
  exact visible_trim u query.toList

theorem normalizeQuery_contextQuery_ne_self (u : CaseTables) (contextId query : String) :
    normalizeQuery u query ≠ normalizeQuery u (contextQuery contextId query) := by
  intro h
  have hcount := congrArg (fun s => s.toList.countP fun c => !isWhitespace c) h
  simp only [countP_normalizeQuery] at hcount
  have hkey : (contextQuery contextId query).toList =
      ("ctx:" ++ contextId).toList ++ [':'] ++ query.toList := by
    simp [contextQuery]
  have hcolon : visible u [':'] = 1 := by
    rw [visible, CaseTables.foldCase_colon]
    decide
  rw [hkey, visible_append, visible_append, hcolon] at hcount
  omega

end Conproxy
