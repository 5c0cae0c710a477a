import Mathlib.Algebra.Ring.Nat
import Mathlib.Data.List.Infix
import Mathlib.Data.List.TakeWhile

/-!
# Socket addresses as text

The parser and the printer of the standard library for IP addresses and socket addresses. A reader
takes what it needs from the front of a text and leaves the rest. Numbers are printed without
leading zeros, and an IPv6 address with its longest run of zeros left out; a socket address with an
IPv6 address is read only with brackets around it, which the printed IP address does not have.
-/

namespace SocketText

set_option autoImplicit false

abbrev Reader (α : Type) := List Char → Option (α × List Char)

structure Ipv4 where
  a : UInt8
  b : UInt8
  c : UInt8
  d : UInt8
deriving DecidableEq

structure Ipv6 where
  segments : Vector UInt16 8
deriving DecidableEq

inductive IpAddr
  | v4 (ip : Ipv4)
  | v6 (ip : Ipv6)
deriving DecidableEq

inductive SocketAddr
  | v4 (ip : Ipv4) (port : UInt16)
  | v6 (ip : Ipv6) (port : UInt16) (flowinfo scopeId : UInt32)
deriving DecidableEq

namespace SocketAddr

def ip : SocketAddr → IpAddr
  | v4 ip _ => .v4 ip
  | v6 ip _ _ _ => .v6 ip

def port : SocketAddr → UInt16
  | v4 _ port => port
  | v6 _ port _ _ => port

end SocketAddr

def toDigit (radix : Nat) (c : Char) : Option Nat :=
  let value :=
    if c.isDigit then some (c.toNat - 48)
    else if c.isLower then some (c.toNat - 87)
    else if c.isUpper then some (c.toNat - 55)
    else none
  value.filter (· < radix)

def isDigitOf (radix : Nat) (c : Char) : Bool := (toDigit radix c).isSome

def valueOf (radix : Nat) (digits : List Char) : Nat :=
  (digits.filterMap (toDigit radix)).foldl (radix * · + ·) 0

/-- The digits up to the first other character, for a type of numbers below `bound`. The value only
grows from digit to digit, so it is compared with the bound once. -/
def readNumber (radix : Nat) (maxDigits : Option Nat) (allowZeroPrefix : Bool) (bound : Nat) :
    Reader Nat := fun cs =>
  let digits := cs.takeWhile (isDigitOf radix)
  if digits = [] ∨ maxDigits.any (· < digits.length) = true ∨
      (allowZeroPrefix = false ∧ digits.head? = some '0' ∧ 1 < digits.length) ∨
      bound ≤ valueOf radix digits then none
  else some (valueOf radix digits, cs.dropWhile (isDigitOf radix))

def readGivenChar (target : Char) : List Char → Option (List Char)
  | [] => none
  | c :: rest => if c = target then some rest else none

/-- Every item but the first has the separator before it. -/
def readSeparator {α : Type} (sep : Char) (first : Bool) (inner : Reader α) : Reader α := fun cs =>
  if first then inner cs else (readGivenChar sep cs).bind inner

def readOctet (first : Bool) : Reader Nat :=
  readSeparator '.' first (readNumber 10 (some 3) false (2 ^ 8))

def readIpv4Addr : Reader Ipv4 := fun cs => do
  let (a, cs) ← readOctet true cs
  let (b, cs) ← readOctet false cs
  let (c, cs) ← readOctet false cs
  let (d, cs) ← readOctet false cs
  return (⟨.ofNat a, .ofNat b, .ofNat c, .ofNat d⟩, cs)

/-- The groups read when `left` more may be, whether the last two were an IPv4 address, and the
rest of the text. -/
def readGroups : Bool → Nat → List Char → List UInt16 × Bool × List Char
  | _, 0, cs => ([], false, cs)
  | first, left + 1, cs =>
    match if 1 ≤ left then readSeparator ':' first readIpv4Addr cs else none with
    | some (v4, rest) =>
      ([v4.a.toUInt16 * 256 + v4.b.toUInt16, v4.c.toUInt16 * 256 + v4.d.toUInt16], true, rest)
    | none =>
      match readSeparator ':' first (readNumber 16 (some 4) true (2 ^ 16)) cs with
      | some (group, rest) =>
        let (groups, v4, rest) := readGroups false left rest
        (.ofNat group :: groups, v4, rest)
      | none => ([], false, cs)

/-- The groups before and after the zeros that are left out. -/
def ofGroups (head tail : List UInt16) : Ipv6 :=
  ⟨Vector.ofFn fun i : Fin 8 =>
    if 8 - tail.length ≤ i.val then tail.getD (i.val - (8 - tail.length)) 0 else head.getD i.val 0⟩

def readIpv6Addr : Reader Ipv6 := fun cs =>
  let (head, headIpv4, rest) := readGroups true 8 cs
  if head.length = 8 then some (ofGroups head [], rest)
  else if headIpv4 then none
  else do
    let rest ← readGivenChar ':' rest
    let rest ← readGivenChar ':' rest
    let (tail, _, rest) := readGroups true (8 - (head.length + 1)) rest
    return (ofGroups head tail, rest)

def readPort : Reader Nat := fun cs => do
  readNumber 10 none true (2 ^ 16) (← readGivenChar ':' cs)

def readScopeId : Reader Nat := fun cs => do
  readNumber 10 none true (2 ^ 32) (← readGivenChar '%' cs)

def readSocketAddrV4 : Reader SocketAddr := fun cs => do
  let (ip, cs) ← readIpv4Addr cs
  let (port, cs) ← readPort cs
  return (.v4 ip (.ofNat port), cs)

def readSocketAddrV6 : Reader SocketAddr := fun cs => do
  let cs ← readGivenChar '[' cs
  let (ip, cs) ← readIpv6Addr cs
  let (scopeId, cs) := (readScopeId cs).getD (0, cs)
  let cs ← readGivenChar ']' cs
  let (port, cs) ← readPort cs
  return (.v6 ip (.ofNat port) 0 (.ofNat scopeId), cs)

def readSocketAddr : Reader SocketAddr := fun cs => (readSocketAddrV4 cs).or (readSocketAddrV6 cs)

/-- A text is an address when the reader leaves nothing of it. -/
def parseSocketAddr (cs : List Char) : Option SocketAddr :=
  match readSocketAddr cs with
  | some (addr, []) => some addr
  | _ => none

def decimal (n : Nat) : List Char := Nat.toDigits 10 n

def hex (n : Nat) : List Char := Nat.toDigits 16 n

def Ipv4.display (ip : Ipv4) : List Char :=
  decimal ip.a.toNat ++ '.' :: decimal ip.b.toNat ++ '.' :: decimal ip.c.toNat ++
    '.' :: decimal ip.d.toNat

/-- The start and the length of a run of zeros. -/
structure Span where
  start : Nat
  len : Nat
deriving DecidableEq

/-- The longest run of zeros so far, and the run that the last segment ends. -/
def Span.step (spans : Span × Span) (segment : UInt16 × Nat) : Span × Span :=
  if segment.1 = 0 then
    let current : Span :=
      ⟨if spans.2.len = 0 then segment.2 else spans.2.start, spans.2.len + 1⟩
    (if spans.1.len < current.len then current else spans.1, current)
  else (spans.1, ⟨0, 0⟩)

namespace Ipv6

def toIpv4Mapped (ip : Ipv6) : Option Ipv4 :=
  match ip.segments.toList with
  | [0, 0, 0, 0, 0, 0xffff, ab, cd] =>
    some ⟨(ab >>> 8).toUInt8, ab.toUInt8, (cd >>> 8).toUInt8, cd.toUInt8⟩
  | _ => none

def zeroes (ip : Ipv6) : Span := (ip.segments.toList.zipIdx.foldl Span.step (⟨0, 0⟩, ⟨0, 0⟩)).1

def fmtSubslice (chunk : List UInt16) : List Char :=
  [':'].intercalate (chunk.map fun segment => hex segment.toNat)

def display (ip : Ipv6) : List Char :=
  match ip.toIpv4Mapped with
  | some v4 => ':' :: ':' :: 'f' :: 'f' :: 'f' :: 'f' :: ':' :: v4.display
  | none =>
    let segments := ip.segments.toList
    if 1 < ip.zeroes.len then
      fmtSubslice (segments.take ip.zeroes.start) ++
        ':' :: ':' :: fmtSubslice (segments.drop (ip.zeroes.start + ip.zeroes.len))
    else fmtSubslice segments

end Ipv6

def IpAddr.display : IpAddr → List Char
  | .v4 ip => ip.display
  | .v6 ip => ip.display

/-! ## What a reader takes -/

theorem readGivenChar_eq_some {target : Char} {cs rest : List Char}
    (h : readGivenChar target cs = some rest) : cs = target :: rest := by
  cases cs with
  | nil => cases h
  | cons c cs =>
    rw [readGivenChar] at h
    split at h
    · rename_i hc
      rw [hc, Option.some.inj h]
    · cases h

section Suffixes

variable {α : Type} {cs rest : List Char}

theorem readNumber_eq_some {radix bound n : Nat} {maxDigits : Option Nat} {allowZeroPrefix : Bool}
    (h : readNumber radix maxDigits allowZeroPrefix bound cs = some (n, rest)) :
    ∃ digits, digits ≠ [] ∧ (∀ c ∈ digits, isDigitOf radix c = true) ∧ cs = digits ++ rest ∧
      n = valueOf radix digits ∧ n < bound := by
  unfold readNumber at h
  dsimp only at h
  split at h
  · cases h
  · rename_i hread
    obtain ⟨rfl, rfl⟩ := Prod.mk.inj (Option.some.inj h)
    refine ⟨_, fun hnil => hread (Or.inl hnil), fun c hc => List.mem_takeWhile_imp hc,
      List.takeWhile_append_dropWhile.symm, rfl, ?_⟩
    exact Nat.lt_of_not_le fun hle => hread (Or.inr (Or.inr (Or.inr hle)))

theorem readNumber_suffix {radix bound n : Nat} {maxDigits : Option Nat} {allowZeroPrefix : Bool}
    (h : readNumber radix maxDigits allowZeroPrefix bound cs = some (n, rest)) : rest <:+ cs := by
  obtain ⟨digits, -, -, rfl, -⟩ := readNumber_eq_some h
  exact List.suffix_append digits rest

theorem readSeparator_suffix {sep : Char} {first : Bool} {inner : Reader α} {x : α}
    (hinner : ∀ {cs rest : List Char} {x : α}, inner cs = some (x, rest) → rest <:+ cs)
    (h : readSeparator sep first inner cs = some (x, rest)) : rest <:+ cs := by
  unfold readSeparator at h
  split at h
  · exact hinner h
  · obtain ⟨after, hsep, hread⟩ := Option.bind_eq_some_iff.mp h
    rw [readGivenChar_eq_some hsep]
    exact (hinner hread).trans (List.suffix_cons sep after)

theorem readOctet_suffix {first : Bool} {n : Nat} (h : readOctet first cs = some (n, rest)) :
    rest <:+ cs :=
  readSeparator_suffix readNumber_suffix h

theorem readIpv4Addr_suffix {ip : Ipv4} (h : readIpv4Addr cs = some (ip, rest)) : rest <:+ cs := by
  obtain ⟨⟨a, afterA⟩, ha, h⟩ := Option.bind_eq_some_iff.mp h
  obtain ⟨⟨b, afterB⟩, hb, h⟩ := Option.bind_eq_some_iff.mp h
  obtain ⟨⟨c, afterC⟩, hc, h⟩ := Option.bind_eq_some_iff.mp h
  obtain ⟨⟨d, afterD⟩, hd, h⟩ := Option.bind_eq_some_iff.mp h
  obtain ⟨-, rfl⟩ := Prod.mk.inj (Option.some.inj h)
  exact (readOctet_suffix hd).trans
    ((readOctet_suffix hc).trans ((readOctet_suffix hb).trans (readOctet_suffix ha)))

theorem readGroups_suffix {first : Bool} {left : Nat} :
    (readGroups first left cs).2.2 <:+ cs := by
  fun_induction readGroups first left cs with
  | case1 => exact List.suffix_refl _
  | case2 first cs left v4 rest hv4 =>
    split at hv4
    · exact readSeparator_suffix readIpv4Addr_suffix hv4
    · cases hv4
  | case3 first cs left hv4 group rest hgroup groups hembedded rest' hrest ih =>
    rw [hrest] at ih
    exact ih.trans (readSeparator_suffix readNumber_suffix hgroup)
  | case4 => exact List.suffix_refl _

theorem readIpv6Addr_suffix {ip : Ipv6} (h : readIpv6Addr cs = some (ip, rest)) : rest <:+ cs := by
  unfold readIpv6Addr at h
  have hhead : (readGroups true 8 cs).2.2 <:+ cs := readGroups_suffix
  dsimp only at h
  split at h
  · obtain ⟨-, rfl⟩ := Prod.mk.inj (Option.some.inj h)
    exact hhead
  · split at h
    · cases h
    · obtain ⟨after, hafter, h⟩ := Option.bind_eq_some_iff.mp h
      obtain ⟨after', hafter', h⟩ := Option.bind_eq_some_iff.mp h
      obtain ⟨-, rfl⟩ := Prod.mk.inj (Option.some.inj h)
      rw [readGivenChar_eq_some hafter, readGivenChar_eq_some hafter'] at hhead
      exact readGroups_suffix.trans
        ((List.suffix_cons _ _).trans ((List.suffix_cons _ _).trans hhead))

theorem readScopeId_suffix {n : Nat} (h : readScopeId cs = some (n, rest)) : rest <:+ cs := by
  obtain ⟨after, hafter, h⟩ := Option.bind_eq_some_iff.mp h
  rw [readGivenChar_eq_some hafter]
  exact (readNumber_suffix h).trans (List.suffix_cons _ _)

end Suffixes

/-- Before `rest`, the text ends in a colon and the digits of a port. -/
structure EndsInPort (cs rest : List Char) (port : UInt16) (digits : List Char) : Prop where
  ne_nil : digits ≠ []
  digit : ∀ c ∈ digits, isDigitOf 10 c = true
  value : valueOf 10 digits = port.toNat
  suffix : ':' :: digits ++ rest <:+ cs

theorem readPort_eq_some {cs rest : List Char} {n : Nat} (h : readPort cs = some (n, rest)) :
    ∃ digits, EndsInPort cs rest (.ofNat n) digits := by
  obtain ⟨after, hafter, h⟩ := Option.bind_eq_some_iff.mp h
  obtain ⟨digits, hne, hdigit, rfl, rfl, hlt⟩ := readNumber_eq_some h
  refine ⟨digits, hne, hdigit, (UInt16.toNat_ofNat_of_lt hlt).symm, ?_⟩
  rw [readGivenChar_eq_some hafter]
  exact List.suffix_refl _

theorem readSocketAddrV4_port {cs rest : List Char} {addr : SocketAddr}
    (h : readSocketAddrV4 cs = some (addr, rest)) :
    ∃ digits, EndsInPort cs rest addr.port digits := by
  obtain ⟨⟨ip, afterIp⟩, hip, h⟩ := Option.bind_eq_some_iff.mp h
  obtain ⟨⟨port, afterPort⟩, hport, h⟩ := Option.bind_eq_some_iff.mp h
  obtain ⟨rfl, rfl⟩ := Prod.mk.inj (Option.some.inj h)
  obtain ⟨digits, hends⟩ := readPort_eq_some hport
  exact ⟨digits, { hends with suffix := hends.suffix.trans (readIpv4Addr_suffix hip) }⟩

theorem readSocketAddrV6_port {cs rest : List Char} {addr : SocketAddr}
    (h : readSocketAddrV6 cs = some (addr, rest)) :
    ∃ digits, EndsInPort cs rest addr.port digits := by
  obtain ⟨inside, hopen, h⟩ := Option.bind_eq_some_iff.mp h
  obtain ⟨⟨ip, afterIp⟩, hip, h⟩ := Option.bind_eq_some_iff.mp h
  obtain ⟨outside, hclose, h⟩ := Option.bind_eq_some_iff.mp h
  obtain ⟨⟨port, afterPort⟩, hport, h⟩ := Option.bind_eq_some_iff.mp h
  obtain ⟨rfl, rfl⟩ := Prod.mk.inj (Option.some.inj h)
  obtain ⟨digits, hends⟩ := readPort_eq_some hport
  have hscope : ((readScopeId afterIp).getD (0, afterIp)).2 <:+ afterIp := by
    cases hid : readScopeId afterIp with
    | none => exact List.suffix_refl _
    | some id => exact readScopeId_suffix hid
  have hafter := readGivenChar_eq_some hclose
  change ((readScopeId afterIp).getD (0, afterIp)).2 = _ at hafter
  rw [hafter] at hscope
  have hsuffix := (hends.suffix.trans (List.suffix_cons _ _)).trans
    (hscope.trans (readIpv6Addr_suffix hip))
  refine ⟨digits, { hends with suffix := ?_ }⟩
  rw [readGivenChar_eq_some hopen]
  exact hsuffix.trans (List.suffix_cons _ _)

theorem parseSocketAddr_port {cs : List Char} {addr : SocketAddr}
    (h : parseSocketAddr cs = some addr) : ∃ digits, EndsInPort cs [] addr.port digits := by
  unfold parseSocketAddr at h
  split at h
  · rename_i addr' hread
    obtain rfl := Option.some.inj h
    rcases Option.or_eq_some_iff.mp hread with hv4 | ⟨-, hv6⟩
    · exact readSocketAddrV4_port hv4
    · exact readSocketAddrV6_port hv6
  · cases h

/-! ## What the printer prints is read back -/

/-- The rest of the text does not go on with a digit. -/
def Stops (radix : Nat) (rest : List Char) : Prop := ∀ c ∈ rest.head?, isDigitOf radix c = false

theorem span_of_stops {radix : Nat} {digits rest : List Char}
    (hdigit : ∀ c ∈ digits, isDigitOf radix c = true) (hstop : Stops radix rest) :
    (digits ++ rest).takeWhile (isDigitOf radix) = digits ∧
      (digits ++ rest).dropWhile (isDigitOf radix) = rest := by
  rw [List.takeWhile_append_of_pos hdigit, List.dropWhile_append_of_pos hdigit]
  cases rest with
  | nil => exact ⟨List.append_nil digits, rfl⟩
  | cons c rest =>
    have hc : isDigitOf radix c = false := hstop c rfl
    rw [List.takeWhile_cons, List.dropWhile_cons, hc]
    exact ⟨List.append_nil digits, rfl⟩

theorem readNumber_append {radix bound : Nat} {maxDigits : Option Nat} {allowZeroPrefix : Bool}
    {digits rest : List Char} (hne : digits ≠ [])
    (hdigit : ∀ c ∈ digits, isDigitOf radix c = true) (hstop : Stops radix rest)
    (hmax : maxDigits.any (· < digits.length) = false)
    (hzero : digits.head? = some '0' → digits.length ≤ 1) (hbound : valueOf radix digits < bound) :
    readNumber radix maxDigits allowZeroPrefix bound (digits ++ rest) =
      some (valueOf radix digits, rest) := by
  obtain ⟨htake, hdrop⟩ := span_of_stops hdigit hstop
  unfold readNumber
  rw [htake, hdrop]
  apply if_neg
  rintro (h | h | ⟨-, h, hlong⟩ | h)
  · exact hne h
  · exact absurd (h.symm.trans hmax) (by decide)
  · exact absurd (hzero h) (Nat.not_le_of_lt hlong)
  · exact absurd hbound (Nat.not_lt_of_le h)

section Decimal

theorem toDigit_of_isDigit {c : Char} (h : c.isDigit = true) :
    toDigit 10 c = some (c.toNat - 48) := by
  have hvalue : c.toNat - 48 < 10 := by
    have hlast : c.toNat ≤ 57 := (Char.isDigit_iff_toNat.mp h).2
    omega
  unfold toDigit
  rw [if_pos h]
  exact Option.filter_some_pos (decide_eq_true hvalue)

theorem toNat_of_isLower {c : Char} (h : c.isLower = true) : 97 ≤ c.toNat := by
  have hfirst := (Bool.and_eq_true_iff.mp h).1
  exact UInt32.le_iff_toNat_le.mp (of_decide_eq_true hfirst)

theorem toNat_of_isUpper {c : Char} (h : c.isUpper = true) : 65 ≤ c.toNat := by
  have hrange := of_decide_eq_true h
  exact UInt32.le_iff_toNat_le.mp hrange.1

theorem isDigitOf_ten {c : Char} : isDigitOf 10 c = c.isDigit := by
  unfold isDigitOf
  cases hdigit : c.isDigit with
  | true => rw [toDigit_of_isDigit hdigit, Option.isSome_some]
  | false =>
    -- the value of a letter is at least ten
    unfold toDigit
    rw [hdigit, if_neg Bool.false_ne_true]
    split
    · rename_i hlower
      have hfirst : 97 ≤ c.toNat := toNat_of_isLower hlower
      have hvalue : ¬c.toNat - 87 < 10 := by omega
      simp [hvalue]
    · split
      · rename_i hupper
        have hfirst : 65 ≤ c.toNat := toNat_of_isUpper hupper
        have hvalue : ¬c.toNat - 55 < 10 := by omega
        simp [hvalue]
      · rfl

theorem valueOf_eq_ofDigitChars {digits : List Char} (h : ∀ c ∈ digits, c.isDigit = true) :
    valueOf 10 digits = Nat.ofDigitChars 10 digits 0 := by
  have hvalues : digits.filterMap (toDigit 10) = digits.map fun c => c.toNat - 48 := by
    rw [List.filterMap_congr fun c hc => toDigit_of_isDigit (h c hc)]
    exact congrFun (List.filterMap_eq_map (f := fun c : Char => c.toNat - 48)) digits
  rw [valueOf, hvalues, List.foldl_map]
  rfl

theorem decimal_isDigit (n : Nat) : ∀ c ∈ decimal n, c.isDigit = true := fun _ hc =>
  Nat.isDigit_of_mem_toDigits (by omega) (by omega) hc

theorem valueOf_decimal (n : Nat) : valueOf 10 (decimal n) = n :=
  (valueOf_eq_ofDigitChars (decimal_isDigit n)).trans Nat.ofDigitChars_ten_toDigits

theorem digitChar_ne_zero : ∀ n < 10, 0 < n → Nat.digitChar n ≠ '0' := by decide

theorem decimal_head?_ne_zero {n : Nat} (h : 0 < n) : (decimal n).head? ≠ some '0' := by
  unfold decimal
  induction n using Nat.base_induction 10 (by omega) with
  | single m hm =>
    rw [Nat.toDigits_of_lt_base hm]
    exact fun hzero => digitChar_ne_zero m hm h (Option.some.inj hzero)
  | digit m k hk hm ih =>
    rw [← Nat.toDigits_append_toDigits (by omega) hm hk,
      List.head?_append_of_ne_nil _ Nat.toDigits_ne_nil]
    exact ih hm

theorem decimal_leading {n : Nat} (h : (decimal n).head? = some '0') : (decimal n).length ≤ 1 := by
  rcases Nat.eq_zero_or_pos n with rfl | hpos
  · exact Nat.le_refl 1
  · exact absurd h (decimal_head?_ne_zero hpos)

theorem readNumber_decimal {n bound : Nat} {maxDigits : Option Nat} {allowZeroPrefix : Bool}
    {rest : List Char} (hstop : Stops 10 rest)
    (hmax : maxDigits.any (· < (decimal n).length) = false) (hbound : n < bound) :
    readNumber 10 maxDigits allowZeroPrefix bound (decimal n ++ rest) = some (n, rest) := by
  have hread : readNumber 10 maxDigits allowZeroPrefix bound (decimal n ++ rest) =
      some (valueOf 10 (decimal n), rest) :=
    readNumber_append Nat.toDigits_ne_nil
      (fun c hc => isDigitOf_ten.trans (decimal_isDigit n c hc)) hstop hmax decimal_leading
      ((valueOf_decimal n).trans_lt hbound)
  rw [hread, valueOf_decimal n]

end Decimal

section RoundTrip

variable {rest : List Char}

theorem stops_cons {radix : Nat} {c : Char} (h : isDigitOf radix c = false) :
    Stops radix (c :: rest) := by
  intro d hd
  obtain rfl := Option.mem_some_iff.mp hd
  exact h

theorem stops_nil {radix : Nat} : Stops radix [] := nofun

theorem readOctet_decimal (n : UInt8) (hstop : Stops 10 rest) :
    readOctet true (decimal n.toNat ++ rest) = some (n.toNat, rest) := by
  have hlength : (decimal n.toNat).length ≤ 3 :=
    (Nat.length_toDigits_le_iff (by omega) (by omega)).mpr (n.toNat_lt.trans (by omega))
  exact readNumber_decimal hstop (decide_eq_false (Nat.not_lt_of_le hlength)) n.toNat_lt

theorem readOctet_separated (n : UInt8) (hstop : Stops 10 rest) :
    readOctet false ('.' :: decimal n.toNat ++ rest) = some (n.toNat, rest) :=
  readOctet_decimal n hstop

theorem readIpv4Addr_display (ip : Ipv4) (hstop : Stops 10 rest) :
    readIpv4Addr (ip.display ++ rest) = some (ip, rest) := by
  have hdot {rest : List Char} : Stops 10 ('.' :: rest) := stops_cons (by decide)
  unfold readIpv4Addr Ipv4.display
  simp only [List.append_assoc, List.cons_append]
  rw [readOctet_decimal _ hdot]
  change ((readOctet false ('.' :: decimal ip.b.toNat ++ _)).bind _) = _
  rw [readOctet_separated _ hdot]
  change ((readOctet false ('.' :: decimal ip.c.toNat ++ _)).bind _) = _
  rw [readOctet_separated _ hdot]
  change ((readOctet false ('.' :: decimal ip.d.toNat ++ _)).bind _) = _
  rw [readOctet_separated _ hstop]
  simp

theorem readPort_decimal (port : UInt16) (hstop : Stops 10 rest) :
    readPort (':' :: decimal port.toNat ++ rest) = some (port.toNat, rest) :=
  readNumber_decimal hstop rfl port.toNat_lt

theorem parseSocketAddr_v4 (ip : Ipv4) (port : UInt16) :
    parseSocketAddr (ip.display ++ ':' :: decimal port.toNat) = some (.v4 ip port) := by
  have hport := readPort_decimal port stops_nil
  have hread : readSocketAddrV4 (ip.display ++ ':' :: decimal port.toNat) =
      some (.v4 ip port, []) := by
    unfold readSocketAddrV4
    rw [readIpv4Addr_display ip (stops_cons (by decide))]
    rw [List.append_nil] at hport
    change ((readPort (':' :: decimal port.toNat)).bind _) = _
    rw [hport]
    simp
  unfold parseSocketAddr readSocketAddr
  rw [hread]
  rfl

end RoundTrip

theorem hex_digits (n : Nat) : ∀ c ∈ hex n, isDigitOf 16 c = true := by
  have hdigit : ∀ m < 16, isDigitOf 16 (Nat.digitChar m) = true := by decide
  unfold hex
  induction n using Nat.base_induction 16 (by omega) with
  | single m hm =>
    rw [Nat.toDigits_of_lt_base hm]
    intro c hc
    rw [List.mem_singleton.mp hc]
    exact hdigit m hm
  | digit m k hk hm ih =>
    rw [← Nat.toDigits_append_toDigits (by omega) hm hk, Nat.toDigits_of_lt_base hk]
    intro c hc
    rcases List.mem_append.mp hc with hc | hc
    · exact ih c hc
    · rw [List.mem_singleton.mp hc]
      exact hdigit k hk

/-- Hexadecimal digits, if any, and then a colon. -/
def StartsAsGroups (cs : List Char) : Prop :=
  ∃ group rest, cs = group ++ ':' :: rest ∧ ∀ c ∈ group, isDigitOf 16 c = true

theorem StartsAsGroups.append {cs : List Char} (h : StartsAsGroups cs) (rest : List Char) :
    StartsAsGroups (cs ++ rest) := by
  obtain ⟨group, rest', rfl, hgroup⟩ := h
  exact ⟨group, rest' ++ rest, List.append_assoc _ _ _, hgroup⟩

theorem fmtSubslice_starts (chunk : List UInt16) (rest : List Char) :
    StartsAsGroups (Ipv6.fmtSubslice chunk ++ ':' :: rest) := by
  unfold Ipv6.fmtSubslice
  match chunk with
  | [] => exact ⟨[], rest, rfl, nofun⟩
  | [segment] => exact ⟨hex segment.toNat, rest, by simp, hex_digits _⟩
  | segment :: next :: more =>
    refine ⟨hex segment.toNat, Ipv6.fmtSubslice (next :: more) ++ ':' :: rest, ?_, hex_digits _⟩
    simp [Ipv6.fmtSubslice, List.intercalate]

theorem Ipv6.display_starts (ip : Ipv6) (rest : List Char) :
    StartsAsGroups (ip.display ++ ':' :: rest) := by
  unfold Ipv6.display
  split
  · exact ⟨[], _, rfl, nofun⟩
  · dsimp only
    split
    · exact (fmtSubslice_starts _ _).append _
    · exact fmtSubslice_starts _ _

theorem isDigitOf_sixteen {c : Char} (h : isDigitOf 10 c = true) : isDigitOf 16 c = true := by
  have hdigit := isDigitOf_ten.symm.trans h
  have hlast : c.toNat ≤ 57 := (Char.isDigit_iff_toNat.mp hdigit).2
  have hvalue : c.toNat - 48 < 16 := by omega
  simp [isDigitOf, toDigit, hdigit, hvalue]

/-- A number at the front is followed by a letter or by the colon, not by a point. -/
theorem readIpv4Addr_of_startsAsGroups {cs : List Char} (h : StartsAsGroups cs) :
    readIpv4Addr cs = none := by
  obtain ⟨group, rest, rfl, hgroup⟩ := h
  unfold readIpv4Addr
  cases hfirst : readOctet true (group ++ ':' :: rest) with
  | none => rfl
  | some read =>
    obtain ⟨digits, -, hdigit, hsplit, -⟩ := readNumber_eq_some hfirst
    have hcolon : (group ++ ':' :: rest).dropWhile (isDigitOf 16) = ':' :: rest :=
      (span_of_stops hgroup (stops_cons (by decide))).2
    have hnext : readGivenChar '.' read.2 = none := by
      cases hpoint : readGivenChar '.' read.2 with
      | none => rfl
      | some after =>
        rw [hsplit, readGivenChar_eq_some hpoint,
          (span_of_stops (fun c hc => isDigitOf_sixteen (hdigit c hc))
            (stops_cons (by decide : isDigitOf 16 '.' = false))).2] at hcolon
        exact absurd (List.cons.inj hcolon).1 (by decide)
    change ((readGivenChar '.' read.2).bind _).bind _ = _
    rw [hnext]
    rfl

theorem not_open_of_startsAsGroups {cs : List Char} (h : StartsAsGroups cs) :
    readGivenChar '[' cs = none := by
  obtain ⟨group, rest, rfl, hgroup⟩ := h
  cases group with
  | nil => rfl
  | cons c group =>
    apply if_neg
    rintro rfl
    exact absurd (hgroup '[' List.mem_cons_self) (by decide)

theorem parseSocketAddr_v6 (ip : Ipv6) (rest : List Char) :
    parseSocketAddr (ip.display ++ ':' :: rest) = none := by
  have hstarts := ip.display_starts rest
  unfold parseSocketAddr readSocketAddr readSocketAddrV4 readSocketAddrV6
  rw [readIpv4Addr_of_startsAsGroups hstarts, not_open_of_startsAsGroups hstarts]
  rfl

end SocketText
