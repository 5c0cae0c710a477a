import Conproxy.Lib.TomlTables

/-!
# The grammar of TOML 1.0

A reader of documents. What one reader leaves is where the next one starts. Every reader that calls
itself has a bound that the length of the text meets. An integer that cannot be represented is an
error, and which ones these are is left to the caller.
-/

namespace Toml

set_option autoImplicit false

def isBlank (c : Char) : Bool := c = ' ' || c = '\t'

def skipBlanks : List Char → List Char := List.dropWhile isBlank

/-- The characters of a line that are not control characters, and the tab. -/
def isText (c : Char) : Bool := c = '\t' || (32 ≤ c.toNat && c.toNat ≠ 127)

def isBare (c : Char) : Bool := c.isAlphanum || c = '_' || c = '-'

def newline : List Char → Option (List Char)
  | '\n' :: rest => some rest
  | '\r' :: '\n' :: rest => some rest
  | _ => none

/-- Blanks and a comment, and the end of the line or of the text. -/
def lineEnd (cs : List Char) : Option (List Char) :=
  match skipBlanks cs with
  | [] => some []
  | '#' :: rest =>
    match rest.dropWhile isText with
    | [] => some []
    | rest => newline rest
  | cs => newline cs

def digitValue (c : Char) : Option Nat :=
  if c.isDigit then some (c.toNat - '0'.toNat)
  else if 'a' ≤ c ∧ c ≤ 'f' then some (c.toNat - 'a'.toNat + 10)
  else if 'A' ≤ c ∧ c ≤ 'F' then some (c.toNat - 'A'.toNat + 10)
  else none

/-- A character by its number. -/
def scalarValue (digits : List Char) : Option Char := do
  let values ← digits.mapM digitValue
  let n := values.foldl (16 * · + ·) 0
  if n.isValidChar then some (.ofNat n) else none

def escaped : Char → Option Char
  | 'b' => some (.ofNat 8)
  | 't' => some '\t'
  | 'n' => some '\n'
  | 'f' => some (.ofNat 12)
  | 'r' => some '\r'
  | '"' => some '"'
  | '\\' => some '\\'
  | _ => none

def prepend (c : Char) : Option (List Char × List Char) → Option (List Char × List Char) :=
  Option.map fun read => (c :: read.1, read.2)

/-- A line break of a string on several lines. -/
def isBreak (c : Char) (rest : List Char) : Bool :=
  c = '\n' || (c = '\r' && rest.head? = some '\n')

/-- After one quote: two more end a string on several lines, and two quotes may stand before
them. -/
def closing (quote : Char) : List Char → Option (List Char × List Char)
  | a :: b :: rest =>
    if a = quote ∧ b = quote then
      let last := (rest.take 2).takeWhile (· = quote)
      some (last, rest.drop last.length)
    else none
  | _ => none

/-- A string after its first quote, on one line or on several. After a backslash at the end of a
line everything is skipped up to the next character. -/
def basicString (multi : Bool) : Bool → List Char → Option (List Char × List Char)
  | _, [] => none
  | skip, c :: rest =>
    if skip && (isBlank c || isBreak c rest) then basicString multi true rest
    else if c = '"' then
      if multi then
        match closing '"' rest with
        | some read => some read
        | none => prepend c (basicString multi false rest)
      else some ([], rest)
    else if c = '\\' then
      if multi && (skipBlanks rest).head?.any (fun d => isBreak d (skipBlanks rest).tail) then
        basicString multi true rest
      else
        match rest with
        | [] => none
        | 'u' :: a :: b :: c :: d :: rest => do
          let e ← scalarValue [a, b, c, d]
          prepend e (basicString multi false rest)
        | 'U' :: a :: b :: c :: d :: e :: f :: g :: h :: rest => do
          let e ← scalarValue [a, b, c, d, e, f, g, h]
          prepend e (basicString multi false rest)
        | d :: rest => do
          let e ← escaped d
          prepend e (basicString multi false rest)
    else if isText c || (multi && isBreak c rest) then prepend c (basicString multi false rest)
    else none

/-- A string without escapes. -/
def literalString (multi : Bool) : List Char → Option (List Char × List Char)
  | [] => none
  | c :: rest =>
    if c = '\'' then
      if multi then
        match closing '\'' rest with
        | some read => some read
        | none => prepend c (literalString multi rest)
      else some ([], rest)
    else if isText c || (multi && isBreak c rest) then prepend c (literalString multi rest)
    else none

/-- The line break after the quotes that begin a string on several lines is not a part of it. -/
def skipBreak (cs : List Char) : List Char := (newline cs).getD cs

def simpleKey : List Char → Option (String × List Char)
  | '"' :: rest => (basicString false false rest).map fun read => (.ofList read.1, read.2)
  | '\'' :: rest => (literalString false rest).map fun read => (.ofList read.1, read.2)
  | cs =>
    match cs.takeWhile isBare with
    | [] => none
    | name => some (.ofList name, cs.dropWhile isBare)

/-- Keys with dots between them, and the blanks after them. -/
def dottedKey : Nat → List Char → Option (List String × List Char)
  | 0, _ => none
  | n + 1, cs => do
    let (name, rest) ← simpleKey cs
    match skipBlanks rest with
    | '.' :: rest => do
      let (names, rest) ← dottedKey n (skipBlanks rest)
      return (name :: names, rest)
    | rest => return ([name], rest)

/-- Digits, and single underscores between them. -/
def isDigits (digit : Char → Bool) : List Char → Bool
  | [] => false
  | [c] => digit c
  | c :: '_' :: rest => digit c && isDigits digit rest
  | c :: rest => digit c && isDigits digit rest

/-- Without a leading zero. -/
def isDecimal (cs : List Char) : Bool :=
  isDigits Char.isDigit cs && (cs.head? ≠ some '0' || cs = ['0'])

def natOf (base : Nat) (cs : List Char) : Nat :=
  (cs.filterMap digitValue).foldl (base * · + ·) 0

def isBelow (base : Nat) (c : Char) : Bool := (digitValue c).any (· < base)

def radix (base : Nat) (cs : List Char) : Option Int :=
  if isDigits (isBelow base) cs then some (natOf base cs) else none

def decimal (cs : List Char) : Option Int := if isDecimal cs then some (natOf 10 cs) else none

def integer : List Char → Option Int
  | '0' :: 'x' :: rest => radix 16 rest
  | '0' :: 'o' :: rest => radix 8 rest
  | '0' :: 'b' :: rest => radix 2 rest
  | '+' :: rest => decimal rest
  | '-' :: rest => (decimal rest).map (- ·)
  | rest => decimal rest

def skipSign : List Char → List Char
  | '+' :: rest => rest
  | '-' :: rest => rest
  | rest => rest

def isExponent : List Char → Bool
  | c :: rest => (c = 'e' || c = 'E') && isDigits Char.isDigit (skipSign rest)
  | [] => false

def isFloat (cs : List Char) : Bool :=
  let cs := skipSign cs
  let whole := cs.takeWhile fun c => c ≠ '.' && c ≠ 'e' && c ≠ 'E'
  cs = "inf".toList || cs = "nan".toList ||
    (isDecimal whole &&
      match cs.drop whole.length with
      | '.' :: rest =>
        let fraction := rest.takeWhile fun c => c ≠ 'e' && c ≠ 'E'
        isDigits Char.isDigit fraction &&
          (rest.length = fraction.length || isExponent (rest.drop fraction.length))
      | rest => isExponent rest)

/-- The calendar is not consulted. -/
def isDate : List Char → Bool
  | [a, b, c, d, '-', e, f, '-', g, h] => [a, b, c, d, e, f, g, h].all Char.isDigit
  | _ => false

def isOffset : List Char → Bool
  | [c] => c = 'Z' || c = 'z'
  | [sign, a, b, ':', c, d] => (sign = '+' || sign = '-') && [a, b, c, d].all Char.isDigit
  | _ => false

/-- A time, with an offset or without. -/
def isTime : List Char → Bool
  | a :: b :: ':' :: c :: d :: ':' :: e :: f :: rest =>
    [a, b, c, d, e, f].all Char.isDigit &&
      match rest with
      | '.' :: c :: rest =>
        c.isDigit && (rest.all Char.isDigit || isOffset (rest.dropWhile Char.isDigit))
      | rest => rest = [] || isOffset rest
  | _ => false

/-- A date, a time, or both with a `T` between them. -/
def isDatetime (cs : List Char) : Bool :=
  isDate cs || (isTime cs && !(cs.drop 8).any fun c => !(c.isDigit || c = '.')) ||
    match cs.drop 10 with
    | c :: time => isDate (cs.take 10) && (c = 'T' || c = 't') && isTime time
    | [] => false

def isToken (c : Char) : Bool := c.isAlphanum || "_+-.:".toList.contains c

section Values

variable (represents : Int → Bool)

/-- A value without quotes or brackets. -/
def plainValue (token : List Char) : Option Value :=
  if token = "true".toList then some (.boolean true)
  else if token = "false".toList then some (.boolean false)
  else
    match integer token with
    | some n => if represents n then some (.integer n) else none
    | none =>
      if isFloat token then some (.float (.ofList token))
      else if isDatetime token then some (.datetime (.ofList token))
      else none

/-- A time may stand after its date and a space. -/
def plain (cs : List Char) : Option (Value × List Char) :=
  let token := cs.takeWhile isToken
  let rest := cs.dropWhile isToken
  let time := (rest.drop 1).takeWhile isToken
  if isDate token && rest.head? = some ' ' && isTime time then
    some (.datetime (.ofList (token ++ ' ' :: time)), (rest.drop 1).dropWhile isToken)
  else (plainValue represents token).map fun v => (v, rest)

/-- Blanks, comments and line breaks, between the items of an array. -/
def skipLines : Nat → List Char → List Char
  | 0, cs => cs
  | n + 1, cs =>
    match lineEnd cs with
    | some rest => skipLines n rest
    | none => skipBlanks cs

def quoted (read : Option (List Char × List Char)) : Option (Value × List Char) :=
  read.map fun read => (.string (.ofList read.1), read.2)

mutual

def value : Nat → List Char → Option (Value × List Char)
  | 0, _ => none
  | n + 1, cs =>
    match cs with
    | '"' :: '"' :: '"' :: rest => quoted (basicString true false (skipBreak rest))
    | '"' :: rest => quoted (basicString false false rest)
    | '\'' :: '\'' :: '\'' :: rest => quoted (literalString true (skipBreak rest))
    | '\'' :: rest => quoted (literalString false rest)
    | '[' :: rest => (items n rest).map fun read => (.array read.1, read.2)
    | '{' :: rest =>
      match skipBlanks rest with
      | '}' :: rest => some (.table [], rest)
      | rest => do
        let (pairs, rest) ← inlinePairs n rest
        let table ← inlineTable pairs
        return (table, rest)
    | cs => plain represents cs

def items : Nat → List Char → Option (List Value × List Char)
  | 0, _ => none
  | n + 1, cs =>
    match skipLines cs.length cs with
    | ']' :: rest => some ([], rest)
    | cs => do
      let (v, rest) ← value n cs
      match skipLines rest.length rest with
      | ',' :: rest => do
        let (vs, rest) ← items n rest
        return (v :: vs, rest)
      | ']' :: rest => return ([v], rest)
      | _ => none

def inlinePairs : Nat → List Char → Option (List (List String × Value) × List Char)
  | 0, _ => none
  | n + 1, cs => do
    let (keys, rest) ← dottedKey n cs
    match rest with
    | '=' :: rest => do
      let (v, rest) ← value n (skipBlanks rest)
      match skipBlanks rest with
      | ',' :: rest => do
        let (pairs, rest) ← inlinePairs n (skipBlanks rest)
        return ((keys, v) :: pairs, rest)
      | '}' :: rest => return ([(keys, v)], rest)
      | _ => none
    | _ => none

end

def expression (n : Nat) (cs : List Char) : Option (Expression × List Char) :=
  match skipBlanks cs with
  | '[' :: '[' :: rest => do
    let (path, rest) ← dottedKey n (skipBlanks rest)
    match rest with
    | ']' :: ']' :: rest => return (.element path, rest)
    | _ => none
  | '[' :: rest => do
    let (path, rest) ← dottedKey n (skipBlanks rest)
    match rest with
    | ']' :: rest => return (.header path, rest)
    | _ => none
  | cs => do
    let (keys, rest) ← dottedKey n cs
    match rest with
    | '=' :: rest => do
      let (v, rest) ← value represents n (skipBlanks rest)
      return (.pair keys v, rest)
    | _ => none

def document : Nat → List Char → Option (List Expression)
  | 0, _ => none
  | n + 1, cs =>
    match cs with
    | [] => some []
    | cs =>
      match lineEnd cs with
      | some rest => document n rest
      | none => do
        let (e, rest) ← expression represents n cs
        let rest ← lineEnd rest
        let es ← document n rest
        return e :: es

/-- The table of a document. -/
def parse (text : String) : Option Value := do
  let es ← document represents (text.toList.length + 1) text.toList
  let doc ← build es
  return doc.root.close

end Values

end Toml
