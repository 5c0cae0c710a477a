import Mathlib.Data.List.TakeWhile
import Conproxy.Lib.TomlGrammar

/-!
# Documents of simple lines

How a document reads that is written line by line: headers with bare keys, and pairs of a bare key
with a string or a number. Each line is read, or is an error, whatever follows it.
-/

namespace Toml

set_option autoImplicit false

def isBareKey (name : String) : Bool := name.toList ≠ [] && name.toList.all isBare

/-- Keys with dots between them. -/
def printPath : List String → List Char
  | [] => []
  | [name] => name.toList
  | name :: names => name.toList ++ '.' :: printPath names

section Keys

variable {name : String} {c : Char} {rest : List Char}

theorem printPath_cons (name next : String) (names : List String) :
    printPath (name :: next :: names) = name.toList ++ '.' :: printPath (next :: names) := rfl

theorem isBareKey_iff :
    isBareKey name = true ↔ name.toList ≠ [] ∧ ∀ c ∈ name.toList, isBare c = true := by
  simp [isBareKey]

theorem exists_cons_of_isBareKey (h : isBareKey name = true) :
    ∃ first more, name.toList = first :: more ∧ isBare first = true := by
  obtain ⟨hne, hbare⟩ := isBareKey_iff.mp h
  obtain ⟨first, more, hname⟩ := List.exists_cons_of_ne_nil hne
  exact ⟨first, more, hname, hbare first (hname ▸ List.mem_cons_self)⟩

theorem ne_of_isBare {d : Char} (hc : isBare c = true) (hd : isBare d = false) : c ≠ d := by
  rintro rfl
  rw [hc] at hd
  cases hd

theorem isBlank_of_isBare (hc : isBare c = true) : isBlank c = false := by
  have hspace : c ≠ ' ' := ne_of_isBare hc (by decide)
  have htab : c ≠ '\t' := ne_of_isBare hc (by decide)
  simp [isBlank, hspace, htab]

theorem skipBlanks_cons (hc : isBlank c = false) : skipBlanks (c :: rest) = c :: rest := by
  rw [skipBlanks, List.dropWhile_cons_of_neg (by simp [hc])]

theorem simpleKey_of_isBareKey (h : isBareKey name = true) (hc : isBare c = false) :
    simpleKey (name.toList ++ c :: rest) = some (name, c :: rest) := by
  obtain ⟨first, more, hname, hfirst⟩ := exists_cons_of_isBareKey h
  have hbare := (isBareKey_iff.mp h).2
  have htake : (name.toList ++ c :: rest).takeWhile isBare = first :: more := by
    rw [List.takeWhile_append_of_pos hbare, List.takeWhile_cons_of_neg (by simp [hc]),
      List.append_nil, hname]
  have hdrop : (name.toList ++ c :: rest).dropWhile isBare = c :: rest := by
    rw [List.dropWhile_append_of_pos hbare, List.dropWhile_cons_of_neg (by simp [hc])]
  have hquote : first ≠ '"' := ne_of_isBare hfirst (by decide)
  have happ : first ≠ '\'' := ne_of_isBare hfirst (by decide)
  unfold simpleKey
  split
  · next heq =>
    rw [hname] at heq
    exact absurd (List.cons.inj heq).1 hquote
  · next heq =>
    rw [hname] at heq
    exact absurd (List.cons.inj heq).1 happ
  · rw [htake, hdrop]
    change some (String.ofList (first :: more), c :: rest) = _
    rw [← hname, String.ofList_toList]

theorem skipBlanks_printPath {names : List String} (hne : names ≠ [])
    (hbare : ∀ name ∈ names, isBareKey name = true) :
    skipBlanks (printPath names ++ rest) = printPath names ++ rest := by
  cases names with
  | nil => exact absurd rfl hne
  | cons name names =>
    obtain ⟨first, more, hname, hfirst⟩ :=
      exists_cons_of_isBareKey (hbare name List.mem_cons_self)
    have hblank := isBlank_of_isBare hfirst
    cases names with
    | nil =>
      rw [printPath, hname]
      exact skipBlanks_cons hblank
    | cons next names =>
      rw [printPath_cons, hname]
      exact skipBlanks_cons hblank

/-- A path of bare keys is read, with the blanks that follow it. -/
theorem dottedKey_printPath {names : List String} (hne : names ≠ [])
    (hbare : ∀ name ∈ names, isBareKey name = true) (hc : isBare c = false)
    (hdot : (skipBlanks (c :: rest)).head? ≠ some '.') {n : Nat} (hn : names.length ≤ n) :
    dottedKey n (printPath names ++ c :: rest) = some (names, skipBlanks (c :: rest)) := by
  induction names generalizing n with
  | nil => exact absurd rfl hne
  | cons name names ih =>
    obtain ⟨n, rfl⟩ : ∃ m, n = m + 1 := ⟨n - 1, by rw [List.length_cons] at hn; omega⟩
    have hname := hbare name List.mem_cons_self
    cases names with
    | nil =>
      rw [printPath, dottedKey, simpleKey_of_isBareKey hname hc]
      simp only [Option.bind_eq_bind, Option.bind_some]
      split
      · next heq =>
        rw [heq] at hdot
        exact absurd rfl hdot
      · rfl
    | cons next names =>
      have hmore : ∀ other ∈ next :: names, isBareKey other = true :=
        fun other hother => hbare other (List.mem_cons_of_mem name hother)
      have hkey : simpleKey (printPath (name :: next :: names) ++ c :: rest) =
          some (name, '.' :: (printPath (next :: names) ++ c :: rest)) := by
        rw [printPath_cons, List.append_assoc, List.cons_append]
        exact simpleKey_of_isBareKey hname (by decide)
      rw [dottedKey, hkey]
      simp only [Option.bind_eq_bind, Option.bind_some]
      rw [skipBlanks_cons (by decide)]
      change (dottedKey n (skipBlanks (printPath (next :: names) ++ c :: rest))).bind _ = _
      rw [skipBlanks_printPath (List.cons_ne_nil _ _) hmore,
        ih (List.cons_ne_nil _ _) hmore (Nat.le_of_succ_le_succ hn)]
      rfl

theorem length_le_printPath {names : List String}
    (hbare : ∀ name ∈ names, isBareKey name = true) : names.length ≤ (printPath names).length := by
  induction names with
  | nil => exact Nat.zero_le _
  | cons name names ih =>
    obtain ⟨first, more, hname, -⟩ := exists_cons_of_isBareKey (hbare name List.mem_cons_self)
    have hrest := ih fun other hother => hbare other (List.mem_cons_of_mem name hother)
    cases names with
    | nil =>
      rw [printPath, hname]
      simp
    | cons next names =>
      rw [printPath_cons, hname]
      simp only [List.length_append, List.length_cons] at hrest ⊢
      omega

end Keys

/-! ## Lines -/

section Lines

variable (represents : Int → Bool)

/-- The line is read as these expressions, whatever follows. -/
def LineReads (line : List Char) (es : List Expression) : Prop :=
  ∀ n rest, line.length ≤ n →
    document represents (n + 1) (line ++ '\n' :: rest) = (document represents n rest).map (es ++ ·)

/-- The line is an error, whatever follows. -/
def LineFails (line : List Char) : Prop :=
  ∀ n rest, line.length ≤ n → document represents (n + 1) (line ++ '\n' :: rest) = none

/-- The lines of a text, with their ends. -/
def unlines (lines : List (List Char)) : List Char := lines.flatMap fun line => line ++ ['\n']

variable {represents} {line : List Char} {es : List Expression} {n : Nat} {rest : List Char}
  {name : String} {names : List String}

theorem lineEnd_eq_none {c : Char} (hblank : isBlank c = false) (hhash : c ≠ '#') (hn : c ≠ '\n')
    (hr : c ≠ '\r') : lineEnd (c :: rest) = none := by
  have hnewline : newline (c :: rest) = none := by
    unfold newline
    split
    · next heq => exact absurd (List.cons.inj heq).1 hn
    · next heq => exact absurd (List.cons.inj heq).1 hr
    · rfl
  rw [lineEnd, skipBlanks_cons hblank]
  split
  · next heq => cases heq
  · next heq => exact absurd (List.cons.inj heq).1 hhash
  · exact hnewline

theorem document_nil : document represents (n + 1) [] = some [] := rfl

theorem lineReads_empty : LineReads represents [] [] := by
  intro n rest _
  change document represents n rest = _
  cases document represents n rest <;> rfl

theorem LineReads.not_fails (h : LineReads represents line es) : ¬ LineFails represents line := by
  intro hfails
  have hread := h (line.length + 1) [] (Nat.le_succ _)
  rw [hfails _ _ (Nat.le_succ _), document_nil] at hread
  cases hread

theorem document_cons {c : Char} (hblank : isBlank c = false) (hhash : c ≠ '#') (hn : c ≠ '\n')
    (hr : c ≠ '\r') :
    document represents (n + 1) (c :: rest) = (expression represents n (c :: rest)).bind fun read =>
      (lineEnd read.2).bind fun rest => (document represents n rest).map (read.1 :: ·) := by
  rw [document, lineEnd_eq_none hblank hhash hn hr]
  · cases expression represents n (c :: rest) with
    | none => rfl
    | some read =>
      change (lineEnd read.2).bind _ = (lineEnd read.2).bind _
      congr 1
      funext rest
      cases document represents n rest <;> rfl
  · exact List.cons_ne_nil c rest

theorem exists_cons_printPath (hne : names ≠ []) (hbare : ∀ name ∈ names, isBareKey name = true) :
    ∃ first more, printPath names = first :: more ∧ isBare first = true := by
  cases names with
  | nil => exact absurd rfl hne
  | cons name names =>
    obtain ⟨first, more, hname, hfirst⟩ :=
      exists_cons_of_isBareKey (hbare name List.mem_cons_self)
    cases names with
    | nil => exact ⟨first, more, hname, hfirst⟩
    | cons next names =>
      rw [printPath_cons, hname]
      exact ⟨first, more ++ '.' :: printPath (next :: names), rfl, hfirst⟩

theorem expression_header (hne : names ≠ []) (hbare : ∀ name ∈ names, isBareKey name = true)
    (hn : names.length ≤ n) :
    expression represents n ('[' :: (printPath names ++ ']' :: rest)) =
      some (.header names, rest) := by
  have hpath : dottedKey n (printPath names ++ ']' :: rest) = some (names, ']' :: rest) :=
    dottedKey_printPath hne hbare (by decide) (by simp [skipBlanks, isBlank]) hn
  have hblanks : skipBlanks (printPath names ++ ']' :: rest) = printPath names ++ ']' :: rest :=
    skipBlanks_printPath hne hbare
  obtain ⟨first, more, hprint, hfirst⟩ := exists_cons_printPath hne hbare
  have hbracket : first ≠ '[' := ne_of_isBare hfirst (by decide)
  rw [expression, skipBlanks_cons (by decide)]
  split
  · next heq =>
    rw [hprint] at heq
    exact absurd (List.cons.inj (List.cons.inj heq).2).1 hbracket
  · next heq =>
    obtain rfl := (List.cons.inj heq).2
    rw [hblanks, hpath]
    rfl
  · next heq => exact absurd rfl (heq _)

theorem expression_element (hne : names ≠ []) (hbare : ∀ name ∈ names, isBareKey name = true)
    (hn : names.length ≤ n) :
    expression represents n ('[' :: '[' :: (printPath names ++ ']' :: ']' :: rest)) =
      some (.element names, rest) := by
  have hpath : dottedKey n (printPath names ++ ']' :: ']' :: rest) =
      some (names, ']' :: ']' :: rest) :=
    dottedKey_printPath hne hbare (by decide) (by simp [skipBlanks, isBlank]) hn
  have hblanks : skipBlanks (printPath names ++ ']' :: ']' :: rest) =
      printPath names ++ ']' :: ']' :: rest := skipBlanks_printPath hne hbare
  rw [expression, skipBlanks_cons (by decide)]
  change (dottedKey n (skipBlanks (printPath names ++ ']' :: ']' :: rest))).bind _ = _
  rw [hblanks, hpath]
  rfl

theorem lineReads_header (hne : names ≠ []) (hbare : ∀ name ∈ names, isBareKey name = true) :
    LineReads represents ('[' :: (printPath names ++ [']'])) [.header names] := by
  intro n rest hn
  have hlength := length_le_printPath hbare
  simp only [List.length_cons, List.length_append] at hn
  rw [List.cons_append, List.append_assoc, document_cons (by decide) (by decide) (by decide)
    (by decide), List.singleton_append, expression_header hne hbare (by omega)]
  rfl

theorem lineReads_element (hne : names ≠ []) (hbare : ∀ name ∈ names, isBareKey name = true) :
    LineReads represents ('[' :: '[' :: (printPath names ++ [']', ']'])) [.element names] := by
  intro n rest hn
  have hlength := length_le_printPath hbare
  simp only [List.length_cons, List.length_append] at hn
  rw [List.cons_append, List.cons_append, List.append_assoc, document_cons (by decide) (by decide)
    (by decide) (by decide)]
  change (expression represents n
    ('[' :: '[' :: (printPath names ++ ']' :: ']' :: '\n' :: rest))).bind _ = _
  rw [expression_element hne hbare (by omega)]
  rfl

/-- A line with a bare key is its value. -/
theorem document_pair (hname : isBareKey name = true) {text : List Char}
    (htext : skipBlanks (text ++ '\n' :: rest) = text ++ '\n' :: rest) :
    document represents (n + 2) (name.toList ++ ' ' :: '=' :: ' ' :: (text ++ '\n' :: rest)) =
      (value represents (n + 1) (text ++ '\n' :: rest)).bind fun read =>
        (lineEnd read.2).bind fun rest =>
          (document represents (n + 1) rest).map (.pair [name] read.1 :: ·) := by
  obtain ⟨first, more, hfirst, hbare⟩ := exists_cons_of_isBareKey hname
  have hkey : dottedKey (n + 1) (name.toList ++ ' ' :: '=' :: ' ' :: (text ++ '\n' :: rest)) =
      some ([name], '=' :: ' ' :: (text ++ '\n' :: rest)) :=
    dottedKey_printPath (List.cons_ne_nil name []) (by simpa using hname) (by decide)
      (by simp [skipBlanks, isBlank]) (Nat.le_add_left _ _)
  have hblank : skipBlanks (' ' :: (text ++ '\n' :: rest)) = text ++ '\n' :: rest := htext
  have hexpression : expression represents (n + 1)
      (name.toList ++ ' ' :: '=' :: ' ' :: (text ++ '\n' :: rest)) =
      (value represents (n + 1) (text ++ '\n' :: rest)).map fun read =>
        (.pair [name] read.1, read.2) := by
    have hstart : skipBlanks (name.toList ++ ' ' :: '=' :: ' ' :: (text ++ '\n' :: rest)) =
        name.toList ++ ' ' :: '=' :: ' ' :: (text ++ '\n' :: rest) := by
      rw [hfirst]
      exact skipBlanks_cons (isBlank_of_isBare hbare)
    have hbracket : first ≠ '[' := ne_of_isBare hbare (by decide)
    rw [expression, hstart]
    split
    · next heq =>
      rw [hfirst] at heq
      exact absurd (List.cons.inj heq).1 hbracket
    · next heq =>
      rw [hfirst] at heq
      exact absurd (List.cons.inj heq).1 hbracket
    · rw [hkey]
      simp only [Option.bind_eq_bind, Option.bind_some, hblank]
      cases value represents (n + 1) (text ++ '\n' :: rest) <;> rfl
  rw [hfirst, List.cons_append, document_cons (isBlank_of_isBare hbare)
    (ne_of_isBare hbare (by decide)) (ne_of_isBare hbare (by decide))
    (ne_of_isBare hbare (by decide)), ← List.cons_append, ← hfirst, hexpression]
  cases value represents (n + 1) (text ++ '\n' :: rest) <;> rfl

def pairLine (name : String) (text : List Char) : List Char :=
  name.toList ++ ' ' :: '=' :: ' ' :: text

theorem pairLine_append (text : List Char) :
    pairLine name text ++ '\n' :: rest =
      name.toList ++ ' ' :: '=' :: ' ' :: (text ++ '\n' :: rest) := by
  simp [pairLine]

/-- The text of a value, whatever line follows. -/
def ValueReads (represents : Int → Bool) (text : List Char) (v : Value) : Prop :=
  ∀ n rest, value represents (n + 1) (text ++ '\n' :: rest) = some (v, '\n' :: rest)

def ValueFails (represents : Int → Bool) (text : List Char) : Prop :=
  ∀ n rest, value represents (n + 1) (text ++ '\n' :: rest) = none

theorem skipBlanks_text {first : Char} {more : List Char} (hfirst : isBlank first = false) :
    skipBlanks (first :: more ++ '\n' :: rest) = first :: more ++ '\n' :: rest :=
  skipBlanks_cons hfirst

theorem lineReads_pair (hname : isBareKey name = true) {first : Char} {more : List Char}
    (hfirst : isBlank first = false) {v : Value}
    (hvalue : ValueReads represents (first :: more) v) :
    LineReads represents (pairLine name (first :: more)) [.pair [name] v] := by
  intro n rest hn
  rw [pairLine, List.length_append, List.length_cons] at hn
  obtain ⟨n, rfl⟩ : ∃ m, n = m + 1 := ⟨n - 1, by omega⟩
  rw [pairLine_append, document_pair hname (skipBlanks_text hfirst), hvalue n rest]
  rfl

theorem lineFails_pair (hname : isBareKey name = true) {first : Char} {more : List Char}
    (hfirst : isBlank first = false) (hvalue : ValueFails represents (first :: more)) :
    LineFails represents (pairLine name (first :: more)) := by
  intro n rest hn
  rw [pairLine, List.length_append, List.length_cons] at hn
  obtain ⟨n, rfl⟩ : ∃ m, n = m + 1 := ⟨n - 1, by omega⟩
  rw [pairLine_append, document_pair hname (skipBlanks_text hfirst), hvalue n rest]
  rfl

theorem unlines_cons (line : List Char) (lines : List (List Char)) :
    unlines (line :: lines) = line ++ '\n' :: unlines lines := by
  rw [unlines, List.flatMap_cons, List.append_assoc]
  rfl

theorem document_unlines {lines : List (List Char × List Expression)}
    (hlines : ∀ line ∈ lines, LineReads represents line.1 line.2)
    (hn : (unlines (lines.map Prod.fst)).length < n) :
    document represents n (unlines (lines.map Prod.fst)) = some (lines.flatMap Prod.snd) := by
  induction lines generalizing n with
  | nil =>
    obtain ⟨n, rfl⟩ : ∃ m, n = m + 1 := ⟨n - 1, by omega⟩
    rfl
  | cons line lines ih =>
    rw [List.map_cons, unlines_cons] at hn ⊢
    rw [List.length_append, List.length_cons] at hn
    obtain ⟨n, rfl⟩ : ∃ m, n = m + 1 := ⟨n - 1, by omega⟩
    rw [hlines line List.mem_cons_self n _ (by omega),
      ih (fun line' hline => hlines line' (List.mem_cons_of_mem line hline)) (by omega)]
    rfl

/-- In a text that is read no line is an error. -/
theorem reads_of_document {lines : List (List Char)}
    (hlines : ∀ line ∈ lines, (∃ es, LineReads represents line es) ∨ LineFails represents line)
    (hn : (unlines lines).length < n)
    (hdocument : document represents n (unlines lines) = some es) :
    ∀ line ∈ lines, ∃ es, LineReads represents line es := by
  induction lines generalizing n es with
  | nil =>
    intro line hline
    cases hline
  | cons line lines ih =>
    rw [unlines_cons] at hn hdocument
    rw [List.length_append, List.length_cons] at hn
    obtain ⟨n, rfl⟩ : ∃ m, n = m + 1 := ⟨n - 1, by omega⟩
    rcases hlines line List.mem_cons_self with ⟨first, hreads⟩ | hfails
    · rw [hreads n _ (by omega)] at hdocument
      obtain ⟨more, hmore, -⟩ := Option.map_eq_some_iff.mp hdocument
      have hrest := ih (fun line' hline => hlines line' (List.mem_cons_of_mem line hline))
        (by omega) hmore
      intro line' hline
      rcases List.mem_cons.mp hline with rfl | hline
      · exact ⟨first, hreads⟩
      · exact hrest line' hline
    · rw [hfails n _ (by omega)] at hdocument
      cases hdocument

end Lines

/-! ## Strings and numbers -/

section Texts

variable {represents : Int → Bool} {c : Char} {rest : List Char}

theorem basicString_first (rest : List Char) :
    basicString false false ('"' :: rest) = some ([], rest) ∧
    (∀ c, c ≠ '"' → c ≠ '\\' → basicString false false (c :: rest) =
      if isText c then prepend c (basicString false false rest) else none) ∧
    ∀ c, c = '"' ∨ c = '\\' →
      basicString false false ('\\' :: c :: rest) =
        prepend c (basicString false false rest) := by
  refine ⟨?_, fun c hquote hslash => ?_, fun c hc => ?_⟩
  · rw [basicString.eq_def]
    rfl
  · rw [basicString.eq_def]
    simp [hquote, hslash]
  · rcases hc with rfl | rfl <;>
    · rw [basicString.eq_def]
      rfl

theorem basicString_quote : basicString false false ('"' :: rest) = some ([], rest) :=
  (basicString_first rest).1

theorem basicString_text (hquote : c ≠ '"') (hslash : c ≠ '\\') (htext : isText c = true) :
    basicString false false (c :: rest) = prepend c (basicString false false rest) := by
  rw [(basicString_first rest).2.1 c hquote hslash, if_pos htext]

theorem basicString_control (hquote : c ≠ '"') (hslash : c ≠ '\\') (htext : isText c = false) :
    basicString false false (c :: rest) = none := by
  rw [(basicString_first rest).2.1 c hquote hslash, htext]
  rfl

theorem basicString_escaped_quote :
    basicString false false ('\\' :: '"' :: rest) = prepend '"' (basicString false false rest) :=
  (basicString_first rest).2.2 _ (.inl rfl)

theorem basicString_escaped_slash :
    basicString false false ('\\' :: '\\' :: rest) =
      prepend '\\' (basicString false false rest) :=
  (basicString_first rest).2.2 _ (.inr rfl)

/-- A number, `true`, or the like. -/
theorem value_token {first : Char} {more : List Char}
    (htoken : ∀ c ∈ first :: more, isToken c = true) (n : Nat) :
    value represents (n + 1) (first :: more ++ '\n' :: rest) =
      (plainValue represents (first :: more)).map fun v => (v, '\n' :: rest) := by
  have htake : (first :: more ++ '\n' :: rest).takeWhile isToken = first :: more := by
    rw [List.takeWhile_append_of_pos htoken, List.takeWhile_cons_of_neg (by decide),
      List.append_nil]
  have hdrop : (first :: more ++ '\n' :: rest).dropWhile isToken = '\n' :: rest := by
    rw [List.dropWhile_append_of_pos htoken, List.dropWhile_cons_of_neg (by decide)]
  have hne (d : Char) (hd : isToken d = false) : first ≠ d := by
    rintro rfl
    rw [htoken first List.mem_cons_self] at hd
    cases hd
  have hplain : value represents (n + 1) (first :: more ++ '\n' :: rest) =
      plain represents (first :: more ++ '\n' :: rest) := by
    rw [List.cons_append, value]
    · exact fun _ heq => hne '"' (by decide) (List.cons.inj heq).1
    · exact fun _ heq => hne '"' (by decide) (List.cons.inj heq).1
    · exact fun _ heq => hne '\'' (by decide) (List.cons.inj heq).1
    · exact fun _ heq => hne '\'' (by decide) (List.cons.inj heq).1
    · exact fun _ heq => hne '[' (by decide) (List.cons.inj heq).1
    · exact fun _ heq => hne '{' (by decide) (List.cons.inj heq).1
  rw [hplain, plain, htake, hdrop]
  simp

theorem value_basic {body : List Char} (hbody : body.head? ≠ some '"') (n : Nat) :
    value represents (n + 1) ('"' :: (body ++ '"' :: '\n' :: rest)) =
      quoted (basicString false false (body ++ '"' :: '\n' :: rest)) := by
  cases body with
  | nil => rfl
  | cons first more =>
    rw [List.cons_append, value]
    intro _ heq
    exact hbody (congrArg some (List.cons.inj heq).1)

/-- Digits, with a sign or without, and with a fraction or without. -/
def IsNumber (cs : List Char) : Prop :=
  ∃ sign whole fraction, cs = sign ++ (whole ++ fraction) ∧ (sign = [] ∨ sign = ['-']) ∧
    whole ≠ [] ∧ (∀ c ∈ whole, c.isDigit = true) ∧ (whole.head? ≠ some '0' ∨ whole = ['0']) ∧
    (fraction = [] ∨ ∃ digits, fraction = '.' :: digits ∧ digits ≠ [] ∧
      ∀ c ∈ digits, c.isDigit = true)

theorem isDigits_of_forall {digit : Char → Bool} {cs : List Char} (hne : cs ≠ [])
    (h : ∀ c ∈ cs, digit c = true) (hline : digit '_' = false) : isDigits digit cs = true := by
  induction cs with
  | nil => exact absurd rfl hne
  | cons c cs ih =>
    have hc := h c List.mem_cons_self
    cases cs with
    | nil => exact hc
    | cons d cs =>
      have hrest := ih (List.cons_ne_nil d cs) fun e he => h e (List.mem_cons_of_mem c he)
      have hd : d ≠ '_' := by
        rintro rfl
        rw [h '_' (by simp)] at hline
        cases hline
      rw [isDigits, hc, hrest]
      · rfl
      · exact List.cons_ne_nil d cs
      · exact fun _ heq => hd (List.cons.inj heq).1

theorem digit_or_of_isDigits {digit : Char → Bool} {cs : List Char}
    (h : isDigits digit cs = true) : ∀ c ∈ cs, digit c = true ∨ c = '_' := by
  fun_induction isDigits digit cs with
  | case1 => cases h
  | case2 c =>
    intro d hd
    rw [List.mem_singleton.mp hd]
    exact .inl h
  | case3 c rest ih =>
    rw [Bool.and_eq_true] at h
    intro d hd
    rcases List.mem_cons.mp hd with rfl | hd
    · exact .inl h.1
    rcases List.mem_cons.mp hd with rfl | hd
    · exact .inr rfl
    · exact ih h.2 d hd
  | case4 c rest hne hline ih =>
    rw [Bool.and_eq_true] at h
    intro d hd
    rcases List.mem_cons.mp hd with rfl | hd
    · exact .inl h.1
    · exact ih h.2 d hd

theorem isToken_of_isDigit (hc : c.isDigit = true) : isToken c = true := by
  simp [isToken, Char.isAlphanum, hc]

theorem isToken_of_isNumber {cs : List Char} (h : IsNumber cs) :
    cs ≠ [] ∧ ∀ c ∈ cs, isToken c = true := by
  obtain ⟨sign, whole, fraction, rfl, hsign, hne, hwhole, -, hfraction⟩ := h
  refine ⟨by simp [hne], ?_⟩
  intro c hc
  rw [List.mem_append, List.mem_append] at hc
  rcases hc with hc | hc | hc
  · rcases hsign with rfl | rfl
    · cases hc
    · rw [List.mem_singleton.mp hc]
      decide
  · exact isToken_of_isDigit (hwhole c hc)
  · rcases hfraction with rfl | ⟨digits, rfl, -, hdigits⟩
    · cases hc
    · rcases List.mem_cons.mp hc with rfl | hc
      · decide
      · exact isToken_of_isDigit (hdigits c hc)

section Number

variable {whole fraction : List Char}

/-- A leading zero is the only digit, so no other base follows it. -/
theorem integer_unsigned (hne : whole ≠ []) (hwhole : ∀ c ∈ whole, c.isDigit = true)
    (hzero : whole.head? ≠ some '0' ∨ whole = ['0'])
    (hfraction : fraction = [] ∨ ∃ digits, fraction = '.' :: digits) :
    integer (whole ++ fraction) = decimal (whole ++ fraction) := by
  obtain ⟨first, more, rfl⟩ := List.exists_cons_of_ne_nil hne
  have hfirst := hwhole first List.mem_cons_self
  have hsign (d : Char) (hd : d.isDigit = false) (rest : List Char) :
      first :: more ++ fraction ≠ d :: rest := by
    intro heq
    rw [(List.cons.inj heq).1, hd] at hfirst
    cases hfirst
  have hbase (d : Char) (hd : d ≠ '.') (rest : List Char) :
      first :: more ++ fraction ≠ '0' :: d :: rest := by
    intro heq
    obtain ⟨rfl, hrest⟩ := List.cons.inj heq
    rcases hzero with hzero | hzero
    · exact hzero rfl
    obtain rfl : more = [] := (List.cons.inj hzero).2
    rcases hfraction with rfl | ⟨digits, rfl⟩
    · cases hrest
    · exact hd (List.cons.inj hrest).1.symm
  rw [integer]
  · exact hbase 'x' (by decide)
  · exact hbase 'o' (by decide)
  · exact hbase 'b' (by decide)
  · exact hsign '+' (by decide)
  · exact hsign '-' (by decide)

theorem skipSign_digits (hne : whole ≠ []) (hwhole : ∀ c ∈ whole, c.isDigit = true)
    (rest : List Char) : skipSign (whole ++ rest) = whole ++ rest := by
  obtain ⟨first, more, rfl⟩ := List.exists_cons_of_ne_nil hne
  have hfirst := hwhole first List.mem_cons_self
  have hsign (d : Char) (hd : d.isDigit = false) (cs : List Char) :
      first :: (more ++ rest) ≠ d :: cs := by
    intro heq
    rw [(List.cons.inj heq).1, hd] at hfirst
    cases hfirst
  rw [List.cons_append, skipSign]
  · exact hsign '+' (by decide)
  · exact hsign '-' (by decide)

theorem isDecimal_of_digits (hne : whole ≠ []) (hwhole : ∀ c ∈ whole, c.isDigit = true)
    (hzero : whole.head? ≠ some '0' ∨ whole = ['0']) : isDecimal whole = true := by
  rw [isDecimal, isDigits_of_forall hne hwhole (by decide), Bool.true_and, Bool.or_eq_true,
    decide_eq_true_eq, decide_eq_true_eq]
  exact hzero

theorem decimal_fraction (digits : List Char) : decimal (whole ++ '.' :: digits) = none := by
  have hdigits : isDigits Char.isDigit (whole ++ '.' :: digits) = false := by
    rw [← Bool.not_eq_true]
    intro h
    have hpoint := digit_or_of_isDigits h '.' (by simp)
    revert hpoint
    decide
  rw [decimal, isDecimal, hdigits]
  rfl

theorem isFloat_fraction (hne : whole ≠ []) (hwhole : ∀ c ∈ whole, c.isDigit = true)
    (hzero : whole.head? ≠ some '0' ∨ whole = ['0']) {digits : List Char} (hdigits : digits ≠ [])
    (hdigit : ∀ c ∈ digits, c.isDigit = true) {cs : List Char}
    (hsign : skipSign cs = whole ++ '.' :: digits) : isFloat cs = true := by
  have hne' {c d : Char} (hc : c.isDigit = true) (hd : d.isDigit = false) : c ≠ d := by
    rintro rfl
    rw [hc] at hd
    cases hd
  have htake : (whole ++ '.' :: digits).takeWhile (fun c => c ≠ '.' && c ≠ 'e' && c ≠ 'E') =
      whole := by
    rw [List.takeWhile_append_of_pos, List.takeWhile_cons_of_neg (by simp), List.append_nil]
    intro c hc
    have hdigit := hwhole c hc
    simp [hne' hdigit (d := '.') (by decide), hne' hdigit (d := 'e') (by decide),
      hne' hdigit (d := 'E') (by decide)]
  have hall : digits.takeWhile (fun c => c ≠ 'e' && c ≠ 'E') = digits := by
    apply List.takeWhile_eq_self_iff.mpr
    intro c hc
    have hdigit := hdigit c hc
    simp [hne' hdigit (d := 'e') (by decide), hne' hdigit (d := 'E') (by decide)]
  simp only [isFloat, hsign, htake, List.drop_left, isDecimal_of_digits hne hwhole hzero, hall,
    isDigits_of_forall hdigits hdigit (by decide)]
  simp

end Number

/-- Without a fraction a number is an integer, and with one it is a float. -/
theorem integer_or_isFloat {cs : List Char} (h : IsNumber cs) :
    (integer cs).isSome = true ∨ integer cs = none ∧ isFloat cs = true := by
  obtain ⟨sign, whole, fraction, rfl, hsign, hne, hwhole, hzero, hfraction⟩ := h
  have hinteger : integer (whole ++ fraction) = decimal (whole ++ fraction) :=
    integer_unsigned hne hwhole hzero (hfraction.imp_right fun h => h.imp fun _ h => h.1)
  have hsigned : integer (sign ++ (whole ++ fraction)) = decimal (whole ++ fraction) ∨
      integer (sign ++ (whole ++ fraction)) = (decimal (whole ++ fraction)).map (- ·) := by
    rcases hsign with rfl | rfl
    · exact .inl hinteger
    · exact .inr rfl
  rcases hfraction with rfl | ⟨digits, rfl, hdigits, hdigit⟩
  · left
    have hdecimal : decimal (whole ++ []) = some (natOf 10 whole) := by
      rw [List.append_nil, decimal, isDecimal_of_digits hne hwhole hzero]
      rfl
    rcases hsigned with heq | heq
    · rw [heq, hdecimal]
      rfl
    · rw [heq, hdecimal]
      rfl
  · right
    constructor
    · rcases hsigned with heq | heq
      · rw [heq, decimal_fraction]
      · rw [heq, decimal_fraction]
        rfl
    · apply isFloat_fraction hne hwhole hzero hdigits hdigit
      rcases hsign with rfl | rfl
      · exact skipSign_digits hne hwhole _
      · rfl

theorem plainValue_of_isNumber {cs : List Char} (h : IsNumber cs) :
    plainValue represents cs =
      match integer cs with
      | some n => if represents n then some (.integer n) else none
      | none => some (.float (.ofList cs)) := by
  have hinteger := integer_or_isFloat h
  have htrue : cs ≠ "true".toList := by
    rintro rfl
    revert hinteger
    decide
  have hfalse : cs ≠ "false".toList := by
    rintro rfl
    revert hinteger
    decide
  rw [plainValue, if_neg htrue, if_neg hfalse]
  rcases hinteger with hinteger | ⟨hinteger, hfloat⟩
  · obtain ⟨n, hn⟩ := Option.isSome_iff_exists.mp hinteger
    rw [hn]
  · rw [hinteger]
    exact if_pos hfloat

end Texts

end Toml
