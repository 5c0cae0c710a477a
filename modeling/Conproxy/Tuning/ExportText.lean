import Conproxy.Lib.TomlStrings
import Conproxy.Tuning.ScopeJson

/-!
# The text of an exported scope

What the fragment of `render_context_scope_toml` says to a reader of TOML. The fragment is printed
field by field, so a field it does not know is left out, and an id, a mode or a phrase that TOML
would need escaped is printed as it is.
-/

namespace Conproxy

open Toml

set_option autoImplicit false

mutual

/-- A value of a document as `serde` is given it. -/
def tomlJson : Value → Json
  | .string text => .string text
  | .integer n => .number (toString n)
  | .float literal => .number literal
  | .boolean b => .bool b
  | .datetime literal => .object [("$__toml_private_datetime", .string literal)]
  | .array items => .array (tomlItems items)
  | .table fields => .object (tomlFields fields)

def tomlItems : List Value → List Json
  | [] => []
  | item :: rest => tomlJson item :: tomlItems rest

def tomlFields : List (String × Value) → List (String × Json)
  | [] => []
  | (name, v) :: rest => (name, tomlJson v) :: tomlFields rest

end

def scopePath (contextId : String) : List String := ["contexts", contextId, "scope"]

/-- The table of the context in the fragment reads as the scope. -/
def ExportSays (represents : Int → Bool) (t : TuneText) (contextId : String) (scope : Json) :
    Prop :=
  ∃ doc table, parse represents (renderContextScopeToml t contextId scope) = some doc ∧
    doc.get (scopePath contextId) = some table ∧ readScope t (tomlJson table) = readScope t scope

/-- An `f64` is displayed by its digits, without an exponent. -/
structure TuneText.Displays (t : TuneText) : Prop where
  isNumber : ∀ literal, IsNumber (t.display literal).toList

/-- A number reads back as it was, also where its text is that of an integer. -/
def TuneText.KeepsNumber (t : TuneText) (value : Option Json) : Prop :=
  ∀ literal, value = some (.number literal) →
    t.asF32 (t.display literal) = t.asF32 literal ∧
      ∀ n, integer (t.display literal).toList = some n → t.asF32 (toString n) = t.asF32 literal

/-- Missing, or the same as missing. -/
def saysNothing : Option Json → Bool
  | none => true
  | some .null => true
  | some (.array []) => true
  | _ => false

/-- The fields of a scope for which there is no line, and the names under which a field is not
looked for. -/
def unprinted : List String :=
  ["seeds", "phrases", "min_seed_similarity", "seed_weight", "query_prefix", "embed_band"]

def scopePhrases (scope : Json) : List Json :=
  ((scope.get "weighted_phrases").bind Json.asArray).getD []

/-- The numbers that have a line read back as they were. -/
structure TuneText.KeepsNumbers (t : TuneText) (scope : Json) : Prop where
  minSimilarity : t.KeepsNumber (scope.get "min_similarity")
  scopeWeight : t.KeepsNumber (scope.get "scope_weight")
  lexicalWeight : t.KeepsNumber (scope.get "lexical_weight")
  phrases : ∀ phrase ∈ scopePhrases scope,
    t.KeepsNumber (phrase.get "weight") ∧ t.KeepsNumber (phrase.get "min_similarity")

/-- A number is printed as an integer only if the reader has it. -/
def Represented (represents : Int → Bool) (t : TuneText) (value : Option Json) : Prop :=
  ∀ literal n, value = some (.number literal) → integer (t.display literal).toList = some n →
    represents n = true

/-- The quotes and backslashes of a text are escaped, its control characters are not. -/
structure LegiblePhrase (represents : Int → Bool) (t : TuneText) (phrase : Json) : Prop where
  text : ∀ text, phrase.get "text" = some (.string text) → text.toList.all isText = true
  weight : Represented represents t (phrase.get "weight")
  minSimilarity : Represented represents t (phrase.get "min_similarity")

/-- Every line of the fragment can be read. -/
structure Legible (represents : Int → Bool) (t : TuneText) (scope : Json) : Prop where
  mode : ∀ mode, scope.get "mode" = some (.string mode) → mode.toList.all isUnescaped = true
  minSimilarity : Represented represents t (scope.get "min_similarity")
  scopeWeight : Represented represents t (scope.get "scope_weight")
  lexicalWeight : Represented represents t (scope.get "lexical_weight")
  phrases : ∀ phrase ∈ scopePhrases scope, LegiblePhrase represents t phrase

/-- Nothing is left out of the fragment. -/
structure Printable (represents : Int → Bool) (t : TuneText) (scope : Json) : Prop extends
    Legible represents t scope where
  unprinted : ∀ name ∈ unprinted, saysNothing (scope.get name) = true
  objects : ∀ phrase ∈ scopePhrases scope, ∃ fields, phrase = .object fields

/-- A field that is printed: its name, the text of its value, and the value it is meant to be. -/
structure PrintedField where
  name : String
  text : List Char
  value : Value

namespace PrintedField

def line (field : PrintedField) : List Char := pairLine field.name field.text

def pair (field : PrintedField) : String × Value := (field.name, field.value)

end PrintedField

section Lines

variable (t : TuneText)

/-- How a number in the text is read. -/
def numberValue (text : String) : Value :=
  match integer text.toList with
  | some n => .integer n
  | none => .float text

def printedNumber (name : String) (value : Json) : List PrintedField :=
  (((value.get name).bind Json.asNumber).map fun literal =>
    ⟨name, (t.display literal).toList, numberValue (t.display literal)⟩).toList

def printedMode (scope : Json) : List PrintedField :=
  (((scope.get "mode").bind Json.asStr).map fun mode =>
    ⟨"mode", '"' :: (mode.toList ++ ['"']), .string mode⟩).toList

def printedText (phrase : Json) : List PrintedField :=
  (((phrase.get "text").bind Json.asStr).map fun text =>
    ⟨"text", '"' :: ((escapeQuotes text).toList ++ ['"']), .string text⟩).toList

def printedFields (scope : Json) : List PrintedField :=
  printedMode scope ++ printedNumber t "min_similarity" scope ++
    printedNumber t "scope_weight" scope ++ printedNumber t "lexical_weight" scope

def printedPhrase (phrase : Json) : List PrintedField :=
  printedText phrase ++ printedNumber t "weight" phrase ++ printedNumber t "min_similarity" phrase

def headerLine (contextId : String) : List Char := '[' :: (printPath (scopePath contextId) ++ [']'])

def elementPath (contextId : String) : List String := scopePath contextId ++ ["weighted_phrases"]

def elementLine (contextId : String) : List Char :=
  '[' :: '[' :: (printPath (elementPath contextId) ++ [']', ']'])

def phraseLines (contextId : String) (phrase : Json) : List (List Char) :=
  [] :: elementLine contextId :: (printedPhrase t phrase).map PrintedField.line

def fragmentLines (contextId : String) (scope : Json) : List (List Char) :=
  headerLine contextId :: (printedFields t scope).map PrintedField.line ++
    (scopePhrases scope).flatMap (phraseLines t contextId)

end Lines

section Text

variable {t : TuneText} {contextId : String}

theorem unlines_append (lines lines' : List (List Char)) :
    unlines (lines ++ lines') = unlines lines ++ unlines lines' := List.flatMap_append

theorem toList_numberLine (name : String) (value : Json) :
    (numberLine t name value).toList =
      unlines ((printedNumber t name value).map PrintedField.line) := by
  unfold numberLine printedNumber
  cases (value.get name).bind Json.asNumber with
  | none => rfl
  | some literal => simp [unlines, PrintedField.line, pairLine]

theorem toList_renderPhrase (phrase : Json) :
    (renderPhrase t contextId phrase).toList = unlines (phraseLines t contextId phrase) := by
  have hheader : ("\n" ++ "[[contexts." ++ contextId ++ ".scope.weighted_phrases]]\n").toList =
      unlines [[], elementLine contextId] := by
    simp [unlines, elementLine, elementPath, scopePath, printPath]
  have hlines : phraseLines t contextId phrase = [[], elementLine contextId] ++
      (printedText phrase).map PrintedField.line ++
      (printedNumber t "weight" phrase).map PrintedField.line ++
      (printedNumber t "min_similarity" phrase).map PrintedField.line := by
    simp [phraseLines, printedPhrase]
  rw [hlines, unlines_append, unlines_append, unlines_append, ← toList_numberLine,
    ← toList_numberLine, ← hheader, renderPhrase, String.toList_append, String.toList_append,
    String.toList_append]
  congr 3
  unfold printedText
  cases (phrase.get "text").bind Json.asStr with
  | none => rfl
  | some text => simp [unlines, PrintedField.line, pairLine]

theorem toList_renderContextScopeToml (scope : Json) :
    (renderContextScopeToml t contextId scope).toList =
      unlines (fragmentLines t contextId scope) := by
  have hheader : ("[contexts." ++ contextId ++ ".scope]\n").toList =
      unlines [headerLine contextId] := by
    simp [unlines, headerLine, scopePath, printPath]
  have hphrases : (String.join ((scopePhrases scope).map (renderPhrase t contextId))).toList =
      unlines ((scopePhrases scope).flatMap (phraseLines t contextId)) := by
    rw [String.toList_join, List.flatMap_map, unlines, List.flatMap_assoc]
    exact List.flatMap_congr fun phrase _ => toList_renderPhrase phrase
  have hlines : fragmentLines t contextId scope = [headerLine contextId] ++
      (printedMode scope).map PrintedField.line ++
      (printedNumber t "min_similarity" scope).map PrintedField.line ++
      (printedNumber t "scope_weight" scope).map PrintedField.line ++
      (printedNumber t "lexical_weight" scope).map PrintedField.line ++
      (scopePhrases scope).flatMap (phraseLines t contextId) := by
    simp [fragmentLines, printedFields]
  rw [hlines, unlines_append, unlines_append, unlines_append, unlines_append, unlines_append,
    ← toList_numberLine, ← toList_numberLine, ← toList_numberLine, ← hheader, ← hphrases,
    renderContextScopeToml, String.toList_append, String.toList_append, String.toList_append,
    String.toList_append, String.toList_append]
  congr 5
  unfold printedMode
  cases (scope.get "mode").bind Json.asStr with
  | none => rfl
  | some mode => simp [unlines, PrintedField.line, pairLine]

end Text

/-! ## Reading the lines -/

section Read

variable {t : TuneText} {represents : Int → Bool} {name : String} {value scope phrase : Json}

def PrintedField.Reads (represents : Int → Bool) (field : PrintedField) : Prop :=
  LineReads represents field.line [.pair [field.name] field.value]

theorem value_display (ht : t.Displays) (literal : String) (n : Nat) (rest : List Char) :
    Toml.value represents (n + 1) ((t.display literal).toList ++ '\n' :: rest) =
      (plainValue represents (t.display literal).toList).map fun v => (v, '\n' :: rest) := by
  obtain ⟨hne, htoken⟩ := isToken_of_isNumber (ht.isNumber literal)
  obtain ⟨first, more, htext⟩ := List.exists_cons_of_ne_nil hne
  rw [htext]
  exact value_token (htext ▸ htoken) n

theorem valueReads_number (ht : t.Displays) {literal : String}
    (hrepresented : ∀ n, integer (t.display literal).toList = some n → represents n = true) :
    ValueReads represents (t.display literal).toList (numberValue (t.display literal)) := by
  intro n rest
  rw [value_display ht, plainValue_of_isNumber (ht.isNumber literal), numberValue]
  cases hinteger : integer (t.display literal).toList with
  | none => simp
  | some m => simp [hrepresented m hinteger]

theorem valueFails_number (ht : t.Displays) {literal : String} {m : Int}
    (hinteger : integer (t.display literal).toList = some m) (hm : represents m = false) :
    ValueFails represents (t.display literal).toList := by
  intro n rest
  rw [value_display ht, plainValue_of_isNumber (ht.isNumber literal), hinteger]
  simp [hm]

theorem exists_cons_display (ht : t.Displays) (literal : String) :
    ∃ first more, (t.display literal).toList = first :: more ∧ isBlank first = false := by
  obtain ⟨hne, htoken⟩ := isToken_of_isNumber (ht.isNumber literal)
  obtain ⟨first, more, htext⟩ := List.exists_cons_of_ne_nil hne
  have hfirst : isToken first = true := htoken first (htext ▸ List.mem_cons_self)
  have hblank (c : Char) (hc : isToken c = false) : first ≠ c := by
    rintro rfl
    rw [hfirst] at hc
    cases hc
  refine ⟨first, more, htext, ?_⟩
  simp [isBlank, hblank ' ' (by decide), hblank '\t' (by decide)]

theorem mem_printedNumber {field : PrintedField} :
    field ∈ printedNumber t name value ↔ ∃ literal, value.get name = some (.number literal) ∧
      field = ⟨name, (t.display literal).toList, numberValue (t.display literal)⟩ := by
  unfold printedNumber
  rw [Option.mem_toList, Option.map_eq_some_iff]
  constructor
  · rintro ⟨literal, hliteral, rfl⟩
    obtain ⟨json, hjson, hnumber⟩ := Option.bind_eq_some_iff.mp hliteral
    cases json with
    | number literal' =>
      cases hnumber
      exact ⟨literal, hjson, rfl⟩
    | _ => cases hnumber
  · rintro ⟨literal, hget, rfl⟩
    exact ⟨literal, by rw [hget]; rfl, rfl⟩

theorem number_reads (ht : t.Displays) (hname : isBareKey name = true)
    (hrepresented : Represented represents t (value.get name)) {field : PrintedField}
    (hfield : field ∈ printedNumber t name value) : field.Reads represents := by
  obtain ⟨literal, hget, rfl⟩ := mem_printedNumber.mp hfield
  obtain ⟨first, more, htext, hfirst⟩ := exists_cons_display ht literal
  have hreads := valueReads_number ht fun n => hrepresented literal n hget
  unfold PrintedField.Reads PrintedField.line
  rw [htext] at hreads ⊢
  exact lineReads_pair hname hfirst hreads

theorem number_fails (ht : t.Displays) (hname : isBareKey name = true)
    (hrepresented : ¬ Represented represents t (value.get name)) :
    ∃ field, printedNumber t name value = [field] ∧ LineFails represents field.line := by
  have hlarge : ∃ literal n, value.get name = some (.number literal) ∧
      integer (t.display literal).toList = some n ∧ represents n = false := by
    by_contra hnone
    apply hrepresented
    intro literal n hget hinteger
    by_contra hn
    exact hnone ⟨literal, n, hget, hinteger, Bool.eq_false_iff.mpr hn⟩
  obtain ⟨literal, n, hget, hinteger, hn⟩ := hlarge
  obtain ⟨first, more, htext, hfirst⟩ := exists_cons_display ht literal
  have hfails := valueFails_number ht hinteger hn
  refine ⟨⟨name, (t.display literal).toList, numberValue (t.display literal)⟩, ?_, ?_⟩
  · rw [printedNumber, hget]
    rfl
  · unfold PrintedField.line
    rw [htext] at hfails ⊢
    exact lineFails_pair hname hfirst hfails

theorem number_reads_or_fails (ht : t.Displays) (hname : isBareKey name = true)
    {field : PrintedField} (hfield : field ∈ printedNumber t name value) :
    field.Reads represents ∨ LineFails represents field.line := by
  by_cases hrepresented : Represented represents t (value.get name)
  · exact .inl (number_reads ht hname hrepresented hfield)
  · obtain ⟨field', honly, hfails⟩ := number_fails ht hname hrepresented
    rw [honly, List.mem_singleton] at hfield
    exact .inr (hfield ▸ hfails)

theorem represented_of_reads (ht : t.Displays) (hname : isBareKey name = true)
    (hreads : ∀ field ∈ printedNumber t name value, ¬ LineFails represents field.line) :
    Represented represents t (value.get name) := by
  by_contra hrepresented
  obtain ⟨field, honly, hfails⟩ := number_fails ht hname hrepresented
  exact hreads field (honly ▸ List.mem_singleton_self field) hfails

/-- The escaped text reads as the text, up to its first control character. -/
theorem basicString_escapeQuotes (text rest : List Char) :
    basicString false false ((text.flatMap fun c =>
      if c = '\\' then ['\\', '\\'] else if c = '"' then ['\\', '"'] else [c]) ++ '"' :: rest) =
      if text.all isText = true then some (text, rest) else none := by
  induction text with
  | nil => exact basicString_quote
  | cons c text ih =>
    rw [List.flatMap_cons, List.append_assoc, List.all_cons]
    have hescape (d : Char) (hd : d = '"' ∨ d = '\\') (cs : List Char) :
        basicString false false ('\\' :: d :: cs) = prepend d (basicString false false cs) := by
      rcases hd with rfl | rfl
      · exact basicString_escaped_quote
      · exact basicString_escaped_slash
    have hprepend : prepend c (if text.all isText = true then some (text, rest) else none) =
        if text.all isText = true then some (c :: text, rest) else none := by
      split <;> rfl
    by_cases hslash : c = '\\'
    · subst hslash
      rw [if_pos rfl]
      change basicString false false ('\\' :: '\\' :: (_ ++ '"' :: rest)) = _
      rw [hescape _ (.inr rfl), ih, hprepend]
      rfl
    by_cases hquote : c = '"'
    · subst hquote
      rw [if_neg hslash, if_pos rfl]
      change basicString false false ('\\' :: '"' :: (_ ++ '"' :: rest)) = _
      rw [hescape _ (.inl rfl), ih, hprepend]
      rfl
    rw [if_neg hslash, if_neg hquote]
    change basicString false false (c :: (_ ++ '"' :: rest)) = _
    cases htext : isText c with
    | false =>
      rw [basicString_control hquote hslash htext]
      rfl
    | true =>
      rw [basicString_text hquote hslash htext, ih, hprepend]
      rfl

theorem toList_escapeQuotes (text : String) :
    (escapeQuotes text).toList = text.toList.flatMap fun c =>
      if c = '\\' then ['\\', '\\'] else if c = '"' then ['\\', '"'] else [c] :=
  String.toList_ofList

theorem head_escapeQuotes (text : String) : (escapeQuotes text).toList.head? ≠ some '"' := by
  rw [toList_escapeQuotes]
  cases text.toList with
  | nil => exact fun h => by cases h
  | cons c cs =>
    rw [List.flatMap_cons]
    split
    · exact fun h => absurd (Option.some.inj h) (by decide)
    · split
      · exact fun h => absurd (Option.some.inj h) (by decide)
      · next hquote => exact fun h => hquote (Option.some.inj h)

theorem value_text (text : String) (n : Nat) (rest : List Char) :
    Toml.value represents (n + 1) ('"' :: ((escapeQuotes text).toList ++ ['"']) ++ '\n' :: rest) =
      if text.toList.all isText = true then some (.string text, '\n' :: rest) else none := by
  rw [List.cons_append, List.append_assoc, List.singleton_append,
    value_basic (head_escapeQuotes text), toList_escapeQuotes, basicString_escapeQuotes]
  split
  · rw [quoted, Option.map_some, String.ofList_toList]
  · rfl

theorem mem_printedText {field : PrintedField} :
    field ∈ printedText phrase ↔ ∃ text, phrase.get "text" = some (.string text) ∧
      field = ⟨"text", '"' :: ((escapeQuotes text).toList ++ ['"']), .string text⟩ := by
  unfold printedText
  rw [Option.mem_toList, Option.map_eq_some_iff]
  constructor
  · rintro ⟨text, htext, rfl⟩
    obtain ⟨json, hjson, hstring⟩ := Option.bind_eq_some_iff.mp htext
    cases json with
    | string text' =>
      cases hstring
      exact ⟨text, hjson, rfl⟩
    | _ => cases hstring
  · rintro ⟨text, hget, rfl⟩
    exact ⟨text, by rw [hget]; rfl, rfl⟩

theorem text_reads {text : String} (htext : text.toList.all isText = true) :
    PrintedField.Reads represents
      ⟨"text", '"' :: ((escapeQuotes text).toList ++ ['"']), .string text⟩ := by
  have hname : isBareKey "text" = true := by decide
  apply lineReads_pair hname (by decide)
  intro n rest
  rw [value_text, if_pos htext]

theorem text_fails {text : String} (htext : text.toList.all isText = false) :
    LineFails represents (pairLine "text" ('"' :: ((escapeQuotes text).toList ++ ['"']))) := by
  apply lineFails_pair (by decide) (by decide)
  intro n rest
  rw [value_text, htext]
  rfl

theorem basicString_unescaped {text : List Char} (htext : text.all isUnescaped = true)
    (rest : List Char) : basicString false false (text ++ '"' :: rest) = some (text, rest) := by
  induction text with
  | nil => exact basicString_quote
  | cons c text ih =>
    rw [List.all_cons, Bool.and_eq_true] at htext
    have hc := htext.1
    simp only [isUnescaped, Bool.and_eq_true, decide_eq_true_eq] at hc
    rw [List.cons_append, basicString_text hc.1.2 hc.2 hc.1.1, ih htext.2]
    rfl

theorem mem_printedMode {field : PrintedField} :
    field ∈ printedMode scope ↔ ∃ mode, scope.get "mode" = some (.string mode) ∧
      field = ⟨"mode", '"' :: (mode.toList ++ ['"']), .string mode⟩ := by
  unfold printedMode
  rw [Option.mem_toList, Option.map_eq_some_iff]
  constructor
  · rintro ⟨mode, hmode, rfl⟩
    obtain ⟨json, hjson, hstring⟩ := Option.bind_eq_some_iff.mp hmode
    cases json with
    | string mode' =>
      cases hstring
      exact ⟨mode, hjson, rfl⟩
    | _ => cases hstring
  · rintro ⟨mode, hget, rfl⟩
    exact ⟨mode, by rw [hget]; rfl, rfl⟩

theorem mode_reads {mode : String} (hmode : mode.toList.all isUnescaped = true) :
    PrintedField.Reads represents ⟨"mode", '"' :: (mode.toList ++ ['"']), .string mode⟩ := by
  have hhead : mode.toList.head? ≠ some '"' := by
    cases hlist : mode.toList with
    | nil => exact fun h => by cases h
    | cons c cs =>
      rw [hlist, List.all_cons, Bool.and_eq_true] at hmode
      intro h
      rw [Option.some.inj h] at hmode
      exact absurd hmode.1 (by decide)
  have hname : isBareKey "mode" = true := by decide
  apply lineReads_pair hname (by decide)
  intro n rest
  rw [List.cons_append, List.append_assoc, List.singleton_append, value_basic hhead,
    basicString_unescaped hmode, quoted, Option.map_some, String.ofList_toList]

theorem names_printedNumber :
    List.Sublist ((printedNumber t name value).map PrintedField.name) [name] := by
  unfold printedNumber
  cases (value.get name).bind Json.asNumber with
  | none => exact List.nil_sublist _
  | some literal => exact List.Sublist.refl _

theorem names_printedFields :
    List.Sublist ((printedFields t scope).map PrintedField.name)
      ["mode", "min_similarity", "scope_weight", "lexical_weight"] := by
  have hmode : List.Sublist ((printedMode scope).map PrintedField.name) ["mode"] := by
    unfold printedMode
    cases (scope.get "mode").bind Json.asStr with
    | none => exact List.nil_sublist _
    | some mode => exact List.Sublist.refl _
  rw [printedFields, List.map_append, List.map_append, List.map_append]
  exact ((hmode.append names_printedNumber).append names_printedNumber).append names_printedNumber

theorem names_printedPhrase :
    List.Sublist ((printedPhrase t phrase).map PrintedField.name)
      ["text", "weight", "min_similarity"] := by
  have htext : List.Sublist ((printedText phrase).map PrintedField.name) ["text"] := by
    unfold printedText
    cases (phrase.get "text").bind Json.asStr with
    | none => exact List.nil_sublist _
    | some text => exact List.Sublist.refl _
  rw [printedPhrase, List.map_append, List.map_append]
  exact (htext.append names_printedNumber).append names_printedNumber

theorem phrase_reads (ht : t.Displays) (h : LegiblePhrase represents t phrase)
    {field : PrintedField} (hfield : field ∈ printedPhrase t phrase) : field.Reads represents := by
  rw [printedPhrase, List.mem_append, List.mem_append] at hfield
  rcases hfield with (hfield | hfield) | hfield
  · obtain ⟨text, hget, rfl⟩ := mem_printedText.mp hfield
    exact text_reads (h.text text hget)
  · exact number_reads ht (by decide) h.weight hfield
  · exact number_reads ht (by decide) h.minSimilarity hfield

theorem scope_reads (ht : t.Displays) (h : Legible represents t scope) {field : PrintedField}
    (hfield : field ∈ printedFields t scope) : field.Reads represents := by
  rw [printedFields, List.mem_append, List.mem_append, List.mem_append] at hfield
  rcases hfield with ((hfield | hfield) | hfield) | hfield
  · obtain ⟨mode, hget, rfl⟩ := mem_printedMode.mp hfield
    exact mode_reads (h.mode mode hget)
  · exact number_reads ht (by decide) h.minSimilarity hfield
  · exact number_reads ht (by decide) h.scopeWeight hfield
  · exact number_reads ht (by decide) h.lexicalWeight hfield

variable {contextId : String}

/-- The lines with what they say. -/
def phraseExpressions (t : TuneText) (contextId : String) (phrase : Json) :
    List (List Char × List Expression) :=
  ([], []) :: (elementLine contextId, [.element (elementPath contextId)]) ::
    (printedPhrase t phrase).map fun field => (field.line, [.pair [field.name] field.value])

def fragmentExpressions (t : TuneText) (contextId : String) (scope : Json) :
    List (List Char × List Expression) :=
  (headerLine contextId, [.header (scopePath contextId)]) ::
    ((printedFields t scope).map fun field => (field.line, [.pair [field.name] field.value])) ++
    (scopePhrases scope).flatMap (phraseExpressions t contextId)

theorem map_fst_fragmentExpressions :
    (fragmentExpressions t contextId scope).map Prod.fst = fragmentLines t contextId scope := by
  simp only [fragmentExpressions, fragmentLines, phraseExpressions, List.map_append,
    List.map_cons, List.map_map, List.map_flatMap]
  rfl

def scopeValues (t : TuneText) (scope : Json) : List (String × Value) :=
  (printedFields t scope).map PrintedField.pair

def phraseValues (t : TuneText) (phrase : Json) : List (String × Value) :=
  (printedPhrase t phrase).map PrintedField.pair

theorem flatMap_pairs (fields : List PrintedField) :
    (fields.map fun field => (field.line, [Expression.pair [field.name] field.value])).flatMap
      Prod.snd = pairs (fields.map PrintedField.pair) := by
  induction fields with
  | nil => rfl
  | cons field fields ih =>
    rw [List.map_cons, List.flatMap_cons, ih]
    rfl

theorem flatMap_snd_fragmentExpressions :
    (fragmentExpressions t contextId scope).flatMap Prod.snd =
      .header (scopePath contextId) :: (pairs (scopeValues t scope) ++
        elements (elementPath contextId) ((scopePhrases scope).map (phraseValues t))) := by
  have hphrase (phrase : Json) : (phraseExpressions t contextId phrase).flatMap Prod.snd =
      .element (elementPath contextId) :: pairs (phraseValues t phrase) := by
    rw [phraseExpressions, List.flatMap_cons, List.flatMap_cons, flatMap_pairs]
    rfl
  rw [fragmentExpressions, List.cons_append, List.flatMap_cons, List.flatMap_append,
    flatMap_pairs, List.flatMap_assoc, elements, List.flatMap_map]
  simp only [hphrase]
  rfl

theorem isBareKey_of_mem_path (hid : isBareKey contextId = true) :
    ∀ name ∈ elementPath contextId, isBareKey name = true := by
  intro name hname
  simp only [elementPath, scopePath, List.mem_append, List.mem_cons, List.not_mem_nil,
    or_false] at hname
  rcases hname with (rfl | rfl | rfl) | rfl
  · decide
  · exact hid
  · decide
  · decide

theorem header_reads (hid : isBareKey contextId = true) :
    LineReads represents (headerLine contextId) [.header (scopePath contextId)] :=
  lineReads_header (List.cons_ne_nil _ _) fun name hname =>
    isBareKey_of_mem_path hid name (List.mem_append_left _ hname)

theorem element_reads (hid : isBareKey contextId = true) :
    LineReads represents (elementLine contextId) [.element (elementPath contextId)] :=
  lineReads_element (List.cons_ne_nil _ _) (isBareKey_of_mem_path hid)

theorem fragment_reads (ht : t.Displays) (hid : isBareKey contextId = true)
    (h : Legible represents t scope) :
    ∀ line ∈ fragmentExpressions t contextId scope, LineReads represents line.1 line.2 := by
  intro line hline
  rw [fragmentExpressions, List.mem_append, List.mem_cons] at hline
  rcases hline with (rfl | hline) | hline
  · exact header_reads hid
  · obtain ⟨field, hfield, rfl⟩ := List.mem_map.mp hline
    exact scope_reads ht h hfield
  · obtain ⟨phrase, hphrase, hline⟩ := List.mem_flatMap.mp hline
    rcases List.mem_cons.mp hline with rfl | hline
    · exact lineReads_empty
    rcases List.mem_cons.mp hline with rfl | hline
    · exact element_reads hid
    · obtain ⟨field, hfield, rfl⟩ := List.mem_map.mp hline
      exact phrase_reads ht (h.phrases phrase hphrase) hfield

/-- The table that a legible fragment has for its context. -/
def printedTable (t : TuneText) (scope : Json) : Value :=
  .table (withItems "weighted_phrases" (scopeValues t scope)
    ((scopePhrases scope).map (phraseValues t)))

/-- A legible fragment is a document with the printed fields. -/
theorem parse_fragment (ht : t.Displays) (hid : isBareKey contextId = true)
    (h : Legible represents t scope) :
    ∃ doc, parse represents (renderContextScopeToml t contextId scope) = some doc ∧
      doc.get (scopePath contextId) = some (printedTable t scope) := by
  have hvalues : (scopeValues t scope).map Prod.fst =
      (printedFields t scope).map PrintedField.name := List.map_map
  have hitems : ∀ item ∈ (scopePhrases scope).map (phraseValues t),
      (item.map Prod.fst).Nodup := by
    intro item hitem
    obtain ⟨phrase, -, rfl⟩ := List.mem_map.mp hitem
    have hnames : (phraseValues t phrase).map Prod.fst =
        (printedPhrase t phrase).map PrintedField.name := List.map_map
    rw [hnames]
    exact List.Nodup.sublist names_printedPhrase (by decide)
  have hnodup : ((scopeValues t scope).map Prod.fst).Nodup := by
    rw [hvalues]
    exact List.Nodup.sublist names_printedFields (by decide)
  have hname : "weighted_phrases" ∉ (scopeValues t scope).map Prod.fst := by
    rw [hvalues]
    intro hmem
    exact absurd (names_printedFields.subset hmem) (by decide)
  obtain ⟨doc, hbuild, hget⟩ : ∃ doc, build (.header (scopePath contextId) ::
      (pairs (scopeValues t scope) ++
        elements (elementPath contextId) ((scopePhrases scope).map (phraseValues t)))) = some doc ∧
      doc.root.close.get (scopePath contextId) = some (printedTable t scope) :=
    build_section "contexts" [contextId, "scope"] hnodup hname hitems
  have hdocument := document_unlines (fragment_reads ht hid h) (Nat.lt_succ_self _)
  rw [flatMap_snd_fragmentExpressions, map_fst_fragmentExpressions,
    ← toList_renderContextScopeToml] at hdocument
  refine ⟨doc.root.close, ?_, hget⟩
  rw [parse, hdocument]
  change (build _).bind _ = _
  rw [hbuild]
  rfl

end Read

section Document

variable {t : TuneText} {represents : Int → Bool} {scope : Json} {contextId : String}

theorem quote_not_mem_of_isBareKey {name : String} (hname : isBareKey name = true) :
    '"' ∉ name.toList := by
  intro hmem
  exact absurd ((isBareKey_iff.mp hname).2 '"' hmem) (by decide)

theorem quoteRun_number (ht : t.Displays) {name : String} (hname : isBareKey name = true)
    {value : Json} {field : PrintedField} (hfield : field ∈ printedNumber t name value) :
    ∃ m, quoteRun 0 field.line = some m := by
  obtain ⟨literal, -, rfl⟩ := mem_printedNumber.mp hfield
  have htoken := (isToken_of_isNumber (ht.isNumber literal)).2
  apply quoteRun_of_not_mem
  intro hmem
  rw [PrintedField.line, pairLine, List.mem_append, List.mem_cons, List.mem_cons,
    List.mem_cons] at hmem
  rcases hmem with hmem | hmem | hmem | hmem | hmem
  · exact quote_not_mem_of_isBareKey hname hmem
  · exact absurd hmem (by decide)
  · exact absurd hmem (by decide)
  · exact absurd hmem (by decide)
  · exact absurd (htoken '"' hmem) (by decide)

theorem quoteRun_escapeQuotes (text : List Char) {n : Nat} (hn : n ≤ 1) :
    ∃ m ≤ 1, quoteRun n (text.flatMap fun c =>
      if c = '\\' then ['\\', '\\'] else if c = '"' then ['\\', '"'] else [c]) = some m := by
  induction text generalizing n with
  | nil => exact ⟨n, hn, rfl⟩
  | cons c text ih =>
    rw [List.flatMap_cons, quoteRun_append]
    have hfirst : ∃ m ≤ 1, quoteRun n
        (if c = '\\' then ['\\', '\\'] else if c = '"' then ['\\', '"'] else [c]) = some m := by
      split
      · exact ⟨0, Nat.zero_le _, rfl⟩
      · split
        · exact ⟨1, Nat.le_refl _, rfl⟩
        · next hquote =>
          refine ⟨0, Nat.zero_le _, ?_⟩
          rw [quoteRun, if_neg hquote, quoteRun]
    obtain ⟨m, hm, hrun⟩ := hfirst
    rw [hrun]
    exact ih hm

theorem quoteRun_text (text : String) :
    ∃ m, quoteRun 0 (pairLine "text" ('"' :: ((escapeQuotes text).toList ++ ['"']))) = some m := by
  obtain ⟨m, hm, hrun⟩ := quoteRun_escapeQuotes text.toList (Nat.le_refl 1)
  rw [← toList_escapeQuotes] at hrun
  have hline : pairLine "text" ('"' :: ((escapeQuotes text).toList ++ ['"'])) =
      ['t', 'e', 'x', 't', ' ', '=', ' ', '"'] ++ ((escapeQuotes text).toList ++ ['"']) := rfl
  have hstart : quoteRun 0 ['t', 'e', 'x', 't', ' ', '=', ' ', '"'] = some 1 := by decide
  refine ⟨m + 1, ?_⟩
  rw [hline, quoteRun_append, hstart, Option.bind_some, quoteRun_append, hrun, Option.bind_some,
    quoteRun, if_pos rfl, if_pos (by omega), quoteRun]

theorem quoteRun_phraseLines (ht : t.Displays) (hid : isBareKey contextId = true) {phrase : Json} :
    ∀ line ∈ phraseLines t contextId phrase, ∃ m, quoteRun 0 line = some m := by
  intro line hline
  rcases List.mem_cons.mp hline with rfl | hline
  · exact ⟨0, rfl⟩
  rcases List.mem_cons.mp hline with rfl | hline
  · apply quoteRun_of_not_mem
    have hquote := quote_not_mem_of_isBareKey hid
    simp [elementLine, elementPath, scopePath, printPath, hquote]
  · obtain ⟨field, hfield, rfl⟩ := List.mem_map.mp hline
    rw [printedPhrase, List.mem_append, List.mem_append] at hfield
    rcases hfield with (hfield | hfield) | hfield
    · obtain ⟨text, -, rfl⟩ := mem_printedText.mp hfield
      exact quoteRun_text text
    · exact quoteRun_number ht (by decide) hfield
    · exact quoteRun_number ht (by decide) hfield

def laterLines (t : TuneText) (contextId : String) (scope : Json) : List (List Char) :=
  (printedNumber t "min_similarity" scope ++ printedNumber t "scope_weight" scope ++
      printedNumber t "lexical_weight" scope).map PrintedField.line ++
    (scopePhrases scope).flatMap (phraseLines t contextId)

theorem quoteRun_laterLines (ht : t.Displays) (hid : isBareKey contextId = true) :
    quoteRun 0 (unlines (laterLines t contextId scope)) ≠ none := by
  have hrun : quoteRun 0 (unlines (laterLines t contextId scope)) = some 0 := by
    apply quoteRun_unlines
    intro line hline
    rcases List.mem_append.mp hline with hline | hline
    · obtain ⟨field, hfield, rfl⟩ := List.mem_map.mp hline
      rw [List.mem_append, List.mem_append] at hfield
      rcases hfield with (hfield | hfield) | hfield
      · exact quoteRun_number ht (by decide) hfield
      · exact quoteRun_number ht (by decide) hfield
      · exact quoteRun_number ht (by decide) hfield
    · obtain ⟨phrase, -, hline⟩ := List.mem_flatMap.mp hline
      exact quoteRun_phraseLines ht hid line hline
  rw [hrun]
  exact Option.some_ne_none 0

theorem fragmentLines_of_mode {mode : String} (hmode : scope.get "mode" = some (.string mode)) :
    fragmentLines t contextId scope = headerLine contextId ::
      pairLine "mode" ('"' :: (mode.toList ++ ['"'])) :: laterLines t contextId scope := by
  have hprinted : printedMode scope =
      [⟨"mode", '"' :: (mode.toList ++ ['"']), .string mode⟩] := by
    rw [printedMode, hmode]
    rfl
  rw [fragmentLines, printedFields, hprinted, laterLines]
  simp [PrintedField.line]

/-- The first expressions of a document whose scope has a mode. -/
theorem expressions_of_mode (hid : isBareKey contextId = true) {mode : String}
    (hmode : scope.get "mode" = some (.string mode)) {n : Nat} {es : List Expression}
    (hn : (unlines (fragmentLines t contextId scope)).length < n)
    (hdocument : document represents n (unlines (fragmentLines t contextId scope)) = some es) :
    ∃ m v rest more,
      Toml.value represents (m + 1) ('"' :: (mode.toList ++ '"' :: '\n' ::
        unlines (laterLines t contextId scope))) = some (v, rest) ∧
      es = .header (scopePath contextId) :: .pair ["mode"] v :: more := by
  rw [fragmentLines_of_mode hmode, unlines_cons, unlines_cons] at hn hdocument
  rw [List.length_append, List.length_cons, List.length_append, List.length_cons] at hn
  obtain ⟨n, rfl⟩ : ∃ m, n = m + 3 := ⟨n - 3, by omega⟩
  rw [header_reads hid (n + 2) _ (by omega), pairLine_append] at hdocument
  obtain ⟨tail, htail, rfl⟩ := Option.map_eq_some_iff.mp hdocument
  have hname : isBareKey "mode" = true := by decide
  rw [document_pair hname (skipBlanks_text (by decide))] at htail
  obtain ⟨⟨v, rest⟩, hvalue, hrest⟩ := Option.bind_eq_some_iff.mp htail
  obtain ⟨rest', -, hmore⟩ := Option.bind_eq_some_iff.mp hrest
  obtain ⟨more, -, rfl⟩ := Option.map_eq_some_iff.mp hmore
  refine ⟨n, v, rest, more, ?_, rfl⟩
  rw [List.cons_append, List.append_assoc] at hvalue
  exact hvalue

end Document

/-! ## Reading the scope -/

section Scope

variable {t : TuneText}

/-- A field that may not be there. -/
def optionalField (name : String) (value : Option Json) : List (String × Json) :=
  (value.map fun v => (name, v)).toList

def readOptional {α : Type} (default : α) (read : Json → Option α) : Option Json → Option α
  | none => some default
  | some v => read v

theorem readPhrase_optional (text weight floor : Option Json) :
    readPhrase t (.object (optionalField "text" text ++ optionalField "weight" weight ++
      optionalField "min_similarity" floor)) = (do
        let text ← readOptional none (fun v => v.asStr.map some) text
        let weight ← readOptional F32.one (readF32 t) weight
        let minSimilarity ← readOptional none (Json.nullable (readF32 t)) floor
        return ⟨← text, weight, minSimilarity⟩) := by
  cases text <;> cases weight <;> cases floor <;> rfl

theorem readScope_optional (mode floor weight lexical phrases : Option Json) :
    readScope t (.object (optionalField "mode" mode ++ optionalField "min_similarity" floor ++
      optionalField "scope_weight" weight ++ optionalField "lexical_weight" lexical ++
      optionalField "weighted_phrases" phrases)) = (do
        let weightedPhrases ← readOptional [] (Json.listOf (readPhrase t)) phrases
        let mode ← readOptional none (Json.nullable Json.asStr) mode
        let minSeedSimilarity ← readOptional none (Json.nullable (readF32 t)) floor
        let seedWeight ← readOptional none (Json.nullable (readF32 t)) weight
        let lexicalWeight ← readOptional none (Json.nullable (readF32 t)) lexical
        return ⟨weightedPhrases, [], mode, minSeedSimilarity, seedWeight, none, lexicalWeight,
          none⟩) := by
  cases mode <;> cases floor <;> cases weight <;> cases lexical <;> cases phrases <;> rfl

/-- A field that is read is there under none of its names, or under one. -/
theorem lookups_of_readField {α : Type} {names : List String} {default x : α}
    {read : Json → Option α} {fields : List (String × Json)}
    (h : Json.readField names default read fields = some x) :
    (∀ name ∈ names, fields.lookup name = none) ∧ default = x ∨
      ∃ key ∈ names, ∃ v, read v = some x ∧
        ∀ name ∈ names, fields.lookup name = if name = key then some v else none := by
  have hlookups (name : String) (hname : name ∈ names) :
      (fields.filter fun field => names.contains field.1).lookup name = fields.lookup name :=
    lookup_filter (p := names.contains) (List.contains_iff_mem.mpr hname) fields
  rw [Json.readField, Json.fieldOf] at h
  cases hfilter : fields.filter fun field => names.contains field.1 with
  | nil =>
    rw [hfilter] at h
    refine .inl ⟨?_, Option.some.inj h⟩
    intro name hname
    rw [← hlookups name hname, hfilter]
    rfl
  | cons field rest =>
    rw [hfilter] at h
    cases rest with
    | cons _ _ => cases h
    | nil =>
      have hkey : field ∈ fields.filter fun field => names.contains field.1 := by
        rw [hfilter]
        exact List.mem_singleton_self field
      refine .inr ⟨field.1, by simpa using (List.mem_filter.mp hkey).2, field.2, h, ?_⟩
      intro name hname
      rw [← hlookups name hname, hfilter, List.lookup_cons]
      by_cases heq : name = field.1
      · simp [heq]
      · simp [heq, beq_false_of_ne heq]

theorem readField_single {α : Type} {name : String} {default x : α} {read : Json → Option α}
    {fields : List (String × Json)} (h : Json.readField [name] default read fields = some x) :
    readOptional default read ((Json.object fields).get name) = some x := by
  have hself : name ∈ [name] := List.mem_singleton_self name
  change readOptional default read (fields.lookup name) = some x
  rcases lookups_of_readField h with ⟨hnone, rfl⟩ | ⟨key, hkey, v, hread, hlookup⟩
  · rw [hnone name hself]
    rfl
  · rw [hlookup name hself, if_pos (List.mem_singleton.mp hkey).symm]
    exact hread

theorem readField_double {α : Type} {name name' : String} (hne : name' ≠ name) {default x : α}
    {read : Json → Option α} {fields : List (String × Json)}
    (h : Json.readField [name, name'] default read fields = some x) :
    (Json.object fields).get name = none ∧
        readOptional default read ((Json.object fields).get name') = some x ∨
      (∃ v, (Json.object fields).get name = some v ∧ read v = some x) ∧
        (Json.object fields).get name' = none := by
  have hfirst : name ∈ [name, name'] := List.mem_cons_self
  have hsecond : name' ∈ [name, name'] := List.mem_cons_of_mem _ (List.mem_singleton_self name')
  change fields.lookup name = none ∧ readOptional default read (fields.lookup name') = some x ∨
    (∃ v, fields.lookup name = some v ∧ read v = some x) ∧ fields.lookup name' = none
  rcases lookups_of_readField h with ⟨hnone, rfl⟩ | ⟨key, hkey, v, hread, hlookup⟩
  · exact .inl ⟨hnone name hfirst, by rw [hnone name' hsecond]; rfl⟩
  · rw [hlookup name hfirst, hlookup name' hsecond]
    rcases List.mem_cons.mp hkey with rfl | hkey
    · exact .inr ⟨⟨v, if_pos rfl, hread⟩, if_neg hne⟩
    · obtain rfl := List.mem_singleton.mp hkey
      refine .inl ⟨if_neg (Ne.symm hne), ?_⟩
      rw [if_pos rfl]
      exact hread

variable {value scope phrase : Json} {o : Option Json}

def textJson (o : Option Json) : Option Json := (o.bind Json.asStr).map .string

def numberJson (t : TuneText) (o : Option Json) : Option Json :=
  (o.bind Json.asNumber).map fun literal => tomlJson (numberValue (t.display literal))

def phraseJson (t : TuneText) (phrase : Json) : Json := tomlJson (.table (phraseValues t phrase))

/-- An empty array is left out. -/
def phrasesJson (t : TuneText) (phrases : List Json) : Option Json :=
  if phrases = [] then none else some (.array (phrases.map (phraseJson t)))

theorem tomlFields_append (fields fields' : List (String × Value)) :
    tomlFields (fields ++ fields') = tomlFields fields ++ tomlFields fields' := by
  induction fields with
  | nil => rfl
  | cons field fields ih =>
    obtain ⟨name, v⟩ := field
    rw [List.cons_append, tomlFields, ih, tomlFields, List.cons_append]

theorem tomlItems_eq_map (items : List Value) : tomlItems items = items.map tomlJson := by
  induction items with
  | nil => rfl
  | cons item items ih => rw [tomlItems, ih, List.map_cons]

theorem tomlFields_printedNumber (name : String) :
    tomlFields ((printedNumber t name value).map PrintedField.pair) =
      optionalField name (numberJson t (value.get name)) := by
  unfold printedNumber numberJson optionalField
  cases (value.get name).bind Json.asNumber <;> rfl

theorem phraseJson_eq : phraseJson t phrase =
    .object (optionalField "text" (textJson (phrase.get "text")) ++
      optionalField "weight" (numberJson t (phrase.get "weight")) ++
      optionalField "min_similarity" (numberJson t (phrase.get "min_similarity"))) := by
  have htext : tomlFields ((printedText phrase).map PrintedField.pair) =
      optionalField "text" (textJson (phrase.get "text")) := by
    unfold printedText textJson optionalField
    cases (phrase.get "text").bind Json.asStr <;> rfl
  rw [phraseJson, tomlJson, phraseValues, printedPhrase, List.map_append, List.map_append,
    tomlFields_append, tomlFields_append, tomlFields_printedNumber, tomlFields_printedNumber,
    htext]

theorem tomlJson_printedTable : tomlJson (printedTable t scope) =
    .object (optionalField "mode" (textJson (scope.get "mode")) ++
      optionalField "min_similarity" (numberJson t (scope.get "min_similarity")) ++
      optionalField "scope_weight" (numberJson t (scope.get "scope_weight")) ++
      optionalField "lexical_weight" (numberJson t (scope.get "lexical_weight")) ++
      optionalField "weighted_phrases" (phrasesJson t (scopePhrases scope))) := by
  have hmode : tomlFields ((printedMode scope).map PrintedField.pair) =
      optionalField "mode" (textJson (scope.get "mode")) := by
    unfold printedMode textJson optionalField
    cases (scope.get "mode").bind Json.asStr <;> rfl
  have hvalues : tomlFields (scopeValues t scope) =
      optionalField "mode" (textJson (scope.get "mode")) ++
      optionalField "min_similarity" (numberJson t (scope.get "min_similarity")) ++
      optionalField "scope_weight" (numberJson t (scope.get "scope_weight")) ++
      optionalField "lexical_weight" (numberJson t (scope.get "lexical_weight")) := by
    rw [scopeValues, printedFields, List.map_append, List.map_append, List.map_append,
      tomlFields_append, tomlFields_append, tomlFields_append, tomlFields_printedNumber,
      tomlFields_printedNumber, tomlFields_printedNumber, hmode]
  rw [printedTable, tomlJson, ← hvalues, phrasesJson]
  cases hphrases : scopePhrases scope with
  | nil =>
    rw [if_pos rfl]
    exact congrArg Json.object (List.append_nil _).symm
  | cons phrase phrases =>
    rw [if_neg (List.cons_ne_nil _ _), List.map_cons, withItems, tomlFields_append]
    congr 2
    simp [tomlFields, tomlJson, tomlItems_eq_map, optionalField, phraseJson]

theorem readF32_numberValue {literal : String} (h : t.KeepsNumber (some (.number literal))) :
    readF32 t (tomlJson (numberValue (t.display literal))) = some (t.asF32 literal) := by
  obtain ⟨htext, hvalue⟩ := h literal rfl
  unfold numberValue
  cases hinteger : integer (t.display literal).toList with
  | some n => exact congrArg some (hvalue n hinteger)
  | none => exact congrArg some htext

theorem nullable_numberValue {literal : String} (h : t.KeepsNumber (some (.number literal))) :
    Json.nullable (readF32 t) (tomlJson (numberValue (t.display literal))) =
      some (some (t.asF32 literal)) := by
  have hread := readF32_numberValue h
  unfold numberValue at hread ⊢
  cases hinteger : integer (t.display literal).toList with
  | some n =>
    rw [hinteger] at hread
    exact congrArg (Option.map some) hread
  | none =>
    rw [hinteger] at hread
    exact congrArg (Option.map some) hread

theorem readOptional_textJson {x : Option String}
    (h : readOptional none (fun v => v.asStr.map some) o = some x) :
    readOptional none (fun v => v.asStr.map some) (textJson o) = some x := by
  rcases o with - | v
  · exact h
  · cases v <;> first | exact h | cases h

theorem readOptional_nullable_textJson {x : Option String}
    (h : readOptional none (Json.nullable Json.asStr) o = some x) :
    readOptional none (Json.nullable Json.asStr) (textJson o) = some x := by
  rcases o with - | v
  · exact h
  · cases v <;> first | exact h | cases h

theorem readOptional_numberJson (ho : t.KeepsNumber o) {default x : F32}
    (h : readOptional default (readF32 t) o = some x) :
    readOptional default (readF32 t) (numberJson t o) = some x := by
  rcases o with - | v
  · exact h
  · cases v with
    | number literal => exact (readF32_numberValue ho).trans h
    | _ => cases h

theorem readOptional_nullable_numberJson (ho : t.KeepsNumber o) {x : Option F32}
    (h : readOptional none (Json.nullable (readF32 t)) o = some x) :
    readOptional none (Json.nullable (readF32 t)) (numberJson t o) = some x := by
  rcases o with - | v
  · exact h
  · cases v with
    | number literal => exact (nullable_numberValue ho).trans h
    | null => exact h
    | _ => cases h

theorem readPhrase_phraseJson {fields : List (String × Json)} {p : WeightedPhrase}
    (hback : t.KeepsNumber ((Json.object fields).get "weight") ∧
      t.KeepsNumber ((Json.object fields).get "min_similarity"))
    (h : readPhrase t (.object fields) = some p) :
    readPhrase t (phraseJson t (.object fields)) = some p := by
  simp only [readPhrase, Json.structFields, Option.bind_eq_bind, Option.bind_some,
    Option.bind_eq_some_iff] at h
  obtain ⟨text, htext, weight, hweight, floor, hfloor, text', rfl, hp⟩ := h
  rw [phraseJson_eq, readPhrase_optional,
    readOptional_textJson (readField_single htext),
    readOptional_numberJson hback.1 (readField_single hweight),
    readOptional_nullable_numberJson hback.2 (readField_single hfloor)]
  exact hp

theorem readPhrase_of_not_object (hobject : ∀ fields, phrase ≠ .object fields) :
    readPhrase t (phraseJson t phrase) = none := by
  have hget (name : String) : phrase.get name = none := by
    cases phrase with
    | object fields => exact absurd rfl (hobject fields)
    | _ => rfl
  rw [phraseJson_eq, hget, hget, hget, readPhrase_optional]
  rfl

theorem mapM_phraseJson_iff {phrases : List Json} {ps : List WeightedPhrase}
    (hback : ∀ phrase ∈ phrases,
      t.KeepsNumber (phrase.get "weight") ∧ t.KeepsNumber (phrase.get "min_similarity"))
    (h : phrases.mapM (readPhrase t) = some ps) :
    (phrases.map (phraseJson t)).mapM (readPhrase t) = some ps ↔
      ∀ phrase ∈ phrases, ∃ fields, phrase = .object fields := by
  induction phrases generalizing ps with
  | nil => exact iff_of_true h fun _ hmem => absurd hmem List.not_mem_nil
  | cons phrase phrases ih =>
    simp only [List.mapM_cons, Option.bind_eq_bind, Option.bind_eq_some_iff] at h
    obtain ⟨p, hp, rest, hrest, hps⟩ := h
    rw [List.forall_mem_cons] at hback
    rw [List.map_cons, List.mapM_cons, List.forall_mem_cons, ← ih hback.2 hrest]
    by_cases hobject : ∃ fields, phrase = .object fields
    · obtain ⟨fields, rfl⟩ := hobject
      rw [readPhrase_phraseJson hback.1 hp]
      cases hps
      cases hprinted : (phrases.map (phraseJson t)).mapM (readPhrase t) <;> simp
    · rw [readPhrase_of_not_object fun fields heq => hobject ⟨fields, heq⟩]
      exact iff_of_false (fun heq => by cases heq) fun hboth => hobject hboth.1

theorem readOptional_phrasesJson_iff (hkeeps : t.KeepsNumbers scope) {ps : List WeightedPhrase}
    (h : readOptional [] (Json.listOf (readPhrase t)) (scope.get "weighted_phrases") = some ps) :
    readOptional [] (Json.listOf (readPhrase t)) (phrasesJson t (scopePhrases scope)) = some ps ↔
      ∀ phrase ∈ scopePhrases scope, ∃ fields, phrase = .object fields := by
  have hphrases : (scopePhrases scope).mapM (readPhrase t) = some ps := by
    unfold scopePhrases
    cases hget : scope.get "weighted_phrases" with
    | none =>
      rw [hget] at h
      exact h
    | some v =>
      rw [hget] at h
      cases v with
      | array items => exact h
      | _ => cases h
  rw [← mapM_phraseJson_iff hkeeps.phrases hphrases, phrasesJson]
  split
  · next hnil => rw [hnil] at hphrases ⊢; rfl
  · rfl

theorem saysNothing_iff_of_nullable {α : Type} {read : Json → Option α} {x : Option α}
    (hempty : read (.array []) = none) (h : readOptional none (Json.nullable read) o = some x) :
    saysNothing o = true ↔ x = none := by
  have hsome {v : Json} (hv : (read v).map some = some x) : x ≠ none := by
    obtain ⟨y, -, rfl⟩ := Option.map_eq_some_iff.mp hv
    exact Option.some_ne_none y
  rcases o with - | v
  · cases h
    exact iff_of_true rfl rfl
  · cases v with
    | null =>
      cases h
      exact iff_of_true rfl rfl
    | array items =>
      change (read (.array items)).map some = some x at h
      cases items with
      | nil =>
        rw [hempty] at h
        cases h
      | cons item items => exact iff_of_false Bool.false_ne_true (hsome h)
    | _ => exact iff_of_false Bool.false_ne_true (hsome h)

theorem readOptional_alias_iff {name name' : String} (hne : name' ≠ name)
    {x : Option F32} {fields : List (String × Json)}
    (hback : t.KeepsNumber ((Json.object fields).get name'))
    (h : Json.readField [name, name'] none (Json.nullable (readF32 t)) fields = some x) :
    ∃ y, readOptional none (Json.nullable (readF32 t))
        (numberJson t ((Json.object fields).get name')) = some y ∧
      (y = x ↔ saysNothing ((Json.object fields).get name) = true) := by
  rcases readField_double hne h with ⟨hnone, hread⟩ | ⟨⟨v, hv, hread⟩, hnone⟩
  · refine ⟨x, readOptional_nullable_numberJson hback hread, ?_⟩
    rw [hnone]
    exact iff_of_true rfl rfl
  · refine ⟨none, by rw [hnone]; rfl, ?_⟩
    rw [saysNothing_iff_of_nullable rfl (o := (Json.object fields).get name) (x := x)
      (by rw [hv]; exact hread)]
    exact eq_comm

theorem eq_nil_iff_of_listOf {x : List String} (h : Json.listOf Json.asStr value = some x) :
    x = [] ↔ saysNothing (some value) = true := by
  cases value with
  | array items =>
    cases items with
    | nil =>
      cases h
      exact iff_of_true rfl rfl
    | cons item items =>
      change (item :: items).mapM Json.asStr = some x at h
      rw [List.mapM_cons] at h
      obtain ⟨text, -, h⟩ := Option.bind_eq_some_iff.mp h
      obtain ⟨texts, -, h⟩ := Option.bind_eq_some_iff.mp h
      cases h
      exact iff_of_false (List.cons_ne_nil _ _) Bool.false_ne_true
  | _ => cases h

theorem seeds_eq_nil_iff {x : List String} {fields : List (String × Json)}
    (h : Json.readField ["seeds", "phrases"] [] (Json.listOf Json.asStr) fields = some x) :
    x = [] ↔ saysNothing ((Json.object fields).get "seeds") = true ∧
      saysNothing ((Json.object fields).get "phrases") = true := by
  rcases readField_double (by decide) h with ⟨hnone, hread⟩ | ⟨⟨v, hv, hread⟩, hnone⟩
  · rw [hnone]
    cases hget : (Json.object fields).get "phrases" with
    | none =>
      rw [hget] at hread
      cases hread
      exact iff_of_true rfl ⟨rfl, rfl⟩
    | some v =>
      rw [hget] at hread
      rw [eq_nil_iff_of_listOf hread]
      exact (and_iff_right rfl).symm
  · rw [hnone, hv, eq_nil_iff_of_listOf hread]
    exact (and_iff_left rfl).symm

/-- The printed fields read as the scope if and only if nothing else was in it. -/
theorem readScope_printedTable_iff {fields : List (String × Json)} {config : ProxyScopeConfig}
    (hkeeps : t.KeepsNumbers (.object fields)) (h : readScope t (.object fields) = some config) :
    readScope t (tomlJson (printedTable t (.object fields))) = some config ↔
      (∀ name ∈ unprinted, saysNothing ((Json.object fields).get name) = true) ∧
        ∀ phrase ∈ scopePhrases (.object fields), ∃ inner, phrase = .object inner := by
  simp only [readScope, Json.structFields, Option.bind_eq_bind, Option.bind_some,
    Option.bind_eq_some_iff] at h
  obtain ⟨phrases, hphrases, seeds, hseeds, mode, hmode, floor, hfloor, weight, hweight, query,
    hquery, lexical, hlexical, band, hband, hconfig⟩ := h
  obtain rfl := Option.some.inj hconfig
  obtain ⟨floor', hfloor', hfloor⟩ := readOptional_alias_iff (by decide) hkeeps.minSimilarity hfloor
  obtain ⟨weight', hweight', hweight⟩ :=
    readOptional_alias_iff (by decide) hkeeps.scopeWeight hweight
  have hquery := saysNothing_iff_of_nullable rfl (readField_single hquery)
  have hband := saysNothing_iff_of_nullable rfl (readField_single hband)
  rw [tomlJson_printedTable, readScope_optional,
    readOptional_nullable_textJson (readField_single hmode), hfloor', hweight',
    readOptional_nullable_numberJson hkeeps.lexicalWeight (readField_single hlexical),
    ← readOptional_phrasesJson_iff hkeeps (readField_single hphrases)]
  have hseeds := seeds_eq_nil_iff hseeds
  simp only [unprinted, List.forall_mem_cons, hquery, hband, ← hfloor, ← hweight, List.not_mem_nil,
    false_imp_iff, implies_true, and_true]
  rw [← and_assoc, ← hseeds]
  cases readOptional [] (Json.listOf (readPhrase t))
      (phrasesJson t (scopePhrases (.object fields))) with
  | none => exact iff_of_false (fun heq => by cases heq) fun hboth => by cases hboth.2
  | some phrases' =>
    change some (ProxyScopeConfig.mk phrases' [] mode floor' weight' none lexical none) = _ ↔ _
    rw [Option.some.injEq, ProxyScopeConfig.mk.injEq]
    constructor
    · rintro ⟨rfl, hnil, -, hfloor, hweight, hquery, -, hband⟩
      exact ⟨⟨hnil.symm, hfloor, hweight, hquery.symm, hband.symm⟩, rfl⟩
    · rintro ⟨⟨hnil, hfloor, hweight, hquery, hband⟩, hphrases⟩
      exact ⟨Option.some.inj hphrases, hnil.symm, rfl, hfloor, hweight, hquery.symm, rfl,
        hband.symm⟩

end Scope

section Says

variable {t : TuneText} {represents : Int → Bool} {contextId : String}
  {fields : List (String × Json)} {config : ProxyScopeConfig}

theorem lookup_tomlFields (values : List (String × Value)) (name : String) :
    (tomlFields values).lookup name = (values.lookup name).map tomlJson := by
  induction values with
  | nil => rfl
  | cons field values ih =>
    obtain ⟨key, v⟩ := field
    rw [tomlFields, List.lookup_cons, List.lookup_cons, ih]
    cases name == key <;> rfl

theorem mode_of_readScope (h : readScope t (.object fields) = some config) :
    readOptional none (Json.nullable Json.asStr) ((Json.object fields).get "mode") =
      some config.mode := by
  simp only [readScope, Json.structFields, Option.bind_eq_bind, Option.bind_some,
    Option.bind_eq_some_iff] at h
  obtain ⟨_, -, _, -, mode, hmode, _, -, _, -, _, -, _, -, _, -, hconfig⟩ := h
  obtain rfl := Option.some.inj hconfig
  exact readField_single hmode

/-- The mode of the document is the mode of the scope. -/
theorem value_of_said_mode {mode : String} (hread : readScope t (.object fields) = some config)
    (hmode : (Json.object fields).get "mode" = some (.string mode)) {table v : Value}
    (hv : table.get ["mode"] = some v) (htable : readScope t (tomlJson table) = some config) :
    v = .string mode := by
  have hconfig := mode_of_readScope hread
  rw [hmode] at hconfig
  cases table with
  | table values =>
    have hlookup : values.lookup "mode" = some v := by
      obtain ⟨child, hchild, hsame⟩ := Option.bind_eq_some_iff.mp hv
      rw [hchild, Option.some.inj hsame]
    have htoml := mode_of_readScope htable
    change readOptional none (Json.nullable Json.asStr) ((tomlFields values).lookup "mode") = _
      at htoml
    rw [lookup_tomlFields, hlookup, ← hconfig] at htoml
    cases v with
    | string text =>
      have htext : text = mode := Option.some.inj (Option.some.inj htoml)
      rw [htext]
    | _ => cases htoml
  | _ => cases hv

/-- If the document says what the scope says, nothing in the mode needs an escape. -/
theorem mode_of_said (ht : t.Displays) (hid : isBareKey contextId = true)
    (hread : readScope t (.object fields) = some config)
    (h : ExportSays represents t contextId (.object fields)) {mode : String}
    (hmode : (Json.object fields).get "mode" = some (.string mode)) :
    mode.toList.all isUnescaped = true := by
  obtain ⟨doc, table, hparse, hget, hsame⟩ := h
  obtain ⟨es, hdocument, hrest⟩ := Option.bind_eq_some_iff.mp hparse
  obtain ⟨document', hbuild, hclose⟩ := Option.bind_eq_some_iff.mp hrest
  obtain rfl := Option.some.inj hclose
  rw [toList_renderContextScopeToml] at hdocument
  obtain ⟨m, v, rest, more, hvalue, rfl⟩ :=
    expressions_of_mode hid hmode (Nat.lt_succ_self _) hdocument
  have hv : table.get ["mode"] = some v := by
    have hfirst := get_first_pair hbuild
    rw [Value.get_append] at hfirst
    rwa [show document'.root.close.get ["contexts", contextId, "scope"] = some table from hget]
      at hfirst
  rw [hread] at hsame
  obtain rfl := value_of_said_mode hread hmode hv hsame
  have htext : (Value.string mode, rest) = (.string (.ofList mode.toList), rest) := by
    rw [String.ofList_toList]
  rw [htext] at hvalue
  exact unescaped_of_value (quoteRun_laterLines ht hid) hvalue

theorem reads_or_fails (ht : t.Displays) (hid : isBareKey contextId = true) {scope : Json}
    (hmode : ∀ mode, scope.get "mode" = some (.string mode) →
      mode.toList.all isUnescaped = true) :
    ∀ line ∈ fragmentLines t contextId scope,
      (∃ es, LineReads represents line es) ∨ LineFails represents line := by
  have hnumber {name : String} (hname : isBareKey name = true) {value : Json}
      {field : PrintedField} (hfield : field ∈ printedNumber t name value) :
      (∃ es, LineReads represents field.line es) ∨ LineFails represents field.line :=
    (number_reads_or_fails ht hname hfield).imp_left fun hreads => ⟨_, hreads⟩
  intro line hline
  rw [fragmentLines, List.mem_append, List.mem_cons] at hline
  rcases hline with (rfl | hline) | hline
  · exact .inl ⟨_, header_reads hid⟩
  · obtain ⟨field, hfield, rfl⟩ := List.mem_map.mp hline
    rw [printedFields, List.mem_append, List.mem_append, List.mem_append] at hfield
    rcases hfield with ((hfield | hfield) | hfield) | hfield
    · obtain ⟨mode, hget, rfl⟩ := mem_printedMode.mp hfield
      exact .inl ⟨_, mode_reads (hmode mode hget)⟩
    · exact hnumber (by decide) hfield
    · exact hnumber (by decide) hfield
    · exact hnumber (by decide) hfield
  · obtain ⟨phrase, -, hline⟩ := List.mem_flatMap.mp hline
    rcases List.mem_cons.mp hline with rfl | hline
    · exact .inl ⟨_, lineReads_empty⟩
    rcases List.mem_cons.mp hline with rfl | hline
    · exact .inl ⟨_, element_reads hid⟩
    obtain ⟨field, hfield, rfl⟩ := List.mem_map.mp hline
    rw [printedPhrase, List.mem_append, List.mem_append] at hfield
    rcases hfield with (hfield | hfield) | hfield
    · obtain ⟨text, -, rfl⟩ := mem_printedText.mp hfield
      cases htext : text.toList.all isText with
      | true => exact .inl ⟨_, text_reads htext⟩
      | false => exact .inr (text_fails htext)
    · exact hnumber (by decide) hfield
    · exact hnumber (by decide) hfield

/-- If there is a document at all, every number is represented and every phrase is legible. -/
theorem legible_of_document (ht : t.Displays) (hid : isBareKey contextId = true) {scope : Json}
    (hmode : ∀ mode, scope.get "mode" = some (.string mode) → mode.toList.all isUnescaped = true)
    {n : Nat} {es : List Expression}
    (hn : (unlines (fragmentLines t contextId scope)).length < n)
    (hdocument : document represents n (unlines (fragmentLines t contextId scope)) = some es) :
    Legible represents t scope := by
  have hreads := reads_of_document (reads_or_fails ht hid hmode) hn hdocument
  have hscope : ∀ field ∈ printedFields t scope, ¬ LineFails represents field.line := by
    intro field hfield
    obtain ⟨es, hline⟩ := hreads field.line (List.mem_append_left _
      (List.mem_cons_of_mem _ (List.mem_map_of_mem hfield)))
    exact hline.not_fails
  have hphrase : ∀ phrase ∈ scopePhrases scope, ∀ field ∈ printedPhrase t phrase,
      ¬ LineFails represents field.line := by
    intro phrase hphrase field hfield
    obtain ⟨es, hline⟩ := hreads field.line (List.mem_append_right _
      (List.mem_flatMap.mpr ⟨phrase, hphrase, List.mem_cons_of_mem _
        (List.mem_cons_of_mem _ (List.mem_map_of_mem hfield))⟩))
    exact hline.not_fails
  have hnumber (name : String) (hname : isBareKey name = true)
      (hfields : ∀ field ∈ printedNumber t name scope, field ∈ printedFields t scope) :
      Represented represents t (scope.get name) :=
    represented_of_reads ht hname fun field hfield => hscope field (hfields field hfield)
  refine {
    mode := hmode
    minSimilarity := hnumber "min_similarity" (by decide) ?_
    scopeWeight := hnumber "scope_weight" (by decide) ?_
    lexicalWeight := hnumber "lexical_weight" (by decide) ?_
    phrases := fun phrase hmem => {
      text := ?_
      weight := represented_of_reads ht (by decide) fun field hfield =>
        hphrase phrase hmem field ?_
      minSimilarity := represented_of_reads ht (by decide) fun field hfield =>
        hphrase phrase hmem field ?_ } }
  · intro field hfield
    exact List.mem_append_left _ (List.mem_append_left _ (List.mem_append_right _ hfield))
  · intro field hfield
    exact List.mem_append_left _ (List.mem_append_right _ hfield)
  · intro field hfield
    exact List.mem_append_right _ hfield
  · intro text htext
    rw [← Bool.not_eq_false]
    intro hcontrol
    exact hphrase phrase hmem _ (List.mem_append_left _ (List.mem_append_left _
      (mem_printedText.mpr ⟨text, htext, rfl⟩))) (text_fails hcontrol)
  · exact List.mem_append_left _ (List.mem_append_right _ hfield)
  · exact List.mem_append_right _ hfield

/-- Under a bare id, the document says what the scope says if and only if every field has a line
and every line can be read. -/
theorem exportSays_iff_printable (ht : t.Displays) (hkeeps : t.KeepsNumbers (.object fields))
    (hid : isBareKey contextId = true) (hread : readScope t (.object fields) = some config) :
    ExportSays represents t contextId (.object fields) ↔
      Printable represents t (.object fields) := by
  constructor
  · intro h
    have hmode : ∀ mode, (Json.object fields).get "mode" = some (.string mode) →
        mode.toList.all isUnescaped = true := fun mode => mode_of_said ht hid hread h
    obtain ⟨doc, table, hparse, hget, hsame⟩ := h
    obtain ⟨es, hdocument, -⟩ := Option.bind_eq_some_iff.mp hparse
    rw [toList_renderContextScopeToml] at hdocument
    have hlegible := legible_of_document ht hid hmode (Nat.lt_succ_self _) hdocument
    obtain ⟨doc', hparse', hget'⟩ := parse_fragment ht hid hlegible
    obtain rfl := Option.some.inj (hparse.symm.trans hparse')
    obtain rfl := Option.some.inj (hget.symm.trans hget')
    rw [hread, readScope_printedTable_iff hkeeps hread] at hsame
    exact { hlegible with unprinted := hsame.1, objects := hsame.2 }
  · intro h
    obtain ⟨doc, hparse, hget⟩ := parse_fragment ht hid h.toLegible
    refine ⟨doc, _, hparse, hget, ?_⟩
    rw [hread, readScope_printedTable_iff hkeeps hread]
    exact ⟨h.unprinted, h.objects⟩

end Says

/-! ## Two fragments -/

/-- The texts of the numbers of the scopes below. -/
def exportText : TuneText where
  debug s := "\"" ++ s ++ "\""
  display literal := if literal = "0.3" ∨ literal = "0.5" ∨ literal = "1" then literal else "0"
  asF32 literal :=
    if literal = "0.3" then .finite (3 / 10)
    else if literal = "0.5" then .finite (1 / 2)
    else if literal = "1" then .finite 1
    else .finite 0
  literal _ := "0"
  quotient _ _ := "0"

/-- The integers of 64 bits. -/
def isI64 (n : Int) : Bool := -9223372036854775808 ≤ n && n ≤ 9223372036854775807

theorem exportText_cases (literal : String) :
    exportText.display literal = literal ∧ (literal = "0.3" ∨ literal = "0.5" ∨ literal = "1") ∨
      exportText.display literal = "0" ∧ exportText.asF32 literal = .finite 0 := by
  by_cases h : literal = "0.3" ∨ literal = "0.5" ∨ literal = "1"
  · exact Or.inl ⟨if_pos h, h⟩
  · refine Or.inr ⟨if_neg h, ?_⟩
    simp only [not_or] at h
    obtain ⟨h₁, h₂, h₃⟩ := h
    simp [exportText, h₁, h₂, h₃]

theorem isNumber_digit {d : Char} (hd : d.isDigit = true) : IsNumber [d] :=
  ⟨[], [d], [], rfl, Or.inl rfl, List.cons_ne_nil _ _, by simpa using hd,
    (em (d = '0')).elim (fun h => Or.inr (h ▸ rfl)) fun h => Or.inl (by simpa using h), Or.inl rfl⟩

theorem isNumber_tenths {d : Char} (hd : d.isDigit = true) : IsNumber ['0', '.', d] := by
  have hzero : ∀ c ∈ ['0'], c.isDigit = true := by
    intro c hc
    rw [List.mem_singleton.mp hc]
    rfl
  exact ⟨[], ['0'], ['.', d], rfl, Or.inl rfl, List.cons_ne_nil _ _, hzero, Or.inr rfl,
    Or.inr ⟨[d], rfl, List.cons_ne_nil _ _, by simpa using hd⟩⟩

theorem exportText_displays : exportText.Displays := by
  constructor
  · intro literal
    obtain ⟨h, rfl | rfl | rfl⟩ | ⟨h, -⟩ := exportText_cases literal
    · exact isNumber_tenths (by decide)
    · exact isNumber_tenths (by decide)
    · exact isNumber_digit (by decide)
    · rw [h]
      exact isNumber_digit (by decide)

theorem exportText_keepsNumber (value : Option Json) : exportText.KeepsNumber value := by
  intro literal _
  constructor
  · obtain ⟨h, -⟩ | ⟨h, hzero⟩ := exportText_cases literal
    · rw [h]
    · rw [h, hzero]
      decide
  · intro n hinteger
    obtain ⟨h, rfl | rfl | rfl⟩ | ⟨h, hzero⟩ := exportText_cases literal
    · have hnone : integer (exportText.display "0.3").toList = none := by decide
      rw [hnone] at hinteger
      cases hinteger
    · have hnone : integer (exportText.display "0.5").toList = none := by decide
      rw [hnone] at hinteger
      cases hinteger
    · have hone : integer (exportText.display "1").toList = some 1 := by decide
      obtain rfl := Option.some.inj (hone.symm.trans hinteger)
      rfl
    · rw [h] at hinteger
      have hdigit : integer "0".toList = some 0 := by decide
      obtain rfl := Option.some.inj (hdigit.symm.trans hinteger)
      rw [hzero]
      decide

theorem exportText_keepsNumbers (scope : Json) : exportText.KeepsNumbers scope where
  minSimilarity := exportText_keepsNumber _
  scopeWeight := exportText_keepsNumber _
  lexicalWeight := exportText_keepsNumber _
  phrases _ _ := ⟨exportText_keepsNumber _, exportText_keepsNumber _⟩

/-- The quotes of a phrase are escaped. -/
def quotedScope : List (String × Json) :=
  [("min_similarity", .number "0.3"), ("mode", .string "filter"),
    ("weighted_phrases",
      .array [.object [("text", .string "say \"hi\""), ("weight", .number "1")]])]

/-- The band is one of the fields that are lifted from flat parameters. -/
def bandScope : List (String × Json) :=
  [("embed_band", .array [.number "0.3", .number "0.5"]), ("mode", .string "filter")]

theorem represented_exportText (value : Option Json) : Represented isI64 exportText value := by
  intro literal n _ hinteger
  obtain ⟨h, rfl | rfl | rfl⟩ | ⟨h, -⟩ := exportText_cases literal
  all_goals
    rw [h] at hinteger
  · cases (show integer "0.3".toList = none by decide) ▸ hinteger
  · cases (show integer "0.5".toList = none by decide) ▸ hinteger
  · obtain rfl := Option.some.inj ((show integer "1".toList = some 1 by decide).symm.trans hinteger)
    decide
  · obtain rfl := Option.some.inj ((show integer "0".toList = some 0 by decide).symm.trans hinteger)
    decide

theorem quotedScope_printable : Printable isI64 exportText (.object quotedScope) where
  mode mode h := by
    obtain rfl : "filter" = mode := Json.string.inj (Option.some.inj h)
    decide
  minSimilarity := represented_exportText _
  scopeWeight := represented_exportText _
  lexicalWeight := represented_exportText _
  phrases phrase hmem := by
    obtain rfl : phrase = .object [("text", .string "say \"hi\""), ("weight", .number "1")] :=
      List.mem_singleton.mp hmem
    refine ⟨fun text h => ?_, represented_exportText _, represented_exportText _⟩
    obtain rfl : "say \"hi\"" = text := Json.string.inj (Option.some.inj h)
    decide
  unprinted name hname := by
    revert name
    decide
  objects phrase hmem := ⟨_, List.mem_singleton.mp hmem⟩

theorem quotedScope_is_said :
    ExportSays isI64 exportText "default" (.object quotedScope) := by
  have hread : readScope exportText (.object quotedScope) = some
      ⟨[⟨"say \"hi\"", .finite 1, none⟩], [], some "filter", some (.finite (3 / 10)), none, none,
        none, none⟩ := by rfl
  exact (exportSays_iff_printable exportText_displays (exportText_keepsNumbers _) (by decide)
    hread).mpr quotedScope_printable

theorem bandScope_legible : Legible isI64 exportText (.object bandScope) where
  mode mode h := by
    obtain rfl : "filter" = mode := Json.string.inj (Option.some.inj h)
    decide
  minSimilarity := represented_exportText _
  scopeWeight := represented_exportText _
  lexicalWeight := represented_exportText _
  phrases phrase hmem := absurd hmem List.not_mem_nil

theorem bandScope_is_not_said :
    exportedScope (.object bandScope) = .object bandScope ∧
      ¬ ExportSays isI64 exportText "default" (.object bandScope) := by
  refine ⟨rfl, ?_⟩
  rintro ⟨doc, table, hparse, hget, hsame⟩
  have hread : readScope exportText (.object bandScope) =
      some ⟨[], [], some "filter", none, none, none, none,
        some (.finite (3 / 10), .finite (1 / 2))⟩ := by
    rfl
  have hid : isBareKey "default" = true := by decide
  obtain ⟨doc', hparse', hget'⟩ := parse_fragment exportText_displays hid bandScope_legible
  obtain rfl := Option.some.inj (hparse.symm.trans hparse')
  obtain rfl := Option.some.inj (hget.symm.trans hget')
  rw [hread, readScope_printedTable_iff (exportText_keepsNumbers _) hread] at hsame
  exact absurd (hsame.1 "embed_band" (by decide)) (by decide)

end Conproxy
