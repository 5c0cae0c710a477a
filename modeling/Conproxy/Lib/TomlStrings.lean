import Conproxy.Lib.TomlLines

/-!
# What a string uses of the text

Escapes only shorten, so a string is never longer than the text that it is read from. On one line it
is as long only if nothing was escaped.
-/

namespace Toml

set_option autoImplicit false

/-- What a string on one line holds without an escape. -/
def isUnescaped (c : Char) : Bool := isText c && c ≠ '"' && c ≠ '\\'

section Strings

variable {skip : Bool} {c e : Char} {cs content rest used : List Char}

theorem digitValue_ne_none {values : List Nat} (h : cs.mapM digitValue = some values) :
    ∀ c ∈ cs, digitValue c ≠ none := by
  induction cs generalizing values with
  | nil =>
    intro c hc
    cases hc
  | cons d cs ih =>
    rw [List.mapM_cons] at h
    obtain ⟨first, hfirst, h⟩ := Option.bind_eq_some_iff.mp h
    obtain ⟨more, hmore, -⟩ := Option.bind_eq_some_iff.mp h
    intro c hc
    rcases List.mem_cons.mp hc with rfl | hc
    · rw [hfirst]
      exact Option.some_ne_none first
    · exact ih hmore c hc

theorem newline_not_mem_of_scalarValue (h : scalarValue cs = some e) : '\n' ∉ cs := by
  obtain ⟨values, hvalues, -⟩ := Option.bind_eq_some_iff.mp h
  intro hmem
  exact digitValue_ne_none hvalues '\n' hmem rfl

theorem ne_newline_of_escaped (h : escaped c = some e) : c ≠ '\n' := by
  rintro rfl
  cases h

theorem prepend_eq_some_iff {read : Option (List Char × List Char)} :
    prepend c read = some (content, rest) ↔
      ∃ more, read = some (more, rest) ∧ content = c :: more := by
  rw [prepend, Option.map_eq_some_iff]
  constructor
  · rintro ⟨⟨more, rest'⟩, hread, heq⟩
    cases heq
    exact ⟨more, hread, rfl⟩
  · rintro ⟨more, hread, rfl⟩
    exact ⟨(more, rest), hread, rfl⟩

/-- How a string on one line uses the text before its last quote. -/
def Uses (content used : List Char) : Prop :=
  '\n' ∉ used ∧ content.length ≤ used.length ∧
    (content.length = used.length → content = used ∧ used.all isUnescaped = true)

theorem Uses.escape {escape : List Char} (hlong : 2 ≤ escape.length) (hline : '\n' ∉ escape)
    (h : Uses content used) : Uses (e :: content) (escape ++ used) := by
  obtain ⟨hn, hle, -⟩ := h
  refine ⟨?_, ?_, ?_⟩
  · rw [List.mem_append]
    exact not_or.mpr ⟨hline, hn⟩
  · rw [List.length_cons, List.length_append]
    omega
  · intro heq
    rw [List.length_cons, List.length_append] at heq
    omega

theorem Uses.char (hc : isUnescaped c = true) (h : Uses content used) :
    Uses (c :: content) (c :: used) := by
  obtain ⟨hn, hle, hsame⟩ := h
  have hbreak : '\n' ≠ c := by
    rintro rfl
    exact absurd hc (by decide)
  refine ⟨?_, Nat.succ_le_succ hle, ?_⟩
  · rw [List.mem_cons]
    exact not_or.mpr ⟨hbreak, hn⟩
  · intro heq
    obtain ⟨rfl, hall⟩ := hsame (Nat.succ.inj heq)
    refine ⟨rfl, ?_⟩
    rw [List.all_cons, hc, hall]
    rfl

theorem uses_of_basicString {multi : Bool} (hmulti : multi = false) (hskip : skip = false)
    (h : basicString multi skip cs = some (content, rest)) :
    ∃ used, cs = used ++ '"' :: rest ∧ Uses content used := by
  have hescape (escape : List Char) {cs more : List Char} {e : Char} (hlong : 2 ≤ escape.length)
      (hline : '\n' ∉ escape) (hmore : ∃ used, cs = used ++ '"' :: rest ∧ Uses more used) :
      ∃ used, escape ++ cs = used ++ '"' :: rest ∧ Uses (e :: more) used := by
    obtain ⟨used, rfl, huses⟩ := hmore
    exact ⟨escape ++ used, (List.append_assoc _ _ _).symm, huses.escape hlong hline⟩
  fun_induction basicString multi skip cs generalizing content with
  | case1 => cases h
  | case2 skip c cs hgap ih =>
    rw [hskip] at hgap
    cases hgap
  | case3 skip cs hyes =>
    rw [hmulti] at hyes
    cases hyes
  | case4 skip cs hyes =>
    rw [hmulti] at hyes
    cases hyes
  | case5 skip cs =>
    cases h
    exact ⟨[], rfl, List.not_mem_nil, Nat.le_refl _, fun _ => ⟨rfl, rfl⟩⟩
  | case6 skip cs hends =>
    rw [hmulti] at hends
    cases hends
  | case7 => cases h
  | case8 skip a b c d cs _ _ _ ih =>
    obtain ⟨e, he, h⟩ := Option.bind_eq_some_iff.mp h
    obtain ⟨more, hmore, rfl⟩ := prepend_eq_some_iff.mp h
    have hdigits := newline_not_mem_of_scalarValue he
    exact hescape ['\\', 'u', a, b, c, d] (by simp) (by simpa using hdigits) (ih rfl hmore)
  | case9 skip a b c d e f g i cs _ _ _ ih =>
    obtain ⟨e', he, h⟩ := Option.bind_eq_some_iff.mp h
    obtain ⟨more, hmore, rfl⟩ := prepend_eq_some_iff.mp h
    have hdigits := newline_not_mem_of_scalarValue he
    exact hescape ['\\', 'U', a, b, c, d, e, f, g, i] (by simp) (by simpa using hdigits)
      (ih rfl hmore)
  | case10 skip d cs _ _ _ _ _ ih =>
    obtain ⟨e, he, h⟩ := Option.bind_eq_some_iff.mp h
    obtain ⟨more, hmore, rfl⟩ := prepend_eq_some_iff.mp h
    have hd := ne_newline_of_escaped he
    exact hescape ['\\', d] (by simp) (by simpa using hd.symm) (ih rfl hmore)
  | case11 skip c cs _ hquote hslash htext ih =>
    obtain ⟨more, hmore, rfl⟩ := prepend_eq_some_iff.mp h
    obtain ⟨used, rfl, huses⟩ := ih rfl hmore
    have hc : isUnescaped c = true := by
      rw [hmulti, Bool.false_and, Bool.or_false] at htext
      simp [isUnescaped, htext, hquote, hslash]
    exact ⟨c :: used, rfl, huses.char hc⟩
  | case12 => cases h

theorem three_of_closing (h : closing '"' cs = some (content, rest)) :
    ∃ post, '"' :: cs = content ++ '"' :: '"' :: '"' :: post := by
  unfold closing at h
  split at h
  · next a b more =>
    split at h
    · next hquotes =>
      obtain ⟨rfl, rfl⟩ := hquotes
      cases h
      rcases more with - | ⟨x, more⟩
      · exact ⟨[], rfl⟩
      by_cases hx : x = '"'
      · subst hx
        rcases more with - | ⟨y, more⟩
        · exact ⟨[], rfl⟩
        by_cases hy : y = '"'
        · subst hy
          exact ⟨more, rfl⟩
        · exact ⟨y :: more, by simp [hy]⟩
      · exact ⟨x :: more, by simp [hx]⟩
    · cases h
  · cases h

/-- A string on several lines ends with three quotes. -/
theorem closes_of_basicString {multi : Bool} (hmulti : multi = true)
    (h : basicString multi skip cs = some (content, rest)) :
    ∃ body post, cs = body ++ '"' :: '"' :: '"' :: post ∧ content.length ≤ body.length := by
  have hlonger (before : List Char) {cs more : List Char}
      (hmore : ∃ body post, cs = body ++ '"' :: '"' :: '"' :: post ∧ more.length ≤ body.length)
      {content : List Char} (hle : content.length ≤ more.length + before.length) :
      ∃ body post, before ++ cs = body ++ '"' :: '"' :: '"' :: post ∧
        content.length ≤ body.length := by
    obtain ⟨body, post, rfl, hbody⟩ := hmore
    refine ⟨before ++ body, post, (List.append_assoc _ _ _).symm, ?_⟩
    rw [List.length_append]
    omega
  fun_induction basicString multi skip cs generalizing content with
  | case1 => cases h
  | case2 skip c cs _ ih => exact hlonger [c] (ih h) (Nat.le_add_right _ _)
  | case3 skip cs _ read hread =>
    cases h
    obtain ⟨post, hpost⟩ := three_of_closing hread
    exact ⟨content, post, hpost, Nat.le_refl _⟩
  | case4 skip cs _ _ _ ih =>
    obtain ⟨more, hmore, rfl⟩ := prepend_eq_some_iff.mp h
    exact hlonger ['"'] (ih hmore) (Nat.le_refl _)
  | case5 skip cs hno => exact absurd hmulti hno
  | case6 skip cs _ _ _ ih => exact hlonger ['\\'] (ih h) (Nat.le_add_right _ _)
  | case7 => cases h
  | case8 skip a b c d cs _ _ _ ih =>
    obtain ⟨e, -, h⟩ := Option.bind_eq_some_iff.mp h
    obtain ⟨more, hmore, rfl⟩ := prepend_eq_some_iff.mp h
    exact hlonger ['\\', 'u', a, b, c, d] (ih hmore) (by simp)
  | case9 skip a b c d e f g i cs _ _ _ ih =>
    obtain ⟨e', -, h⟩ := Option.bind_eq_some_iff.mp h
    obtain ⟨more, hmore, rfl⟩ := prepend_eq_some_iff.mp h
    exact hlonger ['\\', 'U', a, b, c, d, e, f, g, i] (ih hmore) (by simp)
  | case10 skip d cs _ _ _ _ _ ih =>
    obtain ⟨e, -, h⟩ := Option.bind_eq_some_iff.mp h
    obtain ⟨more, hmore, rfl⟩ := prepend_eq_some_iff.mp h
    exact hlonger ['\\', d] (ih hmore) (by simp)
  | case11 skip c cs _ _ _ _ ih =>
    obtain ⟨more, hmore, rfl⟩ := prepend_eq_some_iff.mp h
    exact hlonger [c] (ih hmore) (Nat.le_refl _)
  | case12 => cases h

end Strings

/-- How many quotes stand at the end, unless three stand in a row. -/
def quoteRun : Nat → List Char → Option Nat
  | n, [] => some n
  | n, c :: cs =>
    if c = '"' then if n < 2 then quoteRun (n + 1) cs else none else quoteRun 0 cs

section Quotes

variable {n : Nat} {cs rest : List Char}

theorem quoteRun_append (n : Nat) (cs cs' : List Char) :
    quoteRun n (cs ++ cs') = (quoteRun n cs).bind fun m => quoteRun m cs' := by
  induction cs generalizing n with
  | nil => rfl
  | cons c cs ih =>
    rw [List.cons_append, quoteRun, quoteRun]
    split
    · split
      · exact ih _
      · rfl
    · exact ih 0

theorem quoteRun_three (n : Nat) (before after : List Char) :
    quoteRun n (before ++ '"' :: '"' :: '"' :: after) = none := by
  have hthree (m : Nat) : quoteRun m ('"' :: '"' :: '"' :: after) = none := by
    simp only [quoteRun, if_true]
    split
    · split
      · rw [if_neg (by omega)]
      · rfl
    · rfl
  rw [quoteRun_append]
  cases quoteRun n before with
  | none => rfl
  | some m => exact hthree m

theorem quoteRun_of_not_mem (h : '"' ∉ cs) : ∃ m, quoteRun n cs = some m := by
  induction cs generalizing n with
  | nil => exact ⟨n, rfl⟩
  | cons c cs ih =>
    rw [List.mem_cons, not_or] at h
    rw [quoteRun, if_neg (Ne.symm h.1)]
    exact ih h.2

theorem quoteRun_unlines {lines : List (List Char)}
    (h : ∀ line ∈ lines, ∃ m, quoteRun 0 line = some m) :
    quoteRun 0 (lines.flatMap fun line => line ++ ['\n']) = some 0 := by
  induction lines with
  | nil => rfl
  | cons line lines ih =>
    obtain ⟨m, hm⟩ := h line List.mem_cons_self
    have hrest := ih fun line' hline => h line' (List.mem_cons_of_mem line hline)
    rw [List.flatMap_cons, List.append_assoc, quoteRun_append, hm]
    exact hrest

/-- Three quotes in a row are over before the line ends, if there are none later. -/
theorem length_of_three {line before after tail : List Char} (htail : quoteRun 0 tail ≠ none)
    (h : line ++ '"' :: '\n' :: tail = before ++ '"' :: '"' :: '"' :: after) :
    before.length + 2 ≤ line.length := by
  have hlater (between : List Char) : tail ≠ between ++ '"' :: '"' :: '"' :: after := by
    rintro rfl
    exact htail (quoteRun_three 0 between after)
  have hsplit : (line ++ ['"', '\n']) ++ tail = before ++ '"' :: '"' :: '"' :: after := by
    rw [← h, List.append_assoc]
    rfl
  rcases List.append_eq_append_iff.mp hsplit with ⟨between, -, heq⟩ | ⟨shared, hline, heq⟩
  · exact absurd heq (hlater between)
  · have hlast : shared ≠ [] → shared.getLast? = some '\n' := by
      intro hne
      rw [← List.getLast?_append_of_ne_nil before hne, ← hline]
      simp
    match shared with
    | [] => exact absurd heq.symm (hlater [])
    | [x] =>
      obtain rfl := (List.cons.inj heq).1
      exact absurd (hlast (List.cons_ne_nil _ _)) (by decide)
    | [x, y] =>
      obtain rfl := (List.cons.inj (List.cons.inj heq).2).1
      exact absurd (hlast (List.cons_ne_nil _ _)) (by simp)
    | [x, y, z] =>
      obtain rfl := (List.cons.inj (List.cons.inj (List.cons.inj heq).2).2).1
      exact absurd (hlast (List.cons_ne_nil _ _)) (by simp)
    | x :: y :: z :: w :: more =>
      have hlength := congrArg List.length hline
      simp only [List.length_append, List.length_cons, List.length_nil] at hlength
      omega

theorem eq_of_quoted {text : List Char} {read : Option (List Char × List Char)}
    (h : quoted read = some (.string (.ofList text), rest)) : read = some (text, rest) := by
  obtain ⟨⟨content, rest'⟩, rfl, heq⟩ := Option.map_eq_some_iff.mp h
  rw [Prod.mk.injEq, Value.string.injEq, String.ofList_inj] at heq
  obtain ⟨rfl, rfl⟩ := heq
  rfl

theorem unescaped_of_basicString {text tail : List Char}
    (h : basicString false false (text ++ '"' :: '\n' :: tail) = some (text, rest)) :
    text.all isUnescaped = true := by
  obtain ⟨used, heq, hn, hle, hsame⟩ := uses_of_basicString rfl rfl h
  have hlength : text.length = used.length := by
    rcases List.append_eq_append_iff.mp heq with ⟨more, rfl, hmore⟩ | ⟨more, rfl, -⟩
    · match more with
      | [] => simp
      | [x] => exact absurd (List.cons.inj (List.cons.inj hmore).2).1 (by decide)
      | x :: y :: more =>
        obtain rfl := (List.cons.inj (List.cons.inj hmore).2).1
        exact absurd (by simp) hn
    · rw [List.length_append] at hle ⊢
      omega
  obtain ⟨rfl, hall⟩ := hsame hlength
  exact hall

theorem exists_skipBreak (cs : List Char) : ∃ before, cs = before ++ skipBreak cs := by
  unfold skipBreak newline
  split
  · exact ⟨['\n'], rfl⟩
  · exact ⟨['\r', '\n'], rfl⟩
  · exact ⟨[], rfl⟩

theorem length_of_multiline {text tail content : List Char} (htail : quoteRun 0 tail ≠ none)
    (h : basicString true false (skipBreak (text ++ '"' :: '\n' :: tail)) = some (content, rest)) :
    content.length + 2 ≤ text.length := by
  obtain ⟨body, post, hbody, hle⟩ := closes_of_basicString rfl h
  obtain ⟨before, hbefore⟩ := exists_skipBreak (text ++ '"' :: '\n' :: tail)
  rw [hbody, ← List.append_assoc] at hbefore
  have hlength := length_of_three htail hbefore
  rw [List.length_append] at hlength
  omega

/-- A string between quotes that is read as it stands holds nothing that needs an escape, if no
three quotes stand in a row later. -/
theorem unescaped_of_value {represents : Int → Bool} {text tail : List Char}
    (htail : quoteRun 0 tail ≠ none)
    (h : value represents (n + 1) ('"' :: (text ++ '"' :: '\n' :: tail)) =
      some (.string (.ofList text), rest)) : text.all isUnescaped = true := by
  rcases text with - | ⟨c, more⟩
  · rfl
  by_cases hc : c = '"'
  · subst hc
    rcases more with - | ⟨d, more⟩
    · have hread : basicString true false tail = some (['"'], rest) := eq_of_quoted h
      obtain ⟨body, post, rfl, -⟩ := closes_of_basicString rfl hread
      exact absurd (quoteRun_three 0 body post) htail
    by_cases hd : d = '"'
    · subst hd
      have hread : basicString true false (skipBreak (more ++ '"' :: '\n' :: tail)) =
          some ('"' :: '"' :: more, rest) := eq_of_quoted h
      have hlength := length_of_multiline htail hread
      simp only [List.length_cons] at hlength
      omega
    · -- The string is empty, and the text is not.
      have hempty : value represents (n + 1) ('"' :: ('"' :: d :: more ++ '"' :: '\n' :: tail)) =
          quoted (some ([], d :: more ++ '"' :: '\n' :: tail)) := by
        rw [List.cons_append, List.cons_append, value, basicString_quote]
        intro _ heq
        exact hd (List.cons.inj (List.cons.inj heq).2).1
      rw [hempty] at h
      cases eq_of_quoted h
  · rw [value_basic (by simpa using hc)] at h
    exact unescaped_of_basicString (eq_of_quoted h)

end Quotes

end Toml
