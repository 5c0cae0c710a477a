import Conproxy.Lib.Words
import Conproxy.Cache.Store
import Conproxy.Sample

/-!
# Normal forms of queries

`normalize_query` trims before it lower-cases, and squeezes white space with one flag. The result is
the words of the lower-cased text with one blank between them, so spelling variants that differ in
case and spacing only share their key.
-/

namespace Conproxy

open Squeeze

set_option autoImplicit false

namespace CaseTables

/-- White space has no case, and lower-casing leaves what is in lower case alone. -/
structure Settled (u : CaseTables) : Prop where
  cased_whitespace : ∀ c, isWhitespace c = true → u.cased c = false
  idempotent : ∀ cs, u.toLowercase (u.toLowercase cs) = u.toLowercase cs

variable {u : CaseTables}

/-- What a character becomes between the texts around it. -/
def image (u : CaseTables) (before rest : List Char) (c : Char) : List Char :=
  if c = 'Σ' then [u.mapUppercaseSigma before rest] else u.lower c

theorem toLowercaseFrom_cons (before rest : List Char) (c : Char) :
    u.toLowercaseFrom before (c :: rest) =
      u.image before rest c ++ u.toLowercaseFrom (c :: before) rest := rfl

theorem image_whitespace {c : Char} (hc : isWhitespace c = true) (before rest : List Char) :
    u.image before rest c = [c] := by
  have hsigma : c ≠ 'Σ' := by
    rintro rfl
    exact absurd hc (by decide)
  rw [image, if_neg hsigma, u.lower_whitespace c hc]

theorem image_nonspace {c : Char} (hc : isWhitespace c = false) (before rest : List Char) :
    u.image before rest c ≠ [] ∧ ∀ d ∈ u.image before rest c, isWhitespace d = false := by
  unfold image
  split
  · refine ⟨List.cons_ne_nil _ _, fun d hd => ?_⟩
    obtain rfl := List.mem_singleton.mp hd
    unfold mapUppercaseSigma
    split
    · decide
    · decide
  · exact u.lower_nonspace c hc

theorem image_ne_nil (before rest : List Char) (c : Char) : u.image before rest c ≠ [] := by
  cases hc : isWhitespace c with
  | true =>
    rw [image_whitespace hc]
    exact List.cons_ne_nil _ _
  | false => exact (image_nonspace hc before rest).1

section Around

variable (h : u.Settled) {ss : List Char} (hss : ∀ c ∈ ss, isWhitespace c = true)

include h hss

theorem cased_behind_whitespace (cs : List Char) :
    u.caseIgnorableThenCased (cs ++ ss) = u.caseIgnorableThenCased cs := by
  unfold caseIgnorableThenCased
  rw [List.dropWhile_append]
  cases hdrop : cs.dropWhile u.caseIgnorable with
  | cons c rest => rfl
  | nil =>
    cases hspace : ss.dropWhile u.caseIgnorable with
    | nil => simp
    | cons s rest =>
      have hmem : s ∈ ss := (List.dropWhile_sublist _).subset (hspace ▸ List.mem_cons_self)
      simp [h.cased_whitespace s (hss s hmem)]

theorem toLowercaseFrom_behind_whitespace (before cs : List Char) :
    u.toLowercaseFrom (before ++ ss) cs = u.toLowercaseFrom before cs := by
  induction cs generalizing before with
  | nil => rfl
  | cons c rest ih =>
    have himage : u.image (before ++ ss) rest c = u.image before rest c := by
      unfold image mapUppercaseSigma
      rw [cased_behind_whitespace h hss]
    rw [toLowercaseFrom_cons, toLowercaseFrom_cons, himage, ← List.cons_append, ih]

omit h in
theorem toLowercaseFrom_whitespace (before rest : List Char) :
    u.toLowercaseFrom before (ss ++ rest) =
      ss ++ u.toLowercaseFrom (ss.reverse ++ before) rest := by
  induction ss generalizing before with
  | nil => rfl
  | cons s ss ih =>
    have hrest := ih (fun c hc => hss c (List.mem_cons_of_mem s hc)) (s :: before)
    rw [List.cons_append, toLowercaseFrom_cons, image_whitespace (hss s List.mem_cons_self), hrest,
      List.reverse_cons, List.append_assoc]
    rfl

theorem toLowercaseFrom_before_whitespace (before cs : List Char) :
    u.toLowercaseFrom before (cs ++ ss) = u.toLowercaseFrom before cs ++ ss := by
  induction cs generalizing before with
  | nil =>
    have hspace := toLowercaseFrom_whitespace (u := u) hss before []
    rw [List.append_nil] at hspace
    rw [List.nil_append, hspace]
    exact List.append_nil ss
  | cons c rest ih =>
    have himage : u.image before (rest ++ ss) c = u.image before rest c := by
      unfold image mapUppercaseSigma
      rw [cased_behind_whitespace h hss]
    rw [List.cons_append, toLowercaseFrom_cons, toLowercaseFrom_cons, himage, ih,
      List.append_assoc]

end Around

theorem head_of_toLowercase {cs : List Char}
    (hfirst : ∀ c, cs.head? = some c → isWhitespace c = false) (d : Char)
    (hd : (u.toLowercase cs).head? = some d) : isWhitespace d = false := by
  cases cs with
  | nil => cases hd
  | cons c rest =>
    obtain ⟨hne, hspace⟩ := image_nonspace (u := u) (hfirst c rfl) [] rest
    obtain ⟨e, more, himage⟩ := List.exists_cons_of_ne_nil hne
    rw [toLowercase, toLowercaseFrom_cons, himage] at hd
    obtain rfl : e = d := Option.some.inj hd
    exact hspace e (himage ▸ List.mem_cons_self)

theorem endsInWord_toLowercaseFrom (before : List Char) {cs : List Char}
    (hlast : EndsInWord isWhitespace cs) :
    EndsInWord isWhitespace (u.toLowercaseFrom before cs) := by
  induction cs generalizing before with
  | nil => exact hlast
  | cons c rest ih =>
    cases rest with
    | nil =>
      intro d hd
      rw [toLowercaseFrom_cons, toLowercaseFrom, List.append_nil] at hd
      exact (image_nonspace (hlast c rfl) before []).2 d (List.mem_of_getLast? hd)
    | cons e rest =>
      have hne : u.toLowercaseFrom (c :: before) (e :: rest) ≠ [] := by
        rw [toLowercaseFrom_cons]
        exact List.append_ne_nil_of_left_ne_nil (image_ne_nil _ _ _) _
      intro d hd
      rw [toLowercaseFrom_cons, List.getLast?_append_of_ne_nil _ hne] at hd
      exact ih (c :: before) hlast.tail d hd

theorem length_le_toLowercaseFrom (before cs : List Char) :
    cs.length ≤ (u.toLowercaseFrom before cs).length := by
  induction cs generalizing before with
  | nil => exact Nat.le_refl _
  | cons c rest ih =>
    have hpos := List.length_pos_of_ne_nil (image_ne_nil (u := u) before rest c)
    have hle := ih (c :: before)
    rw [toLowercaseFrom_cons, List.length_append, List.length_cons]
    omega

/-- A text that stays as it is consists of characters that do. -/
theorem forall_of_toLowercaseFrom_eq {before cs : List Char}
    (h : u.toLowercaseFrom before cs = cs) : ∀ c ∈ cs, c ≠ 'Σ' ∧ u.lower c = [c] := by
  induction cs generalizing before with
  | nil =>
    intro c hc
    cases hc
  | cons c rest ih =>
    rw [toLowercaseFrom_cons] at h
    obtain ⟨d, more, himage⟩ := List.exists_cons_of_ne_nil (image_ne_nil (u := u) before rest c)
    rw [himage, List.cons_append] at h
    obtain ⟨rfl, htail⟩ := List.cons.inj h
    -- no image is empty, so this one has no second character
    have hnil : more = [] := by
      have hlength := congrArg List.length htail
      have hle := length_le_toLowercaseFrom (u := u) (d :: before) rest
      rw [List.length_append] at hlength
      exact List.eq_nil_of_length_eq_zero (by omega)
    rw [hnil, List.nil_append] at htail
    rw [hnil] at himage
    have hself : d ≠ 'Σ' ∧ u.lower d = [d] := by
      unfold image at himage
      split at himage
      · rename_i hsigma
        rw [hsigma] at himage
        unfold mapUppercaseSigma at himage
        split at himage
        · exact absurd himage (by decide)
        · exact absurd himage (by decide)
      · rename_i hsigma
        exact ⟨hsigma, himage⟩
    intro e he
    cases he with
    | head => exact hself
    | tail _ hrest => exact ih htail e hrest

theorem toLowercaseFrom_eq_of_forall (before : List Char) {cs : List Char}
    (h : ∀ c ∈ cs, c ≠ 'Σ' ∧ u.lower c = [c]) : u.toLowercaseFrom before cs = cs := by
  induction cs generalizing before with
  | nil => rfl
  | cons c rest ih =>
    obtain ⟨hsigma, hlower⟩ := h c List.mem_cons_self
    rw [toLowercaseFrom_cons, image, if_neg hsigma, hlower,
      ih (c :: before) fun d hd => h d (List.mem_cons_of_mem c hd)]
    rfl

end CaseTables

theorem exists_trim (cs : List Char) :
    ∃ ss ts, (∀ c ∈ ss, isWhitespace c = true) ∧ (∀ c ∈ ts, isWhitespace c = true) ∧
      cs = ss ++ (trim cs ++ ts) := by
  refine ⟨cs.takeWhile isWhitespace,
    ((cs.dropWhile isWhitespace).reverse.takeWhile isWhitespace).reverse,
    fun c hc => List.all_eq_true.mp List.all_takeWhile c hc,
    fun c hc => List.all_eq_true.mp List.all_takeWhile c (List.mem_reverse.mp hc), ?_⟩
  unfold trim
  rw [← List.reverse_append, List.takeWhile_append_dropWhile, List.reverse_reverse,
    List.takeWhile_append_dropWhile]

theorem endsInWord_trim (cs : List Char) : EndsInWord isWhitespace (trim cs) := by
  intro c hc
  rw [trim, List.getLast?_reverse] at hc
  have hnot := List.head?_dropWhile_not isWhitespace (cs.dropWhile isWhitespace).reverse
  rw [hc] at hnot
  exact hnot

theorem head_trim (cs : List Char) (c : Char) (hc : (trim cs).head? = some c) :
    isWhitespace c = false := by
  have hnot := List.head?_dropWhile_not isWhitespace cs
  have hprefix : trim cs <+: cs.dropWhile isWhitespace := by
    have hsuffix := List.dropWhile_suffix isWhitespace (l := (cs.dropWhile isWhitespace).reverse)
    rw [← List.reverse_prefix, List.reverse_reverse] at hsuffix
    exact hsuffix
  obtain ⟨rest, hrest⟩ := hprefix
  rw [← hrest, List.head?_append, hc] at hnot
  exact hnot

section Normal

variable {u : CaseTables} (h : u.Settled)

include h

theorem words_toLowercase_trim (cs : List Char) :
    words isWhitespace (u.toLowercase (trim cs)) = words isWhitespace (u.toLowercase cs) := by
  obtain ⟨ss, ts, hss, hts, hcs⟩ := exists_trim cs
  have hlower : u.toLowercase cs = ss ++ (u.toLowercase (trim cs) ++ ts) := by
    have hreverse : ∀ c ∈ ss.reverse, isWhitespace c = true :=
      fun c hc => hss c (List.mem_reverse.mp hc)
    have hbehind := CaseTables.toLowercaseFrom_behind_whitespace h hreverse [] (trim cs ++ ts)
    rw [List.nil_append] at hbehind
    calc u.toLowercase cs
        = u.toLowercaseFrom [] (ss ++ (trim cs ++ ts)) := congrArg _ hcs
      _ = ss ++ u.toLowercaseFrom ss.reverse (trim cs ++ ts) := by
        rw [CaseTables.toLowercaseFrom_whitespace hss, List.append_nil]
      _ = ss ++ (u.toLowercase (trim cs) ++ ts) := by
        rw [hbehind, CaseTables.toLowercaseFrom_before_whitespace h hts, CaseTables.toLowercase]
  rw [hlower, words_append_left hss, words_append_right hts]

theorem normalizeQuery_eq (query : String) :
    normalizeQuery u query = String.ofList
      ([' '].intercalate (words isWhitespace (u.toLowercase query.toList))) := by
  rw [normalizeQuery, ← words_toLowercase_trim h, squeeze_eq_intercalate]
  · exact CaseTables.head_of_toLowercase (head_trim query.toList)
  · exact CaseTables.endsInWord_toLowercaseFrom [] (endsInWord_trim query.toList)

theorem normalizeQuery_normalizeQuery (query : String) :
    normalizeQuery u (normalizeQuery u query) = normalizeQuery u query := by
  have hsettled := CaseTables.forall_of_toLowercaseFrom_eq (h.idempotent query.toList)
  have hwords : ∀ word ∈ words isWhitespace (u.toLowercase query.toList), word ≠ [] ∧
      ∀ c ∈ word, isWhitespace c = false :=
    fun word hword => (mem_words hword).imp_right fun hc c hmem => (hc c hmem).1
  have hlower : u.toLowercase (normalizeQuery u query).toList =
      (normalizeQuery u query).toList := by
    apply CaseTables.toLowercaseFrom_eq_of_forall
    intro c hc
    rw [normalizeQuery_eq h, String.toList_ofList] at hc
    rcases mem_intercalate hc with hblank | ⟨word, hword, hmem⟩
    · obtain rfl := List.mem_singleton.mp hblank
      exact ⟨by decide, u.lower_ascii ' ' (by decide)⟩
    · exact hsettled c ((mem_words hword).2 c hmem).2
  rw [normalizeQuery_eq h (normalizeQuery u query), hlower, normalizeQuery_eq h query,
    String.toList_ofList, words_intercalate (by decide) hwords]

end Normal

/-- A query and its spelling variants, which have the same words in lower case, share a normal form
and a key. -/
theorem spellings_share_key (p : Platform) (h : p.tables.Settled) :
    (∀ query, normalizeQuery p.tables query = String.ofList
        ([' '].intercalate (words isWhitespace (p.tables.toLowercase query.toList)))) ∧
      (∀ query, normalizeQuery p.tables (normalizeQuery p.tables query) =
        normalizeQuery p.tables query) ∧
      ∀ query query' : String, words isWhitespace (p.tables.toLowercase query.toList) =
          words isWhitespace (p.tables.toLowercase query'.toList) →
        CacheStore.hashQuery p query = CacheStore.hashQuery p query' := by
  refine ⟨normalizeQuery_eq h, normalizeQuery_normalizeQuery h, fun query query' hwords => ?_⟩
  rw [CacheStore.hashQuery, CacheStore.hashQuery, normalizeQuery_eq h, normalizeQuery_eq h, hwords]

theorem toNat_toLower (c : Char) :
    c.toLower.toNat = if 65 ≤ c.toNat ∧ c.toNat ≤ 90 then c.toNat + 32 else c.toNat := by
  unfold Char.toLower
  split
  · rename_i h
    have hlo : 65 ≤ c.toNat := UInt32.le_iff_toNat_le.mp h.1
    have hhi : c.toNat ≤ 90 := UInt32.le_iff_toNat_le.mp h.2
    rw [if_pos ⟨hlo, hhi⟩]
    change (c.val + 32).toNat = c.toNat + 32
    rw [UInt32.toNat_add]
    change (c.toNat + 32) % _ = c.toNat + 32
    omega
  · rename_i h
    rw [if_neg]
    intro hrange
    exact h ⟨UInt32.le_iff_toNat_le.mpr hrange.1, UInt32.le_iff_toNat_le.mpr hrange.2⟩

theorem toLower_toLower (c : Char) : c.toLower.toLower = c.toLower := by
  apply Char.toNat_inj.mp
  rw [toNat_toLower c.toLower, if_neg]
  rw [toNat_toLower c]
  split <;> omega

theorem toLower_ne_sigma {c : Char} (hc : c ≠ 'Σ') : c.toLower ≠ 'Σ' := by
  intro h
  apply hc
  have hnat := congrArg Char.toNat h
  rw [toNat_toLower, show 'Σ'.toNat = 931 from rfl] at hnat
  apply Char.toNat_inj.mp
  rw [show 'Σ'.toNat = 931 from rfl]
  split at hnat <;> omega

theorem CaseTables.settled_of_mem_ascii {before cs : List Char} {d : Char}
    (hd : d ∈ CaseTables.ascii.toLowercaseFrom before cs) :
    d ≠ 'Σ' ∧ CaseTables.ascii.lower d = [d] := by
  induction cs generalizing before with
  | nil => cases hd
  | cons c rest ih =>
    rw [toLowercaseFrom_cons] at hd
    rcases List.mem_append.mp hd with himage | hrest
    · unfold image at himage
      split at himage
      · rw [List.mem_singleton.mp himage]
        unfold mapUppercaseSigma
        split
        · decide
        · decide
      · rename_i hsigma
        obtain rfl : d = c.toLower := List.mem_singleton.mp himage
        exact ⟨toLower_ne_sigma hsigma, congrArg (· :: []) (toLower_toLower c)⟩
    · exact ih hrest

theorem CaseTables.settled_ascii : CaseTables.ascii.Settled where
  cased_whitespace c hc := by
    simp only [isWhitespace] at hc
    change (decide (65 ≤ c.val ∧ c.val ≤ 90) || (decide (97 ≤ c.val) && decide (c.val ≤ 122))) =
      false
    simp only [UInt32.le_iff_toNat_le, Char.toNat_val]
    grind
  idempotent cs := toLowercaseFrom_eq_of_forall [] fun _ hd => settled_of_mem_ascii hd

theorem ascii_spellings_share_key :
    CacheStore.hashQuery Platform.sample "  Borrow\tCHECKER " =
      CacheStore.hashQuery Platform.sample "borrow checker" :=
  (spellings_share_key Platform.sample CaseTables.settled_ascii).2.2 _ _ (by decide)

end Conproxy
