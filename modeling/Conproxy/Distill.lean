import Conproxy.Normalization
import Conproxy.Cache.Freshness

/-!
# Distilling a cache to files

`get_cache_distill` picks entries of the store, oldest first, and the `distill` command writes each
of them to files of its own. A file is named by the words of the query and the first digits of the
hash, so an entry is overwritten only by one with the same digits.
-/

namespace Conproxy

open CacheStore Squeeze

set_option autoImplicit false

structure DistillSnapshot where
  hash : QueryHash
  contextId : String
  queryText : String
  cachedAtWall : Nat
  responseJson : List UInt8
  upstreamId : String
  extendedCount : Nat

structure DistillRequest where
  context : String
  tier : Nat
  limit : Nat
  includeStale : Bool

structure DistillEntry where
  query : String
  contextId : String
  upstreamId : String
  cachedAtMs : Nat
  extendedCount : Nat
  responseJson : List UInt8
  hashHex : String
  embedding : Embedding

namespace CacheStore

variable (p : Platform)

/-- Entries without a wall clock time and responses that are not serialized are skipped. -/
def snapshotRich (h : QueryHash) (e : CacheEntry) : Option DistillSnapshot := do
  let cachedAtWall ← e.cachedAtWall
  let json ← p.toVec e.response
  return {
    hash := h
    contextId := e.contextId
    queryText := e.queryText.getD ""
    cachedAtWall := cachedAtWall
    responseJson := json
    upstreamId := e.upstreamId
    extendedCount := e.extendedCount }

def snapshotEntriesRich (s : CacheStore) (scan : Scan) : List DistillSnapshot :=
  (s.iter scan).filterMap fun x => snapshotRich p x.1 x.2

def inContext (req : DistillRequest) (x : DistillSnapshot) : Bool :=
  req.context = "" || x.contextId = req.context

/-- The gate by age. A time in the future counts as no age. -/
def withinTtl (s : CacheStore) (now : Clock) (req : DistillRequest) (x : DistillSnapshot) : Bool :=
  let elapsed := now.wall - x.cachedAtWall
  if s.maxFrozenDuration < elapsed then false
  else if req.includeStale = false ∧ s.jitteredTtl p s.freshDuration x.hash < elapsed then false
  else true

/-- The embedding is joined by the hash, and only for the tiers that have one. -/
def distillEntry (s : CacheStore) (req : DistillRequest) (x : DistillSnapshot) : DistillEntry where
  query := x.queryText
  contextId := x.contextId
  upstreamId := x.upstreamId
  cachedAtMs := millis x.cachedAtWall
  extendedCount := x.extendedCount
  responseJson := x.responseJson
  hashHex := queryHashHex x.hash
  embedding :=
    if req.tier = 0 then []
    else ((s.semantic.bind fun t => t.embeddings.lookup x.hash).map Prod.snd).getD []

def distillSelected (s : CacheStore) (scan : Scan) (now : Clock) (req : DistillRequest) :
    List DistillSnapshot :=
  ((s.snapshotEntriesRich p scan).filter (inContext req)).filter (s.withinTtl p now req)

/-- Oldest first. -/
def distillSorted (s : CacheStore) (scan : Scan) (now : Clock) (req : DistillRequest) :
    List DistillSnapshot :=
  (s.distillSelected p scan now req).mergeSort
    fun x y => decide (x.cachedAtWall ≤ y.cachedAtWall)

def getCacheDistill (s : CacheStore) (scan : Scan) (now : Clock) (req : DistillRequest) :
    List DistillEntry :=
  let entries := s.distillSorted p scan now req
  let entries := if 0 < req.limit ∧ req.limit < entries.length then entries.take req.limit
    else entries
  entries.map (s.distillEntry req)

end CacheStore

def slugSep (c : Char) : Bool := !c.isAlphanum

/-- `slugify`: the flag of the loop starts as if a separator came before. -/
def slugify (input : List Char) : List Char :=
  let out := (squeeze slugSep '-' true input).map Char.toLower
  if out.getLast? = some '-' then out.dropLast else out

def DistillEntry.suffix (e : DistillEntry) : List Char := e.hashHex.toList.take 8

def DistillEntry.baseName (e : DistillEntry) : List Char :=
  let baseSlug := slugify e.query.toList
  if baseSlug = [] then "entry-".toList ++ e.suffix else baseSlug ++ '-' :: e.suffix

/-- `String::from_utf8_lossy` and `serde_json::to_string_pretty`. -/
structure TextTools where
  lossy : List UInt8 → String
  pretty : Json → String

namespace DistillEntry

variable (t : TextTools)

def markdown (e : DistillEntry) : String :=
  "# " ++ e.query ++ "\n\n" ++
    "- **Context**: `" ++ e.contextId ++ "`\n" ++
    "- **Upstream**: `" ++ e.upstreamId ++ "`\n" ++
    "- **Hash**: `" ++ e.hashHex ++ "`\n" ++
    "- **Cached at (ms)**: " ++ toString e.cachedAtMs ++ "\n" ++
    "- **TTL extensions**: " ++ toString e.extendedCount ++ "\n" ++
    "\n## Response\n\n```json\n" ++ t.lossy e.responseJson ++ "\n```\n" ++
    if e.embedding = [] then ""
    else "\n_Embedding: " ++ toString e.embedding.length ++ " floats_\n"

def indexLine (e : DistillEntry) : String :=
  "- `" ++ String.ofList e.baseName ++ "` — context `" ++ e.contextId ++ "`, upstream `" ++
    e.upstreamId ++ "`\n"

end DistillEntry

def DistillEntry.indexJson (e : DistillEntry) : Json :=
  .object [("slug", .string (String.ofList e.baseName)), ("query", .string e.query),
    ("context_id", .string e.contextId), ("upstream_id", .string e.upstreamId),
    ("hash_hex", .string e.hashHex), ("cached_at_ms", .number (toString e.cachedAtMs)),
    ("extended_count", .number (toString e.extendedCount)),
    ("has_embedding", .bool !e.embedding.isEmpty)]

def DistillEntry.fileName (e : DistillEntry) (extension : String) : String :=
  String.ofList (e.baseName ++ extension.toList)

section Export

variable (t : TextTools)

def writesMd (format : String) : Bool := format = "md" || format = "both"

def writesJson (format : String) : Bool := format = "json" || format = "both"

def indexMd (entries : List DistillEntry) : String :=
  entries.foldl (fun index e => index ++ e.indexLine)
    ("# Distill Index\n\n" ++ ("Entries: " ++ toString entries.length ++ "\n\n"))

def entryFiles (format : String) (e : DistillEntry) : List (String × List UInt8) :=
  (if writesMd format then [(e.fileName ".md", utf8 (e.markdown t))] else []) ++
    if writesJson format then [(e.fileName ".json", e.responseJson)] else []

def indexFiles (format : String) (entries : List DistillEntry) : List (String × List UInt8) :=
  (if writesMd format then [("_index.md", utf8 (indexMd entries))] else []) ++
    if writesJson format then
      [("_index.json", utf8 (t.pretty (.array (entries.map DistillEntry.indexJson))))]
    else []

/-- The files in the order in which they are created, with what is written to them. -/
def distillFiles (format : String) (entries : List DistillEntry) : List (String × List UInt8) :=
  entries.flatMap (entryFiles t format) ++ indexFiles t format entries

abbrev Directory := AList fun _ : String => List UInt8

def Directory.put (d : Directory) (file : String × List UInt8) : Directory :=
  d.insert file.1 file.2

/-- The file cannot be created, or only so many bytes of it are written. -/
inductive WriteFault where
  | create
  | write (written : Nat)

/-- The file system under the output directory: whether the directory can be created, the most
bytes that a file name may have, and what else goes wrong with a file. -/
structure FileSystem where
  createsDir : Bool
  nameMax : Nat
  fault : Directory → String × List UInt8 → Option WriteFault

/-- `File::create`, which truncates a file that exists, and `write_all`. -/
def Directory.write (fs : FileSystem) (d : Directory) (file : String × List UInt8) :
    Directory × Bool :=
  if fs.nameMax < file.1.utf8ByteSize then (d, false)
  else
    match fs.fault d file with
    | none => (d.put file, true)
    | some .create => (d, false)
    | some (.write written) => (d.put (file.1, file.2.take written), false)

/-- An error ends the run. -/
def Directory.writeAll (fs : FileSystem) (d : Directory) :
    List (String × List UInt8) → Directory × Bool
  | [] => (d, true)
  | file :: files =>
    match d.write fs file with
    | (d', true) => d'.writeAll fs files
    | (d', false) => (d', false)

/-- `run_distill` after the stream, and whether it ends without an error. Without entries, and with
`--cat`, nothing is written. -/
def runDistill (fs : FileSystem) (format : String) (cat : Bool) (d : Directory)
    (entries : List DistillEntry) : Directory × Bool :=
  if entries.isEmpty || cat then (d, true)
  else if fs.createsDir then d.writeAll fs (distillFiles t format entries)
  else (d, false)

end Export

theorem toLower_ne_hyphen {c : Char} (h : slugSep c = false) : c.toLower ≠ '-' := by
  intro heq
  have hnat := congrArg Char.toNat heq
  rw [toNat_toLower, show '-'.toNat = 45 from rfl] at hnat
  have hc : c = '-' := by
    apply Char.toNat_inj.mp
    rw [show '-'.toNat = 45 from rfl]
    split at hnat <;> omega
  rw [hc] at h
  exact absurd h (by decide)

/-- A slug is the words of the text in lower case, with hyphens between them. -/
theorem slugify_eq (input : List Char) :
    slugify input = (['-'].intercalate (words slugSep input)).map Char.toLower := by
  obtain ⟨front, seps, rfl, hseps, hfront⟩ := exists_endsInWord slugSep input
  rw [words_append_right hseps]
  by_cases hnil : front = []
  · rw [hnil, slugify, List.nil_append, squeeze_seps hseps]
    rfl
  · obtain ⟨word, rest, hsplit⟩ := List.exists_cons_of_ne_nil (List.splitOnP_ne_nil slugSep front)
    have hwords : squeeze slugSep '-' true front = ['-'].intercalate (words slugSep front) :=
      (squeeze_of_endsInWord hsplit hfront).1
    obtain ⟨c, hc, hsep⟩ : ∃ c, (squeeze slugSep '-' true front).getLast? = some c ∧
        slugSep c = false := exists_getLast?_squeeze hfront hnil true
    by_cases hnone : seps = []
    · have hlast : ((squeeze slugSep '-' true front).map Char.toLower).getLast? ≠ some '-' := by
        rw [List.getLast?_map, hc]
        exact fun h => toLower_ne_hyphen hsep (Option.some.inj h)
      rw [hnone, List.append_nil, slugify, if_neg hlast, hwords]
    · have hout : (squeeze slugSep '-' true (front ++ seps)).map Char.toLower =
          (squeeze slugSep '-' true front).map Char.toLower ++ ['-'] := by
        rw [squeeze_append_seps hfront hnil hseps hnone, List.map_append]
        rfl
      rw [slugify, hout, if_pos List.getLast?_concat, List.dropLast_concat, hwords]

/-- Small letters, digits and hyphens. -/
def InSlug (c : Char) : Prop := c.isLower = true ∨ c.isDigit = true ∨ c = '-'

theorem isLower_of_toNat {c : Char} (hlow : 97 ≤ c.toNat) (hhigh : c.toNat ≤ 122) :
    c.isLower = true := by
  apply Bool.and_eq_true_iff.mpr
  constructor
  · exact decide_eq_true (UInt32.le_iff_toNat_le.mpr hlow)
  · exact decide_eq_true (UInt32.le_iff_toNat_le.mpr hhigh)

theorem inSlug_toLower {c : Char} (h : slugSep c = false) : InSlug c.toLower := by
  have halnum : c.isAlphanum = true := by simpa [slugSep] using h
  rcases Bool.or_eq_true_iff.mp halnum with halpha | hdigit
  · left
    have hlower := toNat_toLower c
    rcases Bool.or_eq_true_iff.mp halpha with hupper | hsmall
    · have hrange := of_decide_eq_true hupper
      have hlow : 65 ≤ c.toNat := UInt32.le_iff_toNat_le.mp hrange.1
      have hhigh : c.toNat ≤ 90 := UInt32.le_iff_toNat_le.mp hrange.2
      rw [if_pos ⟨hlow, hhigh⟩] at hlower
      exact isLower_of_toNat (by omega) (by omega)
    · have hrange := Bool.and_eq_true_iff.mp hsmall
      have hlow : 97 ≤ c.toNat := UInt32.le_iff_toNat_le.mp (of_decide_eq_true hrange.1)
      have hhigh : c.toNat ≤ 122 := UInt32.le_iff_toNat_le.mp (of_decide_eq_true hrange.2)
      rw [if_neg (by omega)] at hlower
      exact isLower_of_toNat (by omega) (by omega)
  · right
    left
    have hrange := Char.isDigit_iff_toNat.mp hdigit
    change 48 ≤ c.toNat ∧ c.toNat ≤ 57 at hrange
    have hsame : c.toLower = c := by
      apply Char.toNat_inj.mp
      rw [toNat_toLower, if_neg]
      omega
    rw [hsame]
    exact hdigit

theorem inSlug_entry : ∀ c ∈ "entry".toList, InSlug c := by
  have hlower : "entry".toList.all Char.isLower = true := by decide
  intro c hc
  exact .inl (List.all_eq_true.mp hlower c hc)

theorem inSlug_slugify {input : List Char} {c : Char} (h : c ∈ slugify input) : InSlug c := by
  rw [slugify_eq] at h
  obtain ⟨d, hd, rfl⟩ := List.mem_map.mp h
  rcases mem_intercalate hd with hhyphen | ⟨word, hword, hd⟩
  · rw [List.mem_singleton.mp hhyphen]
    exact .inr (.inr rfl)
  · exact inSlug_toLower ((mem_words hword).2 d hd).1

theorem inSlug_hexDigit : ∀ n < 16, InSlug (Json.hexDigit n) := by
  unfold InSlug
  decide

theorem hexDigit_injective : ∀ m < 16, ∀ n < 16, Json.hexDigit m = Json.hexDigit n → m = n := by
  decide

theorem byte_digits_lt (b : UInt8) : b.toNat / 16 < 16 ∧ b.toNat % 16 < 16 := by
  have hlt := b.toNat_lt
  omega

def byteHex (b : UInt8) : List Char :=
  [Json.hexDigit (b.toNat / 16), Json.hexDigit (b.toNat % 16)]

theorem byteHex_injective {a b : UInt8} (h : byteHex a = byteHex b) : a = b := by
  obtain ⟨ha, ha'⟩ := byte_digits_lt a
  obtain ⟨hb, hb'⟩ := byte_digits_lt b
  obtain ⟨hhigh, hlow⟩ := List.cons.inj h
  have hdiv := hexDigit_injective _ ha _ hb hhigh
  have hmod := hexDigit_injective _ ha' _ hb' (List.cons.inj hlow).1
  apply UInt8.toNat_inj.mp
  omega

theorem flatMap_byteHex_injective : ∀ {as bs : List UInt8},
    as.flatMap byteHex = bs.flatMap byteHex → as = bs
  | [], [], _ => rfl
  | [], b :: bs, h => by cases h
  | a :: as, [], h => by cases h
  | a :: as, b :: bs, h => by
    have hlists : byteHex a ++ as.flatMap byteHex = byteHex b ++ bs.flatMap byteHex := h
    obtain ⟨hhead, htail⟩ := List.append_inj hlists rfl
    rw [byteHex_injective hhead, flatMap_byteHex_injective htail]

theorem length_flatMap_byteHex (bs : List UInt8) : (bs.flatMap byteHex).length = 2 * bs.length := by
  induction bs with
  | nil => rfl
  | cons b bs ih =>
    rw [List.flatMap_cons, List.length_append, ih, List.length_cons]
    exact Nat.add_comm _ _

theorem queryHashHex_injective {h k : QueryHash} (heq : queryHashHex h = queryHashHex k) :
    h = k := by
  apply hashBytes_injective
  apply flatMap_byteHex_injective
  exact String.ofList_injective heq

theorem inSlug_queryHashHex {h : QueryHash} {c : Char} (hc : c ∈ (queryHashHex h).toList) :
    InSlug c := by
  rw [queryHashHex, String.toList_ofList] at hc
  obtain ⟨b, -, hb⟩ := List.mem_flatMap.mp hc
  obtain ⟨hhigh, hlow⟩ := byte_digits_lt b
  rcases List.mem_cons.mp hb with rfl | hb
  · exact inSlug_hexDigit _ hhigh
  · rw [List.mem_singleton.mp hb]
    exact inSlug_hexDigit _ hlow

namespace DistillEntry

def stem (e : DistillEntry) : List Char :=
  if slugify e.query.toList = [] then "entry".toList else slugify e.query.toList

theorem baseName_eq (e : DistillEntry) : e.baseName = e.stem ++ '-' :: e.suffix := by
  unfold baseName stem
  dsimp only
  split
  · rfl
  · rfl

/-- The hash of an entry in the stream is one of a key. -/
def Hashed (e : DistillEntry) : Prop := ∃ h : QueryHash, e.hashHex = queryHashHex h

theorem Hashed.length_suffix {e : DistillEntry} (h : e.Hashed) : e.suffix.length = 8 := by
  obtain ⟨k, hk⟩ := h
  have hlength : (queryHashHex k).toList.length = 64 := by
    rw [queryHashHex, String.toList_ofList]
    exact (length_flatMap_byteHex _).trans (by rw [length_hashBytes])
  rw [suffix, hk, List.length_take, hlength]
  rfl

theorem Hashed.inSlug {e : DistillEntry} (h : e.Hashed) {c : Char} (hc : c ∈ e.baseName) :
    InSlug c := by
  rw [baseName_eq] at hc
  rcases List.mem_append.mp hc with hstem | hc
  · unfold stem at hstem
    split at hstem
    · exact inSlug_entry c hstem
    · exact inSlug_slugify hstem
  · rcases List.mem_cons.mp hc with rfl | hsuffix
    · exact .inr (.inr rfl)
    · obtain ⟨k, hk⟩ := h
      apply inSlug_queryHashHex (h := k)
      rw [← hk]
      exact List.mem_of_mem_take hsuffix

theorem suffix_eq_of_baseName {e e' : DistillEntry} (he : e.Hashed) (he' : e'.Hashed)
    (h : e.baseName = e'.baseName) : e.suffix = e'.suffix := by
  rw [baseName_eq, baseName_eq] at h
  have hlength : ('-' :: e.suffix).length = ('-' :: e'.suffix).length := by
    rw [List.length_cons, List.length_cons, he.length_suffix, he'.length_suffix]
  exact (List.cons.inj (List.append_inj' h hlength).2).2

end DistillEntry

namespace DistillEntry

variable {e e' : DistillEntry}

theorem baseName_eq_of_fileName {extension : String}
    (h : e.fileName extension = e'.fileName extension) : e.baseName = e'.baseName :=
  List.append_cancel_right (String.ofList_injective h)

theorem fileName_ne_of_last {extension extension' : String} {c c' : Char}
    (hc : extension.toList.getLast? = some c) (hc' : extension'.toList.getLast? = some c')
    (hne : c ≠ c') : e.fileName extension ≠ e'.fileName extension' := by
  intro h
  have hlast := congrArg List.getLast? (String.ofList_injective h)
  rw [List.getLast?_append, List.getLast?_append, hc, hc'] at hlast
  exact hne (Option.some.inj hlast)

theorem md_ne_json : e.fileName ".md" ≠ e'.fileName ".json" := by
  have hne : 'd' ≠ 'n' := by decide
  exact fileName_ne_of_last rfl rfl hne

theorem Hashed.fileName_ne (h : e.Hashed) {extension name : String}
    (hextension : '_' ∉ extension.toList) (hname : '_' ∈ name.toList) :
    e.fileName extension ≠ name := by
  rintro rfl
  rw [fileName, String.toList_ofList] at hname
  rcases List.mem_append.mp hname with hbase | hext
  · rcases h.inSlug hbase with hbad | hbad | hbad
    · exact absurd hbad (by decide)
    · exact absurd hbad (by decide)
    · exact absurd hbad (by decide)
  · exact hextension hext

end DistillEntry

namespace Directory

variable {files : List (String × List UInt8)} {name : String} {content : List UInt8}
  {fs : FileSystem} {d : Directory}

theorem lookup_put_of_ne {file : String × List UInt8} (h : file.1 ≠ name) :
    (d.put file).lookup name = d.lookup name := AList.lookup_insert_ne (Ne.symm h)

theorem lookup_puts_of_forall_ne (h : ∀ file ∈ files, file.1 ≠ name) :
    (files.foldl put d).lookup name = d.lookup name := by
  induction files generalizing d with
  | nil => rfl
  | cons file files ih =>
    rw [List.foldl_cons, ih fun f hf => h f (List.mem_cons_of_mem file hf)]
    exact lookup_put_of_ne (h file List.mem_cons_self)

theorem lookup_puts_of_mem (hmem : (name, content) ∈ files)
    (honly : ∀ file ∈ files, file.1 = name → file.2 = content) :
    (files.foldl put d).lookup name = some content := by
  induction files generalizing d with
  | nil => cases hmem
  | cons file files ih =>
    have hrest := fun f hf => honly f (List.mem_cons_of_mem file hf)
    rw [List.foldl_cons]
    by_cases hlater : ∃ f ∈ files, f.1 = name
    · obtain ⟨f, hf, hname⟩ := hlater
      refine ih ?_ hrest
      rw [← hname, ← hrest f hf hname]
      exact hf
    · have hne : ∀ f ∈ files, f.1 ≠ name := fun f hf hname => hlater ⟨f, hf, hname⟩
      rw [lookup_puts_of_forall_ne hne]
      rcases List.mem_cons.mp hmem with rfl | hmem
      · exact AList.lookup_insert _
      · exact absurd rfl (hne _ hmem)

/-- What is left of a list of files: all of them, or those before the first one that fails, of
which there may be a beginning. -/
inductive Wrote (d : Directory) (files : List (String × List UInt8)) :
    Directory × Bool → Prop where
  | all : Wrote d files (files.foldl put d, true)
  | stopped (done rest cut : List (String × List UInt8)) (file : String × List UInt8)
      (hfiles : files = done ++ file :: rest) (hcut : ∀ f ∈ cut, f.1 = file.1) :
      Wrote d files ((done ++ cut).foldl put d, false)

theorem wrote_writeAll (fs : FileSystem) (d : Directory) (files : List (String × List UInt8)) :
    Wrote d files (d.writeAll fs files) := by
  induction files generalizing d with
  | nil => exact .all
  | cons file files ih =>
    have hfails (cut : List (String × List UInt8)) (hcut : ∀ f ∈ cut, f.1 = file.1) :
        Wrote d (file :: files) (cut.foldl put d, false) :=
      .stopped [] files cut file rfl hcut
    unfold writeAll write
    by_cases hlong : fs.nameMax < file.1.utf8ByteSize
    · rw [if_pos hlong]
      exact hfails [] (by simp)
    · rw [if_neg hlong]
      cases fs.fault d file with
      | none =>
        dsimp only
        have hrest := ih (d.put file)
        generalize (d.put file).writeAll fs files = r at hrest ⊢
        cases hrest with
        | all => exact .all
        | stopped done rest cut failed hfiles hcut =>
          rw [hfiles]
          exact .stopped (file :: done) rest cut failed rfl hcut
      | some fault =>
        cases fault with
        | create => exact hfails [] (by simp)
        | write written => exact hfails [(file.1, file.2.take written)] (by simp)

theorem Wrote.lookup_of_forall_ne {r : Directory × Bool} (h : Wrote d files r)
    (hne : ∀ file ∈ files, file.1 ≠ name) : r.1.lookup name = d.lookup name := by
  cases h with
  | all => exact lookup_puts_of_forall_ne hne
  | stopped done rest cut failed hfiles hcut =>
    apply lookup_puts_of_forall_ne
    intro file hfile
    rcases List.mem_append.mp hfile with hdone | hfile
    · exact hne file (hfiles ▸ List.mem_append_left _ hdone)
    · rw [hcut file hfile]
      exact hne failed (hfiles ▸ List.mem_append_right _ List.mem_cons_self)

theorem writeAll_ok_iff (hfault : ∀ d file, fs.fault d file = none) :
    (d.writeAll fs files).2 = true ↔ ∀ file ∈ files, file.1.utf8ByteSize ≤ fs.nameMax := by
  induction files generalizing d with
  | nil => simp [writeAll]
  | cons file files ih =>
    rw [List.forall_mem_cons]
    unfold writeAll write
    by_cases hlong : fs.nameMax < file.1.utf8ByteSize
    · rw [if_pos hlong]
      simp only [Bool.false_eq_true, false_iff, not_and]
      omega
    · rw [if_neg hlong, hfault]
      dsimp only
      rw [ih]
      exact (and_iff_right (Nat.le_of_not_lt hlong)).symm

end Directory

section Files

variable {t : TextTools} {format : String} {entries : List DistillEntry}
  {file : String × List UInt8}

theorem mem_ite_singleton {b : Bool} {x : String × List UInt8} :
    file ∈ (if b = true then [x] else []) ↔ b = true ∧ file = x := by
  cases b
  · simp
  · simp

theorem mem_entryFiles_iff {e : DistillEntry} :
    file ∈ entryFiles t format e ↔
      (writesMd format = true ∧ file = (e.fileName ".md", utf8 (e.markdown t))) ∨
        (writesJson format = true ∧ file = (e.fileName ".json", e.responseJson)) := by
  simp only [entryFiles, List.mem_append, mem_ite_singleton]

theorem mem_indexFiles_iff :
    file ∈ indexFiles t format entries ↔
      (writesMd format = true ∧ file = ("_index.md", utf8 (indexMd entries))) ∨
        (writesJson format = true ∧ file =
          ("_index.json", utf8 (t.pretty (.array (entries.map DistillEntry.indexJson))))) := by
  simp only [indexFiles, List.mem_append, mem_ite_singleton]

theorem mem_distillFiles_iff :
    file ∈ distillFiles t format entries ↔
      (∃ e ∈ entries, (writesMd format = true ∧ file = (e.fileName ".md", utf8 (e.markdown t))) ∨
        (writesJson format = true ∧ file = (e.fileName ".json", e.responseJson))) ∨
      (writesMd format = true ∧ file = ("_index.md", utf8 (indexMd entries))) ∨
        (writesJson format = true ∧ file =
          ("_index.json", utf8 (t.pretty (.array (entries.map DistillEntry.indexJson))))) := by
  simp only [distillFiles, List.mem_append, List.mem_flatMap, mem_entryFiles_iff,
    mem_indexFiles_iff]

/-- A file of a run is one of an entry, or it comes after the files of all entries. -/
theorem split_files {α β : Type} {f : α → List β} {xs : List α} {last done rest : List β} {y : β}
    (h : xs.flatMap f ++ last = done ++ y :: rest) :
    (∃ before x after front, xs = before ++ x :: after ∧ done = before.flatMap f ++ front ∧
        (∀ z ∈ front, z ∈ f x) ∧ y ∈ f x) ∨
      ∃ front, done = xs.flatMap f ++ front ∧ (∀ z ∈ front, z ∈ last) ∧ y ∈ last := by
  induction xs generalizing done with
  | nil =>
    rw [List.flatMap_nil, List.nil_append] at h
    refine .inr ⟨done, rfl, ?_, ?_⟩
    · intro z hz
      rw [h]
      exact List.mem_append_left _ hz
    · rw [h]
      exact List.mem_append_right _ List.mem_cons_self
  | cons x xs ih =>
    rw [List.flatMap_cons, List.append_assoc, List.append_eq_append_iff] at h
    rcases h with ⟨more, hdone, hmore⟩ | ⟨more, hfx, hmore⟩
    · rcases ih hmore with ⟨before, x', after, front, rfl, rfl, hfront, hy⟩ | ⟨front, rfl, hrest⟩
      · exact .inl ⟨x :: before, x', after, front, rfl, by rw [hdone]; simp, hfront, hy⟩
      · exact .inr ⟨front, by rw [hdone]; simp, hrest⟩
    · cases more with
      | nil =>
        rw [List.append_nil] at hfx
        have hnext : xs.flatMap f ++ last = [] ++ y :: rest := hmore.symm
        rcases ih hnext with
          ⟨before, x', after, front, rfl, hnil, hfront, hy⟩ | ⟨front, hnil, hrest⟩
        · refine .inl ⟨x :: before, x', after, front, rfl, ?_, hfront, hy⟩
          rw [List.flatMap_cons, List.append_assoc, ← hnil, List.append_nil, hfx]
        · refine .inr ⟨front, ?_, hrest⟩
          rw [List.flatMap_cons, List.append_assoc, ← hnil, List.append_nil, hfx]
      | cons z more =>
        obtain ⟨rfl, -⟩ := List.cons.inj hmore
        refine .inl ⟨[], x, xs, done, rfl, rfl, ?_, ?_⟩
        · intro w hw
          rw [hfx]
          exact List.mem_append_left _ hw
        · rw [hfx]
          exact List.mem_append_right _ List.mem_cons_self

end Files

namespace CacheStore

variable {p : Platform} {s : CacheStore} {scan : Scan} {now : Clock} {req : DistillRequest}

/-- The entry of a snapshot passes the context filter and the gate by age. -/
def Distills (p : Platform) (s : CacheStore) (now : Clock) (req : DistillRequest)
    (x : DistillSnapshot) : Prop :=
  (∃ e, s.entries.lookup x.hash = some e ∧ snapshotRich p x.hash e = some x) ∧
    (req.context = "" ∨ x.contextId = req.context) ∧
    now.wall - x.cachedAtWall ≤ s.maxFrozenDuration ∧
    (req.includeStale = true ∨
      now.wall - x.cachedAtWall ≤ s.jitteredTtl p s.freshDuration x.hash)

theorem snapshotRich_hash {h : QueryHash} {e : CacheEntry} {x : DistillSnapshot}
    (hx : snapshotRich p h e = some x) : x.hash = h := by
  obtain ⟨wall, -, hx⟩ := Option.bind_eq_some_iff.mp hx
  obtain ⟨json, -, hx⟩ := Option.bind_eq_some_iff.mp hx
  rw [← Option.some.inj hx]

theorem mem_snapshotEntriesRich_iff {x : DistillSnapshot} :
    x ∈ s.snapshotEntriesRich p scan ↔
      ∃ e, s.entries.lookup x.hash = some e ∧ snapshotRich p x.hash e = some x := by
  simp only [snapshotEntriesRich, List.mem_filterMap, Prod.exists, mem_iter_iff]
  constructor
  · rintro ⟨h, e, hl, hx⟩
    rw [snapshotRich_hash hx]
    exact ⟨e, hl, hx⟩
  · rintro ⟨e, hl, hx⟩
    exact ⟨x.hash, e, hl, hx⟩

theorem withinTtl_iff {x : DistillSnapshot} :
    s.withinTtl p now req x = true ↔ now.wall - x.cachedAtWall ≤ s.maxFrozenDuration ∧
      (req.includeStale = true ∨
        now.wall - x.cachedAtWall ≤ s.jitteredTtl p s.freshDuration x.hash) := by
  unfold withinTtl
  dsimp only
  split
  · rename_i hfrozen
    refine ⟨fun h => (Bool.false_ne_true h).elim, fun h => ?_⟩
    exact absurd h.1 (Nat.not_le_of_lt hfrozen)
  · rename_i hfrozen
    split
    · rename_i hstale
      refine ⟨fun h => (Bool.false_ne_true h).elim, fun h => ?_⟩
      rcases h.2 with hinclude | hfresh
      · exact (Bool.false_ne_true (hstale.1.symm.trans hinclude)).elim
      · exact absurd hfresh (Nat.not_le_of_lt hstale.2)
    · rename_i hstale
      refine ⟨fun _ => ⟨Nat.le_of_not_lt hfrozen, ?_⟩, fun _ => rfl⟩
      by_cases hinclude : req.includeStale = true
      · exact .inl hinclude
      · right
        by_contra hlt
        exact hstale ⟨Bool.eq_false_iff.mpr hinclude, Nat.lt_of_not_le hlt⟩

theorem mem_distillSelected_iff {x : DistillSnapshot} :
    x ∈ s.distillSelected p scan now req ↔ s.Distills p now req x := by
  simp only [distillSelected, List.mem_filter, mem_snapshotEntriesRich_iff, withinTtl_iff,
    inContext, Bool.or_eq_true, decide_eq_true_eq, Distills, and_assoc]

theorem nodup_distillSelected :
    ((s.distillSelected p scan now req).map DistillSnapshot.hash).Nodup := by
  have hselected : (s.distillSelected p scan now req).Sublist (s.snapshotEntriesRich p scan) :=
    List.filter_sublist.trans List.filter_sublist
  have hrich : ((s.snapshotEntriesRich p scan).map DistillSnapshot.hash).Sublist
      ((s.iter scan).map Prod.fst) := by
    unfold snapshotEntriesRich
    induction s.iter scan with
    | nil => exact List.Sublist.refl _
    | cons x rest ih =>
      rw [List.filterMap_cons, List.map_cons]
      cases hx : snapshotRich p x.1 x.2 with
      | none => exact ih.cons _
      | some y =>
        dsimp only
        rw [List.map_cons, snapshotRich_hash hx]
        exact ih.cons_cons _
  exact (nodup_iter s scan).sublist ((hselected.map _).trans hrich)

/-- The snapshots behind a stream: the oldest of those that pass, in order, each one once. -/
structure DistillsOldest (p : Platform) (s : CacheStore) (now : Clock) (req : DistillRequest)
    (xs : List DistillSnapshot) : Prop where
  sound : ∀ x ∈ xs, s.Distills p now req x
  once : (xs.map DistillSnapshot.hash).Nodup
  ordered : xs.Pairwise fun x y => x.cachedAtWall ≤ y.cachedAtWall
  complete : req.limit = 0 ∨ xs.length < req.limit → ∀ x, s.Distills p now req x → x ∈ xs
  limited : 0 < req.limit → xs.length ≤ req.limit
  oldest : ∀ y, s.Distills p now req y → y ∉ xs → ∀ x ∈ xs, x.cachedAtWall ≤ y.cachedAtWall

theorem mem_distillSorted_iff {x : DistillSnapshot} :
    x ∈ s.distillSorted p scan now req ↔ s.Distills p now req x := by
  rw [distillSorted, List.mem_mergeSort, mem_distillSelected_iff]

theorem nodup_distillSorted :
    ((s.distillSorted p scan now req).map DistillSnapshot.hash).Nodup :=
  ((List.mergeSort_perm _ _).map DistillSnapshot.hash).nodup_iff.mpr nodup_distillSelected

theorem ordered_distillSorted :
    (s.distillSorted p scan now req).Pairwise fun x y => x.cachedAtWall ≤ y.cachedAtWall := by
  have hsorted : (s.distillSorted p scan now req).Pairwise fun x y =>
      decide (x.cachedAtWall ≤ y.cachedAtWall) = true :=
    List.pairwise_mergeSort
      (fun a b c hab hbc => by simp only [decide_eq_true_eq] at *; omega)
      (fun a b => by simp only [Bool.or_eq_true, decide_eq_true_eq]; omega)
      (s.distillSelected p scan now req)
  exact hsorted.imp fun h => of_decide_eq_true h

/-- A limit of zero is no limit. -/
def distillCount (p : Platform) (s : CacheStore) (scan : Scan) (now : Clock)
    (req : DistillRequest) : Nat :=
  if req.limit = 0 then (s.distillSorted p scan now req).length else req.limit

theorem getCacheDistill_eq :
    s.getCacheDistill p scan now req = ((s.distillSorted p scan now req).take
      (s.distillCount p scan now req)).map (s.distillEntry req) := by
  unfold getCacheDistill distillCount
  dsimp only
  by_cases hzero : req.limit = 0
  · rw [if_neg (by omega), if_pos hzero, List.take_length]
  · rw [if_neg hzero]
    split
    · rfl
    · rw [List.take_of_length_le (by omega)]

theorem le_of_mem_take {x y : DistillSnapshot} {n : Nat}
    (hx : x ∈ (s.distillSorted p scan now req).take n)
    (hy : y ∈ s.distillSorted p scan now req)
    (hnot : y ∉ (s.distillSorted p scan now req).take n) : x.cachedAtWall ≤ y.cachedAtWall := by
  have hsorted : (s.distillSorted p scan now req).Pairwise fun x y =>
      x.cachedAtWall ≤ y.cachedAtWall := ordered_distillSorted
  rw [← List.take_append_drop n (s.distillSorted p scan now req)] at hsorted hy
  rcases List.mem_append.mp hy with hy | hy
  · exact absurd hy hnot
  · exact (List.pairwise_append.mp hsorted).2.2 x hx y hy

theorem nodup_hashHex :
    ((s.getCacheDistill p scan now req).map DistillEntry.hashHex).Nodup := by
  have hhash : (((s.distillSorted p scan now req).take
      (s.distillCount p scan now req)).map DistillSnapshot.hash).Nodup :=
    nodup_distillSorted.sublist ((List.take_sublist _ _).map _)
  have hhex := hhash.map (f := queryHashHex) fun _ _ => queryHashHex_injective
  rw [getCacheDistill_eq, List.map_map]
  rw [List.map_map] at hhex
  exact hhex

theorem hashed_of_mem {d : DistillEntry} (hd : d ∈ s.getCacheDistill p scan now req) :
    d.Hashed := by
  rw [getCacheDistill_eq] at hd
  obtain ⟨x, -, rfl⟩ := List.mem_map.mp hd
  exact ⟨x.hash, rfl⟩

end CacheStore

open CacheStore in
theorem distill_selects_oldest (p : Platform) (s : CacheStore) (scan : Scan) (now : Clock)
    (req : DistillRequest) :
    ∃ xs, s.getCacheDistill p scan now req = xs.map (s.distillEntry req) ∧
      s.DistillsOldest p now req xs := by
  have htaken : ((s.distillSorted p scan now req).take (s.distillCount p scan now req)).Sublist
      (s.distillSorted p scan now req) := List.take_sublist _ _
  refine ⟨_, getCacheDistill_eq, ?_⟩
  constructor
  · intro x hx
    exact mem_distillSorted_iff.mp (List.mem_of_mem_take hx)
  · exact nodup_distillSorted.sublist (htaken.map _)
  · exact ordered_distillSorted.sublist htaken
  · intro hall x hx
    rw [List.take_of_length_le]
    · exact mem_distillSorted_iff.mpr hx
    · rw [List.length_take] at hall
      unfold distillCount at hall ⊢
      split
      · exact le_rfl
      · rename_i hlimit
        rw [if_neg hlimit] at hall
        omega
  · intro hpos
    rw [List.length_take, distillCount, if_neg hpos.ne']
    exact Nat.min_le_left _ _
  · intro y hy hout x hx
    exact le_of_mem_take hx (mem_distillSorted_iff.mpr hy) hout

/-! ## What is exported -/

/-- No other entry has the same first digits. -/
def DistillEntry.Alone (e : DistillEntry) (entries : List DistillEntry) : Prop :=
  ∀ e' ∈ entries, e'.suffix = e.suffix → e' = e

/-- The directory holds the files of an entry. -/
structure HasFiles (t : TextTools) (format : String) (d : Directory) (e : DistillEntry) : Prop where
  markdown : writesMd format = true → d.lookup (e.fileName ".md") = some (utf8 (e.markdown t))
  json : writesJson format = true → d.lookup (e.fileName ".json") = some e.responseJson

structure HasIndex (t : TextTools) (format : String) (d : Directory)
    (entries : List DistillEntry) : Prop where
  markdown : writesMd format = true → d.lookup "_index.md" = some (utf8 (indexMd entries))
  json : writesJson format = true → d.lookup "_index.json" =
    some (utf8 (t.pretty (.array (entries.map DistillEntry.indexJson))))

def SameFiles (d d' : Directory) (e : DistillEntry) : Prop :=
  d'.lookup (e.fileName ".md") = d.lookup (e.fileName ".md") ∧
    d'.lookup (e.fileName ".json") = d.lookup (e.fileName ".json")

def SameIndex (d d' : Directory) : Prop :=
  d'.lookup "_index.md" = d.lookup "_index.md" ∧ d'.lookup "_index.json" = d.lookup "_index.json"

/-- What a run without an error leaves. -/
structure ExportsAll (t : TextTools) (format : String) (entries : List DistillEntry)
    (d : Directory) : Prop where
  entry : ∀ e ∈ entries, e.Alone entries → HasFiles t format d e
  index : entries ≠ [] → HasIndex t format d entries

/-- What an error leaves: it ends the run at the files of an entry, at the index files or at the
directory, and what comes later is as it was. -/
inductive StopsEarly (t : TextTools) (format : String) (entries : List DistillEntry)
    (d d' : Directory) : Prop where
  | dir (hsame : d' = d)
  | entry (before after : List DistillEntry) (failed : DistillEntry)
      (hentries : entries = before ++ failed :: after)
      (hbefore : ∀ e ∈ before, e.Alone entries → HasFiles t format d' e)
      (hafter : ∀ e ∈ after, e.Alone entries → SameFiles d d' e) (hindex : SameIndex d d')
  | index (hentries : ∀ e ∈ entries, e.Alone entries → HasFiles t format d' e)

section Export

variable {t : TextTools} {fs : FileSystem} {format : String} {entries : List DistillEntry}
  {d : Directory}

theorem underscore_mem_index : '_' ∈ "_index.md".toList ∧ '_' ∈ "_index.json".toList := by
  decide

variable {e : DistillEntry} {file : String × List UInt8}

theorem md_ne_index (he : e.Hashed) :
    e.fileName ".md" ≠ "_index.md" ∧ e.fileName ".md" ≠ "_index.json" :=
  ⟨he.fileName_ne (by decide) underscore_mem_index.1,
    he.fileName_ne (by decide) underscore_mem_index.2⟩

theorem json_ne_index (he : e.Hashed) :
    e.fileName ".json" ≠ "_index.md" ∧ e.fileName ".json" ≠ "_index.json" :=
  ⟨he.fileName_ne (by decide) underscore_mem_index.1,
    he.fileName_ne (by decide) underscore_mem_index.2⟩

theorem content_of_md (hhashed : ∀ e ∈ entries, e.Hashed) (he : e ∈ entries)
    (hfile : file ∈ distillFiles t format entries) (hname : file.1 = e.fileName ".md") :
    ∃ e' ∈ entries, e'.suffix = e.suffix ∧ file.2 = utf8 (e'.markdown t) := by
  have hindex := md_ne_index (hhashed e he)
  rcases mem_distillFiles_iff.mp hfile with ⟨e', he', ⟨-, rfl⟩ | ⟨-, rfl⟩⟩ | ⟨-, rfl⟩ | ⟨-, rfl⟩
  · have hbase := DistillEntry.baseName_eq_of_fileName hname
    exact ⟨e', he', DistillEntry.suffix_eq_of_baseName (hhashed e' he') (hhashed e he) hbase, rfl⟩
  · exact absurd hname.symm DistillEntry.md_ne_json
  · exact absurd hname.symm hindex.1
  · exact absurd hname.symm hindex.2

theorem content_of_json (hhashed : ∀ e ∈ entries, e.Hashed) (he : e ∈ entries)
    (hfile : file ∈ distillFiles t format entries) (hname : file.1 = e.fileName ".json") :
    ∃ e' ∈ entries, e'.suffix = e.suffix ∧ file.2 = e'.responseJson := by
  have hindex := json_ne_index (hhashed e he)
  rcases mem_distillFiles_iff.mp hfile with ⟨e', he', ⟨-, rfl⟩ | ⟨-, rfl⟩⟩ | ⟨-, rfl⟩ | ⟨-, rfl⟩
  · exact absurd hname DistillEntry.md_ne_json
  · have hbase := DistillEntry.baseName_eq_of_fileName hname
    exact ⟨e', he', DistillEntry.suffix_eq_of_baseName (hhashed e' he') (hhashed e he) hbase, rfl⟩
  · exact absurd hname.symm hindex.1
  · exact absurd hname.symm hindex.2

theorem content_of_index (hhashed : ∀ e ∈ entries, e.Hashed)
    (hfile : file ∈ distillFiles t format entries) :
    (file.1 = "_index.md" → file.2 = utf8 (indexMd entries)) ∧
      (file.1 = "_index.json" →
        file.2 = utf8 (t.pretty (.array (entries.map DistillEntry.indexJson)))) := by
  rcases mem_distillFiles_iff.mp hfile with ⟨e', he', ⟨-, rfl⟩ | ⟨-, rfl⟩⟩ | ⟨-, rfl⟩ | ⟨-, rfl⟩
  · have hindex := md_ne_index (hhashed e' he')
    exact ⟨fun h => absurd h hindex.1, fun h => absurd h hindex.2⟩
  · have hindex := json_ne_index (hhashed e' he')
    exact ⟨fun h => absurd h hindex.1, fun h => absurd h hindex.2⟩
  · exact ⟨fun _ => rfl, fun h => absurd h (by dsimp only; decide)⟩
  · exact ⟨fun h => absurd h (by dsimp only; decide), fun _ => rfl⟩

/-- Files that are all those of some entries, with others under other names, hold these
entries. -/
theorem hasFiles_of_written {files : List (String × List UInt8)} (hhashed : ∀ e ∈ entries, e.Hashed)
    (he : e ∈ entries) (halone : e.Alone entries)
    (hwritten : ∀ file ∈ entryFiles t format e, file ∈ files)
    (hothers : ∀ file ∈ files, file ∈ distillFiles t format entries ∨
      (file.1 ≠ e.fileName ".md" ∧ file.1 ≠ e.fileName ".json")) :
    HasFiles t format (files.foldl Directory.put d) e where
  markdown hwrites := by
    apply Directory.lookup_puts_of_mem
    · exact hwritten _ (mem_entryFiles_iff.2 (.inl ⟨hwrites, rfl⟩))
    · intro file hfile hname
      rcases hothers file hfile with hin | hne
      · obtain ⟨e', he', hsuffix, hcontent⟩ := content_of_md hhashed he hin hname
        rw [hcontent, halone e' he' hsuffix]
      · exact absurd hname hne.1
  json hwrites := by
    apply Directory.lookup_puts_of_mem
    · exact hwritten _ (mem_entryFiles_iff.2 (.inr ⟨hwrites, rfl⟩))
    · intro file hfile hname
      rcases hothers file hfile with hin | hne
      · obtain ⟨e', he', hsuffix, hcontent⟩ := content_of_json hhashed he hin hname
        rw [hcontent, halone e' he' hsuffix]
      · exact absurd hname hne.2

theorem ne_of_entryFiles {x : DistillEntry} (hx : x.Hashed) (he : e.Hashed)
    (hne : x.suffix ≠ e.suffix) (hfile : file ∈ entryFiles t format x) :
    file.1 ≠ e.fileName ".md" ∧ file.1 ≠ e.fileName ".json" := by
  have hbase {extension : String} : x.fileName extension ≠ e.fileName extension := fun h =>
    hne (DistillEntry.suffix_eq_of_baseName hx he (DistillEntry.baseName_eq_of_fileName h))
  rcases mem_entryFiles_iff.1 hfile with ⟨-, rfl⟩ | ⟨-, rfl⟩
  · exact ⟨hbase, DistillEntry.md_ne_json⟩
  · exact ⟨fun h => DistillEntry.md_ne_json h.symm, hbase⟩

theorem ne_index_of_entryFiles (he : e.Hashed) (hfile : file ∈ entryFiles t format e) :
    file.1 ≠ "_index.md" ∧ file.1 ≠ "_index.json" := by
  rcases mem_entryFiles_iff.1 hfile with ⟨-, rfl⟩ | ⟨-, rfl⟩
  · exact md_ne_index he
  · exact json_ne_index he

theorem ne_of_indexFiles (he : e.Hashed) (hfile : file ∈ indexFiles t format entries) :
    file.1 ≠ e.fileName ".md" ∧ file.1 ≠ e.fileName ".json" := by
  have hmd := md_ne_index he
  have hjson := json_ne_index he
  rcases mem_indexFiles_iff.1 hfile with ⟨-, rfl⟩ | ⟨-, rfl⟩
  · exact ⟨hmd.1.symm, hjson.1.symm⟩
  · exact ⟨hmd.2.symm, hjson.2.symm⟩

theorem entryFiles_subset (he : e ∈ entries) (hfile : file ∈ entryFiles t format e) :
    file ∈ distillFiles t format entries :=
  List.mem_append_left _ (List.mem_flatMap.2 ⟨e, he, hfile⟩)

theorem exportsAll (hhashed : ∀ e ∈ entries, e.Hashed) :
    ExportsAll t format entries ((distillFiles t format entries).foldl Directory.put d) where
  entry e he halone :=
    hasFiles_of_written hhashed he halone (fun _ hfile => entryFiles_subset he hfile)
      fun _ hfile => .inl hfile
  index _ := by
    constructor
    · intro hwrites
      apply Directory.lookup_puts_of_mem
      · exact mem_distillFiles_iff.mpr (.inr (.inl ⟨hwrites, rfl⟩))
      · exact fun file hfile hname => (content_of_index hhashed hfile).1 hname
    · intro hwrites
      apply Directory.lookup_puts_of_mem
      · exact mem_distillFiles_iff.mpr (.inr (.inr ⟨hwrites, rfl⟩))
      · exact fun file hfile hname => (content_of_index hhashed hfile).2 hname

/-- A run that fails at an entry or at the index. -/
theorem stopsEarly_of_failed (hhashed : ∀ e ∈ entries, e.Hashed) (hnodup : entries.Nodup)
    {done rest cut : List (String × List UInt8)}
    (hfiles : distillFiles t format entries = done ++ file :: rest)
    (hcut : ∀ f ∈ cut, f.1 = file.1) :
    StopsEarly t format entries d ((done ++ cut).foldl Directory.put d) := by
  rcases split_files hfiles with
    ⟨before, x, after, front, rfl, rfl, hfront, hfile⟩ | ⟨front, rfl, hfront, hfile⟩
  · have hx : x ∈ before ++ x :: after := List.mem_append_right _ List.mem_cons_self
    -- every file written is one of an entry up to the failed one
    have hwritten : ∀ w ∈ before.flatMap (entryFiles t format) ++ front ++ cut,
        ∃ e ∈ before ++ [x], ∃ g ∈ entryFiles t format e, w.1 = g.1 := by
      intro w hw
      rcases List.mem_append.mp hw with hw | hw
      · rcases List.mem_append.mp hw with hw | hw
        · obtain ⟨e, he, hin⟩ := List.mem_flatMap.mp hw
          exact ⟨e, List.mem_append_left _ he, w, hin, rfl⟩
        · exact ⟨x, List.mem_append_right _ List.mem_cons_self, w, hfront w hw, rfl⟩
      · exact ⟨x, List.mem_append_right _ List.mem_cons_self, file, hfile, hcut w hw⟩
    have hsplit : (before ++ [x] ++ after).Nodup := by simpa using hnodup
    have hin {e : DistillEntry} (he : e ∈ before ++ [x]) : e ∈ before ++ x :: after := by
      have hmem : e ∈ before ++ [x] ++ after := List.mem_append_left _ he
      simpa using hmem
    refine .entry before after x rfl ?_ ?_ ?_
    · intro e he halone
      have hmem : e ∈ before ++ x :: after := List.mem_append_left _ he
      have hne : x.suffix ≠ e.suffix := by
        intro hsuffix
        have hsame := halone x hx hsuffix
        exact (List.nodup_append.1 hnodup).2.2 e he x List.mem_cons_self hsame.symm
      refine hasFiles_of_written hhashed hmem halone ?_ ?_
      · intro g hg
        exact List.mem_append_left _ (List.mem_append_left _ (List.mem_flatMap.2 ⟨e, he, hg⟩))
      · intro w hw
        rcases List.mem_append.mp hw with hw | hw
        · left
          rcases List.mem_append.mp hw with hw | hw
          · obtain ⟨e', he', hg⟩ := List.mem_flatMap.mp hw
            exact entryFiles_subset (List.mem_append_left _ he') hg
          · exact entryFiles_subset hx (hfront w hw)
        · right
          rw [hcut w hw]
          exact ne_of_entryFiles (hhashed x hx) (hhashed e hmem) hne hfile
    · intro e he halone
      have hmem : e ∈ before ++ x :: after :=
        List.mem_append_right _ (List.mem_cons_of_mem x he)
      have hothers : ∀ w ∈ before.flatMap (entryFiles t format) ++ front ++ cut,
          w.1 ≠ e.fileName ".md" ∧ w.1 ≠ e.fileName ".json" := by
        intro w hw
        obtain ⟨e', he', g, hg, hname⟩ := hwritten w hw
        have hne : e'.suffix ≠ e.suffix := by
          intro hsuffix
          have hsame := halone e' (hin he') hsuffix
          exact (List.nodup_append.1 hsplit).2.2 e' he' e he hsame
        rw [hname]
        exact ne_of_entryFiles (hhashed e' (hin he')) (hhashed e hmem) hne hg
      exact ⟨Directory.lookup_puts_of_forall_ne fun w hw => (hothers w hw).1,
        Directory.lookup_puts_of_forall_ne fun w hw => (hothers w hw).2⟩
    · have hothers : ∀ w ∈ before.flatMap (entryFiles t format) ++ front ++ cut,
          w.1 ≠ "_index.md" ∧ w.1 ≠ "_index.json" := by
        intro w hw
        obtain ⟨e', he', g, hg, hname⟩ := hwritten w hw
        rw [hname]
        exact ne_index_of_entryFiles (hhashed e' (hin he')) hg
      exact ⟨Directory.lookup_puts_of_forall_ne fun w hw => (hothers w hw).1,
        Directory.lookup_puts_of_forall_ne fun w hw => (hothers w hw).2⟩
  · refine .index fun e he halone => ?_
    refine hasFiles_of_written hhashed he halone ?_ ?_
    · intro g hg
      exact List.mem_append_left _ (List.mem_append_left _ (List.mem_flatMap.2 ⟨e, he, hg⟩))
    · intro w hw
      rcases List.mem_append.mp hw with hw | hw
      · left
        rcases List.mem_append.mp hw with hw | hw
        · exact List.mem_append_left _ hw
        · exact List.mem_append_right _ (hfront w hw)
      · right
        rw [hcut w hw]
        exact ne_of_indexFiles (hhashed e he) hfile

end Export

open CacheStore in
/-- The files of what a store streams. A run without an error loses a file only when the first
eight digits of two hashes agree; an error costs the entry it happens at, the later ones and the
index. Nothing else is touched. If nothing but the length of names goes wrong, a run fails exactly
at a name that is too long. -/
theorem distill_exports (p : Platform) (s : CacheStore) (scan : Scan) (now : Clock)
    (req : DistillRequest) (t : TextTools) (fs : FileSystem) (format : String) (d : Directory) :
    let entries := s.getCacheDistill p scan now req
    let run := runDistill t fs format false d entries
    (entries.map DistillEntry.hashHex).Nodup ∧
      (run.2 = true → ExportsAll t format entries run.1) ∧
      (run.2 = false → StopsEarly t format entries d run.1) ∧
      (∀ name, name ≠ "_index.md" → name ≠ "_index.json" →
        (∀ e ∈ entries, name ≠ e.fileName ".md" ∧ name ≠ e.fileName ".json") →
          run.1.lookup name = d.lookup name) ∧
      (∀ e ∈ entries, ∀ c ∈ e.baseName, InSlug c) ∧
      (fs.createsDir = true → (∀ d file, fs.fault d file = none) → entries ≠ [] →
        (run.2 = true ↔
          ∀ file ∈ distillFiles t format entries, file.1.utf8ByteSize ≤ fs.nameMax)) := by
  intro entries run
  have hnodup : (entries.map DistillEntry.hashHex).Nodup := nodup_hashHex
  have hhashed : ∀ e ∈ entries, e.Hashed := fun e he => hashed_of_mem he
  have hslug : ∀ e ∈ entries, ∀ c ∈ e.baseName, InSlug c := fun e he c hc =>
    (hhashed e he).inSlug hc
  refine ⟨hnodup, ?_⟩
  by_cases hnil : entries = []
  · have hrun : run = (d, true) := by
      simp only [run, runDistill, hnil, List.isEmpty_nil, Bool.true_or, if_true]
    rw [hrun, hnil]
    exact ⟨fun _ => ⟨by simp, fun h => absurd rfl h⟩, nofun, fun _ _ _ _ => rfl, by simp,
      fun _ _ h => absurd rfl h⟩
  have hopen : (entries.isEmpty || false) = false := by simp [hnil]
  cases hdir : fs.createsDir with
  | false =>
    have hrun : run = (d, false) := by simp [run, runDistill, hopen, hdir]
    rw [hrun]
    exact ⟨nofun, fun _ => .dir rfl, fun _ _ _ _ => rfl, hslug, nofun⟩
  | true =>
    have hrun : run = d.writeAll fs (distillFiles t format entries) := by
      simp [run, runDistill, hopen, hdir]
    have hwrote := Directory.wrote_writeAll fs d (distillFiles t format entries)
    rw [← hrun] at hwrote
    clear_value run
    refine ⟨?_, ?_, ?_, hslug, ?_⟩
    · intro hok
      cases hwrote with
      | all => exact exportsAll hhashed
      | stopped => cases hok
    · intro hfailed
      cases hwrote with
      | all => cases hfailed
      | stopped done rest cut file hfiles hcut =>
        exact stopsEarly_of_failed hhashed (.of_map _ hnodup) hfiles hcut
    · intro name hmd hjson hnames
      apply hwrote.lookup_of_forall_ne
      intro file hfile hname
      rcases mem_distillFiles_iff.mp hfile with ⟨e', he', ⟨-, rfl⟩ | ⟨-, rfl⟩⟩ | ⟨-, rfl⟩ | ⟨-, rfl⟩
      · exact (hnames e' he').1 hname.symm
      · exact (hnames e' he').2 hname.symm
      · exact hmd hname.symm
      · exact hjson hname.symm
    · intro _ hfault _
      rw [hrun]
      exact Directory.writeAll_ok_iff hfault

end Conproxy
