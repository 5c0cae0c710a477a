import Mathlib.Algebra.Ring.Nat
import Conproxy.Lib.Substitution
import Conproxy.Lib.Words
import Conproxy.Adapter
import Conproxy.Truncation

/-!
# The SQL of the pgvector adapter

The statement is formatted once, with `$1` for the vector in two places and `$2` for the limit. For
every query the literal of the vector is put in for `$1`, and `$2` is renamed to `$1` afterwards.
-/

namespace Conproxy

open Squeeze Substitution

set_option autoImplicit false

def DistanceMetric.operator : DistanceMetric → String
  | cosine => "<=>"
  | l2 => "<->"
  | innerProduct => "<#>"

namespace PgvectorConfig

def buildSelectColumns (config : PgvectorConfig) : String :=
  ", ".intercalate
    (config.contentColumn :: (config.titleColumn.toList ++ config.metadataColumns) ++
      [config.embeddingColumn ++ " " ++ config.distanceMetric.operator ++
        " $1::vector AS distance"])

def buildQuerySql (config : PgvectorConfig) : String :=
  "SELECT " ++ config.buildSelectColumns ++ " FROM " ++ config.table ++ " ORDER BY " ++
    config.embeddingColumn ++ " " ++ config.distanceMetric.operator ++ " $1::vector LIMIT $2"

end PgvectorConfig

/-- `replace` of a text with a pattern that is not empty. -/
def replaceText (pattern replacement text : String) : String :=
  String.ofList (replaceAll pattern.toList replacement.toList text.toList)

/-- `render` is `to_string` of an `f32`. -/
def formatVector (render : F32 → String) (vector : List F32) : String :=
  "[" ++
    String.join (vector.zipIdx.map fun (v, i) => (if 0 < i then "," else "") ++ render v) ++ "]"

/-- The adapter after `connect`, which validates the configuration and formats the statement. -/
structure PgvectorAdapter where
  config : PgvectorConfig
  querySql : String

namespace PgvectorAdapter

/-- The part of `connect` that does not need the database. -/
def connect (config : PgvectorConfig) : Except UpstreamError PgvectorAdapter :=
  match config.validate with
  | .ok () => .ok ⟨config, config.buildQuerySql⟩
  | .error e => .error (.network e)

/-- `as i64`. -/
def asI64 (n : Nat) : Int := (BitVec.ofNat 64 n).toInt

/-- The statement with the vector put in, and the value of its parameter. -/
def statement (render : F32 → String) (adapter : PgvectorAdapter) (topK : Option Nat)
    (vector : List F32) : String × Int :=
  (replaceText "$2" "$1"
    (replaceText "$1" ("'" ++ formatVector render vector ++ "'") adapter.querySql),
    asI64 (topK.getD 10))

/-- What `query_vector` sends to the database. -/
def sent (render : F32 → String) (adapter : PgvectorAdapter) (topK : Option Nat)
    (vector : List F32) : Except UpstreamError (String × Int) :=
  match adapter.config.dimensions with
  | some dims =>
    if vector.length ≠ dims then
      .error (.network ("pgvector query vector dimension mismatch: expected " ++ toString dims ++
        ", got " ++ toString vector.length))
    else .ok (adapter.statement render topK vector)
  | none => .ok (adapter.statement render topK vector)

end PgvectorAdapter

/-- The statement with something in the places of the vector and of the limit. -/
def sqlTemplate (config : PgvectorConfig) (vectorSlot limitSlot : String) : String :=
  let distance := config.embeddingColumn ++ " " ++ config.distanceMetric.operator ++ " "
  "SELECT " ++ ", ".intercalate
      (config.contentColumn :: (config.titleColumn.toList ++ config.metadataColumns)) ++ ", " ++
    distance ++ vectorSlot ++ "::vector AS distance FROM " ++ config.table ++ " ORDER BY " ++
    distance ++ vectorSlot ++ "::vector LIMIT " ++ limitSlot

theorem buildQuerySql_eq (config : PgvectorConfig) :
    config.buildQuerySql = sqlTemplate config "$1" "$2" := by
  unfold PgvectorConfig.buildQuerySql PgvectorConfig.buildSelectColumns sqlTemplate
  rw [String.intercalate_append_of_ne_nil (List.cons_ne_nil _ _) (List.cons_ne_nil _ _),
    String.intercalate_singleton]
  apply String.toList_inj.mp
  simp only [String.toList_append, List.append_assoc]
  rfl

/-- The text before, between and after the two places of the vector. -/
def sqlHead (config : PgvectorConfig) : String :=
  "SELECT " ++ ", ".intercalate
      (config.contentColumn :: (config.titleColumn.toList ++ config.metadataColumns)) ++ ", " ++
    config.embeddingColumn ++ " " ++ config.distanceMetric.operator ++ " "

def sqlMiddle (config : PgvectorConfig) : String :=
  "::vector AS distance FROM " ++ config.table ++ " ORDER BY " ++
    config.embeddingColumn ++ " " ++ config.distanceMetric.operator ++ " "

def sqlTail : String := "::vector LIMIT "

theorem toList_sqlTemplate (config : PgvectorConfig) (vectorSlot limitSlot : String) :
    (sqlTemplate config vectorSlot limitSlot).toList =
      (sqlHead config).toList ++ (vectorSlot.toList ++ ((sqlMiddle config).toList ++
        (vectorSlot.toList ++ (sqlTail.toList ++ limitSlot.toList)))) := by
  unfold sqlTemplate sqlHead sqlMiddle sqlTail
  simp only [String.toList_append, List.append_assoc]

section Plain

variable {config : PgvectorConfig}

theorem not_mem_identifier {s : String} (h : isSafeIdentifier s = true) : '$' ∉ s.toList := by
  intro hmem
  unfold isSafeIdentifier at h
  have hall := (Bool.and_eq_true_iff.mp h).2
  have hdollar := List.all_eq_true.mp hall '$' hmem
  exact absurd hdollar (by decide)

theorem isSafeIdentifier_of_validate (h : config.validate = .ok ()) {name : String}
    (hname : name ∈ config.identifiers) : isSafeIdentifier name = true := by
  unfold PgvectorConfig.validate at h
  split_ifs at h
  split at h
  · cases h
  · rename_i hnone
    simpa using List.find?_eq_none.mp hnone name hname

theorem not_mem_operator (metric : DistanceMetric) : '$' ∉ metric.operator.toList := by
  cases metric <;> decide

theorem not_mem_append {s t : String} (hs : '$' ∉ s.toList) (ht : '$' ∉ t.toList) :
    '$' ∉ (s ++ t).toList := by
  rw [String.toList_append]
  exact fun hmem => (List.mem_append.mp hmem).elim hs ht

theorem not_mem_of_validate (h : config.validate = .ok ()) {name : String}
    (hname : name ∈ config.identifiers) : '$' ∉ name.toList :=
  not_mem_identifier (isSafeIdentifier_of_validate h hname)

theorem not_mem_columns (h : config.validate = .ok ()) :
    '$' ∉ (", ".intercalate
      (config.contentColumn :: (config.titleColumn.toList ++ config.metadataColumns))).toList := by
  rw [String.toList_intercalate]
  intro hmem
  rcases mem_intercalate hmem with hseparator | ⟨text, htext, hdollar⟩
  · exact absurd hseparator (by decide)
  · obtain ⟨name, hname, rfl⟩ := List.mem_map.mp htext
    have hidentifier : name ∈ config.identifiers := by
      unfold PgvectorConfig.identifiers
      rw [List.append_assoc]
      exact List.mem_cons_of_mem _ (List.mem_cons_of_mem _ hname)
    exact not_mem_of_validate h hidentifier hdollar

theorem not_mem_head (h : config.validate = .ok ()) : '$' ∉ (sqlHead config).toList := by
  have hembedding : config.embeddingColumn ∈ config.identifiers :=
    List.mem_cons_of_mem _ List.mem_cons_self
  unfold sqlHead
  exact not_mem_append (not_mem_append (not_mem_append (not_mem_append (not_mem_append
    (not_mem_append (by decide) (not_mem_columns h)) (by decide))
    (not_mem_of_validate h hembedding)) (by decide)) (not_mem_operator _)) (by decide)

theorem not_mem_middle (h : config.validate = .ok ()) : '$' ∉ (sqlMiddle config).toList := by
  have hembedding : config.embeddingColumn ∈ config.identifiers :=
    List.mem_cons_of_mem _ List.mem_cons_self
  unfold sqlMiddle
  exact not_mem_append (not_mem_append (not_mem_append (not_mem_append (not_mem_append
    (not_mem_append (by decide) (not_mem_of_validate h List.mem_cons_self)) (by decide))
    (not_mem_of_validate h hembedding)) (by decide)) (not_mem_operator _)) (by decide)

end Plain

/-- The literal goes into the two places of the vector, and the limit is the only parameter. -/
theorem replaced_eq {config : PgvectorConfig} (h : config.validate = .ok ()) {literal : String}
    (hliteral : '$' ∉ literal.toList) :
    replaceText "$2" "$1" (replaceText "$1" literal config.buildQuerySql) =
      sqlTemplate config literal "$1" := by
  have hhead := not_mem_head h
  have hmiddle := not_mem_middle h
  have htail : '$' ∉ sqlTail.toList := by decide
  have hone : "$1".toList = ['$', '1'] := rfl
  have htwo : "$2".toList = ['$', '2'] := rfl
  have hlimit : replaceAll ['$', '1'] literal.toList ['$', '2'] = ['$', '2'] := by
    rw [replaceAll_other (by decide), replaceAll_plain (by decide)]
  have hfirst : replaceText "$1" literal config.buildQuerySql =
      sqlTemplate config literal "$2" := by
    apply String.toList_inj.mp
    rw [replaceText, String.toList_ofList, buildQuerySql_eq, toList_sqlTemplate,
      toList_sqlTemplate, hone, htwo, replaceAll_of_not_mem hhead, replaceAll_match,
      replaceAll_of_not_mem hmiddle, replaceAll_match, replaceAll_of_not_mem htail, hlimit]
  apply String.toList_inj.mp
  rw [hfirst, replaceText, String.toList_ofList, toList_sqlTemplate, toList_sqlTemplate, hone,
    htwo, replaceAll_of_not_mem hhead, replaceAll_of_not_mem hliteral,
    replaceAll_of_not_mem hmiddle, replaceAll_of_not_mem hliteral, replaceAll_of_not_mem htail]
  rfl

/-- A rendered number is neither a mark nor ends a literal. -/
def PlainNumbers (render : F32 → String) : Prop :=
  ∀ v, ∀ c ∈ (render v).toList, c ≠ '$' ∧ c ≠ '\'' ∧ c ≠ '"'

theorem mem_formatVector {render : F32 → String} (hrender : PlainNumbers render)
    (vector : List F32) {c : Char} (hc : c ∈ (formatVector render vector).toList) :
    c ≠ '$' ∧ c ≠ '\'' ∧ c ≠ '"' := by
  simp only [formatVector, String.toList_append, String.toList_join, List.mem_append] at hc
  rcases hc with (hopen | hparts) | hclose
  · obtain rfl := List.mem_singleton.mp hopen
    decide
  · obtain ⟨part, hpart, hc⟩ := List.mem_flatMap.mp hparts
    obtain ⟨⟨v, i⟩, -, rfl⟩ := List.mem_map.mp hpart
    simp only [String.toList_append, List.mem_append] at hc
    rcases hc with hcomma | hnumber
    · split at hcomma
      · obtain rfl := List.mem_singleton.mp hcomma
        decide
      · cases hcomma
    · exact hrender v c hnumber
  · obtain rfl := List.mem_singleton.mp hclose
    decide

theorem not_mem_literal {render : F32 → String} (hrender : PlainNumbers render)
    (vector : List F32) : '$' ∉ ("'" ++ formatVector render vector ++ "'").toList :=
  not_mem_append
    (not_mem_append (by decide) fun hmem => (mem_formatVector hrender vector hmem).1 rfl)
    (by decide)

theorem connect_of_validate {config : PgvectorConfig} (h : config.validate = .ok ()) :
    PgvectorAdapter.connect config = .ok ⟨config, config.buildQuerySql⟩ := by
  rw [PgvectorAdapter.connect, h]

theorem sent_eq_ok {render : F32 → String} {adapter : PgvectorAdapter} {topK : Option Nat}
    {vector : List F32} {sent : String × Int} (h : adapter.sent render topK vector = .ok sent) :
    sent = adapter.statement render topK vector := by
  unfold PgvectorAdapter.sent at h
  split at h
  · split at h
    · cases h
    · exact (Except.ok.inj h).symm
  · exact (Except.ok.inj h).symm

theorem sent_of_dimensions {render : F32 → String} {adapter : PgvectorAdapter}
    {topK : Option Nat} {vector : List F32}
    (h : ∀ dims, adapter.config.dimensions = some dims → vector.length = dims) :
    adapter.sent render topK vector = .ok (adapter.statement render topK vector) := by
  unfold PgvectorAdapter.sent
  split
  · rename_i dims hdims
    exact if_neg (not_not_intro (h dims hdims))
  · rfl

/-- What `query_vector` sends for an accepted configuration is the template with the quoted literal
in the places of the vector and the parameter in the place of the limit. It sends nothing else, and
it sends this for every vector of the expected length. -/
theorem sent_sql {config : PgvectorConfig} (h : config.validate = .ok ()) {render : F32 → String}
    (hrender : PlainNumbers render) (topK : Option Nat) (vector : List F32) :
    ∃ adapter sql, PgvectorAdapter.connect config = .ok adapter ∧
      sql = sqlTemplate config ("'" ++ formatVector render vector ++ "'") "$1" ∧
      '\'' ∉ (formatVector render vector).toList ∧
      sql.toList.count '$' = 1 ∧ " LIMIT $1".toList <:+ sql.toList ∧
      (∀ sent limit, adapter.sent render topK vector = .ok (sent, limit) → sent = sql) ∧
      ((∀ dims, config.dimensions = some dims → vector.length = dims) →
        adapter.sent render topK vector = .ok (sql, PgvectorAdapter.asI64 (topK.getD 10))) := by
  have hliteral := not_mem_literal hrender vector
  have hsql := replaced_eq h hliteral
  refine ⟨_, _, connect_of_validate h, rfl,
    fun hmem => (mem_formatVector hrender vector hmem).2.1 rfl,
    ?_, ?_, fun sent limit hsent => ?_, fun hdims => ?_⟩
  · have htail : '$' ∉ sqlTail.toList := by decide
    rw [toList_sqlTemplate]
    simp only [List.count_append, List.count_eq_zero_of_not_mem (not_mem_head h),
      List.count_eq_zero_of_not_mem (not_mem_middle h), List.count_eq_zero_of_not_mem hliteral,
      List.count_eq_zero_of_not_mem htail]
    decide
  · have hlimit : " LIMIT $1".toList <:+ sqlTail.toList ++ "$1".toList := ⟨"::vector".toList, rfl⟩
    rw [toList_sqlTemplate]
    iterate 4 refine List.IsSuffix.trans ?_ (List.suffix_append _ _)
    exact hlimit
  · exact (congrArg Prod.fst (sent_eq_ok hsent)).trans hsql
  · rw [sent_of_dimensions hdims, PgvectorAdapter.statement, hsql]

/-- A table with a title and two more columns. -/
def notesConfig : PgvectorConfig where
  url := "postgres://localhost/notes"
  table := "notes"
  embeddingColumn := "embedding"
  contentColumn := "body"
  titleColumn := some "title"
  metadataColumns := ["author", "year"]
  distanceMetric := .l2
  dimensions := some 2
  timeoutSecs := 30

theorem notes_sql :
    ∃ adapter, PgvectorAdapter.connect notesConfig = .ok adapter ∧
      adapter.sent (fun _ => "0.5") none [.finite (1 / 2), .finite (1 / 2)] =
        .ok ("SELECT body, title, author, year, embedding <-> '[0.5,0.5]'::vector AS distance " ++
          "FROM notes ORDER BY embedding <-> '[0.5,0.5]'::vector LIMIT $1", 10) := by
  have hvalid : notesConfig.validate = .ok () := by rfl
  have hrender : PlainNumbers fun _ => "0.5" := by
    intro _ c hc
    have hliteral : "0.5".toList = ['0', '.', '5'] := by decide
    change c ∈ "0.5".toList at hc
    rw [hliteral] at hc
    simp only [List.mem_cons, List.not_mem_nil, or_false] at hc
    rcases hc with rfl | rfl | rfl
    · decide
    · decide
    · decide
  obtain ⟨adapter, sql, hconnect, hsql, -, -, -, -, hsent⟩ :=
    sent_sql hvalid hrender none [.finite (1 / 2), .finite (1 / 2)]
  refine ⟨adapter, hconnect, ?_⟩
  rw [hsent fun dims hdims => Option.some.inj hdims, hsql]
  rfl

end Conproxy
