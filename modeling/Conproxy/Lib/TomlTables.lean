import Mathlib.Data.List.Basic

/-!
# The tables of a TOML document

What the headers and pairs of a document build, one after the other. A table is defined once: by its
header, or by the dotted keys that lead through it. A table that a header only leads through may
still get its own.
-/

namespace Toml

set_option autoImplicit false

inductive Value where
  | string (text : String)
  | integer (value : Int)
  | float (literal : String)
  | boolean (value : Bool)
  | datetime (literal : String)
  | array (items : List Value)
  | table (fields : List (String × Value))

/-- What a path leads to in a table. -/
def Value.get : List String → Value → Option Value
  | [], value => some value
  | name :: path, .table fields => (fields.lookup name).bind (get path)
  | _ :: _, _ => none

theorem Value.get_append (path path' : List String) (v : Value) :
    v.get (path ++ path') = (v.get path).bind (get path') := by
  induction path generalizing v with
  | nil => rfl
  | cons name path ih =>
    cases v with
    | table fields =>
      rw [List.cons_append, get, get]
      cases fields.lookup name with
      | none => rfl
      | some child => exact ih child
    | _ => rfl

inductive Expression where
  | pair (keys : List String) (value : Value)
  | header (path : List String)
  | element (path : List String)

/-- How a table came about. -/
inductive Origin where
  | implied
  | dotted
  | header
deriving DecidableEq

/-- A value, a table, or the tables of an array, of which the last is open. -/
inductive Node where
  | value (value : Value)
  | table (origin : Origin) (fields : List (String × Node))
  | tables (earlier : List (List (String × Node))) (last : List (String × Node))

abbrev Fields := List (String × Node)

def setField (name : String) (child : Node) : Fields → Fields
  | [] => [(name, child)]
  | (key, old) :: rest =>
    if key = name then (key, child) :: rest else (key, old) :: setField name child rest

namespace Node

mutual

/-- The value that is left when the document ends. -/
def close : Node → Value
  | value v => v
  | table _ fields => .table (closeFields fields)
  | tables earlier last => .array (closeTables earlier ++ [.table (closeFields last)])

def closeFields : List (String × Node) → List (String × Value)
  | [] => []
  | (name, node) :: rest => (name, close node) :: closeFields rest

def closeTables : List (List (String × Node)) → List Value
  | [] => []
  | fields :: rest => .table (closeFields fields) :: closeTables rest

end

def entry (change : Option Node → Option Node) (name : String) : Node → Option Node
  | value _ => none
  | table origin fields =>
    (change (fields.lookup name)).map fun child => table origin (setField name child fields)
  | tables earlier last =>
    (change (last.lookup name)).map fun child => tables earlier (setField name child last)

/-- A header leads through every table and into the last one of an array; a dotted key leads only
through tables without a header. -/
def enter (dotted : Bool) : Node → Option Node
  | value _ => none
  | table origin fields =>
    if dotted then if origin = .header then none else some (table .dotted fields)
    else some (table origin fields)
  | tables earlier last => if dotted then none else some (tables earlier last)

/-- Changes what a path leads to. The tables that are missing on the way are made. -/
def follow (dotted : Bool) (change : Option Node → Option Node) :
    List String → Option Node → Option Node
  | [], node => change node
  | name :: path, node =>
    ((node.getD (table .implied [])).enter dotted).bind (entry (follow dotted change path) name)

/-- A header defines its table, once. -/
def define : Option Node → Option Node
  | none => some (table .header [])
  | some (table .implied fields) => some (table .header fields)
  | _ => none

/-- A header of an array adds a table to it. -/
def extend : Option Node → Option Node
  | none => some (tables [] [])
  | some (tables earlier last) => some (tables (earlier ++ [last]) [])
  | _ => none

/-- A value is given once. -/
def store (v : Value) : Option Node → Option Node
  | none => some (value v)
  | some _ => none

/-- A pair in the open table. -/
def assign (keys : List String) (v : Value) : Option Node → Option Node
  | none => none
  | some node =>
    match keys with
    | [] => none
    | name :: path => node.entry (follow true (store v) path) name

end Node

/-- An inline table is closed after its last pair. -/
def inlineTable (pairs : List (List String × Value)) : Option Value :=
  (pairs.foldlM (fun node pair => Node.assign pair.1 pair.2 (some node))
    (Node.table .header [])).map Node.close

structure Document where
  root : Node
  current : List String

namespace Document

def empty : Document := ⟨.table .implied [], []⟩

def add (doc : Document) : Expression → Option Document
  | .pair keys v =>
    (Node.follow false (Node.assign keys v) doc.current (some doc.root)).map fun root =>
      ⟨root, doc.current⟩
  | .header path =>
    (Node.follow false Node.define path (some doc.root)).map fun root => ⟨root, path⟩
  | .element path =>
    (Node.follow false Node.extend path (some doc.root)).map fun root => ⟨root, path⟩

end Document

def build (es : List Expression) : Option Document := es.foldlM Document.add .empty

section Fields

variable {name key : String} {child : Node} {fields : Fields}

theorem lookup_setField_self : (setField name child fields).lookup name = some child := by
  induction fields with
  | nil => simp [setField]
  | cons field rest ih =>
    obtain ⟨key, old⟩ := field
    rw [setField]
    split
    · next heq => simp [heq]
    · next hne =>
      rw [List.lookup_cons, beq_false_of_ne (Ne.symm hne)]
      exact ih

theorem lookup_setField_of_ne (hne : key ≠ name) :
    (setField name child fields).lookup key = fields.lookup key := by
  induction fields with
  | nil => simp [setField, List.lookup_cons, beq_false_of_ne hne]
  | cons field rest ih =>
    obtain ⟨other, old⟩ := field
    rw [setField]
    split
    · next heq => simp [List.lookup_cons, heq, beq_false_of_ne hne]
    · next => rw [List.lookup_cons, List.lookup_cons, ih]

theorem setField_of_new (hnew : fields.lookup name = none) :
    setField name child fields = fields ++ [(name, child)] := by
  induction fields with
  | nil => rfl
  | cons field rest ih =>
    obtain ⟨other, old⟩ := field
    rw [List.lookup_cons] at hnew
    by_cases heq : other = name
    · simp [heq] at hnew
    · rw [beq_false_of_ne (Ne.symm heq)] at hnew
      rw [setField, if_neg heq, ih hnew]
      rfl

theorem setField_append_self (hnew : fields.lookup name = none) {old : Node} :
    setField name child (fields ++ [(name, old)]) = fields ++ [(name, child)] := by
  induction fields with
  | nil => simp [setField]
  | cons field rest ih =>
    obtain ⟨other, first⟩ := field
    rw [List.lookup_cons] at hnew
    by_cases heq : other = name
    · simp [heq] at hnew
    · rw [beq_false_of_ne (Ne.symm heq)] at hnew
      rw [List.cons_append, setField, if_neg heq, ih hnew]
      rfl

theorem lookup_closeFields :
    (Node.closeFields fields).lookup name = (fields.lookup name).map Node.close := by
  induction fields with
  | nil => rfl
  | cons field rest ih =>
    obtain ⟨other, node⟩ := field
    rw [Node.closeFields, List.lookup_cons, List.lookup_cons, ih]
    cases name == other <;> rfl

theorem closeFields_append (fields' : Fields) :
    Node.closeFields (fields ++ fields') = Node.closeFields fields ++ Node.closeFields fields' := by
  induction fields with
  | nil => rfl
  | cons field rest ih =>
    obtain ⟨other, node⟩ := field
    rw [List.cons_append, Node.closeFields, ih]
    rfl

end Fields

/-! ## What is there stays -/

namespace Node

/-- What a path leads to through tables. -/
def find : List String → Node → Option Node
  | [], node => some node
  | name :: path, table _ fields => (fields.lookup name).bind (find path)
  | _ :: _, _ => none

theorem get_close_of_find {path : List String} {node child : Node}
    (h : node.find path = some child) : node.close.get path = some child.close := by
  induction path generalizing node with
  | nil =>
    cases h
    rfl
  | cons name path ih =>
    cases node with
    | table origin fields =>
      obtain ⟨inner, hinner, hchild⟩ := Option.bind_eq_some_iff.mp h
      rw [close, Value.get, lookup_closeFields, hinner]
      exact ih hchild
    | value v => cases h
    | tables earlier last => cases h

/-- Every value of the one node is found in the other. -/
def Keeps (node node' : Option Node) : Prop :=
  ∀ path v, node.bind (find path) = some (value v) → node'.bind (find path) = some (value v)

variable {dotted : Bool} {name : String} {v : Value} {node node' : Node} {entry' : Option Node}
  {change : Option Node → Option Node}

theorem Keeps.refl (entry : Option Node) : Keeps entry entry := fun _ _ h => h

theorem Keeps.trans {a b c : Option Node} (h : Keeps a b) (h' : Keeps b c) : Keeps a c :=
  fun path v hv => h' path v (h path v hv)

theorem keeps_none : Keeps none entry' := by
  intro path v h
  cases h

theorem keeps_origin {origin origin' : Origin} {fields : Fields} :
    Keeps (some (table origin fields)) (some (table origin' fields)) := by
  intro path v h
  cases path with
  | nil => cases h
  | cons name path => exact h

theorem keeps_tables {earlier : List Fields} {last : Fields} :
    Keeps (some (tables earlier last)) entry' := by
  intro path v h
  cases path <;> cases h

theorem keeps_define (h : define entry' = some node) : Keeps entry' (some node) := by
  unfold define at h
  split at h
  · exact keeps_none
  · cases h
    exact keeps_origin
  · cases h

theorem keeps_extend (h : extend entry' = some node) : Keeps entry' (some node) := by
  unfold extend at h
  split at h
  · exact keeps_none
  · exact keeps_tables
  · cases h

theorem keeps_store (h : store v entry' = some node) : Keeps entry' (some node) := by
  cases entry' with
  | none => exact keeps_none
  | some old => cases h

theorem keeps_entry
    (hchange : ∀ child child', change child = some child' → Keeps child (some child'))
    (h : node.entry change name = some node') : Keeps (some node) (some node') := by
  cases node with
  | value v => cases h
  | tables earlier last => exact keeps_tables
  | table origin fields =>
    obtain ⟨child, hchild, rfl⟩ := Option.map_eq_some_iff.mp h
    intro path v hv
    cases path with
    | nil => cases hv
    | cons key path =>
      change (fields.lookup key).bind (find path) = some (value v) at hv
      change ((setField name child fields).lookup key).bind (find path) = some (value v)
      by_cases hkey : key = name
      · subst hkey
        rw [lookup_setField_self]
        exact hchange _ _ hchild path v hv
      · rw [lookup_setField_of_ne hkey]
        exact hv

theorem keeps_enter (h : node.enter dotted = some node') : Keeps (some node) (some node') := by
  cases node with
  | value v => cases h
  | tables earlier last => exact keeps_tables
  | table origin fields =>
    simp only [enter] at h
    split at h
    · split at h
      · cases h
      · cases h
        exact keeps_origin
    · cases h
      exact keeps_origin

theorem keeps_follow
    (hchange : ∀ child child', change child = some child' → Keeps child (some child'))
    {path : List String} (h : follow dotted change path entry' = some node) :
    Keeps entry' (some node) := by
  induction path generalizing entry' node with
  | nil => exact hchange _ _ h
  | cons name path ih =>
    obtain ⟨entered, henter, hentry⟩ := Option.bind_eq_some_iff.mp h
    cases entry' with
    | none => exact keeps_none
    | some old =>
      have hinner := keeps_entry (fun child child' hchild => ih hchild) hentry
      exact (keeps_enter henter).trans hinner

theorem keeps_assign {keys : List String} (h : assign keys v entry' = some node) :
    Keeps entry' (some node) := by
  cases entry' with
  | none => exact keeps_none
  | some old =>
    cases keys with
    | nil => cases h
    | cons name path => exact keeps_entry (fun _ _ => keeps_follow fun _ _ => keeps_store) h

end Node

theorem Document.keeps_add {doc doc' : Document} {e : Expression} (h : doc.add e = some doc') :
    Node.Keeps (some doc.root) (some doc'.root) := by
  cases e with
  | pair keys v =>
    obtain ⟨root, hroot, rfl⟩ := Option.map_eq_some_iff.mp h
    exact Node.keeps_follow (fun _ _ => Node.keeps_assign) hroot
  | header path =>
    obtain ⟨root, hroot, rfl⟩ := Option.map_eq_some_iff.mp h
    exact Node.keeps_follow (fun _ _ => Node.keeps_define) hroot
  | element path =>
    obtain ⟨root, hroot, rfl⟩ := Option.map_eq_some_iff.mp h
    exact Node.keeps_follow (fun _ _ => Node.keeps_extend) hroot

theorem Document.keeps_foldlM {es : List Expression} {doc doc' : Document}
    (h : es.foldlM Document.add doc = some doc') :
    Node.Keeps (some doc.root) (some doc'.root) := by
  induction es generalizing doc with
  | nil =>
    cases h
    exact .refl _
  | cons e es ih =>
    rw [List.foldlM_cons] at h
    obtain ⟨next, hnext, hrest⟩ := Option.bind_eq_some_iff.mp h
    exact (Document.keeps_add hnext).trans (ih hrest)

/-! ## One section after the other -/

def nest (path : List String) (inner : Node) : Node :=
  path.foldr (fun name node => .table .implied [(name, node)]) inner

/-- The fields of a table that only holds values. -/
def leaves (pairs : List (String × Value)) : Fields := pairs.map fun p => (p.1, .value p.2)

/-- The pairs of a section, without dotted keys. -/
def pairs (values : List (String × Value)) : List Expression :=
  values.map fun p => .pair [p.1] p.2

/-- The tables of an array, a section for each. -/
def elements (path : List String) (items : List (List (String × Value))) : List Expression :=
  items.flatMap fun item => .element path :: pairs item

/-- The values of a table with an array of tables, which is left out when it is empty. -/
def withItems (name : String) (values : List (String × Value))
    (items : List (List (String × Value))) : List (String × Value) :=
  match items with
  | [] => values
  | item :: items => values ++ [(name, .array ((item :: items).map .table))]

def arrayOf (earlier : List Fields) (last : Fields) : List Fields → Node
  | [] => .tables earlier last
  | fields :: rest => arrayOf (earlier ++ [last]) fields rest

section Nest

open Node

variable {path : List String} {inner : Node} {change : Option Node → Option Node}

theorem get_close_nest : (nest path inner).close.get path = some inner.close := by
  induction path with
  | nil => rfl
  | cons name path ih =>
    rw [nest, List.foldr_cons, close, closeFields, closeFields, Value.get, List.lookup_cons_self,
      Option.bind_some]
    exact ih

theorem find_nest (rest : List String) :
    (nest path inner).find (path ++ rest) = inner.find rest := by
  induction path with
  | nil => rfl
  | cons name path ih =>
    rw [List.cons_append, nest, List.foldr_cons, find, List.lookup_cons_self, Option.bind_some]
    exact ih

theorem follow_nest (path rest : List String) (change : Option Node → Option Node) (inner : Node) :
    follow false change (path ++ rest) (some (nest path inner)) =
      (follow false change rest (some inner)).map (nest path) := by
  induction path with
  | nil =>
    rw [List.nil_append]
    exact Option.map_id'.symm
  | cons name path ih =>
    change ((some (Node.table .implied [(name, nest path inner)])).bind
      (entry (follow false change (path ++ rest)) name)) = _
    rw [Option.bind_some, entry, List.lookup_cons_self, ih]
    cases follow false change rest (some inner) with
    | none => rfl
    | some node => simp [nest, setField]

theorem follow_nest_self (path : List String) (change : Option Node → Option Node) (inner : Node) :
    follow false change path (some (nest path inner)) =
      (change (some inner)).map (nest path) := by
  have hfollow := follow_nest path [] change inner
  rwa [List.append_nil] at hfollow

theorem follow_none : follow false change path none = (change none).map (nest path) := by
  induction path with
  | nil => exact Option.map_id'.symm
  | cons name path ih =>
    change ((some (Node.table .implied [])).bind (entry (follow false change path) name)) = _
    rw [Option.bind_some, entry, List.lookup_nil, ih]
    cases change none <;> rfl

theorem follow_empty (name : String) :
    follow false change (name :: path) (some Document.empty.root) =
      (change none).map (nest (name :: path)) := by
  rw [← follow_none]
  rfl

end Nest

section Section

open Node

variable {name : String} {origin : Origin} {path : List String} {fields : Fields}

theorem lookup_leaves_eq_none {values : List (String × Value)} (h : name ∉ values.map Prod.fst) :
    (leaves values).lookup name = none := by
  rw [List.lookup_eq_none_iff]
  intro field hfield
  obtain ⟨p, hp, rfl⟩ := List.mem_map.mp hfield
  rw [bne_iff_ne]
  rintro rfl
  exact h (List.mem_map_of_mem hp)

theorem closeFields_leaves (values : List (String × Value)) :
    closeFields (leaves values) = values := by
  induction values with
  | nil => rfl
  | cons p values ih =>
    rw [leaves, List.map_cons, closeFields, close]
    congr 1

theorem close_arrayOf (earlier : List Fields) (last : Fields) (rest : List Fields) :
    (arrayOf earlier last rest).close =
      .array ((earlier ++ last :: rest).map fun fields => .table (closeFields fields)) := by
  have htables (items : List Fields) :
      closeTables items = items.map fun fields => .table (closeFields fields) := by
    induction items with
    | nil => rfl
    | cons fields items ih => rw [closeTables, ih, List.map_cons]
  induction rest generalizing earlier last with
  | nil => rw [arrayOf, close, htables, List.map_append, List.map_cons, List.map_nil]
  | cons fields rest ih =>
    rw [arrayOf, ih]
    simp

/-- Pairs with new names are the last fields of the table that is open, wherever it is. -/
theorem foldlM_pairs (around : Node → Node) (make : Fields → Node) (fields : Fields)
    (haround : ∀ change node, follow false change path (some (around node)) =
      (change (some node)).map around)
    (hmake : ∀ change name fields, (make fields).entry change name =
      (change (fields.lookup name)).map fun child => make (setField name child fields))
    {values : List (String × Value)} (hnew : ∀ p ∈ values, fields.lookup p.1 = none)
    (hnodup : (values.map Prod.fst).Nodup) :
    (pairs values).foldlM Document.add ⟨around (make fields), path⟩ =
      some ⟨around (make (fields ++ leaves values)), path⟩ := by
  induction values generalizing fields with
  | nil => simp [pairs, leaves]
  | cons p values ih =>
    have hfirst := hnew p List.mem_cons_self
    rw [List.map_cons, List.nodup_cons] at hnodup
    have hadd : Document.add ⟨around (make fields), path⟩ (.pair [p.1] p.2) =
        some ⟨around (make (fields ++ [(p.1, .value p.2)])), path⟩ := by
      rw [Document.add, haround, assign, hmake, hfirst, ← setField_of_new hfirst]
      rfl
    have hrest : ∀ q ∈ values, (fields ++ [(p.1, Node.value p.2)]).lookup q.1 = none := by
      intro q hq
      have hne : q.1 ≠ p.1 := by
        intro heq
        exact hnodup.1 (heq ▸ List.mem_map_of_mem hq)
      rw [List.lookup_append, hnew q (List.mem_cons_of_mem p hq), Option.none_or,
        List.lookup_cons, beq_false_of_ne hne]
      rfl
    change (Expression.pair [p.1] p.2 :: pairs values).foldlM Document.add _ = _
    rw [List.foldlM_cons, hadd]
    change (pairs values).foldlM Document.add _ = _
    rw [ih _ hrest hnodup.2, List.append_assoc]
    rfl

theorem follow_array (hnew : fields.lookup name = none) (change : Option Node → Option Node)
    (node : Node) :
    follow false change (path ++ [name])
        (some (nest path (.table origin (fields ++ [(name, node)])))) =
      (change (some node)).map fun child =>
        nest path (.table origin (fields ++ [(name, child)])) := by
  have hlookup : (fields ++ [(name, node)]).lookup name = some node := by
    rw [List.lookup_append, hnew, Option.none_or, List.lookup_cons_self]
  rw [follow_nest]
  change (((Node.table origin (fields ++ [(name, node)])).entry change name)).map (nest path) = _
  rw [entry, hlookup, Option.map_map]
  congr 1
  funext child
  exact congrArg (fun fields => nest path (.table origin fields)) (setField_append_self hnew)

theorem foldlM_elements (origin : Origin) (path : List String) (hnew : fields.lookup name = none)
    {items : List (List (String × Value))} (hnodup : ∀ item ∈ items, (item.map Prod.fst).Nodup)
    (earlier : List Fields) (last : Fields) (current : List String) :
    ∃ current', (elements (path ++ [name]) items).foldlM Document.add
        ⟨nest path (.table origin (fields ++ [(name, .tables earlier last)])), current⟩ =
      some ⟨nest path (.table origin
        (fields ++ [(name, arrayOf earlier last (items.map leaves))])), current'⟩ := by
  induction items generalizing earlier last current with
  | nil => exact ⟨current, rfl⟩
  | cons item items ih =>
    have hextend : Document.add
        ⟨nest path (.table origin (fields ++ [(name, .tables earlier last)])), current⟩
        (.element (path ++ [name])) =
        some ⟨nest path (.table origin (fields ++ [(name, .tables (earlier ++ [last]) [])])),
          path ++ [name]⟩ := by
      rw [Document.add, follow_array hnew]
      rfl
    have hpairs := foldlM_pairs
      (fun node => nest path (.table origin (fields ++ [(name, node)])))
      (.tables (earlier ++ [last])) [] (follow_array hnew) (fun _ _ _ => rfl)
      (fun _ _ => rfl) (hnodup item List.mem_cons_self)
    obtain ⟨current', hrest⟩ := ih
      (fun item' hitem => hnodup item' (List.mem_cons_of_mem item hitem))
      (earlier ++ [last]) (leaves item) (path ++ [name])
    refine ⟨current', ?_⟩
    change (Expression.element (path ++ [name]) :: (pairs item ++
      elements (path ++ [name]) items)).foldlM Document.add _ = _
    rw [List.foldlM_cons, hextend]
    change (pairs item ++ elements (path ++ [name]) items).foldlM Document.add _ = _
    rw [List.foldlM_append, hpairs]
    exact hrest

theorem add_element (hnew : fields.lookup name = none) (current : List String) :
    Document.add ⟨nest path (.table origin fields), current⟩ (.element (path ++ [name])) =
      some ⟨nest path (.table origin (fields ++ [(name, .tables [] [])])), path ++ [name]⟩ := by
  have hentry : (Node.table origin fields).entry extend name =
      some (.table origin (fields ++ [(name, .tables [] [])])) := by
    rw [entry, hnew, ← setField_of_new hnew]
    rfl
  rw [Document.add, follow_nest]
  change (((Node.table origin fields).entry extend name).map (nest path)).map _ = _
  rw [hentry]
  rfl

/-- A document with one table, whose last field is an array of tables. -/
theorem build_section (first : String) (path : List String) {values : List (String × Value)}
    {items : List (List (String × Value))} (hvalues : (values.map Prod.fst).Nodup)
    (hname : name ∉ values.map Prod.fst) (hitems : ∀ item ∈ items, (item.map Prod.fst).Nodup) :
    ∃ doc, build (.header (first :: path) ::
        (pairs values ++ elements (first :: path ++ [name]) items)) = some doc ∧
      doc.root.close.get (first :: path) = some (.table (withItems name values items)) := by
  have hheader : Document.add .empty (.header (first :: path)) =
      some ⟨nest (first :: path) (.table .header []), first :: path⟩ := by
    rw [Document.add, follow_empty]
    rfl
  have hpairs := foldlM_pairs (nest (first :: path)) (.table .header) []
    (follow_nest_self (first :: path)) (fun _ _ _ => rfl) (fun _ _ => rfl) hvalues
  rw [List.nil_append] at hpairs
  rw [build, List.foldlM_cons, hheader]
  change ∃ doc, (pairs values ++ elements (first :: path ++ [name]) items).foldlM
    Document.add _ = some doc ∧ _
  rw [List.foldlM_append, hpairs]
  cases items with
  | nil =>
    refine ⟨_, rfl, ?_⟩
    rw [get_close_nest, close, closeFields_leaves]
    rfl
  | cons item items =>
    have hnew := lookup_leaves_eq_none hname
    have hfirst := foldlM_pairs
      (fun node => nest (first :: path) (.table .header (leaves values ++ [(name, node)])))
      (.tables []) [] (follow_array hnew) (fun _ _ _ => rfl) (fun _ _ => rfl)
      (hitems item List.mem_cons_self)
    obtain ⟨current, hrest⟩ := foldlM_elements .header (first :: path) hnew
      (fun item' hitem => hitems item' (List.mem_cons_of_mem item hitem)) [] (leaves item)
      (first :: path ++ [name])
    change ∃ doc, (Expression.element (first :: path ++ [name]) :: (pairs item ++
      elements (first :: path ++ [name]) items)).foldlM Document.add _ = some doc ∧ _
    rw [List.foldlM_cons, add_element hnew]
    change ∃ doc, (pairs item ++ elements (first :: path ++ [name]) items).foldlM
      Document.add _ = some doc ∧ _
    rw [List.foldlM_append, hfirst]
    refine ⟨_, hrest, ?_⟩
    rw [get_close_nest, close, closeFields_append, closeFields_leaves, closeFields, closeFields,
      close_arrayOf, withItems]
    simp [closeFields_leaves, Function.comp_def]

theorem get_first_pair {first : String} {v : Value} {more : List Expression} {doc : Document}
    (h : build (.header (first :: path) :: .pair [name] v :: more) = some doc) :
    doc.root.close.get (first :: path ++ [name]) = some v := by
  have hheader : Document.add .empty (.header (first :: path)) =
      some ⟨nest (first :: path) (.table .header []), first :: path⟩ := by
    rw [Document.add, follow_empty]
    rfl
  have hpair : Document.add ⟨nest (first :: path) (.table .header []), first :: path⟩
      (.pair [name] v) =
      some ⟨nest (first :: path) (.table .header [(name, .value v)]), first :: path⟩ := by
    rw [Document.add, follow_nest_self]
    rfl
  rw [build, List.foldlM_cons, hheader] at h
  change (Expression.pair [name] v :: more).foldlM Document.add _ = some doc at h
  rw [List.foldlM_cons, hpair] at h
  have hfind : (nest (first :: path) (.table .header [(name, .value v)])).find
      (first :: path ++ [name]) = some (.value v) := by
    rw [find_nest, find, List.lookup_cons_self]
    rfl
  exact get_close_of_find (Document.keeps_foldlM h (first :: path ++ [name]) v hfind)

end Section

end Toml
