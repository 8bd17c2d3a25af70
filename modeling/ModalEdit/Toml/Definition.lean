import ModalEdit.Toml.Value

/-!
# How TOML tables are defined

A document is a list of statements: headers, which name the table that the next
assignments go to, and assignments, whose keys may be dotted. Headers and dotted
keys create the tables on their way. A key has one value only, a table has one
header only, and dotted keys add only to tables that dotted keys made.
-/

namespace ModalEdit.Toml

/-- How a table came to be. -/
inductive TableOrigin where
  /-- By a header of its own. -/
  | header
  /-- On the way of a header to a table inside. -/
  | path
  /-- By dotted keys. -/
  | dotted
  deriving DecidableEq, Repr

/-- What a key holds while a document is being read. -/
inductive Item where
  | value (v : Value)
  | table (origin : TableOrigin) (entries : List (String × Item))
  /-- An array of tables; the headers below add to the last one. -/
  | tables (earlier : List (List (String × Item))) (last : List (String × Item))
  deriving Repr

/-- A table while a document is being read. -/
abbrev Draft := Entries Item

mutual

/-- The value that an item has in the end. -/
def Item.toValue : Item → Value
  | .value v => v
  | .table _ entries => .table (Table.sorted (entryValues entries))
  | .tables earlier last =>
    .array (tableValues earlier ++ [.table (Table.sorted (entryValues last))])

/-- The values that entries have in the end. -/
def entryValues : List (String × Item) → List (String × Value)
  | [] => []
  | (key, item) :: rest => (key, item.toValue) :: entryValues rest

/-- The values that tables have in the end. -/
def tableValues : List (List (String × Item)) → List Value
  | [] => []
  | entries :: rest => .table (Table.sorted (entryValues entries)) :: tableValues rest

end

/-- The table that a draft is in the end. -/
def Draft.toTable (draft : Draft) : Table := Table.sorted (entryValues draft)

namespace Draft

/-- Changes the table that a path of a header leads to. -/
def within? (f : Draft → Option Draft) : List String → Draft → Option Draft
  | [], draft => f draft
  | key :: path, draft =>
    match draft.get? key with
    | none => (within? f path []).map fun inner => draft.put key (.table .path inner)
    | some (.table origin inner) =>
      (within? f path inner).map fun inner => draft.put key (.table origin inner)
    | some (.tables earlier last) =>
      (within? f path last).map fun last => draft.put key (.tables earlier last)
    | some (.value _) => none

/-- Defines the table of a header. -/
def define? (key : String) (draft : Draft) : Option Draft :=
  match draft.get? key with
  | none => some (draft.put key (.table .header []))
  | some (.table .path inner) => some (draft.put key (.table .header inner))
  | _ => none

/-- Adds a table to an array of tables. -/
def extend? (key : String) (draft : Draft) : Option Draft :=
  match draft.get? key with
  | none => some (draft.put key (.tables [] []))
  | some (.tables earlier last) => some (draft.put key (.tables (earlier ++ [last]) []))
  | _ => none

/-- Assigns a value to the key behind the dotted keys of a path. -/
def assign? (value : Value) (key : String) : List String → Draft → Option Draft
  | [], draft => if draft.contains key then none else some (draft.append key (.value value))
  | step :: path, draft =>
    let add (inner : Draft) (origin : TableOrigin) : Option Draft :=
      if path.isEmpty ∧ origin ≠ .dotted then none
      else (assign? value key path inner).map fun inner => draft.put step (.table origin inner)
    match draft.get? step with
    | none => add [] .dotted
    | some (.table .header _) => none
    | some (.table origin inner) => add inner origin
    | _ => none

end Draft

/-- A dotted key: the keys before the last dot, and the last one. -/
structure DottedKey where
  path : List String
  key : String
  deriving DecidableEq, Repr

/-- A statement of a document. -/
inductive Statement where
  /-- `[key]` -/
  | header (key : DottedKey)
  /-- `[[key]]` -/
  | element (key : DottedKey)
  /-- `key = value` -/
  | assignment (key : DottedKey) (value : Value)
  deriving Repr

/-- The table that statements define; `current` is the path of the last header. -/
def Draft.run? (current : List String) : List Statement → Draft → Option Draft
  | [], draft => some draft
  | .header k :: rest, draft =>
    (draft.within? (define? k.key) k.path).bind (run? (k.path ++ [k.key]) rest)
  | .element k :: rest, draft =>
    (draft.within? (extend? k.key) k.path).bind (run? (k.path ++ [k.key]) rest)
  | .assignment k value :: rest, draft =>
    (draft.within? (assign? value k.key k.path) current).bind (run? current rest)

/-- The table that statements define. -/
def Table.ofStatements? (statements : List Statement) : Option Table :=
  (Draft.run? [] statements []).map Draft.toTable

end ModalEdit.Toml
