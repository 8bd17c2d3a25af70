import ModalEdit.Key
import ModalEdit.RegistryError

/-!
# Key maps

A key map replaces a key pressed in a mode by a sequence of keys. All bindings of
one scope form one list; no mode and key are bound twice.
-/

namespace ModalEdit

/-- The input mode in which a binding applies. -/
inductive KeymapMode where
  | normal
  | insert
  | menu
  | prompt
  deriving DecidableEq, Repr

namespace KeymapMode

/-- All modes in order. -/
def all : List KeymapMode := [.normal, .insert, .menu, .prompt]

/-- The name of a mode. -/
def name : KeymapMode → String
  | .normal => "normal"
  | .insert => "insert"
  | .menu => "menu"
  | .prompt => "prompt"

/-- Reads a mode; any non-empty start of its name will do. -/
def parse (text : String) : Except RegistryError KeymapMode :=
  match all.find? fun mode => !text.isEmpty && text.toList.isPrefixOf mode.name.toList with
  | some mode => .ok mode
  | none => .error (.notFound "keymap mode" text)

end KeymapMode

/-- A key of a mode and the keys it stands for. -/
structure Binding where
  mode : KeymapMode
  key : Key
  keys : List Key
  deriving DecidableEq, Repr

/-- The bindings of one scope, in the order in which they were made. -/
structure KeymapTable where
  bindings : List Binding := []
  deriving DecidableEq, Repr, Inhabited

namespace KeymapTable

/-- Whether a binding is for that mode and key. -/
def isFor (mode : KeymapMode) (key : Key) (b : Binding) : Bool := b.mode = mode && b.key = key

/-- The keys that a key stands for in a mode. -/
def get? (table : KeymapTable) (mode : KeymapMode) (key : Key) : Option (List Key) :=
  (table.bindings.find? (isFor mode key)).map (·.keys)

/-- Whether a key is bound in a mode. -/
def isMapped (table : KeymapTable) (mode : KeymapMode) (key : Key) : Bool :=
  (table.get? mode key).isSome

/-- The bindings before the first one of a key in a mode, and those from it on. -/
def cut (table : KeymapTable) (mode : KeymapMode) (key : Key) : List Binding × List Binding :=
  table.bindings.span fun b => !isFor mode key b

/-- Adds a binding at the end. -/
def add (table : KeymapTable) (b : Binding) : KeymapTable := ⟨table.bindings ++ [b]⟩

/-- Binds a key, in the place of its binding if it has one, and gives back what it stood for. -/
def exchange (table : KeymapTable) (mode : KeymapMode) (key : Key) (keys : List Key) :
    Option (List Key) × KeymapTable :=
  match table.cut mode key with
  | (before, b :: after) => (some b.keys, ⟨before ++ { b with keys } :: after⟩)
  | (_, []) => (none, table.add ⟨mode, key, keys⟩)

/-- Binds a key. -/
def map (table : KeymapTable) (mode : KeymapMode) (key : Key) (keys : List Key) : KeymapTable :=
  (table.exchange mode key keys).2

/-- Binds a key that is not bound yet. -/
def mapNew (table : KeymapTable) (mode : KeymapMode) (key : Key) (keys : List Key) :
    Except RegistryError KeymapTable :=
  if table.isMapped mode key then
    .error (.duplicateName "mapping" (mode.name ++ " " ++ key.text))
  else .ok (table.add ⟨mode, key, keys⟩)

/-- Removes the binding of a key, and gives back what it stood for. -/
def take (table : KeymapTable) (mode : KeymapMode) (key : Key) : Option (List Key) × KeymapTable :=
  match table.cut mode key with
  | (before, b :: after) => (some b.keys, ⟨before ++ after⟩)
  | (_, []) => (none, table)

/-- Removes the binding of a key. -/
def unmap (table : KeymapTable) (mode : KeymapMode) (key : Key) : KeymapTable :=
  (table.take mode key).2

/-- The bindings of a mode. -/
def mappings (table : KeymapTable) (mode : KeymapMode) : List (Key × List Key) :=
  (table.bindings.filter (·.mode = mode)).map fun b => (b.key, b.keys)

end KeymapTable

end ModalEdit
