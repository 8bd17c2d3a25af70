import ModalEdit.Regex.Tree

/-!
# Reading regular expressions

    pattern  = sequence ("|" sequence)*
    sequence = (piece repetition?)*
    piece    = item | opening pattern ")" | setting

A pattern is read from left to right, one construct after the other, with a
stack of open groups. What the constructs look like is up to a lexer; which
blanks and comments may stand between them is, too. Flags hold up to the end of
the group in which they are set.
-/

namespace ModalEdit.Regex

/-- What stands at the beginning of a text. -/
inductive Construct (F I G : Type) where
  | item (i : I)
  /-- Applies to the piece before it. -/
  | repetition (op : Operator)
  | bar
  /-- A group of some kind, read with these flags. -/
  | opening (kind : G) (flags : F)
  | closing
  /-- Flags for the rest of the group around it. -/
  | setting (flags : F)
  /-- Something without a meaning. -/
  | blank
  /-- A comment that goes on to the end of the text. -/
  | comment
  deriving Repr, DecidableEq

/-- How constructs are written, for flags `F`, items `I` and groups of the kinds `G`. -/
structure Lexer (F I G : Type) where
  /-- The flags at the beginning of a pattern. -/
  plain : F
  /-- The construct at the beginning of a text, under some flags, and what follows it. -/
  first? : F → List Char → Option (Construct F I G × List Char)

/-- Why a text is no pattern. -/
inductive ReadError where
  /-- Something that is no construct. -/
  | unreadable
  /-- A repetition that follows nothing. -/
  | missingOperand
  /-- The end of a group that was not opened. -/
  | unopened
  | unclosed
  deriving Repr, DecidableEq

/-- What has been read of a group. -/
structure Branches (I G : Type) where
  /-- The alternatives that are complete. -/
  done : Option (Tree I G) := none
  /-- The pieces of the last alternative, the latest first. -/
  pieces : List (Tree I G) := []
  deriving Repr, DecidableEq

namespace Branches

variable {I G : Type}

/-- Adds a piece. -/
def push (b : Branches I G) (piece : Tree I G) : Branches I G :=
  { b with pieces := piece :: b.pieces }

/-- All alternatives as a tree. -/
def tree (b : Branches I G) : Tree I G :=
  match b.done with
  | none => .sequence b.pieces.reverse
  | some first => .alt first (.sequence b.pieces.reverse)

/-- Starts the next alternative. -/
def bar (b : Branches I G) : Branches I G := { done := some b.tree }

/-- Repeats the latest piece; flags cannot be repeated. -/
def repeatLast? (b : Branches I G) (op : Operator) : Option (Branches I G) :=
  match b.pieces with
  | [] | .setting :: _ => none
  | piece :: pieces => some { b with pieces := .repetition op piece :: pieces }

end Branches

/-- A group around the one being read, with the flags to go back to. -/
structure Frame (F I G : Type) where
  /-- The kind of the group being read. -/
  kind : G
  outer : Branches I G
  flags : F
  deriving Repr, DecidableEq

/-- The state of reading a pattern. -/
structure Reader (F I G : Type) where
  flags : F
  branches : Branches I G := {}
  /-- The open groups, the innermost first. -/
  frames : List (Frame F I G) := []
  /-- Whether the text has ended in a comment. -/
  commented : Bool := false
  deriving Repr, DecidableEq

namespace Reader

variable {F I G : Type}

/-- Adds a piece to the innermost group. -/
def push (r : Reader F I G) (piece : Tree I G) : Reader F I G :=
  { r with branches := r.branches.push piece }

/-- Opens a group that is read with the given flags. -/
def openGroup (r : Reader F I G) (kind : G) (flags : F) : Reader F I G :=
  { r with flags, branches := {}, frames := ⟨kind, r.branches, r.flags⟩ :: r.frames }

/-- Closes the innermost group. -/
def closeGroup (r : Reader F I G) : Except ReadError (Reader F I G) :=
  match r.frames with
  | [] => .error .unopened
  | frame :: frames =>
    .ok { r with
      flags := frame.flags
      branches := frame.outer.push (.group frame.kind r.branches.tree)
      frames }

/-- Repeats the latest piece. -/
def repeatLast (r : Reader F I G) (op : Operator) : Except ReadError (Reader F I G) :=
  match r.branches.repeatLast? op with
  | some branches => .ok { r with branches }
  | none => .error .missingOperand

/-- Takes in one construct. -/
def take (r : Reader F I G) : Construct F I G → Except ReadError (Reader F I G)
  | .item i => .ok (r.push (.item i))
  | .repetition op => r.repeatLast op
  | .bar => .ok { r with branches := r.branches.bar }
  | .opening kind flags => .ok (r.openGroup kind flags)
  | .closing => r.closeGroup
  | .setting flags => .ok { r.push .setting with flags }
  | .blank => .ok r
  | .comment => .ok { r with commented := true }

/-- Reads the rest of a pattern. -/
def run (lexer : Lexer F I G) (r : Reader F I G) (text : List Char) :
    Except ReadError (Reader F I G) :=
  if text = [] then .ok r
  else match lexer.first? r.flags text with
    | none => .error .unreadable
    | some (construct, rest) =>
      if rest.length < text.length then
        match r.take construct with
        | .ok next => next.run lexer rest
        | .error e => .error e
      else .error .unreadable
  termination_by text.length

/-- The pattern that has been read to its end. -/
def finish (r : Reader F I G) : Except ReadError (Tree I G) :=
  if r.frames.isEmpty then .ok r.branches.tree else .error .unclosed

end Reader

/-- Reads a pattern. -/
def Lexer.read {F I G : Type} (lexer : Lexer F I G) (text : List Char) :
    Except ReadError (Tree I G) := do
  let last ← Reader.run lexer { flags := lexer.plain } text
  last.finish

end ModalEdit.Regex
