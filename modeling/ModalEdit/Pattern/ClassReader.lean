import ModalEdit.Pattern.Escape

/-!
# Reading character classes

    class = "[" "^"? item* "]"
    item  = class | "[:" "^"? name ":]" | atom | atom "-" atom
          | "&&" | "--" | "~~"

The items of a class are united; `&&`, `--` and `~~` combine what stands on
their two sides, from left to right. A `]` right after the opening bracket and
dashes there are items.
-/

namespace ModalEdit.Pattern

/-- What a part of a class stands for, and how deep its notation nests. -/
structure Nested (α : Type) where
  meaning : α
  depth : Nat := 0
  deriving Repr, DecidableEq

/-! ## Parts of a class -/

/-- How two parts of a class are combined. -/
inductive SetOp where
  | inter
  | diff
  | symmDiff
  deriving Repr, DecidableEq

/-- Combines two sets. -/
def SetOp.combine : SetOp → CharSet → CharSet → CharSet
  | .inter => .inter
  | .diff => .diff
  | .symmDiff => .symmDiff

/-- Combines two parts of a class. -/
def SetOp.apply (op : SetOp) (left right : Nested CharSet) : Nested CharSet :=
  ⟨op.combine left.meaning right.meaning, max left.depth right.depth + 1⟩

/-- The items of a class, or of one side of an operation. -/
structure ClassItems where
  set : CharSet := .none
  count : Nat := 0
  /-- How deep the deepest item nests. -/
  deepest : Nat := 0
  deriving Repr, DecidableEq

namespace ClassItems

/-- Adds an item. -/
def add (items : ClassItems) (item : Nested CharSet) : ClassItems :=
  ⟨.union items.set item.meaning, items.count + 1, max items.deepest item.depth⟩

/-- The items as one part; several nest in their union. -/
def part (items : ClassItems) : Nested CharSet :=
  ⟨items.set, if items.count < 2 then items.deepest else items.deepest + 1⟩

/-- The items under the flags. -/
def fold (items : ClassItems) (flags : Flags) : ClassItems :=
  { items with set := flags.fold items.set }

end ClassItems

/-- What waits for the part of a class being read. -/
inductive ClassFrame where
  /-- The class was opened; `outer` holds the items of the class around it. -/
  | opened (outer : ClassItems) (negated : Bool)
  /-- The left side of an operation. -/
  | pending (op : SetOp) (left : Nested CharSet)
  deriving Repr, DecidableEq

/-- Ends an operand: combines it with the left side that waits for it, if any. -/
def endOperand (items : ClassItems) : List ClassFrame → Nested CharSet × List ClassFrame
  | .pending op left :: rest => (op.apply left items.part, rest)
  | frames => (items.part, frames)

/-! ## The start of a class -/

/-- The items that only the start of a class can have: dashes, or a closing bracket. -/
def firstItems (flags : Flags) (items : ClassItems) (text : List Char) : ClassItems × List Char :=
  match _h : flags.skip false text with
  | [] => (items, text)
  | c :: rest =>
    if c = '-' then firstItems flags (items.add ⟨.single '-', 0⟩) rest
    else if c = ']' ∧ items.count = 0 then (⟨.single ']', 1, 0⟩, rest)
    else (items, text)
  termination_by text.length
  decreasing_by
    have hle := (flags.skip_suffix false text).length_le
    rw [_h] at hle
    exact hle

/-- The start of a class, negated or not. -/
def startClass (flags : Flags) (negated : Bool) (text : List Char) :
    Except PatternError ((Bool × ClassItems) × List Char) :=
  if negated && !flags.unicode then .error .notText
  else
    let (items, rest) := firstItems flags {} text
    .ok ((negated, items.fold flags), rest)

/-- The start of a class after its `[`: whether it is negated, and its first items. -/
def openClass (flags : Flags) (text : List Char) :
    Except PatternError ((Bool × ClassItems) × List Char) :=
  match ['^'].isPrefixOf? (flags.skip false text) with
  | some rest => startClass flags true rest
  | none => startClass flags false text

/-! ## Items -/

/-- A named class after its first colon, such as `alpha:]`. -/
def namedClass? (negated : Bool) (text : List Char) : Option (CharSet × List Char) := do
  let (name, rest) ← Text.splitFirst ':' text
  let rest ← [']'].isPrefixOf? rest
  let set ← CharSet.asciiClass? name
  return (if negated then .compl set else set, rest)

/-- A named class after its `[`, such as `:alpha:]`. -/
def asciiClass? (text : List Char) : Option (CharSet × List Char) :=
  match [':'].isPrefixOf? text with
  | some rest =>
    match ['^'].isPrefixOf? rest with
    | some rest => namedClass? true rest
    | none => namedClass? false rest
  | none => none

/-- One character or escape of a class. -/
def classAtom (flags : Flags) (c : Char) (rest : List Char) :
    Except PatternError (Atom × List Char) :=
  if c = '\\' then readEscape flags rest
  else if !flags.unicode && 0x7F < c.toNat then .error .notText
  else .ok (.char c, rest)

/-- Skips blanks and tells whether anything is left; a class must not end here. -/
def skipInClass (flags : Flags) (text : List Char) : Except PatternError (Char × List Char) :=
  match flags.skip false text with
  | [] => .error .unclosedClass
  | c :: rest => .ok (c, rest)

/-- What stands behind the dash of a range, if `text` starts with one. A dash before a bracket or
another dash is an item. -/
def rangeEnd? (flags : Flags) (text : List Char) : Option (List Char) :=
  match ['-'].isPrefixOf? (flags.skip false text) with
  | some after =>
    let next := (flags.skip false after).head?
    if next = some ']' || next = some '-' then none else some after
  | none => none

/-- The range between two atoms. -/
def rangeSet (flags : Flags) : Atom → Atom → Except PatternError CharSet
  | .char low, .char high =>
    if low ≤ high then .ok (flags.fold (.range low.toNat high.toNat)) else .error .badClassItem
  | _, _ => .error .badClassItem

/-- The set of one atom. -/
def itemSet (flags : Flags) : Atom → Except PatternError CharSet
  | .char c => .ok (flags.fold (.single c))
  | .set s => .ok s
  | .assertion _ => .error .badClassItem

/-- An atom or range that starts with `c`. -/
def classRange (flags : Flags) (c : Char) (rest : List Char) :
    Except PatternError (CharSet × List Char) := do
  let (first, rest) ← classAtom flags c rest
  match rangeEnd? flags rest with
  | some after =>
    let (d, after) ← skipInClass flags after
    let (last, after) ← classAtom flags d after
    (rangeSet flags first last).map (·, after)
  | none => (itemSet flags first).map (·, rest)

/-- The operation written with two equal characters. -/
def setOp? (c : Char) (rest : List Char) : Option (SetOp × List Char) := do
  let rest ← [c].isPrefixOf? rest
  match c with
  | '&' => some (.inter, rest)
  | '-' => some (.diff, rest)
  | '~' => some (.symmDiff, rest)
  | _ => none

/-! ## The loop -/

/-- How the reading of a class goes on. -/
inductive ClassStep where
  | more (items : ClassItems) (frames : List ClassFrame)
  | done (whole : Nested CharSet)

/-- Closes the innermost class. -/
def closeClass (items : ClassItems) (frames : List ClassFrame) : ClassStep :=
  let (part, frames) := endOperand items frames
  match frames with
  | .opened outer negated :: frames =>
    let closed : Nested CharSet :=
      ⟨if negated then .compl part.meaning else part.meaning, part.depth + 1⟩
    if frames.isEmpty then .done closed else .more (outer.add closed) frames
  | _ => .done part

/-- Reads one item that starts with `c`. -/
def classStep (flags : Flags) (items : ClassItems) (frames : List ClassFrame) (c : Char)
    (rest : List Char) : Except PatternError (ClassStep × List Char) :=
  if c = '[' then
    match asciiClass? rest with
    | some (set, rest) => .ok (.more (items.add ⟨flags.fold set, 0⟩) frames, rest)
    | none =>
      (openClass flags rest).map fun ((negated, inner), rest) =>
        (.more inner (.opened items negated :: frames), rest)
  else if c = ']' then .ok (closeClass items frames, rest)
  else match setOp? c rest with
    | some (op, rest) =>
      let (left, frames) := endOperand items frames
      .ok (.more {} (.pending op left :: frames), rest)
    | none =>
      (classRange flags c rest).map fun (set, rest) => (.more (items.add ⟨set, 0⟩) frames, rest)

/-- Reads the rest of a class. -/
def readItems (flags : Flags) (items : ClassItems) (frames : List ClassFrame)
    (text : List Char) : Except PatternError (Nested CharSet × List Char) :=
  match flags.skip false text with
  | [] => .error .unclosedClass
  | c :: rest =>
    match classStep flags items frames c rest with
    | .error e => .error e
    | .ok (.done whole, rest) => .ok (whole, rest)
    | .ok (.more items frames, rest) =>
      if rest.length < text.length then readItems flags items frames rest
      else .error .unclosedClass
  termination_by text.length

/-- Reads a class after its `[`. -/
def readClass (flags : Flags) (text : List Char) :
    Except PatternError (Nested CharSet × List Char) := do
  let ((negated, items), rest) ← openClass flags text
  readItems flags items [.opened {} negated] rest

end ModalEdit.Pattern
