import ModalEdit.Pattern.Item
import ModalEdit.Text.Number
import ModalEdit.Text.Split

/-!
# Pattern flags, errors and escapes

The flags that change how a pattern is read, the reasons for which a pattern is
refused, and the meaning of a backslash.
-/

namespace ModalEdit.Pattern

/-- Why something is no construct of a pattern. -/
inductive PatternError where
  | unclosedClass
  | badCount
  | badEscape
  /-- A class range with reversed or composite ends, or an escape that is no character. -/
  | badClassItem
  /-- Look-around or a back-reference. -/
  | unsupported
  | badFlags
  | badGroupName
  /-- A name or number whose end is missing. -/
  | unclosedName
  | unknownProperty
  /-- The pattern could match something that is no text. -/
  | notText
  deriving Repr, DecidableEq

/-- How the pattern text is to be understood. -/
structure Flags where
  ignoreCase : Bool := false
  /-- `^` and `$` match at lines. -/
  multiLine : Bool := false
  /-- `.` matches the end of a line. -/
  dotAll : Bool := false
  /-- Exchanges the meaning of `*` and `*?`, and so on. -/
  swapGreed : Bool := false
  unicode : Bool := true
  /-- A carriage return ends lines too. -/
  crlf : Bool := false
  /-- White space and `#` comments in the pattern are ignored. -/
  verbose : Bool := false
  deriving Repr, DecidableEq

namespace Flags

/-- The set of characters that `set` accepts under the flags. -/
def fold (flags : Flags) (set : CharSet) : CharSet :=
  if flags.ignoreCase then .anyCase set else set

/-- The word characters under the flags. -/
def wordSet (flags : Flags) : CharSet := if flags.unicode then .word else .asciiWord

/-- Drops white space and comments if the flags say that they are ignored; `inComment` tells
whether `text` starts inside a comment. -/
def skip (flags : Flags) (inComment : Bool) : List Char → List Char
  | [] => []
  | c :: rest =>
    if !flags.verbose then c :: rest
    else if inComment then flags.skip (c ≠ '\n') rest
    else if Text.isBlank c then flags.skip false rest
    else if c = '#' then flags.skip true rest
    else c :: rest

theorem skip_suffix (flags : Flags) (inComment : Bool) (text : List Char) :
    flags.skip inComment text <:+ text := by
  induction text generalizing inComment with
  | nil => exact List.suffix_refl _
  | cons c rest ih =>
    unfold skip
    split
    · exact List.suffix_refl _
    split
    · exact (ih _).trans (List.suffix_cons c rest)
    split
    · exact (ih _).trans (List.suffix_cons c rest)
    split
    · exact (ih _).trans (List.suffix_cons c rest)
    · exact List.suffix_refl _

/-- The set of `.` under the flags. -/
def dotSet (flags : Flags) : CharSet :=
  if flags.dotAll then .all
  else if flags.crlf then .compl (.union (.single '\n') (.single '\r'))
  else .compl (.single '\n')

end Flags

/-- The text up to a separator, which has to be there, and what follows it. -/
def readTo (sep : Char) (text : List Char) : Except PatternError (List Char × List Char) :=
  match Text.splitFirst sep text with
  | some parts => .ok parts
  | none => .error .unclosedName

/-! ## Escapes -/

/-- What one escape or plain character stands for. -/
inductive Atom where
  | char (c : Char)
  | set (s : CharSet)
  | assertion (a : Assertion)
  deriving Repr, DecidableEq

/-- The characters with a meaning of their own in patterns. -/
def isMeta (c : Char) : Bool :=
  "\\.+*?()|[]\x7b\x7d^$#&-~".toList.contains c

/-- Whether a backslash before `c` makes it stand for itself. -/
def isEscapable (c : Char) : Bool :=
  isMeta c || (c.toNat < 0x80 && !c.isAlphanum && c ≠ '<' && c ≠ '>')

/-- The number that hexadecimal digits stand for. -/
def hexValue (digits : List Char) : Except PatternError Nat :=
  match digits, Text.valueIn? 16 digits with
  | _ :: _, some n => .ok n
  | _, _ => .error .badEscape

/-- The character with a code point of at most `limit`. -/
def codeAtom (limit n : Nat) : Except PatternError Atom :=
  if limit < n then .error .notText
  else match Text.charOfCode? n with
    | some c => .ok (.char c)
    | none => .error .badEscape

/-- A character written in hexadecimal: digits in braces, or exactly `width` digits for a number of
at most `limit`. -/
def hexEscape (width limit : Nat) (text : List Char) : Except PatternError (Atom × List Char) :=
  match ['{'].isPrefixOf? text with
  | some rest => do
    let (digits, rest) ← readTo '}' rest
    ((hexValue digits).bind (codeAtom 0x10FFFF)).map (·, rest)
  | none =>
    if text.length < width then .error .badEscape
    else ((hexValue (text.take width)).bind (codeAtom limit)).map (·, text.drop width)

/-- The general categories with that property value name. -/
def categoriesOfName? (name : String) : Option (List Text.Category) :=
  let major (letter : Char) := (Text.Category.abbreviations.filter
    fun entry => entry.1.toList.head? = some letter).map (·.2)
  match name with
  | "l" | "letter" => some (major 'L')
  | "m" | "mark" => some (major 'M')
  | "n" | "number" => some (major 'N')
  | "p" | "punctuation" | "punct" => some (major 'P')
  | "s" | "symbol" => some (major 'S')
  | "z" | "separator" => some (major 'Z')
  | "c" | "other" => some (major 'C')
  | "lc" | "casedletter" => some [.uppercaseLetter, .lowercaseLetter, .titlecaseLetter]
  | "uppercaseletter" => some [.uppercaseLetter]
  | "lowercaseletter" => some [.lowercaseLetter]
  | "titlecaseletter" => some [.titlecaseLetter]
  | "modifierletter" => some [.modifierLetter]
  | "otherletter" => some [.otherLetter]
  | "nonspacingmark" => some [.nonspacingMark]
  | "spacingmark" => some [.spacingMark]
  | "enclosingmark" => some [.enclosingMark]
  | "decimalnumber" | "digit" => some [.decimalNumber]
  | "letternumber" => some [.letterNumber]
  | "othernumber" => some [.otherNumber]
  | "connectorpunctuation" => some [.connectorPunctuation]
  | "dashpunctuation" => some [.dashPunctuation]
  | "openpunctuation" => some [.openPunctuation]
  | "closepunctuation" => some [.closePunctuation]
  | "initialpunctuation" => some [.initialPunctuation]
  | "finalpunctuation" => some [.finalPunctuation]
  | "otherpunctuation" => some [.otherPunctuation]
  | "mathsymbol" => some [.mathSymbol]
  | "currencysymbol" => some [.currencySymbol]
  | "modifiersymbol" => some [.modifierSymbol]
  | "othersymbol" => some [.otherSymbol]
  | "spaceseparator" => some [.spaceSeparator]
  | "lineseparator" => some [.lineSeparator]
  | "paragraphseparator" => some [.paragraphSeparator]
  | "control" | "cntrl" => some [.control]
  | "format" => some [.format]
  | "privateuse" => some [.privateUse]
  | "unassigned" => some [.unassigned]
  | other => (Text.Category.abbreviations.find? fun entry => entry.1.toLower = other).map
      fun entry => [entry.2]

/-- The ranges of the scripts that can be named. -/
def scriptOfName? (name : String) : Option CharSet :=
  match name with
  | "latin" | "latn" => some (.inter (.categories ((Text.Category.abbreviations.filter
      fun entry => entry.1.toList.head? = some 'L').map (·.2)))
      (.ofRanges [(0x41, 0x5A), (0x61, 0x7A), (0xAA, 0xAA), (0xBA, 0xBA), (0xC0, 0x2B8),
        (0x2E0, 0x2E4), (0x1D00, 0x1D25), (0x1D2C, 0x1D5C), (0x1D62, 0x1D65), (0x1D6B, 0x1D77),
        (0x1D79, 0x1DBE), (0x1E00, 0x1EFF), (0x2C60, 0x2C7F), (0xA722, 0xA787), (0xA78B, 0xA7FF),
        (0xFB00, 0xFB06), (0xFF21, 0xFF3A), (0xFF41, 0xFF5A)]))
  | "greek" | "grek" => some (.ofRanges [(0x370, 0x373), (0x375, 0x377), (0x37A, 0x37D),
      (0x37F, 0x37F), (0x384, 0x384), (0x386, 0x386), (0x388, 0x3E1), (0x3F0, 0x3FF),
      (0x1D26, 0x1D2A), (0x1F00, 0x1FFE), (0x2126, 0x2126)])
  | "cyrillic" | "cyrl" => some (.ofRanges [(0x400, 0x484), (0x487, 0x52F), (0x1C80, 0x1C88),
      (0x2DE0, 0x2DFF), (0xA640, 0xA69F)])
  | "hebrew" | "hebr" => some (.ofRanges [(0x591, 0x5F4), (0xFB1D, 0xFB4F)])
  | "arabic" | "arab" => some (.ofRanges [(0x600, 0x604), (0x606, 0x60B), (0x60D, 0x61A),
      (0x61C, 0x61E), (0x620, 0x63F), (0x641, 0x64A), (0x656, 0x66F), (0x671, 0x6DC),
      (0x6DE, 0x6FF), (0x750, 0x77F), (0xFB50, 0xFDFF), (0xFE70, 0xFEFC)])
  | "han" | "hani" => some (.ofRanges [(0x2E80, 0x2FD5), (0x3005, 0x3005), (0x3007, 0x3007),
      (0x3021, 0x3029), (0x3038, 0x303B), (0x3400, 0x4DBF), (0x4E00, 0x9FFF), (0xF900, 0xFAD9),
      (0x20000, 0x323AF)])
  | "hiragana" | "hira" => some (.ofRanges [(0x3041, 0x3096), (0x309D, 0x309F)])
  | "katakana" | "kana" => some (.ofRanges [(0x30A1, 0x30FA), (0x30FD, 0x30FF), (0x31F0, 0x31FF),
      (0x32D0, 0x32FE), (0x3300, 0x3357), (0xFF66, 0xFF6F), (0xFF71, 0xFF9D)])
  | "hangul" | "hang" => some (.ofRanges [(0x1100, 0x11FF), (0x3131, 0x318E), (0xA960, 0xA97C),
      (0xAC00, 0xD7FB)])
  | "thai" => some (.ofRanges [(0xE01, 0xE3A), (0xE40, 0xE5B)])
  | "devanagari" | "deva" => some (.ofRanges [(0x900, 0x950), (0x955, 0x963), (0x966, 0x97F)])
  | _ => none

/-- The set with a property name written without case, blanks, dashes and underscores. -/
def propertyOfName? (name : String) : Option CharSet :=
  match name with
  | "any" => some .all
  | "ascii" => some (.range 0 0x7F)
  | "assigned" => some (.compl (.categories [.unassigned]))
  | "alphabetic" | "alpha" => some (.categories [.uppercaseLetter, .lowercaseLetter,
      .titlecaseLetter, .modifierLetter, .otherLetter, .letterNumber])
  | "uppercase" | "upper" => some (.categories [.uppercaseLetter])
  | "lowercase" | "lower" => some (.categories [.lowercaseLetter])
  | "whitespace" | "wspace" | "space" => some .blank
  | other => ((categoriesOfName? other).map CharSet.categories).or (scriptOfName? other)

/-- A property name in the form in which it is looked up. -/
def looseName (name : List Char) : String :=
  let plain := (name.filter fun c => !(Text.isBlank c || c = '-' || c = '_')).map Char.toLower
  match plain with
  | 'i' :: 's' :: c :: rest => String.ofList (c :: rest)
  | other => String.ofList other

/-- The set of a property written with its key: a general category or a script. -/
def propertyOfKey? (key name : List Char) : Option CharSet :=
  match looseName key with
  | "gc" | "generalcategory" => (categoriesOfName? (looseName name)).map .categories
  | "sc" | "script" | "scx" | "scriptextensions" => scriptOfName? (looseName name)
  | _ => none

/-- The set of a property written as a name or as `key=value`. -/
def propertySet? (text : List Char) : Option CharSet :=
  let (negated, text) := match text with
    | '^' :: rest => (true, rest)
    | other => (false, other)
  let (differs, set) := match Text.splitFirst '=' text, Text.splitFirst ':' text with
    | some (key, value), _ =>
      if key.getLast? = some '!' then (true, propertyOfKey? key.dropLast value)
      else (false, propertyOfKey? key value)
    | none, some (key, value) => (false, propertyOfKey? key value)
    | none, none => (false, propertyOfName? (looseName text))
  set.map fun set => if negated != differs then .compl set else set

/-- The set of a property, or what is not in it. -/
def propertyAtom (flags : Flags) (negated : Bool) (name : List Char) : Except PatternError Atom :=
  if !flags.unicode then .error .notText
  else match propertySet? name with
    | some set =>
      let set := flags.fold set
      .ok (.set (if negated then .compl set else set))
    | none => .error .unknownProperty

/-- A property escape after its `p` or `P`: a name in braces, or one letter. -/
def propertyEscape (flags : Flags) (negated : Bool) (text : List Char) :
    Except PatternError (Atom × List Char) :=
  match text with
  | [] => .error .badEscape
  | c :: rest =>
    if c = '{' then do
      let (name, rest) ← readTo '}' rest
      (propertyAtom flags negated name).map (·, rest)
    else (propertyAtom flags negated [c]).map (·, rest)

/-- The conditions written `\b{name}`. -/
def namedEdge? (name : List Char) : Option WordEdge :=
  match String.ofList name with
  | "start" => some .start
  | "end" => some .stop
  | "start-half" => some .startHalf
  | "end-half" => some .stopHalf
  | _ => none

/-- Whether a character may stand in the name of a condition. -/
def isEdgeNameChar (c : Char) : Bool := c.isAlpha || c = '-'

/-- The condition with that name. -/
def edgeAtom (flags : Flags) (name : List Char) : Except PatternError Atom :=
  match namedEdge? name with
  | some kind => .ok (.assertion (.word kind flags.wordSet))
  | none => .error .badEscape

/-- A named condition after `\b{`. -/
def namedEdgeEscape (flags : Flags) (text : List Char) : Except PatternError (Atom × List Char) :=
  match ['}'].isPrefixOf? (text.dropWhile isEdgeNameChar) with
  | some rest => (edgeAtom flags (text.takeWhile isEdgeNameChar)).map (·, rest)
  | none => .error .badEscape

/-- A word edge after `\b`; braces that do not start with a letter are left for the reader of
repetitions. -/
def edgeEscape (flags : Flags) (text : List Char) : Except PatternError (Atom × List Char) :=
  match ['{'].isPrefixOf? text with
  | some rest =>
    if rest.head?.any isEdgeNameChar then namedEdgeEscape flags rest
    else .ok (.assertion (.word .edge flags.wordSet), text)
  | none => .ok (.assertion (.word .edge flags.wordSet), text)

/-- One of the classes written with a single letter. -/
def shorthand (flags : Flags) (set ascii : CharSet) (negated : Bool) : Except PatternError Atom :=
  if flags.unicode then .ok (.set (if negated then .compl set else set))
  else if negated then .error .notText
  else .ok (.set ascii)

/-- What a backslash and a letter stand for. -/
def letterEscape (flags : Flags) (c : Char) : Except PatternError Atom :=
  match c with
  | 'd' => shorthand flags .digit .asciiDigit false
  | 'D' => shorthand flags .digit .asciiDigit true
  | 's' => shorthand flags .blank .asciiBlank false
  | 'S' => shorthand flags .blank .asciiBlank true
  | 'w' => shorthand flags .word .asciiWord false
  | 'W' => shorthand flags .word .asciiWord true
  | 'a' => .ok (.char '\x07')
  | 'f' => .ok (.char '\x0c')
  | 't' => .ok (.char '\t')
  | 'n' => .ok (.char '\n')
  | 'r' => .ok (.char '\r')
  | 'v' => .ok (.char '\x0b')
  | 'A' => .ok (.assertion .textStart)
  | 'z' => .ok (.assertion .textEnd)
  | 'B' => .ok (.assertion (.word .noEdge flags.wordSet))
  | '<' => .ok (.assertion (.word .start flags.wordSet))
  | '>' => .ok (.assertion (.word .stop flags.wordSet))
  | _ => .error .badEscape

/-- What a backslash followed by `text` stands for, and what follows. -/
def readEscape (flags : Flags) (text : List Char) : Except PatternError (Atom × List Char) :=
  match text with
  | [] => .error .badEscape
  | c :: rest =>
    if c.isDigit then .error .unsupported
    else if isEscapable c then .ok (.char c, rest)
    else match c with
      | 'x' => hexEscape 2 (if flags.unicode then 0xFF else 0x7F) rest
      | 'u' => hexEscape 4 0xFFFF rest
      | 'U' => hexEscape 8 0xFFFFFFFF rest
      | 'p' => propertyEscape flags false rest
      | 'P' => propertyEscape flags true rest
      | 'b' => edgeEscape flags rest
      | c => (letterEscape flags c).map (·, rest)

end ModalEdit.Pattern
