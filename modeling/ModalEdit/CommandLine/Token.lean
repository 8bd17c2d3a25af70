/-!
# Tokens of a command line

A command line is a list of words and separators. A word is literal text or an
expansion, `%kind{…}`, whose content is replaced when the command runs. Each
token knows the bytes of the line that its content came from.
-/

namespace ModalEdit

/-- What a `%kind{…}` word stands for. -/
inductive Expansion where
  /-- Output of a shell script. -/
  | shell
  /-- First value of a register. -/
  | register
  /-- Value of an option as seen from the current context. -/
  | option
  /-- A value of the context or of the environment. -/
  | value
  /-- A parameter of the enclosing command. -/
  | arg
  deriving DecidableEq, Repr

/-- The expansion that is written with these letters. -/
def Expansion.ofName? (letters : List Char) : Option Expansion :=
  match String.ofList letters with
  | "sh" => some .shell
  | "reg" => some .register
  | "opt" => some .option
  | "val" => some .value
  | "arg" => some .arg
  | _ => none

/-- The role of a token. -/
inductive TokenKind where
  | raw
  | expand (e : Expansion)
  /-- `;` or the end of a line. -/
  | separator
  deriving DecidableEq, Repr

/-- A word or separator of a command line. -/
structure Token where
  kind : TokenKind
  /-- The text of the word without quotes and escapes. -/
  content : String
  /-- First byte of the content, inside any quotes. -/
  start : Nat
  /-- One past the last byte of the content. -/
  stop : Nat
  deriving DecidableEq, Repr

/-- Whether a token separates commands. -/
def Token.isSeparator (t : Token) : Bool := t.kind = .separator

/-- The same token of a line that starts `n` bytes later. -/
def Token.shift (n : Nat) (t : Token) : Token :=
  { t with start := t.start + n, stop := t.stop + n }

/-- What can be wrong with a command line. -/
inductive ParseFault where
  | unterminatedString
  | unterminatedBlock
  | unknownExpansion (name : String)
  deriving DecidableEq, Repr

/-- A fault and the byte at which the faulty construct starts. -/
structure ParseError where
  fault : ParseFault
  position : Nat
  deriving DecidableEq, Repr

/-- The description of a fault. -/
def ParseFault.text : ParseFault → String
  | .unterminatedString => "unterminated string"
  | .unterminatedBlock => "unterminated block"
  | .unknownExpansion name => s!"unknown expansion '{name}'"

/-- The wording shown to users. -/
def ParseError.message (e : ParseError) : String :=
  s!"parse error at byte {e.position}: {e.fault.text}"

end ModalEdit
