import ModalEdit.CommandLine.Tokens

/-!
# Invocations

A command line read as commands: each invocation is a name token with its
argument tokens, still to be expanded. Empty commands are left out.
-/

namespace ModalEdit

/-- One command of a line. -/
structure Invocation where
  name : Token
  args : List Token
  deriving DecidableEq, Repr

namespace Invocation

/-- A short description: the name and the arguments as written. -/
def describe (i : Invocation) : String :=
  " ".intercalate ((i.name :: i.args).map fun t => t.content) |> ("cmd:" ++ ·)

/-- The invocation of a non-empty command. -/
def ofWords? : List Token → Option Invocation
  | [] => none
  | name :: args => some ⟨name, args⟩

/-- The tokens between separators. -/
def splitCommands : List Token → List (List Token)
  | [] => [[]]
  | t :: rest =>
    if t.isSeparator then [] :: splitCommands rest
    else match splitCommands rest with
      | [] => [[t]]
      | command :: commands => (t :: command) :: commands

/-- The commands of a list of tokens. -/
def ofTokens (tokens : List Token) : List Invocation :=
  (splitCommands tokens).filterMap ofWords?

/-! ## Commands between separators -/

theorem splitCommands_ne_nil (tokens : List Token) : splitCommands tokens ≠ [] := by
  cases tokens with
  | nil => simp [splitCommands]
  | cons t tokens =>
    unfold splitCommands
    split
    · simp
    · split <;> simp

/-- Commands end at separators. -/
theorem splitCommands_append_separator {separator : Token} (h : separator.isSeparator = true)
    (tokens tokens' : List Token) :
    splitCommands (tokens ++ separator :: tokens') =
      splitCommands tokens ++ splitCommands tokens' := by
  induction tokens with
  | nil => simp [splitCommands, h]
  | cons t tokens ih =>
    obtain ⟨command, commands, hsplit⟩ := List.exists_cons_of_ne_nil (splitCommands_ne_nil tokens)
    rw [List.cons_append, splitCommands, ih, splitCommands, hsplit]
    split <;> rfl

theorem ofTokens_append_separator {separator : Token} (h : separator.isSeparator = true)
    (tokens tokens' : List Token) :
    ofTokens (tokens ++ separator :: tokens') = ofTokens tokens ++ ofTokens tokens' := by
  rw [ofTokens, splitCommands_append_separator h, List.filterMap_append]
  rfl

/-- Words without a separator among them are one command. -/
theorem splitCommands_words {words : List Token} (h : ∀ t ∈ words, t.isSeparator = false) :
    splitCommands words = [words] := by
  induction words with
  | nil => rfl
  | cons t words ih =>
    have ht : ¬ t.isSeparator = true := by simp [h t List.mem_cons_self]
    rw [splitCommands, if_neg ht, ih fun u hu => h u (List.mem_cons_of_mem t hu)]

theorem ofTokens_words {name : Token} {args : List Token}
    (h : ∀ t ∈ name :: args, t.isSeparator = false) : ofTokens (name :: args) = [⟨name, args⟩] := by
  rw [ofTokens, splitCommands_words h]
  rfl

end Invocation

namespace CommandLine

/-- The commands of a line. -/
def parseInvocations (line : String) : Except ParseError (List Invocation) :=
  (tokenize line).map Invocation.ofTokens

end CommandLine

end ModalEdit
