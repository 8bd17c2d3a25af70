import ModalEdit.Editor.Hooks

/-!
# Key presses

A key is first replaced by its mapping, if it has one. What arrives then edits
the document: in normal mode keys are commands, in insert mode they are text.
`replayKeys` presses a sequence of keys as one undo step.
-/

namespace ModalEdit.Scene

/-! ## Basic editing -/

/-- Enters insert mode. Its edition stays open until insert mode ends. -/
def enterInsertMode (position : InsertPosition) : Act Scene Unit := do
  modifyContext fun c => { c with insertPosition := position, mode := .insert }
  beginEdition

/-- Leaves insert mode, even if a hook on the key has left it already. -/
def leaveInsertMode : Act Scene Unit := do
  unless (← get).context.mode = .insert do modifyEditor (·.jot .strayEscape)
  modifyContext fun c => { c with mode := .normal }
  endEdition

/-- Runs an act inside an edition, which ends even if the act fails. -/
def inEdition (act : Act Scene Unit) : Act Scene Unit := do
  beginEdition
  let result ← act.attempt
  endEdition
  Act.ofExcept result

/-- Copies what is selected into the yank register. -/
def yankSelections : Act Scene Unit := do
  setRegister Registers.yank (← get).selectedTexts

/-- Inserts the texts of the yank register. -/
def paste (position : InsertPosition) : Act Scene Unit := do
  let texts := (← get).register Registers.yank
  inEdition (insert texts position)

/-- Takes the last step back. -/
def undo : Act Scene Unit := do
  let s ← get
  modifyEditor (·.jot (.undone s.context.document))
  unless ← edit Document.undo do print "nothing left to undo"

/-- Makes the step again that was taken back last. -/
def redo : Act Scene Unit := do
  let s ← get
  modifyEditor (·.jot (.redone s.context.document))
  unless ← edit Document.redo do print "nothing left to redo"

/-- What a character does in normal mode. -/
def normalCommand (c : Char) : Act Scene Unit :=
  match c with
  | 'i' => enterInsertMode .before
  | 'a' => enterInsertMode .after
  | 'y' => yankSelections
  | 'd' => do
    yankSelections
    inEdition erase
  | 'p' => paste .after
  | 'P' => paste .before
  | 'u' => undo
  | 'U' => redo
  | _ => return

/-- What a key does in normal mode. -/
def normalKey (key : Key) : Act Scene Unit :=
  match key.char? with
  | some c => normalCommand c
  | none => return

/-- Types a text at every selection. -/
def typeText (text : String) : Act Scene Unit := do
  insert [text] (← get).context.insertPosition

/-- What a key does in insert mode. -/
def insertKey (key : Key) : Act Scene Unit :=
  if !key.modifiers.isEmpty then return
  else match key.code with
    | .escape => leaveInsertMode
    | .backspace => eraseBefore
    | .enter => typeText "\n"
    | .tab => typeText "\t"
    | .char c => typeText (String.singleton c)
    | _ => return

/-- Handles a key in basic editing. Hooks on the key run first. -/
def basicKey (run : Runner) (key : Key) : Act Scene Unit := do
  if (← get).context.mode = .insert then
    runHook run "InsertKey" key.text
    insertKey key
  else
    runHook run "NormalKey" key.text
    normalKey key

/-! ## Presses -/

/-- Shows a key with its mode; refuses `!`. -/
def echoKey (key : Key) : Act Scene Unit := do
  if key = .ofChar '!' then throw (.failed "bang")
  print s!"{(← get).context.mode.name} {key.text}"

/-- Presses a key that has no mapping any more. -/
def pressUnmapped (run : Runner) (key : Key) : Act Scene Unit := do
  match (← get).editor.input with
  | .basic => basicKey run key
  | .echo => echoKey key

/-- The keys that a key stands for: the window's mapping, else the document's, else the global. -/
def mapping? (s : Scene) (key : Key) : Option (List Key) :=
  s.visibleTables.reverse.findSome? fun tables => tables.keymaps.get? s.context.mode key

/-- Presses a key. What its mapping stands for is not mapped again. -/
def press (run : Runner) (key : Key) : Act Scene Unit := do
  match (← get).mapping? key with
  | some keys => keys.forM (pressUnmapped run)
  | none => pressUnmapped run key

/-- Presses keys up to the first that fails. -/
def pressAll (run : Runner) (keys : List Key) : Act Scene Unit := keys.forM (press run)

/-- Goes back to the mode before a replay, if the keys entered insert mode and left it open. -/
def closeInsertMode (before : KeymapMode) : Act Scene Unit := do
  let s ← get
  if before ≠ .insert ∧ s.context.mode = .insert then
    modifyContext fun c => { c with mode := before }
    endEdition

/-- Presses keys as one undo step. The yank and search registers keep what they hold. -/
def replayKeys (run : Runner) (keys : List Key) : Act Scene Unit := do
  let s ← get
  let saved := s.editor.registers.save [Registers.yank, Registers.search]
  beginEdition
  let result ← (pressAll run keys).attempt
  closeInsertMode s.context.mode
  endEdition
  modifyEditor fun e => { e with registers := e.registers.restore saved }
  Act.ofExcept result

end ModalEdit.Scene
