import ModalEdit.Session

/-!
# The program

Reads the arguments, runs the session they ask for and prints its messages.

A session is a function of the texts of the files that it reads. So it is run
on the files known so far, and again with those that it asked for, until it asks
for nothing new.
-/

namespace ModalEdit.Program

/-- What reading files gave, by path. -/
abbrev KnownFiles := List (String × Except FileError String)

/-- Reads a file. -/
def readText (path : String) : IO (Except FileError String) := do
  try
    let bytes ← IO.FS.readBinFile path
    return match String.fromUTF8? bytes with
      | some text => .ok text
      | none => .error .notText
  catch
    | .noFileOrDirectory _ _ _ => return .error .notFound
    | .inappropriateType _ code _ =>
      return .error (if code = 21 then .isDirectory else .notDirectory)
    | error => return .error (.other (toString error))

/-- The directory of the user's config. -/
def configHome : IO (Option String) := do
  match ← IO.getEnv "XDG_CONFIG_HOME", ← IO.getEnv "HOME" with
  | some directory, _ => return some (directory ++ "/modaledit")
  | none, some home => return some (home ++ "/.config/modaledit")
  | none, none => return none

/-- Runs a session on files that are read when it asks for them. -/
partial def runOn (args : Arguments) (configDirectory : Option String) (known : KnownFiles) :
    IO (Except SessionError Session.Outcome × Editor) := do
  let readFile (path : String) := (known.lookup path).getD (.error .notFound)
  let (outcome, e) := Session.perform (Session.whole args) (.new { readFile, configDirectory })
  match e.fileReads.eraseDups.filter fun path => (known.lookup path).isNone with
  | [] => return (outcome, e)
  | asked =>
    let read ← asked.mapM fun path => return (path, ← readText path)
    runOn args configDirectory (known ++ read)

/-- Prints what a session leaves behind, and gives the exit code. -/
def report (args : Arguments) (outcome : Except SessionError Session.Outcome) (e : Editor) :
    IO UInt32 := do
  match outcome with
  | .error error =>
    IO.eprintln error.message
    return 1
  | .ok session =>
    for message in e.status do
      IO.println message.text
    if args.print then
      match Session.clientText e session.client with
      | .ok text => IO.print text
      | .error error => IO.eprintln error.message
    match session.ran with
    | .ok _ => return 0
    | .error error =>
      IO.eprintln error.message
      return 1

/-- How to call the program. -/
def usage : String :=
  "Usage: modaledit [-npv] [-e COMMANDS]... [-k KEYS] [-c NAME] [--config-dir DIR] [FILE]..."

end ModalEdit.Program

open ModalEdit Program in
/-- Runs the program. -/
def main (texts : List String) : IO UInt32 := do
  match Arguments.parse texts with
  | .error .helpWanted =>
    IO.println usage
    return 0
  | .error .versionWanted =>
    IO.println "modaledit 0.1.0"
    return 0
  | .error error =>
    IO.eprintln error.message
    IO.eprintln usage
    return 2
  | .ok args =>
    let (outcome, e) ← runOn args (← configHome) []
    report args outcome e
