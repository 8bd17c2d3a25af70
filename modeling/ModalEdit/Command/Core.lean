import ModalEdit.Command

/-!
# The core commands

The commands that every editor starts with, each under one or two names.
-/

namespace ModalEdit.Command

/-- What `addhl` and `rmhl` complete the values of their switches with. -/
def groupSubjects : List (String × CompletionSubject) :=
  [("group", .highlighterGroup), ("def-group", .definedGroup), ("scope", .scope)]

/-- Commands that run other commands or print. -/
def scripting : List (List String × Command) :=
  [(["nop"], ofBuiltin .nop .any "do nothing"),
   (["echo"], ofBuiltin .echo
      (ParameterDesc.any.withSwitch "color" true "face of the message").onlyAtStart
      "echo <text>...: show text in the status line"),
   (["debug"], ofBuiltin .debug .verbatim
      "debug <text>...: append text to the *debug* buffer"),
   (["eval", "evaluate-commands"], ofBuiltin .eval
      (ParameterDesc.bounded 1 none).withContextSwitches.onlyAtStart
      "eval [switches] <commands>...: run commands, joined with spaces"),
   (["exec", "execute-keys"], ofBuiltin .exec
      (ParameterDesc.bounded 1 none).withContextSwitches.onlyAtStart
      "exec [switches] <keys>...: replay keys as one undo step"),
   (["try"], ofBuiltin .try (ParameterDesc.bounded 1 (some 3)).asPositional
      "try <commands> [catch <commands>]: run the catch commands if the first ones fail"),
   (["reg"], ofBuiltin .reg (ParameterDesc.bounded 1 none).asPositional
      "reg <name> <values>...: set register content"),
   (["nameclient", "nc"], ofBuiltin .nameclient (.bounded 1 (some 1))
      "nameclient <name>: rename the current client"),
   (["namebuf"], ofBuiltin .namebuf (.bounded 1 (some 1))
      "namebuf <name>: rename the current buffer"),
   (["source"], ofBuiltin .source (.bounded 1 (some 1))
      "source <file>: run the commands of a file")]

/-- Commands that change the tables of scopes. -/
def tables : List (List String × Command) :=
  [(["hook"], (ofBuiltin .hook
      ((ParameterDesc.bounded 4 (some 4)).withSwitch "id" true "group id used by rmhooks")
      "hook [-id <id>] <scope> <event> <filter> <commands>: run commands when event fires"
      ).completing [.scope]),
   (["rmhooks"], ofBuiltin .rmhooks (.bounded 2 (some 2))
      "rmhooks <scope> <id regex>: remove hooks whose id matches"),
   (["set"], (ofBuiltin .set
      ((ParameterDesc.bounded 3 (some 3)).withSwitch "add" false
        "add to the current value").onlyAtStart
      "set [-add] <scope> <name> <value>: set an option").completing [.scope, .option]),
   (["decl"], (ofBuiltin .decl
      ((ParameterDesc.bounded 2 (some 3)).withSwitch "hidden" false "leave out of completion")
      "decl [-hidden] <type> <name> [<value>]: declare an option").completing [.optionType]),
   (["map"], (ofBuiltin .map (.bounded 4 (some 4))
      "map <scope> <mode> <key> <keys>: map a key to a key sequence"
      ).completing [.scope, .keymapMode]),
   (["addhl", "ah"], ((ofBuiltin .addhl
      (((ParameterDesc.bounded 1 none).withSwitch "group" true "add into this group").withSwitch
        "def-group" true "add into this defined group" |>.withSwitch
        "scope" true "scope to add to, window by default").onlyAtStart
      "addhl [switches] <factory> <params>...: add a highlighter").completing
        [.factory]).completingSwitches groupSubjects),
   (["rmhl", "rh"], ((ofBuiltin .rmhl
      (((ParameterDesc.bounded 1 (some 1)).withSwitch "group" true
        "remove from this group").withSwitch "scope" true
        "scope to remove from, window by default")
      "rmhl [switches] <name>: remove a highlighter").completing
        [.highlighter]).completingSwitches groupSubjects),
   (["defhl", "dh"], ofBuiltin .defhl (.bounded 1 (some 1))
      "defhl <name>: define a shared highlighter group")]

/-- The command that defines commands. -/
def definition : List (List String × Command) :=
  [(["def", "define-command"], ofBuiltin .define
      (((((((ParameterDesc.bounded 2 (some 2)).withSwitch
        "env-params" false "pass parameters as param0, param1, ... values").withSwitch
        "shell-params" false "pass parameters as %arg\x7b\x7d values").withSwitch
        "allow-override" false "replace an existing command").withSwitch
        "hidden" false "leave out of completion").withSwitch
        "shell-completion" true "complete parameters with this shell command").withSwitch
        "docstring" true "description shown in completion menus")
      "def [switches] <name> <commands>: define a command")]

/-- The core commands with their names. -/
def core : List (List String × Command) := scripting ++ tables ++ definition

/-- The core commands by name. -/
def coreTable : NameMap Command where
  kind := "command"
  entries := core.flatMap fun entry => entry.1.map fun name => (name, entry.2)

end ModalEdit.Command
