import Offside.Cli.Flag
import Offside.Text.Distance
import Offside.Text.LowerCase

/-!
# Commands

Model of the tree of commands (specification, 6 and 9.4), and of how the first operand names one of
them.

The program has a handful of commands. Which one is meant is told by the first operand, and what
counts as an operand is settled before the command is known: a flag that is not known yet is taken
to have a value. Where no command has the name that was typed, the names that come close to it are
suggested.

* `Command` has the commands `ir`, `parse`, `repl`, `tokens` and `version`, the program itself, and
  the command for help.
* `Command.flags` has the flags of a command, its own and those of the program.
* `firstWord?` finds the first operand, `dropWord` takes it out of the arguments, and `select` is
  the command they mean with what is left for it. `takesNext` is the guess whether an argument takes
  the one behind it for its value.
* `suggestions` are the names within two changes of what was typed, and those that begin with it.

Out of scope: the command that writes completion scripts; its name is listed and suggested but it is
not run.
-/

namespace Offside.Cli

/-- The commands of the program. -/
inductive Command where
  /-- The program without a command. -/
  | root
  | ir
  | parse
  | repl
  | tokens
  | version
  | help
  deriving DecidableEq, Repr

/-- The name of the program. -/
def programName : Text := "stride"

namespace Command

/-- The commands that can be named. -/
def named : List Command := [ir, parse, repl, tokens, version, help]

/-- The name of a command. -/
def name : Command → Text
  | root => programName
  | ir => "ir"
  | parse => "parse"
  | repl => "repl"
  | tokens => "tokens"
  | version => "version"
  | help => "help"

/-- The command with a name. -/
def ofName? (name : Text) : Option Command :=
  named.find? fun c => c.name == name

/-- The program and the command as they are typed. -/
def path : Command → Text
  | root => programName
  | c => programName ++ " " ++ c.name

/-- The flags of the program, which every command has. -/
def globalFlags : List Flag := [.config, .verbose]

/-- The flags of a command itself, sorted by name. -/
def ownFlags : Command → List Flag
  | root => [.config, .help, .verbose]
  | ir => [.help, .output]
  | parse => [.format, .help]
  | _ => [.help]

/-- All flags of a command. -/
def flags (c : Command) : List Flag :=
  c.ownFlags ++ globalFlags

/-! ## Which command is meant -/

/-- Whether an argument takes the one behind it for its value, as far as is known before the
command is. -/
def takesNext (arg : Text) : Bool :=
  if arg.contains 0x3D then false
  else
    match arg with
    | 0x2D :: 0x2D :: name => !(Flag.ofName? globalFlags name).any Flag.isSwitch
    | [0x2D, letter] => !(Flag.ofLetter? globalFlags letter).any Flag.isSwitch
    | _ => false

/-- Whether an argument names something rather than being a flag. -/
def isWord (arg : Text) : Bool :=
  arg.head? != some 0x2D

/-- The first operand of arguments. A flag that takes a value takes it only if more follows. -/
def firstWord? : List Text → Option Text
  | [] => none
  | arg :: rest =>
    if arg = "--" then none
    else if takesNext arg then
      match rest with
      | _ :: next :: rest => firstWord? (next :: rest)
      | _ => none
    else if isWord arg ∧ arg ≠ [] then some arg
    else firstWord? rest

/-- The arguments without the first operand that is a given word. -/
def dropWord (word : Text) : List Text → List Text
  | [] => []
  | arg :: rest =>
    if arg = "--" then arg :: rest
    else if takesNext arg then
      match rest with
      | value :: rest => arg :: value :: dropWord word rest
      | [] => [arg]
    else if isWord arg ∧ arg = word then rest
    else arg :: dropWord word rest

/-- The command that arguments mean and the arguments that are left for it, or else the word that is
no command. -/
def select (args : List Text) : Except Text (Command × List Text) :=
  match firstWord? args with
  | none => .ok (root, args)
  | some word =>
    match ofName? word with
    | some c => .ok (c, dropWord word args)
    | none => .error word

/-! ## Suggestions -/

/-- The names that may be suggested, in this order. -/
def suggestible : List Text :=
  ["ir", "parse", "repl", "tokens", "version", "completion"]

/-- How far a name may be from a word to be suggested. -/
def nearness : Nat := 2

/-- The names that come close to a word: by few changes, or because they begin with it. -/
def suggestions (word : Text) : List Text :=
  let word := word.lowerCase
  suggestible.filter fun name => Text.distance word name ≤ nearness || word.isPrefixOf name

end Command

end Offside.Cli
