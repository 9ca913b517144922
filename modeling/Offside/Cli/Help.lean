import Offside.Cli.Command

/-!
# Help texts

Model of the help that the program and its commands give (specification, 6).

A help text describes a command and lists its flags, sorted by name and aligned.

* `table` aligns two columns: the second begins a fixed number of blanks behind the longest entry of
  the first.
* `Flag.description` and `Flag.entry` are the two columns of a list of flags.
* `Command.summary` and `Command.descriptionLines` are the short and the long description of a
  command, and `Command.usage` how it is used, with the lists of commands and flags.
* `Command.helpText` is the whole: the long description and the usage.
-/

namespace Offside.Cli

/-- Lines with a blank behind the longest of their first columns. -/
def table (rows : List (Text × Text)) (gap : Nat) : Text :=
  let width := (rows.map fun row => row.1.length).foldl max 0 + gap
  rows.flatMap fun (left, right) => Text.padRight width left ++ (right ++ "\n")

namespace Flag

/-- What a flag does. -/
def description (c : Command) : Flag → Text
  | config => "config file (.toml, .yaml or .yml)"
  | verbose => "verbose output"
  | help => "help for " ++ c.name
  | format => "output format: sexpr or go (default from config)"
  | output => "write the IR to this file instead of stdout"

/-- A flag in a list of flags. -/
def entry (f : Flag) : Text :=
  let value : Text := if f.isSwitch then "" else " string"
  let margin : Text := if f.letter?.isSome then "  " else "      "
  margin ++ f.spelling ++ value

end Flag

namespace Command

/-- What a command does, in a line. -/
def summary : Command → Text
  | root => "stride - scanner, parser and LLVM IR generator"
  | ir => "Compile a source file to LLVM IR"
  | parse => "Print the syntax tree of a source file"
  | repl => "Parse statements interactively"
  | tokens => "Print the token stream of a source file"
  | version => "Print the version"
  | help => "Help about any command"

/-- What a command does, line by line. -/
def descriptionLines : Command → List Text
  | root => [
    "stride reads programs written in a small indentation based language",
    "and shows them at each stage of the front end.",
    "",
    "Commands:",
    "  tokens   - token stream",
    "  parse    - abstract syntax tree",
    "  ir       - LLVM IR",
    "  repl     - interactive parser"]
  | tokens => [
    "Print one token per line with its line:column position.",
    "Use - to read the source from standard input."]
  | parse => [
    "Print the syntax tree of a source file.",
    "",
    "Formats:",
    "  sexpr - one S-expression per top-level statement",
    "  go    - Go syntax dump of the tree nodes"]
  | repl => [
    "Read statements and print their syntax tree.",
    "",
    "A line ending in ':' opens a block that is closed by an empty line.",
    "Commands:",
    "  :ir    toggle printing LLVM IR for each input",
    "  :quit  leave"]
  | help => [
    "Help provides help for any command in the application.",
    "Simply type stride help [path to command] for full details."]
  | c => [c.summary]

/-- What stands behind the name of a command when it is used. -/
def operands : Command → Text
  | ir | parse | tokens => " FILE"
  | help => " [command]"
  | _ => ""

/-- The flags of a list with what they do. -/
def flagTable (c : Command) (flags : List Flag) : Text :=
  table (flags.map fun f => (f.entry, f.description c)) 3

/-- The commands with what they do, sorted by name. -/
def commandTable : Text :=
  let row (c : Command) : Text × Text := ("  " ++ c.name, c.summary)
  let completion : Text × Text :=
    ("  completion", "Generate the autocompletion script for the specified shell")
  table (completion :: [help, ir, parse, repl, tokens, version].map row) 2

/-- How a command is used. -/
def usage : Command → Text
  | root =>
    "Usage:\n  stride [command]\n\nAvailable Commands:\n" ++ commandTable ++
      "\nFlags:\n" ++ root.flagTable root.ownFlags ++
      "\nUse \"stride [command] --help\" for more information about a command.\n"
  | c =>
    "Usage:\n  " ++ c.path ++ c.operands ++ " [flags]\n" ++
      "\nFlags:\n" ++ c.flagTable c.ownFlags ++
      "\nGlobal Flags:\n" ++ c.flagTable globalFlags

/-- The help text of a command. -/
def helpText (c : Command) : Text :=
  Text.join "\n" c.descriptionLines ++ ("\n\n" ++ c.usage)

end Command

end Offside.Cli
