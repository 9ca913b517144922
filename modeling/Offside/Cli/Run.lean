import Offside.Cli.Help
import Offside.Cli.Log
import Offside.Program.Dump
import Offside.Session.Basic
import Offside.Settings.Load

/-!
# Running a command

Model of `Execute` and of the commands behind it (specification, 6 and 9.4): `setup`, `readSource`,
`parseFile`, `printError`, `runTokens`, `runParse`, `runIR` and `runRepl`.

A run reads its arguments, its settings and its source, in this order, and ends at the first thing
that is wrong. It is a function of the files, standard input and the arguments; its answer has what
was written, the files afterwards, and the failure if there was one.

* `Failure` has one constructor for each way in which a run fails. `Failure.message` is its text,
  and `Failure.report` is `printError`: a fault of a source is shown with its place behind the name
  of the file.
* `Environment` is what a run finds, and `Outcome` what it leaves. `Outcome.exitCode` is one for a
  run that fails.
* `Environment.readSource` and `Environment.parseSource` are `readSource` and `parseFile`. A dash
  stands for standard input.
* `Job` is a run that has its flags and settings. `Job.tokens`, `Job.parse`, `Job.ir` and `Job.repl`
  are the four commands, and `Job.help` is help on one of them.
* `run` is `Execute` with `setup`: the command, its flags, help if it is asked for, the number of
  operands, the settings, and then the command itself.
* `paths` and `readsStdin` tell what a run looks at, so that the program can be given it.

Out of scope: a failure while an outcome is being written.
-/

namespace Offside.Cli

/-- Why a run fails. -/
inductive Failure where
  | unknownCommand (word : Text)
  /-- A command without operands was given one. -/
  | unexpectedOperand (word : Text) (command : Command)
  | operandCount (wanted received : Nat)
  | flag (e : FlagError)
  | settings (e : SettingsError)
  | unreadable (path : Text) (e : FileError)
  | source (file src : Text) (e : SourceError)
  | format (name : Text)
  | lowering (file : Text) (e : Ir.LowerError)
  | unwritable (path : Text) (e : FileError)

namespace Failure

/-- A word that was typed where a command is expected. -/
def notCommand (word path : Text) : Text :=
  "unknown command " ++ word.quote ++ " for " ++ path.quote

/-- The names that a user may have meant. -/
def suggest : List Text → Text
  | [] => []
  | names =>
    let entry (name : Text) : Text := "\t" ++ name ++ "\n"
    "\n\nDid you mean this?\n" ++ names.flatMap entry

/-- The message of a failure. -/
def message : Failure → Text
  | unknownCommand word =>
    notCommand word programName ++ suggest (Command.suggestions word)
  | unexpectedOperand word command => notCommand word command.path
  | operandCount wanted received =>
    "accepts " ++ Text.ofNat wanted ++ " arg(s), received " ++ Text.ofNat received
  | flag e => e.message
  | settings e => e.message
  | unreadable path e => "read " ++ path ++ ": " ++ e.message
  | source file _ e => file ++ ": " ++ e.message
  | format name => "unknown format " ++ name.quote
  | lowering file e => file ++ ": " ++ e.message
  | unwritable path e => "write " ++ path ++ ": " ++ e.message

/-- A failure as it is shown (`printError`). A fault of a source is shown with its place. -/
def report : Failure → Text
  | source file src e => file ++ ": " ++ e.render src ++ "\n"
  | e => "error: " ++ e.message ++ "\n"

end Failure

/-- What a run finds. -/
structure Environment where
  directory : Directory
  stdin : Text
  /-- The file that keeps the history of sessions. -/
  historyPath : Text

/-- What a run leaves. -/
structure Outcome where
  stdout : Text
  /-- The log, without the report of a failure. -/
  log : Text
  directory : Directory
  failure? : Option Failure

namespace Outcome

/-- All that is written to standard error. -/
def stderr (o : Outcome) : Text :=
  o.log ++ (o.failure?.map Failure.report).getD []

/-- The exit code. -/
def exitCode (o : Outcome) : Nat :=
  if o.failure?.isSome then 1 else 0

/-- The outcome with lines of the log in front. -/
def withLog (log : Text) (o : Outcome) : Outcome :=
  { o with log := log ++ o.log }

end Outcome

namespace Environment

/-- The name of the file that keeps the history, in the home folder. -/
def historyName : Text := ".stride_history"

/-- A run that fails. -/
def fail (env : Environment) (e : Failure) : Outcome :=
  ⟨[], [], env.directory, some e⟩

/-- A run that writes a text. -/
def print (env : Environment) (t : Text) : Outcome :=
  ⟨t, [], env.directory, none⟩

/-- The file name that means standard input. -/
def stdinName : Text := "-"

/-- The files that can be read, with the one that stands for standard input. -/
def readable (env : Environment) : Directory :=
  env.directory.insert .input env.stdin

/-- The text of a source file. -/
def readSource (env : Environment) (file : Text) : Except Failure Text :=
  if file = stdinName then .ok env.stdin
  else
    match env.readable.read file with
    | .ok src => .ok src
    | .error e => .error (.unreadable file e)

/-- The program in a source file (`parseFile`). -/
def parseSource (env : Environment) (tab : TabWidth) (file : Text) : Except Failure Program := do
  let src ← env.readSource file
  match parse tab src with
  | .ok program => return program
  | .error e => .error (.source file src e)

end Environment

/-- A run that has its flags and settings. -/
structure Job where
  env : Environment
  choices : Choices
  settings : Settings

namespace Job

/-- A line of the log that is written on demand. -/
def debug (job : Job) (message : Text) (values : List (Text × Log.Value)) : Text :=
  if job.choices.verbose then Log.debug message values else []

/-- Goes on with a result, unless it failed. -/
def andThen {α : Type} (job : Job) (result : Except Failure α) (f : α → Outcome) : Outcome :=
  match result with
  | .ok a => f a
  | .error e => job.env.fail e

/-- A token with its position in a column of its own. -/
def tokenLine (t : Token) : Text :=
  Text.padRight 8 t.pos.render ++ " " ++ t.describe ++ "\n"

/-- Writes the tokens of a file (`runTokens`). -/
def tokens (job : Job) (file : Text) : Outcome :=
  job.andThen (job.env.readSource file) fun src =>
    match tokenize job.settings.tab src with
    | .error e => job.env.fail (.source file src (.lexical e))
    | .ok ts =>
      let log := job.debug "tokenized" [("file", .text file), ("tokens", .number ts.length)]
      (job.env.print (ts.flatMap tokenLine)).withLog log

/-- Parses a file and goes on with its program. -/
def withProgram (job : Job) (file : Text) (f : Program → Outcome) : Outcome :=
  job.andThen (job.env.parseSource job.settings.tab file) fun program =>
    let log := job.debug "parsed" [("file", .text file), ("statements", .number program.length)]
    (f program).withLog log

/-- Writes the tree of a file (`runParse`). -/
def parse (job : Job) (file : Text) : Outcome :=
  let wanted := job.choices.format
  let format := if wanted.isEmpty then job.settings.format else wanted
  job.withProgram file fun program =>
    if format = Settings.sexprFormat then
      job.env.print (if program.isEmpty then [] else program.sexpr ++ "\n")
    else if format = Settings.dumpFormat then job.env.print program.dump
    else job.env.fail (.format format)

/-- The last part of a path. -/
def baseName (path : Text) : Text :=
  let path' := path.dropEnd (· == Place.slash)
  if path.isEmpty then "."
  else if path'.isEmpty then "/"
  else (List.splitOn Place.slash path').getLastD []

/-- Writes the IR of a file, to a file if one is named (`runIR`). That may be one that stands for a
stream. -/
def ir (job : Job) (file : Text) : Outcome :=
  job.withProgram file fun program =>
    match Ir.lower ⟨job.settings.targetTriple, baseName file⟩ program with
    | .error e => job.env.fail (.lowering file e)
    | .ok module =>
      let log := job.debug "generated"
        [("file", .text file), ("funcs", .number module.funcs.length)]
      let target := job.choices.output
      let written :=
        if target.isEmpty then job.env.print module.render
        else
          match job.env.directory.write target module.render with
          | .error e => job.env.fail (.unwritable target e)
          | .ok directory =>
            let part (stream : Place) : Text :=
              if Place.ofPath target = stream then module.render else []
            let log := Log.info "wrote IR" [("file", .text target)]
            ⟨part .output, part .errors ++ log, directory, none⟩
      written.withLog log

/-- Holds a session over standard input and keeps its history, if it can be kept (`runRepl`). -/
def repl (job : Job) : Outcome :=
  let d := job.env.directory
  let path := job.env.historyPath
  let history := (d.read path).toOption.elim History.empty History.ofFile
  let options : Session.Options := ⟨job.settings.tab, job.settings.targetTriple⟩
  let lines := (Piece.ofText job.env.stdin).map Piece.bytes
  let (last, out) := (Session.start history).run options lines
  ⟨out, [], (d.write path last.history.render).toOption.getD d, none⟩

/-- The version of the program. -/
def versionLine : Text := "stride 0.1.0-dev\n"

/-- Writes the help text of the command that the operands name. -/
def help (job : Job) (topic : List Text) : Outcome :=
  match Command.select topic with
  | .ok (command, _) => job.env.print command.helpText
  | .error _ => job.env.print Command.root.helpText

/-- Runs a command on operands that fit it. -/
def run (job : Job) (command : Command) (operands : List Text) : Outcome :=
  let file := operands.headD []
  match command with
  | .root => job.env.print command.helpText
  | .help => job.help operands
  | .version => job.env.print versionLine
  | .repl => job.repl
  | .tokens => job.tokens file
  | .parse => job.parse file
  | .ir => job.ir file

end Job

/-- Checks how many operands a command is given. -/
def Command.checkOperands (command : Command) (operands : List Text) : Except Failure Unit :=
  match command, operands with
  | .root, _ | .help, _ => .ok ()
  | .version, [] | .repl, [] => .ok ()
  | .version, word :: _ | .repl, word :: _ => .error (.unexpectedOperand word command)
  | _, [_] => .ok ()
  | _, operands => .error (.operandCount 1 operands.length)

/-- Runs the program (`Execute`). Help is given before operands and settings are looked at. -/
def run (env : Environment) (args : List Text) : Outcome :=
  match Command.select args with
  | .error word => env.fail (.unknownCommand word)
  | .ok (command, args) =>
    match Choices.none.read command.flags args with
    | .error e => env.fail (.flag e)
    | .ok (choices, operands) =>
      if choices.help ∨ command = .root then env.print command.helpText
      else
        match command.checkOperands operands, Settings.load env.readable choices.config with
        | .error e, _ => env.fail e
        | _, .error e => env.fail (.settings e)
        | .ok (), .ok settings =>
          let job : Job := ⟨env, choices, settings⟩
          let log := job.debug "config loaded"
            [("file", .text choices.config), ("tab_width", .number settings.tabWidth.toInt)]
          (job.run command operands).withLog log

/-! ## What a run looks at -/

/-- The choices and operands of arguments, as far as they can be read. -/
def request? (args : List Text) : Option (Command × Choices × List Text) := do
  let (command, args) ← (Command.select args).toOption
  let (choices, operands) ← (Choices.none.read command.flags args).toOption
  return (command, choices, operands)

/-- The paths that a run reads or writes, beside its history. -/
def paths (args : List Text) : List Text :=
  match request? args with
  | some (_, choices, operands) => choices.config :: choices.output :: operands
  | none => []

/-- Whether a run reads standard input. -/
def readsStdin (args : List Text) : Bool :=
  let isStdin (path : Text) : Bool := path == Environment.stdinName || Place.ofPath path == .input
  match request? args with
  | some (command, _, _) => command = .repl || (paths args).any isStdin
  | none => false

end Offside.Cli
