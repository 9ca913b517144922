import Offside.Diagnostic
import Offside.Ir.Lower
import Offside.Ir.Printer
import Offside.Program.SExpr
import Offside.Session.Buffer
import Offside.Session.History

/-!
# Interactive sessions

Model of the command `repl` (specification, 9.4): `runRepl` and `evalInput`, and the prompts of
`readByParseProbe`.

A session asks for a line, collects lines until they make up an input, and answers each input with
its tree, and with its IR if that is wanted. Two inputs are commands: one leaves the session and one
switches the IR on or off. At the end of the lines what was collected so far is given up.

* A `Session` is what `runRepl` holds between two lines: the lines collected so far, whether the IR
  is shown, and the history. `Session.start` is the state before the first line.
* `Session.prompt` is the prompt, which differs while an input is being collected.
* `request` is the switch of `runRepl` over the input without white space around it, and `take`
  carries it out: nothing, leaving, the switch of the IR, or an answer. Only the last enters the
  history, with blanks for line ends.
* `evaluate` is `evalInput`: a faulty input is shown with its place, an input without statements
  shows no tree, and the IR follows the tree.
* `step` takes one line, and `run` goes through all of them. The answer has the last state and what
  was written, prompts included.

A session is a state that each line carries on; what it writes is a text beside the state.

A colon is a token of the language, so `Buffer.add` may take a line with a command for the beginning
of a longer input. When the two commands are obeyed is worked out in `Proofs/Session/Command`.

Out of scope: editing of lines at a terminal, and an interrupt in the middle of a line; the lines of
a session are given as a list.
-/

namespace Offside

/-- What a session is told beforehand. -/
structure Session.Options where
  tab : TabWidth
  triple : Text

/-- A session between two lines. -/
structure Session where
  buffer : Buffer
  showIr : Bool
  history : History

namespace Session

/-- A session before its first line. -/
def start (history : History) : Session :=
  ⟨.empty, false, history⟩

/-- The prompt for the first line of an input. -/
def mainPrompt : Text := "stride> "

/-- The prompt for a further line. -/
def furtherPrompt : Text := "   ...> "

/-- The prompt for the next line. -/
def prompt (s : Session) : Text :=
  if s.buffer.isEmpty then mainPrompt else furtherPrompt

/-- The answer to an input (`evalInput`). -/
def evaluate (o : Options) (showIr : Bool) (code : Text) : Text :=
  match parse o.tab code with
  | .error e => e.render code ++ "\n"
  | .ok program =>
    let tree : Text := if program.isEmpty then [] else program.sexpr ++ "\n"
    if showIr then
      match Ir.lower ⟨o.triple, []⟩ program with
      | .error e => tree ++ (e.message ++ "\n")
      | .ok module => tree ++ module.render
    else tree

/-- What an input asks for. -/
inductive Request where
  | nothing
  | leave
  | toggleIr
  | evaluate
  deriving DecidableEq, Repr

/-- What an input asks for, by its text without the white space around it. -/
def request (code : Text) : Request :=
  let word := code.trim
  if word = [] then .nothing
  else if word = ":quit" then .leave
  else if word = ":ir" then .toggleIr
  else .evaluate

/-- How a session goes on after a line. -/
inductive Next where
  | continue (s : Session) (out : Text)
  | leave (s : Session) (out : Text)

/-- The word for a switch. -/
def onOff (on : Bool) : Text :=
  if on then "on" else "off"

/-- Takes an input. -/
def take (o : Options) (s : Session) (code : Text) : Next :=
  match request code with
  | .nothing => .continue s []
  | .leave => .leave s []
  | .toggleIr =>
    let showIr := !s.showIr
    .continue { s with showIr } ("IR output " ++ onOff showIr ++ "\n")
  | .evaluate =>
    let entry := Text.replaceByte Text.newline Text.blank code
    .continue { s with history := s.history.add entry } (evaluate o s.showIr code)

/-- Takes a line. -/
def step (o : Options) (s : Session) (line : Text) : Next :=
  let (done, buffer) := s.buffer.add o.tab line
  if done then take o { s with buffer := .empty } buffer.text
  else .continue { s with buffer } []

/-- Goes through all lines. The answer has the last state and what was written. -/
def run (o : Options) (s : Session) : List Text → Session × Text
  | [] => (s, s.prompt ++ "\n")
  | line :: rest =>
    match step o s line with
    | .leave s' out => (s', s.prompt ++ out)
    | .continue s' out =>
      let (last, more) := run o s' rest
      (last, s.prompt ++ out ++ more)

end Session

end Offside
