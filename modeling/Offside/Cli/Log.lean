import Offside.Text.Printable
import Offside.Text.Quoted
import Offside.Text.Space

/-!
# Log lines

Model of the log (specification, 9.1).

A log line has a level, a message and named values. A text stands in quotes where it would be
misread without them: if it is empty, or if it holds a blank, an equals sign, a quote mark, a
control character, a byte that belongs to no character, or a character that cannot be shown.

* `Log.Value` is a value, a text or a number, and `Log.renderText` a text with quotes if it needs
  them.
* `Log.line` is a line with its level, its message and its values in order.
* `Log.debug` is a line that is written only on demand and `Log.info` one that always is; which of
  them is written is decided by the run (`Cli/Run`).

Out of scope: the time in front of a line, which no two runs share.
-/

namespace Offside.Cli

namespace Log

/-- A value of a log line. -/
inductive Value where
  | text (t : Text)
  | number (n : Int)

/-- Whether a rune cannot stand in a log line without quotes. -/
def needsQuotes : Rune → Bool
  | .stray _ => true
  | .char c =>
    let n := c.toNat
    if n < 0x80 then n ≤ 0x20 || c == '=' || c == '"'
    else c == '\uFFFD' || (Rune.char c).isSpace || !Text.isPrintableCode n

/-- A text as it stands in a log line. -/
def renderText (t : Text) : Text :=
  if t.isEmpty || (Rune.decode t).any needsQuotes then t.quote else t

/-- A value as it stands in a log line. -/
def Value.render : Value → Text
  | text t => renderText t
  | number n => Text.ofInt n

/-- A named value. -/
def field (name : Text) (value : Value) : Text :=
  name ++ "=" ++ value.render

/-- A log line. -/
def line (level message : Text) (values : List (Text × Value)) : Text :=
  let heading := [field "level" (.text level), field "msg" (.text message)]
  Text.join " " (heading ++ values.map fun (name, value) => field name value) ++ "\n"

/-- A line for those who want to know more. -/
def debug (message : Text) (values : List (Text × Value)) : Text :=
  line "DEBUG" message values

/-- A line for everyone. -/
def info (message : Text) (values : List (Text × Value)) : Text :=
  line "INFO" message values

end Log

end Offside.Cli
