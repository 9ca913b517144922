import Offside.Text.Rune

/-!
# TOML statements

The data of a TOML file, as far as the settings need it (specification, 9.3).

A TOML file is a sequence of statements. A statement opens a table, opens a further table of an
array of tables, or gives a value to a key. What a value is beyond strings, integers, arrays and
tables is of no interest here, so `Value` has one constructor for all others.

`Key.render` writes a key as the report of an unknown one shows it (`Settings/Load`): with points
between its parts, and with quotes around a part that needs them.
-/

namespace Offside.Toml

/-- The parts of a key, the outermost first. -/
abbrev Key := List Text

/-- A value as it is written. -/
inductive Value where
  | string (text : Text)
  | integer (value : Int)
  /-- A float, a truth value or a point in time. -/
  | other
  | array (items : List Value)
  | table (entries : List (Key × Value))
  deriving Repr, Inhabited

/-- A statement of a file. -/
inductive Statement where
  | header (key : Key)
  | arrayHeader (key : Key)
  | pair (key : Key) (value : Value)
  deriving Repr

/-- A character of a key that needs no quotes. -/
def isBareChar (c : Char) : Bool :=
  ('A' ≤ c && c ≤ 'Z') || ('a' ≤ c && c ≤ 'z') || ('0' ≤ c && c ≤ '9') || c == '_' || c == '-'

/-- A blank or a tab. -/
def isBlank (c : Char) : Bool :=
  c == ' ' || c == '\t'

/-- A character that ends a line. -/
def isLineEnd (c : Char) : Bool :=
  c == '\n' || c == '\r'

/-- A character inside a quoted part of a key. -/
def escapeKeyChar (c : Char) : Text :=
  if c == '"' then "\\\""
  else if c == '\\' then "\\\\"
  else if c == Char.ofNat 0x08 then "\\b"
  else if c == '\t' then "\\t"
  else if c == '\n' then "\\n"
  else if c == Char.ofNat 0x0C then "\\f"
  else if c == '\r' then "\\r"
  else if c.toNat < 0x20 || c.toNat == 0x7F then
    "\\u" ++ Text.padLeft 4 0x30 (Text.hexOfNat c.toNat)
  else Text.ofChars [c]

/-- A part of a key, in quotes if it needs them. -/
def renderPart (part : Text) : Text :=
  match part.chars? with
  | none => part
  | some cs =>
    if !cs.isEmpty && cs.all isBareChar then part
    else "\"" ++ cs.flatMap escapeKeyChar ++ "\""

/-- A key with points between its parts. -/
def Key.render (key : Key) : Text :=
  Text.join "." (key.map renderPart)

end Offside.Toml
