import Offside.Decimal
import Offside.Numeral
import Offside.Text.Base64
import Offside.Yaml.Timestamp
import Offside.Yaml.Token

/-!
# What YAML scalars stand for

A plain scalar is told by its look: nothing, a number, a truth value, a text, or the mark `<<` in
front of entries that are merged into a mapping. Other scalars are texts. A tag can demand a kind,
which the scalar then has to look like.

* `Meaning` has what a scalar can stand for. `Meaning.unfit` is a scalar that is not what its tag
  demands; it is a fault where a setting takes it.
* `numeral` tells numbers: integers in four bases, and floats. `look` is the look of a plain scalar.
* `demanded` is a scalar with a tag of the notation itself, and `meaning` any scalar.
* `floatToWord?` cuts a float to a signed word, for a setting that is a number.
-/

namespace Offside.Yaml

/-- The meanings of scalars. -/
inductive Meaning where
  | null
  /-- The mark of merged entries. -/
  | merge
  | integer (value : Int)
  | float (value : Float)
  | truth
  | text
  /-- Bytes that are written in base 64. -/
  | binary (bytes : Text)
  /-- The tag demands a kind that the scalar is not of. -/
  | unfit

/-! ## Numbers -/

/-- The value of an integer numeral without its sign; a leading zero tells an octal one. -/
def unsigned? : List Char → Option Nat
  | '0' :: 'x' :: ds | '0' :: 'X' :: ds => Numeral.inBase? 16 ds
  | '0' :: 'o' :: ds | '0' :: 'O' :: ds => Numeral.inBase? 8 ds
  | '0' :: 'b' :: ds | '0' :: 'B' :: ds => Numeral.inBase? 2 ds
  | '0' :: d :: ds => Numeral.inBase? 8 (d :: ds)
  | ds => Numeral.inBase? 10 ds

/-- The value of an integer numeral: a signed word, or an unsigned one without a sign. -/
def integer? (cs : List Char) : Option Int := do
  let (negative, ds) := Decimal.takeSign cs
  let n ← unsigned? ds
  let value : Int := if negative then -(n : Int) else n
  let bound : Int := if ds.length = cs.length then Word.count else Word.greatest + 1
  if Word.least ≤ value && value < bound then some value else none

/-- The value of a numeral with its sign behind the mark of its base. -/
def innerSigned? (cs : List Char) : Option Int := do
  let (base, ds) ←
    match cs with
    | '0' :: 'b' :: ds => some (2, ds)
    | '0' :: 'o' :: ds => some (8, ds)
    | _ => none
  let (negative, ds) := Decimal.takeSign ds
  let n ← Numeral.inBase? base ds
  let value : Int := if negative then -(n : Int) else n
  if Word.least ≤ value && value ≤ Word.greatest then some value else none

/-- The value of a float numeral. -/
def float? (cs : List Char) : Option Float := do
  let d ← Decimal.read? cs
  if d.tooLarge then none else some d.toFloat

/-- Whether every underscore stands between two digits. -/
def underscoresOk (digitBefore : Bool) : List Char → Bool
  | [] => true
  | '_' :: rest => digitBefore && rest.head?.any Decimal.isDigit && underscoresOk false rest
  | c :: rest => underscoresOk (Decimal.isDigit c) rest

/-- What a numeral stands for. Underscores do not count. -/
def numeral (cs : List Char) : Meaning :=
  let plain := cs.filter (· != '_')
  match integer? plain with
  | some n => .integer n
  | none =>
    match float? plain with
    | some x => .float x
    | none => (innerSigned? plain).elim .text .integer

/-- What a numeral that begins with a point stands for. -/
def fraction (cs : List Char) : Meaning :=
  if underscoresOk false cs then (float? (cs.filter (· != '_'))).elim .text .float else .text

/-! ## Scalars -/

/-- What a plain scalar stands for by its look, unless it marks merged entries. -/
def look (scalar : List Char) : Meaning :=
  let word := Text.ofChars scalar
  let oneOf (words : List Text) : Bool := words.contains word
  if oneOf ["", "~", "null", "Null", "NULL"] then .null
  else if oneOf ["true", "True", "TRUE", "false", "False", "FALSE"] then .truth
  else if oneOf [".inf", ".Inf", ".INF", "+.inf", "+.Inf", "+.INF"] then .float (1 / 0)
  else if oneOf ["-.inf", "-.Inf", "-.INF"] then .float (-1 / 0)
  else if oneOf [".nan", ".NaN", ".NAN"] then .float (0 / 0)
  else
    match scalar with
    | '.' :: _ => fraction scalar
    | c :: _ => if Decimal.isDigit c || c == '+' || c == '-' then numeral scalar else .text
    | [] => .null

/-- The kind that a tag of the notation itself demands. -/
def standardKind? (tag : Text) : Option Text :=
  (["tag:yaml.org,2002:", "!!"] : List Text).findSome? fun front =>
    if front.isPrefixOf tag then some (tag.drop front.length) else none

/-- What a scalar with a standard tag stands for, given its look. -/
def demanded (kind scalar : Text) (found : Meaning) : Meaning :=
  if kind = "int" then match found with | .integer n => .integer n | _ => .unfit
  else if kind = "float" then
    match found with
    | .float x => .float x
    | .integer n =>
      if Word.least ≤ n && n ≤ Word.greatest then .float (Float.ofInt n) else .unfit
    | _ => .unfit
  else if kind = "bool" then match found with | .truth => .truth | _ => .unfit
  else if kind = "null" then match found with | .null => .null | _ => .unfit
  else if kind = "merge" then match found with | .merge => .merge | _ => .text
  else if kind = "timestamp" then if isTimestamp (scalar.chars?.getD []) then .text else .unfit
  else if kind = "binary" then (Text.Base64.decode? scalar).elim .unfit .binary
  else .text

/-- What a scalar stands for. An empty tag, and the tag `!`, demand nothing. -/
def meaning (tag scalar : Text) (plain : Bool) : Meaning :=
  let found : Meaning := if scalar = "<<" then .merge else look (scalar.chars?.getD [])
  if tag = "" || tag = "!" then if plain then found else .text
  else (standardKind? tag).elim .text (demanded · scalar found)

/-- The signed word that a float is cut to. A float beyond all words becomes the least one; one that
is no number, or too large, has none. -/
def floatToWord? (x : Float) : Option Int :=
  let limit := Float.ofScientific Word.least.natAbs false 0
  if !(x ≤ limit) then none
  else if x == limit || x < -limit then some Word.least
  else some x.toInt64.toInt

end Offside.Yaml
