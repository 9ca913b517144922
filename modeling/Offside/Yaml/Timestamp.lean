import Offside.Calendar
import Offside.Decimal

/-!
# YAML timestamps

A timestamp is a date, or a date and a time of day. All numbers in them but the year have one digit
or two. A time behind a `T` goes with its distance from universal time, a time behind blanks has
none.

`isTimestamp` is the whole. A scalar with the tag for timestamps has to be one and stays a text
(`Yaml/Meaning`).
-/

namespace Offside.Yaml

namespace Timestamp

/-- Reads a number of one or two digits between two bounds. -/
def number (least most : Nat) (cs : List Char) : Option (Nat × List Char) :=
  let ds := (cs.take 2).takeWhile Decimal.isDigit
  let n := Decimal.value ds
  if ds.isEmpty || n < least || most < n then none else some (n, cs.drop ds.length)

/-- Passes a character. -/
def expect (c : Char) : List Char → Option (List Char)
  | d :: rest => if c == d then some rest else none
  | [] => none

/-- Reads a date. -/
def date (cs : List Char) : Option (List Char) := do
  let year := cs.takeWhile Decimal.isDigit
  if year.length ≠ 4 then none
  else
    let rest ← expect '-' (cs.drop 4)
    let (month, rest) ← number 1 12 rest
    let rest ← expect '-' rest
    let (_, rest) ← number 1 (Calendar.daysIn (Decimal.value year) month) rest
    some rest

/-- Passes a fraction of a second, if there is one. -/
def skipFraction : List Char → List Char
  | mark :: d :: rest =>
    if (mark == '.' || mark == ',') && Decimal.isDigit d then rest.dropWhile Decimal.isDigit
    else mark :: d :: rest
  | cs => cs

/-- Reads a time of day. -/
def timeOfDay (cs : List Char) : Option (List Char) := do
  let (_, rest) ← number 0 23 cs
  let rest ← expect ':' rest
  let (_, rest) ← number 0 59 rest
  let rest ← expect ':' rest
  let (_, rest) ← number 0 59 rest
  some (skipFraction rest)

/-- Whether a text is a distance from universal time. -/
def isZone : List Char → Bool
  | ['Z'] => true
  | [sign, a, b, ':', c, d] =>
    (sign == '+' || sign == '-') && [a, b, c, d].all Decimal.isDigit &&
      Decimal.value [a, b] ≤ 24 && Decimal.value [c, d] ≤ 60
  | _ => false

end Timestamp

/-- Whether a text is a timestamp. -/
def isTimestamp (cs : List Char) : Bool :=
  match Timestamp.date cs with
  | some [] => true
  | some (c :: rest) =>
    if c == ' ' then Timestamp.timeOfDay (rest.dropWhile (· == ' ')) == some []
    else (c == 'T' || c == 't') && (Timestamp.timeOfDay rest).any Timestamp.isZone
  | none => false

end Offside.Yaml
