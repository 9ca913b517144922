import Offside.Calendar
import Offside.Decimal
import Offside.Numeral
import Offside.Toml.Basic

/-!
# TOML scalars

Strings come in four forms: basic strings with escapes, literal strings without, and both over
several lines in triple quotes. Numbers may have a sign and underscores between digits; integers
also have hexadecimal, octal and binary forms. Everything here reads from the front of a character
list and returns what is left.

* `basicString` and `literalString` read the two forms within a line. `longString` reads both forms
  in triple quotes; `LongMode` is what it remembers of the characters before, since up to two quote
  marks may stand inside and up to five at the end.
* `integer?` is the value of a numeral, and `isFloat` and `isMoment` tell floats, dates and times of
  day, of which only the look matters.
-/

namespace Offside.Toml

/-- Something read, and the characters behind it. -/
abbrev Read (α : Type) := Option (α × List Char)

/-! ## Strings -/

/-- The character that a letter stands for after a backslash. -/
def letterEscape? (c : Char) : Option Char :=
  if c == 'b' then some (Char.ofNat 0x08)
  else if c == 't' then some '\t'
  else if c == 'n' then some '\n'
  else if c == 'f' then some (Char.ofNat 0x0C)
  else if c == 'r' then some '\r'
  else if c == '"' || c == '\\' then some c
  else none

/-- Puts characters in front of those already read. -/
def before (front : List Char) (rest : Read (List Char)) : Read (List Char) :=
  rest.map fun (cs, more) => (front ++ cs, more)

/-- Reads a basic string behind its opening quote. -/
def basicString : List Char → Read (List Char)
  | '"' :: rest => some ([], rest)
  | '\\' :: 'u' :: a :: b :: c :: d :: rest =>
    match Numeral.char? [a, b, c, d] with
    | some e => before [e] (basicString rest)
    | none => none
  | '\\' :: 'U' :: a :: b :: c :: d :: e :: f :: g :: h :: rest =>
    match Numeral.char? [a, b, c, d, e, f, g, h] with
    | some e => before [e] (basicString rest)
    | none => none
  | '\\' :: c :: rest =>
    match letterEscape? c with
    | some e => before [e] (basicString rest)
    | none => none
  | c :: rest => if isLineEnd c || c == '\\' then none else before [c] (basicString rest)
  | [] => none

/-- Reads a literal string behind its opening quote. -/
def literalString : List Char → Read (List Char)
  | '\'' :: rest => some ([], rest)
  | c :: rest => if isLineEnd c then none else before [c] (literalString rest)
  | [] => none

/-- The characters behind a line end at the very start. -/
def skipLineEnd : List Char → List Char
  | '\r' :: '\n' :: rest => rest
  | '\n' :: rest => rest
  | cs => cs

/-- White space inside a string over several lines. -/
def isBlankOrLineEnd (c : Char) : Bool :=
  isBlank c || isLineEnd c

/-- A state in the reading of a string over several lines. -/
inductive LongMode where
  /-- Read the next character; `quotes` quotes stand directly before it, and `most` may. -/
  | text (quotes most : Nat)
  /-- Skip white space behind a backslash; the flag tells whether a line end was met. -/
  | folding (crossed : Bool)

/-- The most quotes that may stand together at the end of a string in triple quotes: two of its own
and the closing ones. -/
def mostQuotes : Nat := 5

/-- The state at the start of a string in triple quotes. -/
def LongMode.start : LongMode := .text 0 mostQuotes

/-- The state behind an escaped character. One more quote may follow a backslash. -/
def LongMode.behindEscape (c : Char) : LongMode :=
  .text 0 (if c == '\\' then mostQuotes + 1 else mostQuotes)

/-- Reads a string in triple quotes behind its opening quotes. `escapes` tells a basic string from a
literal one. -/
def longString (quote : Char) (escapes : Bool) : LongMode → List Char → Read (List Char)
  | .folding crossed, c :: rest =>
    if isBlankOrLineEnd c then longString quote escapes (.folding (crossed || c == '\n')) rest
    else if !crossed then none
    else if c == quote then longString quote escapes (.text 1 mostQuotes) rest
    else if c == '\\' && escapes then escaped rest
    else before [c] (longString quote escapes .start rest)
  | .folding _, [] => none
  | .text quotes most, c :: rest =>
    if c == quote then
      if quotes = most then none else longString quote escapes (.text (quotes + 1) most) rest
    else if 3 ≤ quotes then some (List.replicate (quotes - 3) quote, c :: rest)
    else
      before (List.replicate quotes quote) <|
        if c == '\\' && escapes then escaped rest
        else before [c] (longString quote escapes .start rest)
  | .text quotes _, [] =>
    if 3 ≤ quotes then some (List.replicate (quotes - 3) quote, []) else none
where
  /-- Reads on behind a backslash. -/
  escaped : List Char → Read (List Char)
    | 'u' :: a :: b :: c :: d :: rest =>
      match Numeral.char? [a, b, c, d] with
      | some e => before [e] (longString quote escapes .start rest)
      | none => none
    | 'U' :: a :: b :: c :: d :: e :: f :: g :: h :: rest =>
      match Numeral.char? [a, b, c, d, e, f, g, h] with
      | some e => before [e] (longString quote escapes .start rest)
      | none => none
    | c :: rest =>
      if isBlankOrLineEnd c then longString quote escapes (.folding (c == '\n')) rest
      else
        match letterEscape? c with
        | some e => before [e] (longString quote escapes (.behindEscape c) rest)
        | none => none
    | [] => none

/-! ## Numbers -/

/-- A hexadecimal digit. -/
def isHexDigit (c : Char) : Bool :=
  (Numeral.digit? c).isSome

/-- Every underscore of a numeral stands between digits. -/
def underscoresOk (cs : List Char) : Bool :=
  let (ok, last) := cs.foldl
    (fun (ok, before) c => (ok && (c != '_' || before), isHexDigit c)) (true, false)
  ok && last

/-- A decimal numeral with a zero in front of other digits. -/
def hasLeadingZero : List Char → Bool
  | '0' :: c :: _ => c != 'b' && c != 'o' && c != 'x'
  | '-' :: '0' :: _ :: _ | '+' :: '0' :: _ :: _ => true
  | _ => false

/-- The value of an integer numeral without underscores and sign. -/
def unsigned? : List Char → Option Nat
  | '0' :: 'x' :: ds => Numeral.inBase? 16 ds
  | '0' :: 'o' :: ds => Numeral.inBase? 8 ds
  | '0' :: 'b' :: ds => Numeral.inBase? 2 ds
  | ds => Numeral.inBase? 10 ds

/-- The value of an integer numeral, if it fits a signed word. -/
def integer? (cs : List Char) : Option Int := do
  if !underscoresOk cs || hasLeadingZero cs then none
  else
    let (negative, ds) := Decimal.takeSign (cs.filter (· != '_'))
    let n ← unsigned? ds
    let value : Int := if negative then -(n : Int) else n
    if Word.least ≤ value && value ≤ Word.greatest then some value else none

/-- The pieces of a float between point and exponent mark. -/
def floatParts (cs : List Char) : List (List Char) :=
  let isMark (c : Char) : Bool := c == '.' || c == 'e' || c == 'E'
  let step (c : Char) (parts : List (List Char)) : List (List Char) :=
    match parts with
    | p :: ps => if isMark c then [] :: p :: ps else (c :: p) :: ps
    | [] => [[c]]
  (cs.foldr step [[]]).filter fun p => !p.isEmpty

/-- Every point is followed by a digit. -/
def pointsOk : List Char → Bool
  | [] => true
  | '.' :: rest => (match rest with | c :: _ => Decimal.isDigit c | [] => false) && pointsOk rest
  | _ :: rest => pointsOk rest

/-- Whether a numeral is a float of 64 bits. -/
def isFloat (cs : List Char) : Bool :=
  let parts := floatParts cs
  parts.all underscoresOk && !(parts.head?.any hasLeadingZero) && pointsOk cs &&
    match Decimal.read? (cs.filter (· != '_')) with
    | some d => !d.tooLarge
    | none => false

/-! ## Dates and times -/

/-- Two digits with a value of at most `most`. -/
def twoDigits (most : Nat) : List Char → Option (Nat × List Char)
  | a :: b :: rest =>
    if Decimal.isDigit a && Decimal.isDigit b && Decimal.value [a, b] ≤ most then
      some (Decimal.value [a, b], rest)
    else none
  | _ => none

/-- Reads a date. -/
def date : List Char → Option (List Char)
  | a :: b :: c :: d :: '-' :: rest => do
    if !([a, b, c, d].all Decimal.isDigit) then none
    else
      let (month, rest) ← twoDigits 12 rest
      match rest with
      | '-' :: rest =>
        let (day, rest) ← twoDigits (Calendar.daysIn (Decimal.value [a, b, c, d]) month) rest
        if month = 0 || day = 0 then none else some rest
      | _ => none
  | _ => none

/-- Reads a time of day. -/
def timeOfDay (cs : List Char) : Option (List Char) := do
  let (_, rest) ← twoDigits 23 cs
  match rest with
  | ':' :: rest =>
    let (_, rest) ← twoDigits 59 rest
    match rest with
    | ':' :: rest =>
      let (_, rest) ← twoDigits 59 rest
      match rest with
      | '.' :: rest =>
        if (rest.takeWhile Decimal.isDigit).isEmpty then none
        else some (rest.dropWhile Decimal.isDigit)
      | rest => some rest
    | _ => none
  | _ => none

/-- The end of a point in time: nothing, or its distance from universal time. -/
def isZone : List Char → Bool
  | [] => true
  | ['Z'] | ['z'] => true
  | sign :: rest =>
    (sign == '+' || sign == '-') &&
      match twoDigits 24 rest with
      | some (_, ':' :: rest) => (twoDigits 60 rest).any fun (_, rest) => rest.isEmpty
      | _ => false

/-- Whether a text is a date, a time of day or both. -/
def isMoment (cs : List Char) : Bool :=
  match date cs with
  | some [] => true
  | some (c :: rest) =>
    (c == 'T' || c == 't' || c == ' ') &&
      match timeOfDay rest with
      | some zone => isZone zone
      | none => false
  | none => timeOfDay cs == some []

end Offside.Toml
