import Offside.Text.Letter
import Offside.Toml.Scalar

/-!
# Reading TOML statements

A text is a TOML file if it is UTF-8 without control characters other than tabs and line ends, and a
sequence of statements, each on a line of its own. Arrays may run over several lines and may end in
a comma, inline tables may do neither.

* `key` reads a key with its points, `scalarValue` a value that is no collection, and `value` any
  value, together with `items` and `entries` for the two collections.
* `statement` reads a statement and `statements` all of them, which have to be the whole text.
* `readStatements` is the whole: a byte order mark in front is passed over, and control characters
  and carriage returns without a line feed are refused beforehand.

The readers of values take a bound on the nesting, for which the length of the text is always
enough.

Out of scope: the words in which a faulty file is described. A reader that fails answers nothing.
-/

namespace Offside.Toml

/-- Skips blanks. -/
def skipBlanks (cs : List Char) : List Char :=
  cs.dropWhile isBlank

/-- Skips a comment up to the end of the line. -/
def skipComment (cs : List Char) : List Char :=
  cs.dropWhile fun c => !isLineEnd c

/-- Skips blanks, line ends and comments. -/
def skipFiller (inComment : Bool) : List Char → List Char
  | [] => []
  | c :: rest =>
    if isLineEnd c then skipFiller false rest
    else if inComment then skipFiller true rest
    else if isBlank c then skipFiller false rest
    else if c == '#' then skipFiller true rest
    else c :: rest

/-! ## Keys -/

/-- Reads one part of a key. -/
def keyPart (cs : List Char) : Read Text :=
  match skipBlanks cs with
  | '"' :: rest => (basicString rest).map fun (part, rest) => (Text.ofChars part, rest)
  | '\'' :: rest => (literalString rest).map fun (part, rest) => (Text.ofChars part, rest)
  | cs =>
    let part := cs.takeWhile isBareChar
    if part.isEmpty then none else some (Text.ofChars part, cs.dropWhile isBareChar)

/-- Reads a key of at most `bound` parts, and the blanks behind it. -/
def key : (bound : Nat) → List Char → Option (Key × List Char)
  | 0, _ => none
  | bound + 1, cs => do
    let (part, rest) ← keyPart cs
    match skipBlanks rest with
    | '.' :: rest =>
      let (parts, rest) ← key bound rest
      some (part :: parts, rest)
    | rest => some ([part], rest)

/-! ## Values -/

/-- Reads a bare word: a truth value, or a float that is no number or infinite. -/
def wordValue (cs : List Char) : Read Value :=
  let isLetter (c : Char) : Bool := Text.isLetterCode c.toNat
  let word := Text.ofChars (cs.takeWhile isLetter)
  if (["true", "false", "inf", "nan"] : List Text).contains word then
    some (.other, cs.dropWhile isLetter)
  else none

/-- Reads an integer or a float without a base. -/
def decimalValue (cs : List Char) : Read Value :=
  let isPlain (c : Char) : Bool := Decimal.isDigit c || c == '_'
  let (_, unsigned) := Decimal.takeSign cs
  let rest := unsigned.dropWhile isPlain
  match rest with
  | c :: _ =>
    if c == '.' || c == 'e' || c == 'E' then
      let isFloatChar (c : Char) : Bool :=
        isPlain c || c == '.' || c == '-' || c == '+' || c == 'e' || c == 'E'
      let tail := rest.dropWhile isFloatChar
      if isFloat (cs.take (cs.length - tail.length)) then some (.other, tail) else none
    else (integer? (cs.take (cs.length - rest.length))).map fun n => (.integer n, rest)
  | [] => (integer? cs).map fun n => (.integer n, [])

/-- Reads an integer behind the mark of its base. The first character has to be a digit. -/
def basedValue (cs rest : List Char) : Read Value :=
  if rest.head?.any isHexDigit then
    let tail := rest.dropWhile fun c => isHexDigit c || c == '_'
    (integer? (cs.take (cs.length - tail.length))).map fun n => (.integer n, tail)
  else none

/-- Reads a value that begins with a digit. -/
def digitValue (cs : List Char) : Read Value :=
  match cs with
  | '0' :: 'x' :: rest | '0' :: 'o' :: rest | '0' :: 'b' :: rest => basedValue cs rest
  | cs =>
    match cs.dropWhile Decimal.isDigit with
    | c :: _ =>
      if c == '-' || c == ':' then
        let isMomentChar (c : Char) : Bool :=
          Decimal.isDigit c || c ∈ ['-', ':', 'T', 't', ' ', '.', 'Z', 'z', '+']
        let moment := cs.takeWhile isMomentChar
        let trimmed := (moment.reverse.dropWhile isBlank).reverse
        if isMoment trimmed then some (.other, cs.dropWhile isMomentChar) else none
      else decimalValue cs
    | [] => decimalValue cs

/-- Reads a value behind a sign. -/
def signedValue (cs : List Char) : Read Value :=
  match (Decimal.takeSign cs).2 with
  | 'i' :: 'n' :: 'f' :: rest | 'n' :: 'a' :: 'n' :: rest => some (.other, rest)
  | '0' :: 'x' :: _ | '0' :: 'o' :: _ | '0' :: 'b' :: _ => none
  | c :: _ => if Decimal.isDigit c then decimalValue cs else none
  | [] => none

/-- Reads a scalar value. -/
def scalarValue : List Char → Read Value
  | '"' :: '"' :: '"' :: rest =>
    (longString '"' true LongMode.start (skipLineEnd rest)).map fun (s, rest) =>
      (.string (Text.ofChars s), rest)
  | '"' :: rest => (basicString rest).map fun (s, rest) => (.string (Text.ofChars s), rest)
  | '\'' :: '\'' :: '\'' :: rest =>
    (longString '\'' false LongMode.start (skipLineEnd rest)).map fun (s, rest) =>
      (.string (Text.ofChars s), rest)
  | '\'' :: rest => (literalString rest).map fun (s, rest) => (.string (Text.ofChars s), rest)
  | '+' :: rest => signedValue ('+' :: rest)
  | '-' :: rest => signedValue ('-' :: rest)
  | c :: rest =>
    if Decimal.isDigit c then digitValue (c :: rest) else wordValue (c :: rest)
  | [] => none

mutual

/-- Reads a value of bounded nesting. -/
def value : (bound : Nat) → List Char → Read Value
  | 0, _ => none
  | bound + 1, cs =>
    match skipBlanks cs with
    | '[' :: rest => (items bound rest).map fun (vs, rest) => (.array vs, rest)
    | '{' :: rest =>
      match skipBlanks rest with
      | '}' :: rest => some (.table [], rest)
      | rest => (entries bound rest).map fun (es, rest) => (.table es, rest)
    | cs => scalarValue cs

/-- Reads the items of an array and its closing bracket. -/
def items : (bound : Nat) → List Char → Read (List Value)
  | 0, _ => none
  | bound + 1, cs =>
    match skipFiller false cs with
    | ']' :: rest => some ([], rest)
    | cs =>
      match value bound cs with
      | none => none
      | some (v, rest) =>
        match skipFiller false rest with
        | ']' :: rest => some ([v], rest)
        | ',' :: rest => (items bound rest).map fun (vs, rest) => (v :: vs, rest)
        | _ => none

/-- Reads one or more entries of an inline table and its closing brace. -/
def entries : (bound : Nat) → List Char → Read (List (Key × Value))
  | 0, _ => none
  | bound + 1, cs =>
    match key bound cs with
    | some (k, '=' :: rest) =>
      match value bound rest with
      | none => none
      | some (v, rest) =>
        match skipBlanks rest with
        | '}' :: rest => some ([(k, v)], rest)
        | ',' :: rest => (entries bound rest).map fun (es, rest) => ((k, v) :: es, rest)
        | _ => none
    | _ => none

end

/-! ## Statements -/

/-- The rest of the text if a statement ends here: only a comment may follow on the line. -/
def lineEnd? (cs : List Char) : Option (List Char) :=
  match skipBlanks cs with
  | [] => some []
  | '#' :: rest => some (skipComment rest)
  | c :: rest => if isLineEnd c then some rest else none

/-- Reads one statement. -/
def statement (cs : List Char) : Read Statement :=
  let bound := 2 * cs.length + 2
  match cs with
  | '[' :: '[' :: rest =>
    match key bound rest with
    | some (k, ']' :: ']' :: rest) => some (.arrayHeader k, rest)
    | _ => none
  | '[' :: rest =>
    match key bound rest with
    | some (k, ']' :: rest) => some (.header k, rest)
    | _ => none
  | cs =>
    match key bound cs with
    | some (k, '=' :: rest) =>
      (value bound rest).map fun (v, rest) => (.pair k v, rest)
    | _ => none

/-- Reads at most `bound` statements, which have to be the whole text. -/
def statements : (bound : Nat) → List Char → Option (List Statement)
  | 0, _ => none
  | bound + 1, cs =>
    match skipFiller false cs with
    | [] => some []
    | cs => do
      let (s, rest) ← statement cs
      let rest ← lineEnd? rest
      let ss ← statements bound rest
      some (s :: ss)

/-- A control character other than a tab or a line end. -/
def isControl (c : Char) : Bool :=
  (c.toNat < 0x20 && !isBlankOrLineEnd c) || c.toNat == 0x7F

/-- Every carriage return stands before a line feed. -/
def returnsOk : List Char → Bool
  | [] => true
  | '\r' :: rest => (match rest with | '\n' :: _ => true | _ => false) && returnsOk rest
  | _ :: rest => returnsOk rest

/-- The text without a byte order mark. -/
def dropMark : Text → Text
  | 0xFF :: 0xFE :: rest => rest
  | 0xFE :: 0xFF :: rest => rest
  | 0xEF :: 0xBB :: 0xBF :: rest => rest
  | t => t

/-- The statements of a TOML file. -/
def readStatements (file : Text) : Option (List Statement) := do
  let cs ← (dropMark file).chars?
  if cs.any isControl || !returnsOk cs then none
  else statements (cs.length + 1) cs

end Offside.Toml
