import Offside.Text.Rune

/-!
# YAML tokens

The tokens of a YAML stream, the characters that tell them apart, and places in the text. Block
collections have tokens for their start and end although nothing is written there: they follow from
the indentation.

A place counts lines and columns from zero, and the characters from the start; `Spot` is a place
with the text behind it, which is what the readers of scalars and properties go on with.
-/

namespace Offside.Yaml

/-- A token of a YAML stream. -/
inductive Token where
  | streamStart
  | streamEnd
  | documentStart
  | documentEnd
  /-- The version of the notation that a document is written in. -/
  | version (major minor : Nat)
  /-- What a handle in front of a tag stands for in a document. -/
  | tagHandle (handle meaning : Text)
  | blockSequenceStart
  | blockMappingStart
  | blockEnd
  | flowSequenceStart
  | flowSequenceEnd
  | flowMappingStart
  | flowMappingEnd
  | blockEntry
  | flowEntry
  | key
  | value
  | alias (name : Text)
  | anchor (name : Text)
  | tag (handle ending : Text)
  | scalar (text : Text) (plain : Bool)
  deriving DecidableEq, Repr

/-! ## Characters -/

/-- A blank or a tab. -/
def isBlank (c : Char) : Bool :=
  c == ' ' || c == '\t'

/-- A character that ends a line. -/
def isBreak (c : Char) : Bool :=
  c == '\n' || c == '\r' || c.toNat == 0x85 || c.toNat == 0x2028 || c.toNat == 0x2029

/-- A line end as it counts in a scalar. -/
def breakChar (c : Char) : Char :=
  if c.toNat == 0x2028 || c.toNat == 0x2029 then c else '\n'

/-- A character of a name: an ASCII letter or digit, a dash or an underscore. -/
def isNameChar (c : Char) : Bool :=
  ('0' ≤ c && c ≤ '9') || ('A' ≤ c && c ≤ 'Z') || ('a' ≤ c && c ≤ 'z') || c == '_' || c == '-'

/-- Whether the characters begin with white space, or are used up. -/
def atSpace : List Char → Bool
  | [] => true
  | c :: _ => isBlank c || isBreak c

/-- Whether a line ends here, or the characters are used up. -/
def atLineEnd : List Char → Bool
  | [] => true
  | c :: _ => isBreak c

/-- Whether the characters begin with a mark that separates documents. -/
def atDocumentMark : List Char → Bool
  | '-' :: '-' :: '-' :: rest => atSpace rest
  | '.' :: '.' :: '.' :: rest => atSpace rest
  | _ => false

/-- A character that may stand in a stream. -/
def isAllowed (c : Char) : Bool :=
  let n := c.toNat
  n == 0x09 || n == 0x0A || n == 0x0D || (0x20 ≤ n && n ≤ 0x7E) || n == 0x85 ||
    (0xA0 ≤ n && n ≤ 0xFFFD) || 0x10000 ≤ n

/-! ## Places in the text -/

/-- The number of a line, a column in it, and the number of characters in front. -/
structure Mark where
  line : Nat
  column : Nat
  index : Nat
  deriving DecidableEq, Repr

namespace Mark

/-- The beginning of a text. -/
def start : Mark := ⟨0, 0, 0⟩

/-- The place behind `n` characters that end no line. -/
def steps (m : Mark) (n : Nat) : Mark :=
  { m with column := m.column + n, index := m.index + n }

/-- The place behind a character that ends no line. -/
def step (m : Mark) : Mark :=
  m.steps 1

/-- The place behind a line end of `width` characters. -/
def newline (m : Mark) (width : Nat) : Mark :=
  ⟨m.line + 1, 0, m.index + width⟩

end Mark

/-- A place in a text and what stands there. -/
structure Spot where
  mark : Mark
  rest : List Char

namespace Spot

/-- The place behind `n` characters that end no line. -/
def skip (s : Spot) (n : Nat) : Spot :=
  ⟨s.mark.steps n, s.rest.drop n⟩

/-- The characters from here on that satisfy `p`, which no line end does. -/
def run (s : Spot) (p : Char → Bool) : List Char :=
  s.rest.takeWhile p

/-- The place behind the characters that satisfy `p`, which no line end does. -/
def skipWhile (s : Spot) (p : Char → Bool) : Spot :=
  s.skip (s.run p).length

/-- The place behind the rest of the line. -/
def skipLine (s : Spot) : Spot :=
  s.skipWhile fun c => !isBreak c

/-- The place behind a line end, if one stands here. -/
def skipBreak (s : Spot) : Spot :=
  match s.rest with
  | '\r' :: '\n' :: rest => ⟨s.mark.newline 2, rest⟩
  | c :: rest => if isBreak c then ⟨s.mark.newline 1, rest⟩ else s
  | [] => s

/-- The first character from here on. -/
def first? (s : Spot) : Option Char :=
  s.rest.head?

end Spot

end Offside.Yaml
