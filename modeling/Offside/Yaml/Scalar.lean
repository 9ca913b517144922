import Offside.Numeral
import Offside.Yaml.Token

/-!
# YAML scalars in one piece

Plain scalars end where the indentation or an indicator ends them; quoted ones at their quote.

A scalar may run over several lines. The line ends inside are folded: a single one becomes a blank,
of several the first is dropped.

* `Fold` is a scalar in the course of being read, with the white space behind it that is not settled
  yet: whether it counts shows at the next character that is none. `Fold.push`, `Fold.blank` and
  `Fold.lineEnd` take a character each, and an escaped line end leaves nothing behind.
* `plainScalar`, `singleQuoted` and `doubleQuoted` read the three forms. A plain scalar knows
  whether it stands in a flow collection and how far its lines have to be indented.
* `letterEscape?` has the escapes of a letter in double quotes.
-/

namespace Offside.Yaml

/-! ## Folding -/

/-- A scalar in the course of being read. All lists stand in reverse. -/
structure Fold where
  out : List Char
  /-- Blanks that belong to the scalar if more of the line follows. -/
  blanks : List Char
  /-- Whether a line end was met behind the last character. -/
  broken : Bool
  /-- The first line end behind the last character; an escaped one leaves nothing. -/
  lead : Option Char
  /-- The further line ends. -/
  trail : List Char

namespace Fold

/-- Nothing read yet. -/
def empty : Fold := ⟨[], [], false, none, []⟩

/-- The scalar with the white space behind it settled. -/
def settle (f : Fold) : Fold :=
  let space :=
    if f.broken then
      match f.lead with
      | some '\n' => if f.trail.isEmpty then [' '] else f.trail
      | lead => f.trail ++ lead.toList
    else f.blanks
  ⟨space ++ f.out, [], false, none, []⟩

/-- The scalar with one more character. -/
def push (f : Fold) (c : Char) : Fold :=
  let f := f.settle
  { f with out := c :: f.out }

/-- The scalar with a blank behind it. -/
def blank (f : Fold) (c : Char) : Fold :=
  if f.broken then f else { f with blanks := c :: f.blanks }

/-- The scalar with a line end behind it. -/
def lineEnd (f : Fold) (c : Char) : Fold :=
  if f.broken then { f with trail := breakChar c :: f.trail }
  else { f with blanks := [], broken := true, lead := some (breakChar c) }

/-- The scalar with an escaped line end behind it. -/
def escapedLineEnd (f : Fold) : Fold :=
  { f.settle with broken := true, lead := none }

/-- The text of the scalar. -/
def text (f : Fold) : Text :=
  Text.ofChars f.out.reverse

end Fold

/-! ## Plain scalars -/

/-- An indicator of flow collections that ends a plain scalar inside them. -/
def isFlowIndicator (c : Char) : Bool :=
  c == ',' || c == '?' || c == '[' || c == ']' || c == '{' || c == '}'

/-- Reads a plain scalar. `flow` tells whether it stands in a flow collection, `indent` how far its
further lines have to be indented, `inWord` whether the last character was no white space. -/
def plainScalar (flow : Bool) (indent : Int) (inWord : Bool) (f : Fold) (m : Mark) :
    List Char → Option (Fold × Spot)
  | [] => some (f, ⟨m, []⟩)
  | '\r' :: '\n' :: rest => plainScalar flow indent false (f.lineEnd '\n') (m.newline 2) rest
  | c :: rest =>
    if isBreak c then plainScalar flow indent false (f.lineEnd c) (m.newline 1) rest
    else if isBlank c then
      if f.broken && (m.column : Int) < indent && c == '\t' then none
      else plainScalar flow indent false (f.blank c) m.step rest
    else if !inWord && ((!flow && (m.column : Int) < indent) || c == '#' ||
        (m.column == 0 && atDocumentMark (c :: rest))) then some (f, ⟨m, c :: rest⟩)
    else if (c == ':' && atSpace rest) || (flow && isFlowIndicator c) then some (f, ⟨m, c :: rest⟩)
    else plainScalar flow indent true (f.push c) m.step rest

/-! ## Quoted scalars -/

/-- Reads a scalar in single quotes behind the opening one. -/
def singleQuoted (f : Fold) (m : Mark) : List Char → Option (Fold × Spot)
  | [] => none
  | '\r' :: '\n' :: rest => singleQuoted (f.lineEnd '\n') (m.newline 2) rest
  | '\'' :: '\'' :: rest => singleQuoted (f.push '\'') (m.steps 2) rest
  | c :: rest =>
    if m.column == 0 && atDocumentMark (c :: rest) then none
    else if isBreak c then singleQuoted (f.lineEnd c) (m.newline 1) rest
    else if isBlank c then singleQuoted (f.blank c) m.step rest
    else if c == '\'' then some (f.settle, ⟨m.step, rest⟩)
    else singleQuoted (f.push c) m.step rest

/-- The character that a letter stands for after a backslash. -/
def letterEscape? (c : Char) : Option Char :=
  let code? : Option Nat :=
    if c == '0' then some 0x00
    else if c == 'a' then some 0x07
    else if c == 'b' then some 0x08
    else if c == 't' || c == '\t' then some 0x09
    else if c == 'n' then some 0x0A
    else if c == 'v' then some 0x0B
    else if c == 'f' then some 0x0C
    else if c == 'r' then some 0x0D
    else if c == 'e' then some 0x1B
    else if c == 'N' then some 0x85
    else if c == '_' then some 0xA0
    else if c == 'L' then some 0x2028
    else if c == 'P' then some 0x2029
    else if c == ' ' || c == '"' || c == '\'' || c == '\\' then some c.toNat
    else none
  code?.map Char.ofNat

/-- Reads a scalar in double quotes behind the opening one. -/
def doubleQuoted (f : Fold) (m : Mark) : List Char → Option (Fold × Spot)
  | [] => none
  | '\r' :: '\n' :: rest => doubleQuoted (f.lineEnd '\n') (m.newline 2) rest
  | '\\' :: '\r' :: '\n' :: rest => doubleQuoted f.escapedLineEnd (m.newline 3) rest
  | '\\' :: 'x' :: a :: b :: rest =>
    match Numeral.char? [a, b] with
    | some e => doubleQuoted (f.push e) (m.steps 4) rest
    | none => none
  | '\\' :: 'u' :: a :: b :: c :: d :: rest =>
    match Numeral.char? [a, b, c, d] with
    | some e => doubleQuoted (f.push e) (m.steps 6) rest
    | none => none
  | '\\' :: 'U' :: a :: b :: c :: d :: e :: g :: h :: i :: rest =>
    match Numeral.char? [a, b, c, d, e, g, h, i] with
    | some e => doubleQuoted (f.push e) (m.steps 10) rest
    | none => none
  | '\\' :: c :: rest =>
    if isBreak c then doubleQuoted f.escapedLineEnd (m.newline 2) rest
    else
      match letterEscape? c with
      | some e => doubleQuoted (f.push e) (m.steps 2) rest
      | none => none
  | c :: rest =>
    if (m.column == 0 && atDocumentMark (c :: rest)) || c == '\\' then none
    else if isBreak c then doubleQuoted (f.lineEnd c) (m.newline 1) rest
    else if isBlank c then doubleQuoted (f.blank c) m.step rest
    else if c == '"' then some (f.settle, ⟨m.step, rest⟩)
    else doubleQuoted (f.push c) m.step rest

end Offside.Yaml
