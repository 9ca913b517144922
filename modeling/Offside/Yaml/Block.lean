import Offside.Yaml.Token

/-!
# YAML block scalars

A block scalar is a sequence of indented lines behind `|` or `>`. It is *literal* if its line ends
are kept and *folded* if single ones become blanks. How far it is indented shows in its first line
that is not blank, unless a digit tells it. A sign tells what becomes of the line ends behind the
last line: one is kept by default, none with `-`, all with `+`.

* `header` reads the rest of the line with the mark: the sign and the digit in any order, and a
  comment.
* `gap` skips blank lines and the indentation of the next line, and answers the furthest column that
  it reached, from which an indentation that no digit tells is taken.
* `Lines.push` adds a line, with its line end folded or kept, and `lines` reads all of them.
* `read` is the whole, at the column of the collection around.
-/

namespace Offside.Yaml.Block

/-- What becomes of the line ends behind the last line. -/
inductive Chomp where
  | clip
  | strip
  | keep
  deriving DecidableEq

/-- The words behind the mark of a block scalar. -/
structure Header where
  chomp : Chomp
  /-- How far the scalar is indented beyond what is around it; 0 if that shows in its lines. -/
  increment : Nat

/-- Reads a sign. -/
def sign (s : Spot) : Chomp × Spot :=
  match s.first? with
  | some '+' => (.keep, s.skip 1)
  | some '-' => (.strip, s.skip 1)
  | _ => (.clip, s)

/-- Reads a digit, which is not 0. -/
def digit (s : Spot) : Option (Nat × Spot) :=
  match s.first? with
  | some c =>
    if c == '0' then none
    else if '1' ≤ c && c ≤ '9' then some (c.toNat - '0'.toNat, s.skip 1)
    else some (0, s)
  | none => some (0, s)

/-- Reads the rest of the first line: a sign and a digit in any order, and a comment. -/
def header (s : Spot) : Option (Header × Spot) := do
  let (before, s) := sign s
  let (increment, s) ← digit s
  let (chomp, s) := if before = .clip then sign s else (before, s)
  let s := s.skipWhile isBlank
  let s := if s.first? = some '#' then s.skipLine else s
  if atLineEnd s.rest then some (⟨chomp, increment⟩, s.skipBreak) else none

/-- What stands between the lines of a scalar. -/
structure Gap where
  /-- The line ends, in reverse. -/
  breaks : List Char
  /-- The column of the furthest indented line. -/
  furthest : Nat
  spot : Spot

/-- Skips blank lines and the indentation of the next line. A tab cannot indent. An indentation of
0 is not known yet. -/
def gap (indent : Nat) (breaks : List Char) (furthest : Nat) (m : Mark) : List Char → Option Gap
  | [] => some ⟨breaks, max furthest m.column, ⟨m, []⟩⟩
  | '\r' :: '\n' :: rest => gap indent ('\n' :: breaks) (max furthest m.column) (m.newline 2) rest
  | c :: rest =>
    let inside := indent == 0 || m.column < indent
    if c == ' ' && inside then gap indent breaks furthest m.step rest
    else if c == '\t' && inside then none
    else if isBreak c then
      gap indent (breakChar c :: breaks) (max furthest m.column) (m.newline 1) rest
    else some ⟨breaks, max furthest m.column, ⟨m, c :: rest⟩⟩

/-- A scalar in the course of being read. All lists stand in reverse. -/
structure Lines where
  out : List Char
  /-- The line end behind the last line. -/
  lead : List Char
  /-- The further line ends. -/
  trail : List Char
  /-- Whether the last line began with white space. -/
  blank : Bool

namespace Lines

/-- The scalar with one more line. Lines that begin with white space are not folded. -/
def push (l : Lines) (folded blank : Bool) (line : List Char) : Lines :=
  let lead :=
    if folded && !l.blank && !blank && l.lead == ['\n'] then
      if l.trail.isEmpty then [' '] else []
    else l.lead
  ⟨line.reverse ++ l.trail ++ lead ++ l.out, [], [], blank⟩

/-- The text of the scalar. -/
def text (l : Lines) (chomp : Chomp) : Text :=
  let ending := match chomp with
    | .strip => []
    | .clip => l.lead
    | .keep => l.trail ++ l.lead
  Text.ofChars (ending ++ l.out).reverse

end Lines

/-- Reads the lines of a scalar, at most `bound` many. -/
def lines (folded : Bool) (indent : Nat) (l : Lines) (s : Spot) :
    (bound : Nat) → Option (Lines × Spot)
  | 0 => none
  | bound + 1 =>
    if s.mark.column == indent && !s.rest.isEmpty then do
      let behind := s.skipLine
      let lead := match behind.first? with
        | some c => [breakChar c]
        | none => []
      let next := behind.skipBreak
      let g ← gap indent [] 0 next.mark next.rest
      let l := l.push folded (atSpace s.rest && !atLineEnd s.rest) (s.run fun c => !isBreak c)
      lines folded indent { l with lead, trail := g.breaks } g.spot bound
    else some (l, s)

/-- Reads a block scalar behind its mark, in a block collection at the column `outer`. -/
def read (folded : Bool) (outer : Int) (s : Spot) : Option (Text × Spot) := do
  let (h, s) ← header s
  let known := if h.increment = 0 then 0 else outer.toNat + h.increment
  let g ← gap known [] 0 s.mark s.rest
  let indent := if known = 0 then max g.furthest (max (outer + 1).toNat 1) else known
  let (l, s) ← lines folded indent ⟨[], [], g.breaks, false⟩ g.spot (s.rest.length + 1)
  some (l.text h.chomp, s)

end Offside.Yaml.Block
