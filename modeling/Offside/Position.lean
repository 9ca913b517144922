import Offside.Text.Rune

/-!
# Positions in a source

Model of `Position` and of the scanner's `next`, which moves it (specification, 3).

A position counts bytes from the start of the source, lines from one and runes of a line from one.

* `Position.start` is where `NewLexer` begins, and `Position.unset` the position without content
  that a token has when nobody gave it one.
* `Position.after` is what `next` does to the position when it reads a rune: the offset grows by the
  bytes of the rune, a line feed begins a new line, and any other rune is one column.
* `Position.render` is `String`: line and column with a colon between them.

Positions made by hand may hold any integers, and are not bounded, where the scanner counts in
signed words.

Results:
* `afterAll_append`: reading two stretches one after the other is reading their concatenation.
* `after_offset`, `afterAll_offset`: the offset grows by the number of bytes read.
-/

namespace Offside

/-- A place in a source. -/
structure Position where
  /-- Bytes in front of the place. -/
  offset : Int
  /-- Line, counted from one. -/
  line : Int
  /-- Rune of the line, counted from one. -/
  column : Int
  deriving DecidableEq, Repr, Inhabited

namespace Position

/-- The position that stands for no place. -/
def unset : Position := ⟨0, 0, 0⟩

/-- The first position of a source. -/
def start : Position := ⟨0, 1, 1⟩

/-- The position behind a rune that stands at `p` (`next`). -/
def after (p : Position) (r : Rune) : Position :=
  if r.isNewline then ⟨p.offset + r.width, p.line + 1, 1⟩
  else ⟨p.offset + r.width, p.line, p.column + 1⟩

/-- The position behind a stretch of runes that begins at `p`. -/
def afterAll (p : Position) (rs : List Rune) : Position :=
  rs.foldl after p

@[simp] theorem afterAll_nil (p : Position) : p.afterAll [] = p := rfl

@[simp] theorem afterAll_cons (p : Position) (r : Rune) (rs : List Rune) :
    p.afterAll (r :: rs) = (p.after r).afterAll rs := rfl

theorem afterAll_append (p : Position) (rs ss : List Rune) :
    p.afterAll (rs ++ ss) = (p.afterAll rs).afterAll ss :=
  List.foldl_append

@[simp] theorem after_offset (p : Position) (r : Rune) :
    (p.after r).offset = p.offset + r.width := by
  unfold after; split <;> rfl

/-- The offset grows by the number of bytes read. -/
theorem afterAll_offset (p : Position) (rs : List Rune) :
    (p.afterAll rs).offset = p.offset + (Rune.encode rs).length := by
  induction rs generalizing p with
  | nil => simp
  | cons r rs ih => simp [ih, Rune.length_bytes]; omega

/-- The text of a position: line and column with a colon between (`String`). -/
def render (p : Position) : Text :=
  Text.ofInt p.line ++ ":" ++ Text.ofInt p.column

end Position

end Offside
