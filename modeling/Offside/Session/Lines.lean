import Offside.Text.Basic

/-!
# Lines as they are delivered

Model of the line reader behind the prompt of a session whose input is no terminal.

A line reader has room for a certain number of bytes. A line that does not fit together with its end
is delivered in pieces, and a carriage return at the end of a piece is left for the next one. The
end of a line, with a carriage return before it, is not delivered.

* `Piece.first?` is one reading: a whole line if its end is within the room, the last line if the
  text ends within it, or a piece of the length of the room.
* `Piece.ofText` is all readings one after the other. Each takes at least one byte, so the length of
  the text bounds their number.

A session takes each piece for a line (`Cli/Run`); the file of a history ends at the first piece
that is cut (`Session/History`).
-/

namespace Offside

/-- A line or a piece of one. -/
structure Piece where
  bytes : Text
  /-- Whether more of the line follows. -/
  cut : Bool
  deriving DecidableEq, Repr

namespace Piece

/-- How many bytes a reader has room for. -/
def room : Nat := 4096

/-- A text without one carriage return at its end. -/
def dropReturn (t : Text) : Text :=
  if t.getLast? = some Text.carriageReturn then t.dropLast else t

/-- The first piece of a text, and the text behind it. -/
def first? (t : Text) : Option (Piece × Text) :=
  let line := (t.take room).takeWhile (· != Text.newline)
  if t.isEmpty then none
  else if line.length < t.length ∧ line.length < room then
    some (⟨dropReturn line, false⟩, t.drop (line.length + 1))
  else if line.length < room then some (⟨line, false⟩, [])
  else some (⟨dropReturn line, true⟩, t.drop (dropReturn line).length)

/-- The pieces of a text, at most `fuel` of them. -/
def pieces : Nat → Text → List Piece
  | 0, _ => []
  | fuel + 1, t =>
    match first? t with
    | none => []
    | some (piece, rest) => piece :: pieces fuel rest

/-- The pieces of a text. Each takes at least one byte of it. -/
def ofText (t : Text) : List Piece :=
  pieces t.length t

end Piece

end Offside
