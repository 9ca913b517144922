import Offside.Session.Lines
import Offside.Text.Rune

/-!
# The history of inputs

Model of the history that `runRepl` reads at its start, adds to, and writes at its end
(specification, 9.4).

The inputs of a session and of the sessions before it, the oldest first. An input that repeats the
one before it is not entered again, and only so many of the last ones are kept.

* `History.push` enters an input, and the oldest makes room. `History.add` leaves out a repetition.
* `History.ofFile` reads the file of a history. A line that is too long for the reader, or that is
  no text in UTF-8, ends it there, and the lines before it count. Reading does not leave out
  repetitions.
* `History.render` writes the file, one input a line.

Results:
* `History.push_length`: an entered input does not bring a history over its limit.
* `History.add_length`: a history stays within its limit.

Out of scope: searching the history at a terminal.
-/

namespace Offside

/-- Inputs, the oldest first. -/
structure History where
  entries : List Text
  deriving DecidableEq, Repr

namespace History

/-- No inputs. -/
def empty : History := ⟨[]⟩

/-- How many inputs are kept. -/
def limit : Nat := 1000

/-- Enters an input behind the others; the oldest makes room. -/
def push (h : History) (entry : Text) : History :=
  let entries := h.entries ++ [entry]
  ⟨entries.drop (entries.length - limit)⟩

/-- Enters an input unless it repeats the last one. -/
def add (h : History) (entry : Text) : History :=
  if h.entries.getLast? = some entry then h else h.push entry

/-- Reads a history from a file, one input a line. It ends before a line that is too long or no text
in UTF-8. -/
def ofFile (content : Text) : History :=
  let readable (p : Piece) : Bool := !p.cut && p.bytes.chars?.isSome
  ((Piece.ofText content).takeWhile readable).foldl (fun h p => h.push p.bytes) empty

/-- The content of a file that keeps a history. -/
def render (h : History) : Text :=
  h.entries.flatMap (· ++ "\n")

theorem push_length (h : History) (entry : Text) : (h.push entry).entries.length ≤ limit := by
  simp only [push, List.length_drop]
  omega

theorem add_length (h : History) (entry : Text) (bound : h.entries.length ≤ limit) :
    (h.add entry).entries.length ≤ limit := by
  unfold add
  split
  · exact bound
  · exact push_length h entry

end History

end Offside
