import Offside.Text.Basic

/-!
# The distance of two texts

How many bytes have to be inserted, removed or replaced to make one text of another; the names of
commands within a distance of two are suggested for one that does not exist (`Cli/Command`).

The distances to all beginnings of the second text make up a row, and each byte of the first text
makes a new row of the one before. `rowBehind` fills a row from the left, where each entry needs the
one before it and the two above.
-/

namespace Offside.Text

/-- The distances behind `left` in a new row: `old` has the row before from there on. -/
def rowBehind (a : UInt8) (left : Nat) : Text → List Nat → List Nat
  | b :: t, diagonal :: above :: old =>
    let here := if a = b then diagonal else 1 + min left (min above diagonal)
    here :: rowBehind a here t (above :: old)
  | _, _ => []

/-- The row behind one more byte of the first text. -/
def nextRow (t : Text) (row : List Nat) (a : UInt8) : List Nat :=
  let first := row.headD 0 + 1
  first :: rowBehind a first t row

/-- The distance of two texts. -/
def distance (s t : Text) : Nat :=
  (s.foldl (nextRow t) (List.range (t.length + 1))).getLastD 0

example : distance "kitten" "sitting" = 3 := by decide

example : distance "" "abc" = 3 := by decide

end Offside.Text
