import Offside.Text.Rune

/-!
# Space characters

Model of the test for white space in `skipWhitespace` and `lineStartState`, and of the trimming of
lines in a session.

The space characters are those with the Unicode property `White_Space`, in ASCII the blank and the
five control characters from the tab to the carriage return. They stand in `spaceRanges`. They
separate tokens and are cut off when a text is trimmed.

The specification's `skip_whitespace` (4.1) names spaces, tabs, carriage returns and newlines; the
scanner takes any space character for white space, and so does `Rune.isSpace`.

* `Text.trim` cuts space characters off both ends of a text. A stray byte is no space character and
  stays.
* `Text.isBlank` is whether a text is nothing but space characters.
-/

namespace Offside.Text

/-- The closed ranges of space characters. -/
def spaceRanges : List (Nat × Nat) :=
  [(0x0009, 0x000D), (0x0020, 0x0020), (0x0085, 0x0085), (0x00A0, 0x00A0), (0x1680, 0x1680),
   (0x2000, 0x200A), (0x2028, 0x2029), (0x202F, 0x202F), (0x205F, 0x205F), (0x3000, 0x3000)]

/-- Whether a code point is a space character. -/
def isSpaceCode (n : Nat) : Bool :=
  spaceRanges.any fun (first, last) => first ≤ n && n ≤ last

end Offside.Text

namespace Offside.Rune

/-- A rune that is a space character. A stray byte is none. -/
def isSpace (r : Rune) : Bool :=
  Text.isSpaceCode r.code

end Offside.Rune

namespace Offside.Text

/-- The text without the space characters at its two ends. -/
def trim (t : Text) : Text :=
  let inner := (Rune.decode t).dropWhile Rune.isSpace
  Rune.encode (inner.reverse.dropWhile Rune.isSpace).reverse

/-- A text of space characters only. -/
def isBlank (t : Text) : Bool :=
  (Rune.decode t).all Rune.isSpace

end Offside.Text
