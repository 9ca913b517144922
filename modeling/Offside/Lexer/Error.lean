import Offside.Position
import Offside.Text.Quoted

/-!
# Lexical errors

Model of `LexicalError` (specification, 7) and of the calls of the scanner's `errorf` that make one.

What can be wrong with a source before any grammar is looked at: a line that returns to no open
indentation (`indent`), a number that does not fit a signed word (`numberState`), an exclamation
mark without an equals sign, and a character that begins no lexeme (both `operatorState`).

* `LexicalError.Reason` has one constructor for each of the four, with the data that its text shows.
  `Reason.stated` holds a text as it is, for errors that are put together by hand.
* `LexicalError.Reason.message` is the text `Msg`, character for character.
* `LexicalError.message` is `Error`: the position, a colon and the text.
* `code` is the field `Char`: the code point at the offending place, which is the first digit for a
  number that is too large and the first rune of the line for an inconsistent dedent. A byte that
  begins no rune has the code point of the replacement character.
-/

namespace Offside

/-- Why the source cannot be cut into tokens. -/
inductive LexicalError.Reason where
  /-- The line is indented less than the one before, but like no open block. -/
  | inconsistentDedent
  /-- The number exceeds the greatest signed word. -/
  | outOfRange (digits : Text)
  /-- An exclamation mark stands without an equals sign. -/
  | loneBang
  /-- The rune begins no lexeme. -/
  | illegal (rune : Rune)
  /-- A reason given in words. -/
  | stated (words : Text)
  deriving DecidableEq, Repr

/-- The wording of a reason. -/
def LexicalError.Reason.message : LexicalError.Reason → Text
  | inconsistentDedent => "inconsistent dedent"
  | outOfRange digits => "number out of range: " ++ digits
  | loneBang => "expected '=' after '!'"
  | illegal rune => "illegal character " ++ Text.quoteRune rune
  | stated words => words

/-- A place in a source that cannot be cut into tokens. -/
structure LexicalError where
  /-- The code point of the offending rune. -/
  code : Nat
  pos : Position
  reason : LexicalError.Reason
  deriving DecidableEq, Repr

/-- The position and the reason of a lexical error (`Error`). -/
def LexicalError.message (e : LexicalError) : Text :=
  e.pos.render ++ ": " ++ e.reason.message

end Offside
