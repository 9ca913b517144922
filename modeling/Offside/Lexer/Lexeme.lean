import Offside.Lexer.Error
import Offside.Numeral
import Offside.Text.Letter
import Offside.Token

/-!
# Lexemes

Model of the dispatch in `defaultState` and of what `numberState`, `identifierState` and
`operatorState` make of a lexeme (`read_number`, `read_identifier_or_keyword` and the look-up tables
of the specification, 4.1).

The first rune of a lexeme decides its class: a digit begins a number, a letter or underscore a
word, anything else has to be an operator. Numbers and words are as long as possible; an operator
has one character, or two where an equals sign follows `=` or `!`.

* `classOf` is the dispatch. `Rune.isNameStart` and `Rune.isNamePart` are `isIdentifierStart` and
  `isIdentifierPart`.
* `wordKind` is the look-up in `keywordTable`, with `identifier` for a word that is not in it.
* `operatorKind?` and `pairKind?` are the entries of `operatorTable` of one rune and of two.
* `numberToken` is the end of `numberState`: the digits are decoded as a signed word, and a number
  beyond the greatest one is an error.
* `readOperator` is `operatorState` without the count of parentheses, which `Lexer.readSymbol` adds:
  the two runes `==` and `!=` are tried first, then a lone `!` is refused, then the table of single
  runes decides.

Results:
* `readOperator_append`: an operator that is read takes its runes off the front of the input.
-/

namespace Offside

namespace Lexer

/-- The classes of lexemes. -/
inductive LexemeClass where
  | number
  | word
  | operator
  deriving DecidableEq, Repr

/-- The class of the lexeme that begins with a rune. -/
def classOf (r : Rune) : LexemeClass :=
  if r.isDigit then .number
  else if r.isNameStart then .word
  else .operator

/-- The kind of a word: a keyword or an identifier (`keywordTable`). -/
def wordKind (word : Text) : Kind :=
  if word = "if" then .ifWord
  else if word = "else" then .elseWord
  else if word = "while" then .whileWord
  else .identifier

/-- The kind of an operator of one character (`operatorTable`). -/
def operatorKind? : Rune → Option Kind
  | .char '+' => some .plus
  | .char '-' => some .minus
  | .char '*' => some .times
  | .char '/' => some .divide
  | .char '=' => some .assign
  | .char '<' => some .less
  | .char '>' => some .greater
  | .char '(' => some .openParen
  | .char ')' => some .closeParen
  | .char ',' => some .comma
  | .char ':' => some .colon
  | _ => none

/-- The kind of the operator that a rune makes up with an equals sign behind it. -/
def pairKind? : Rune → Option Kind
  | .char '=' => some .equal
  | .char '!' => some .unequal
  | _ => none

/-- A number token, or the error of a number that is too large. -/
def numberToken (first : Rune) (digits : Text) (pos : Position) : Except LexicalError Token :=
  if Text.digitsValue digits ≤ Word.greatest then
    .ok ⟨.number, digits, Int64.ofNat (Text.digitsValue digits), pos⟩
  else .error ⟨first.code, pos, .outOfRange digits⟩

/-- The kind, the text and the rest of the input of the operator that begins with `first`. -/
def readOperator (first : Rune) (rest : List Rune) (pos : Position) :
    Except LexicalError (Kind × List Rune × List Rune) :=
  match pairKind? first, rest with
  | some kind, .char '=' :: rest' => .ok (kind, [first, .char '='], rest')
  | _, _ =>
    if first.is '!' then .error ⟨first.code, pos, .loneBang⟩
    else match operatorKind? first with
      | some kind => .ok (kind, [first], rest)
      | none => .error ⟨first.code, pos, .illegal first⟩

/-- An operator uses up input or leaves it as it is. -/
theorem readOperator_append {first : Rune} {rest rest' lexeme : List Rune} {pos : Position}
    {kind : Kind} (h : readOperator first rest pos = .ok (kind, lexeme, rest')) :
    lexeme ++ rest' = first :: rest := by
  unfold readOperator at h
  split at h
  · cases h; rfl
  · split at h
    · cases h
    · split at h <;> cases h
      rfl

end Lexer

end Offside
