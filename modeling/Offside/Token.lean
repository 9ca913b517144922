import Offside.Position

/-!
# Tokens

Model of `Token` and `TokenType` (specification, 3), with the names that error messages show.

A token is a lexeme with its kind, its text, its value if it is a number, and the position it was
found at.

* `Kind` is `TokenType`, the closed enumeration of the specification with the two block markers. The
  enumeration is a number in the program, and a token stream put together by hand can hold any
  number, so numbers beyond the known kinds are kinds too: `Kind.unnamed`. `Kind.code` is the number
  of a kind and `Kind.ofCode` the kind of a number.
* `Kind.name` is `String` of a kind, with `TokenType(n)` for a kind without a name, and
  `Token.describe` is `String` of a token, which shows the text of a name or a number.
* `Kind.endsBlock` is `isBlockEnd`: in front of the end of the source, an `else` and a dedent marker
  no statement of a block begins.
* `Token.plain` is what `emitValue` makes: a token that is no number has the value zero.

Results:
* `ofCode_code`, `code_ofCode`: kinds and their numbers correspond one to one.

Out of scope: the marker methods that make a token an expression; `Expr.leaf` holds the token.
-/

namespace Offside

/-- The kind of a token. -/
inductive Kind where
  | eof
  | identifier
  | number
  | ifWord
  | elseWord
  | whileWord
  | plus
  | minus
  | times
  | divide
  | assign
  | equal
  | unequal
  | less
  | greater
  | openParen
  | closeParen
  | comma
  | colon
  /-- Marks a line that is indented deeper than the one before. -/
  | indent
  /-- Marks the return to a shallower indentation. -/
  | dedent
  /-- A kind without a name, `beyond` numbers after the last named one. -/
  | unnamed (beyond : Nat)
  deriving DecidableEq, Repr, Inhabited

namespace Kind

/-- The named kinds in the order of their numbers. -/
def named : List Kind :=
  [eof, identifier, number, ifWord, elseWord, whileWord, plus, minus, times, divide, assign, equal,
   unequal, less, greater, openParen, closeParen, comma, colon, indent, dedent]

/-- The number of a kind. -/
def code : Kind → Nat
  | eof => 0
  | identifier => 1
  | number => 2
  | ifWord => 3
  | elseWord => 4
  | whileWord => 5
  | plus => 6
  | minus => 7
  | times => 8
  | divide => 9
  | assign => 10
  | equal => 11
  | unequal => 12
  | less => 13
  | greater => 14
  | openParen => 15
  | closeParen => 16
  | comma => 17
  | colon => 18
  | indent => 19
  | dedent => 20
  | unnamed beyond => 21 + beyond

/-- The kind with a given number. -/
def ofCode (n : Nat) : Kind :=
  named.getD n (unnamed (n - 21))

theorem ofCode_code (k : Kind) : ofCode k.code = k := by
  cases k with
  | unnamed beyond =>
    have h : named.length ≤ 21 + beyond := by
      have : named.length = 21 := rfl
      omega
    simp [ofCode, code, List.getElem?_eq_none h]
  | _ => rfl

theorem code_ofCode (n : Nat) : (ofCode n).code = n := by
  by_cases h : n < 21
  · have : ∀ m : Fin 21, (ofCode m).code = m := by decide
    exact this ⟨n, h⟩
  · have hl : named.length ≤ n := by
      have : named.length = 21 := rfl
      omega
    simp only [ofCode, List.getD_eq_getElem?_getD, List.getElem?_eq_none hl, Option.getD_none, code]
    omega

/-- The name of a kind (`String`). -/
def name : Kind → Text
  | eof => "EOF"
  | identifier => "IDENTIFIER"
  | number => "NUMBER"
  | ifWord => "IF"
  | elseWord => "ELSE"
  | whileWord => "WHILE"
  | plus => "PLUS"
  | minus => "MINUS"
  | times => "MULTIPLY"
  | divide => "DIVIDE"
  | assign => "EQUALS"
  | equal => "EQ"
  | unequal => "NEQ"
  | less => "LESS"
  | greater => "GREATER"
  | openParen => "LPAREN"
  | closeParen => "RPAREN"
  | comma => "COMMA"
  | colon => "COLON"
  | indent => "INDENT"
  | dedent => "DEDENT"
  | unnamed beyond => "TokenType(" ++ Text.ofNat (21 + beyond) ++ ")"

/-- The named kind with a given name. -/
def ofName? (n : Text) : Option Kind :=
  named.find? fun k => k.name == n

/-- The kinds that end a block: nothing of a block can begin with them (`isBlockEnd`). -/
def endsBlock : Kind → Bool
  | eof | elseWord | dedent => true
  | _ => false

/-- The markers that stand for a change of indentation. -/
def isMarker : Kind → Bool
  | indent | dedent => true
  | _ => false

end Kind

/-- A classified lexeme. -/
structure Token where
  kind : Kind
  /-- The text of the lexeme; empty for markers and the end of the source. -/
  value : Text
  /-- The value of a number; zero for other kinds. -/
  num : Int64
  pos : Position
  deriving DecidableEq, Repr

namespace Token

/-- A token that is no number (`emitValue`). -/
def plain (kind : Kind) (value : Text) (pos : Position) : Token :=
  ⟨kind, value, 0, pos⟩

/-- The end of the source at `pos`. -/
def eofAt (pos : Position) : Token :=
  plain .eof [] pos

instance : Inhabited Token := ⟨eofAt .unset⟩

/-- The kind of a token, with the text of a name or number in parentheses (`String`). -/
def describe (t : Token) : Text :=
  match t.kind with
  | .identifier | .number => t.kind.name ++ "(" ++ t.value ++ ")"
  | _ => t.kind.name

end Token

end Offside
