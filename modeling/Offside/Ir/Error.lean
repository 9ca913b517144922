import Offside.Token

/-!
# Errors of lowering

Model of `UndefinedError`, `ArityError` and `ReservedError` (specification, 4.4 and 7), and of the
errors that only a tree put together by hand can lead to.

Lowering stops at a program that reads a variable without a value yet, calls a function with another
number of arguments than before, or calls a function whose name is taken. Programs put together by
hand may also have holes and tokens in places where they mean nothing.

* `LowerError` has one constructor for each kind of error, with the fields of the error: the name,
  the position of the identifier and, for an arity, what the function takes and what it got.
* `LowerError.message` is `Error`, character for character. `LowerError.about` is the text that the
  errors about an operand, a comparison and an operator share: the position, what was unexpected and
  the token.

That a program read from a source has only errors of the first three kinds, each at an identifier of
the source, is proved in `Proofs/Lowering/Blame`.
-/

namespace Offside.Ir

/-- Why a program cannot be lowered. -/
inductive LowerError where
  /-- A variable is read before any assignment to it. -/
  | undefined (name : Text) (pos : Position)
  /-- A call passes another number of arguments than the function takes. -/
  | arity (name : Text) (pos : Position) (want got : Nat)
  /-- A function is called whose name belongs to the module itself. -/
  | reserved (name : Text) (pos : Position)
  /-- A statement is missing. -/
  | noStatement
  /-- An expression is missing. -/
  | noExpression
  /-- A leaf is neither a number nor a name. -/
  | badOperand (token : Token)
  /-- A comparison has no comparison operator. -/
  | badComparison (token : Token)
  /-- An arithmetic operation has no arithmetic operator. -/
  | badOperator (token : Token)
  deriving DecidableEq, Repr

/-- The message of an error about a token. -/
def LowerError.about (token : Token) (what : Text) : Text :=
  token.pos.render ++ ": unexpected " ++ what ++ " " ++ token.describe

/-- The message of an error. -/
def LowerError.message : LowerError → Text
  | undefined name pos => pos.render ++ ": undefined variable " ++ name
  | arity name pos want got =>
    pos.render ++ ": " ++ name ++ " takes " ++ Text.ofNat want ++ " arguments, got " ++
      Text.ofNat got
  | reserved name pos => pos.render ++ ": " ++ name ++ " is reserved"
  | noStatement => "unsupported statement <nil>"
  | noExpression => "unsupported expression <nil>"
  | badOperand token => about token "operand"
  | badComparison token => about token "comparison"
  | badOperator token => about token "binary operator"

end Offside.Ir
