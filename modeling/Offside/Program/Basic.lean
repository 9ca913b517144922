import Offside.Token

/-!
# Programs

Model of the syntax tree (specification, 3): `AST`, `Block`, the statements `Assignment`,
`FunctionCall`, `IfStatement` and `WhileStatement`, and the expressions `BinaryOperation`,
`BooleanExpression` and bare tokens.

A program is a list of statements. Names, numbers and operators are kept as the tokens they were
read from, so a program knows where each of its parts stands in the source.

* `Expr.arith` is `BinaryOperation`, `Expr.compare` is `BooleanExpression`, and `Expr.leaf` a token
  of a number or a name.
* An `IfStatement` without a second block is `Stmt.ifThen`, one with it `Stmt.ifElse`; the absent
  block and the empty one differ.
* A block is a list of statements and may be empty, and `Program` is such a list.

A program put together by hand may have gaps: places where a statement or an expression is missing.
These are the empty references that the tree's types admit, `Expr.missing` and `Stmt.missing`.
Programs read from a source have none.

Equality of statements is decided by a recursion over both, since a statement holds lists of
statements.

Out of scope: an empty reference where a block must stand, and nodes that are shared; a tree here is
a value.
-/

namespace Offside

/-- An expression. -/
inductive Expr where
  /-- A number or a name. -/
  | leaf (token : Token)
  /-- Two operands of an arithmetic operator. -/
  | arith (left : Expr) (op : Token) (right : Expr)
  /-- Two operands of a comparison. -/
  | compare (left : Expr) (op : Token) (right : Expr)
  /-- A place where no expression stands. -/
  | missing
  deriving DecidableEq, Repr

/-- A statement. -/
inductive Stmt where
  /-- A value is given to a name. -/
  | assign (target : Token) (value : Expr)
  /-- A function is called. -/
  | call (name : Token) (args : List Expr)
  /-- A block for the case that a condition holds. -/
  | ifThen (cond : Expr) (body : List Stmt)
  /-- A block for either case of a condition. -/
  | ifElse (cond : Expr) (body : List Stmt) (alt : List Stmt)
  /-- A block that is repeated as long as a condition holds. -/
  | loop (cond : Expr) (body : List Stmt)
  /-- A place where no statement stands. -/
  | missing
  deriving Repr

/-- The statements of a program in order. -/
abbrev Program := List Stmt

instance : Inhabited Expr := ⟨.missing⟩

instance : Inhabited Stmt := ⟨.missing⟩

/-! ## Equality of statements is decidable -/

namespace Stmt

mutual

/-- Decides whether two statements are equal. -/
def decEq : (a b : Stmt) → Decidable (a = b)
  | .assign t v, .assign t' v' =>
    decidable_of_iff (t = t' ∧ v = v') (by simp)
  | .call n as, .call n' as' =>
    decidable_of_iff (n = n' ∧ as = as') (by simp)
  | .ifThen c b, .ifThen c' b' =>
    have := decEqs b b'
    decidable_of_iff (c = c' ∧ b = b') (by simp)
  | .ifElse c b a, .ifElse c' b' a' =>
    have := decEqs b b'
    have := decEqs a a'
    decidable_of_iff (c = c' ∧ b = b' ∧ a = a') (by simp)
  | .loop c b, .loop c' b' =>
    have := decEqs b b'
    decidable_of_iff (c = c' ∧ b = b') (by simp)
  | .missing, .missing => isTrue rfl
  | .assign .., .call .. | .assign .., .ifThen .. | .assign .., .ifElse .. | .assign .., .loop ..
  | .assign .., .missing | .call .., .assign .. | .call .., .ifThen .. | .call .., .ifElse ..
  | .call .., .loop .. | .call .., .missing | .ifThen .., .assign .. | .ifThen .., .call ..
  | .ifThen .., .ifElse .. | .ifThen .., .loop .. | .ifThen .., .missing | .ifElse .., .assign ..
  | .ifElse .., .call .. | .ifElse .., .ifThen .. | .ifElse .., .loop .. | .ifElse .., .missing
  | .loop .., .assign .. | .loop .., .call .. | .loop .., .ifThen .. | .loop .., .ifElse ..
  | .loop .., .missing | .missing, .assign .. | .missing, .call .. | .missing, .ifThen ..
  | .missing, .ifElse .. | .missing, .loop .. => isFalse nofun

/-- Decides whether two lists of statements are equal. -/
def decEqs : (a b : List Stmt) → Decidable (a = b)
  | [], [] => isTrue rfl
  | s :: ss, t :: ts =>
    have := decEq s t
    have := decEqs ss ts
    decidable_of_iff (s = t ∧ ss = ts) (by simp)
  | [], _ :: _ | _ :: _, [] => isFalse nofun

end

instance : DecidableEq Stmt := decEq

end Stmt

end Offside
