import Offside.Program.Basic

/-!
# Programs as S-expressions

Model of the `String` methods of the syntax tree and of `sexpr` (specification, 3).

Every construct is written as a parenthesised list with its operator or keyword first. Names and
numbers are written as they stand in the source. A program is written one statement a line.

* `Expr.sexpr` is `sexpr` with `String` of the two kinds of operations, which write the same.
* `Stmt.sexpr` has one case for each kind of statement, and `blockOf` is `String` of a `Block`: a
  list headed by `block`, which is there for an empty block too.
* `Program.sexpr` is `String` of the `AST`: the statements with line feeds between them.

Two different programs may be written alike: a name that holds a parenthesis can be put together by
hand. For programs read from a source that cannot happen (`Proofs/SExpr/Unique`).

Out of scope: what is written for a gap of a program put together by hand; it is the empty list
here.
-/

namespace Offside

/-- The parts in parentheses with blanks between them. -/
def parenthesised (parts : List Text) : Text :=
  "(" ++ Text.join " " parts ++ ")"

/-- The statements of a block, marked as one. -/
def blockOf (parts : List Text) : Text :=
  parenthesised ("block" :: parts)

/-- An expression, the operator before its operands. -/
def Expr.sexpr : Expr → Text
  | .leaf token => token.value
  | .arith left op right | .compare left op right =>
    parenthesised [op.value, left.sexpr, right.sexpr]
  | .missing => parenthesised []

namespace Stmt

mutual

/-- A statement, its keyword before its parts. -/
def sexpr : Stmt → Text
  | .assign target value => parenthesised ["=", target.value, value.sexpr]
  | .call name args => parenthesised ("call" :: name.value :: args.map Expr.sexpr)
  | .ifThen cond body => parenthesised ["if", cond.sexpr, blockOf (sexprs body)]
  | .ifElse cond body alt =>
    parenthesised ["if", cond.sexpr, blockOf (sexprs body), blockOf (sexprs alt)]
  | .loop cond body => parenthesised ["while", cond.sexpr, blockOf (sexprs body)]
  | .missing => parenthesised []

/-- The statements of a list, one by one. -/
def sexprs : List Stmt → List Text
  | [] => []
  | s :: ss => s.sexpr :: sexprs ss

end

end Stmt

/-- A program, one statement a line. -/
def Program.sexpr (p : Program) : Text :=
  Text.join "\n" (Stmt.sexprs p)

end Offside
