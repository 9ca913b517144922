import Offside.Ir.Builder
import Offside.Ir.Error
import Offside.Program.Basic

/-!
# Lowering programs

Model of the code generator (specification, 4.4): `Generate`, `statement`, `assignment`,
`ifStatement`, `whileStatement`, `functionCall`, `declare`, `condition`, `compare`, `expression`,
`leaf` and `binaryOperation`.

A program becomes the body of `main`. An expression is computed from left to right into a word; a
comparison is a bit where it decides a branch, and is widened to a word elsewhere. Any other
condition holds when it is not zero. A conditional makes its blocks after its condition is computed,
a loop makes them before.

* `lowerLeaf` is `leaf`: a number is a constant, a name loads its slot, and a name without a slot is
  undefined. Slots are made in program order, so an assignment inside a block that is never entered
  counts for the statements behind it.
* `lowerArith` is the end of `binaryOperation` and `lowerCompare` the end of `compare`, behind the
  operands. Both are `lowerBinary` at the instruction that the operator stands for, with the error
  of an operator that stands for none.
* `lowerExpr` is `expression`. The zero extension of a comparison is its last step, so `lowerCond`,
  which is `condition`, leaves it out.
* `lowerCall` is `functionCall`: a reserved name first, then the number of arguments, then the
  arguments themselves. `declare` is `declare`: the first call of an unknown function declares it,
  also when an argument is at fault afterwards. The builtin is known from the start with one
  parameter, and its result is nothing.
* `lowerStmt` has one case for each kind of statement, with `ifStatement` and `whileStatement`
  written out block by block, in the order in which the blocks are created. `lowerStmts` is
  `statements`.
* `lower` is `Generate`: it ends the last block with the `ret` of zero.

The first offence in program order ends the lowering; what is an offence without reference to a
builder is said in `Proofs/Lowering/Offence`.

Out of scope: a builder that is used again after an error, for `Generate` makes a new one each time.
-/

namespace Offside.Ir

/-- The function that prints a word. -/
def printName : Text := "print"

/-- The functions that a program cannot call: they are part of every module. -/
def reservedNames : List Text := ["main", "printf"]

/-- The instruction for an arithmetic operator. -/
def arithOp? : Kind → Option ArithOp
  | .plus => some .add
  | .minus => some .sub
  | .times => some .mul
  | .divide => some .sdiv
  | _ => none

/-- The predicate for a comparison operator. -/
def pred? : Kind → Option Pred
  | .equal => some .eq
  | .unequal => some .ne
  | .less => some .slt
  | .greater => some .sgt
  | _ => none

/-- An operation that makes a value of two words. -/
inductive BinaryOp where
  | arith (op : ArithOp)
  | compare (pred : Pred)
  deriving DecidableEq, Repr

/-- The instruction that makes the result with a number of two operands. -/
def BinaryOp.instr : BinaryOp → Nat → Operand → Operand → Instr
  | arith op, dst, x, y => .arith dst op x y
  | compare pred, dst, x, y => .compare dst pred x y

namespace Builder

/-- The value of a number or a variable (`leaf`). -/
def lowerLeaf (b : Builder) (token : Token) : Except LowerError (Operand × Builder) :=
  match token.kind with
  | .number => .ok (.const token.num, b)
  | .identifier =>
    if b.slots.contains token.value then .ok (b.emitResult (.load · token.value))
    else .error (.undefined token.value token.pos)
  | _ => .error (.badOperand token)

/-- The value that an operation makes of two words, if the operator stands for one. -/
def lowerBinary (b : Builder) (op? : Option BinaryOp) (unknown : LowerError) (x y : Operand) :
    Except LowerError (Operand × Builder) :=
  match op? with
  | some op => .ok (b.emitResult (op.instr · x y))
  | none => .error unknown

/-- The word that an arithmetic operator makes of two words. -/
def lowerArith (b : Builder) (op : Token) (x y : Operand) :
    Except LowerError (Operand × Builder) :=
  b.lowerBinary ((arithOp? op.kind).map .arith) (.badOperator op) x y

/-- The bit that a comparison makes of two words. -/
def lowerCompare (b : Builder) (op : Token) (x y : Operand) :
    Except LowerError (Operand × Builder) :=
  b.lowerBinary ((pred? op.kind).map .compare) (.badComparison op) x y

/-- The word that an expression stands for (`expression`). -/
def lowerExpr (b : Builder) : Expr → Except LowerError (Operand × Builder)
  | .leaf token => b.lowerLeaf token
  | .arith left op right => do
    let (x, b) ← b.lowerExpr left
    let (y, b) ← b.lowerExpr right
    b.lowerArith op x y
  | .compare left op right => do
    let (x, b) ← b.lowerExpr left
    let (y, b) ← b.lowerExpr right
    let (bit, b) ← b.lowerCompare op x y
    return b.emitResult (.widen · bit)
  | .missing => .error .noExpression

/-- The words that several expressions stand for. -/
def lowerExprs (b : Builder) : List Expr → Except LowerError (List Operand × Builder)
  | [] => .ok ([], b)
  | e :: es => do
    let (x, b) ← b.lowerExpr e
    let (xs, b) ← b.lowerExprs es
    return (x :: xs, b)

/-- The bit that a condition stands for (`condition`). -/
def lowerCond (b : Builder) : Expr → Except LowerError (Operand × Builder)
  | .compare left op right => do
    let (x, b) ← b.lowerExpr left
    let (y, b) ← b.lowerExpr right
    b.lowerCompare op x y
  | cond => do
    let (x, b) ← b.lowerExpr cond
    return b.emitResult (.compare · .ne x (.const 0))

/-- The number of parameters of a function, as far as it is known. -/
def arity? (b : Builder) (name : Text) : Option Nat :=
  if name = printName then some 1 else b.externals.get? name

/-- The number of parameters of a function. A function not known yet is declared with the number
of arguments of this call. -/
def declare (b : Builder) (name : Text) (argCount : Nat) : Nat × Builder :=
  match b.arity? name with
  | some arity => (arity, b)
  | none => (argCount, { b with externals := b.externals.set name argCount })

/-- A call, its result being dropped (`functionCall`). -/
def lowerCall (b : Builder) (name : Token) (args : List Expr) : Except LowerError Builder :=
  if reservedNames.contains name.value then .error (.reserved name.value name.pos)
  else
    let (arity, b) := b.declare name.value args.length
    if arity ≠ args.length then .error (.arity name.value name.pos arity args.length)
    else do
      let (xs, b) ← b.lowerExprs args
      if name.value = printName then return b.emit (.print xs)
      else return (b.emitResult (.call · name.value xs)).2

mutual

/-- A statement, added to the current block and to new ones (`statement`). -/
def lowerStmt (b : Builder) : Stmt → Except LowerError Builder
  | .assign target value => do
    let (x, b) ← b.lowerExpr value
    return (b.ensureSlot target.value).emit (.store x target.value)
  | .call name args => b.lowerCall name args
  | .ifThen cond body => do
    let (bit, b) ← b.lowerCond cond
    let (n, b) := b.nextLabel
    let b := (b.addBlocks [.ifThen n, .ifEnd n]).leave (.branch bit (.ifThen n) (.ifEnd n))
    let b ← (b.enter (.ifThen n)).lowerStmts body
    return (b.leave (.jump (.ifEnd n))).enter (.ifEnd n)
  | .ifElse cond body alt => do
    let (bit, b) ← b.lowerCond cond
    let (n, b) := b.nextLabel
    let b := (b.addBlocks [.ifThen n, .ifElse n, .ifEnd n]).leave
      (.branch bit (.ifThen n) (.ifElse n))
    let b ← (b.enter (.ifThen n)).lowerStmts body
    let b := b.leave (.jump (.ifEnd n))
    let b ← (b.enter (.ifElse n)).lowerStmts alt
    return (b.leave (.jump (.ifEnd n))).enter (.ifEnd n)
  | .loop cond body => do
    let (n, b) := b.nextLabel
    let b := (b.addBlocks [.whileCond n, .whileBody n, .whileEnd n]).leave (.jump (.whileCond n))
    let (bit, b) ← (b.enter (.whileCond n)).lowerCond cond
    let b := b.leave (.branch bit (.whileBody n) (.whileEnd n))
    let b ← (b.enter (.whileBody n)).lowerStmts body
    return (b.leave (.jump (.whileCond n))).enter (.whileEnd n)
  | .missing => .error .noStatement

/-- Statements one after another (`statements`). -/
def lowerStmts (b : Builder) : List Stmt → Except LowerError Builder
  | [] => .ok b
  | s :: ss => do
    let b ← b.lowerStmt s
    b.lowerStmts ss

end

end Builder

/-- The module of a program (`Generate`). -/
def lower (options : Options) (program : Program) : Except LowerError Module := do
  let b ← Builder.start.lowerStmts program
  let b := b.leave .ret
  return ⟨options, b.blocks, b.externals⟩

end Offside.Ir
