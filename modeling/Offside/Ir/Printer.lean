import Offside.Ir.Constant
import Offside.Ir.Name

/-!
# The text of a module

Model of `String` of a module, which the command `ir` writes (specification, 4.4 and 6).

A module is printed function by function and block by block. Instruction results are numbered from
zero in the order of the text, which is not the order in which they were made: the blocks of a
statement are created before the statements inside it are lowered.

* `results` is the order of the text and `resultName` the place of a result in it.
* `Instr.render`, `Terminator.render` and `Block.render` write an instruction on a line of its own,
  behind a tab, and a block behind its label.
* `Func.render` has the fixed text of the builtin `print` and of its output function
  (`builtinPrint`), `main` with its blocks, and the declarations of the external functions.
* `Options.render` writes the source name and the target, if there are any, and a blank line behind
  them.
* `Module.render` puts the parts together, with the format of `print` in front of the functions.
-/

namespace Offside.Ir

/-- The results of the instructions of some blocks in the order of the text. -/
def results (blocks : List Block) : List Nat :=
  blocks.flatMap fun block => block.body.filterMap Instr.dst?

section

variable (order : List Nat)

/-- The name of an instruction result: its place in the order of the text. -/
def resultName (id : Nat) : Text :=
  "%" ++ Text.ofNat (order.idxOf id)

/-- A value without its type. -/
def Operand.render : Operand → Text
  | const value => integer value
  | reg id => resultName order id

/-- A word with its type. -/
def Operand.typed : Operand → Text
  | const value => typedInteger value
  | reg id => "i64 " ++ resultName order id

/-- The arguments of a call. -/
def renderArgs (args : List Operand) : Text :=
  "(" ++ Text.join ", " (args.map (Operand.typed order)) ++ ")"

/-- The word for an arithmetic instruction. -/
def ArithOp.name : ArithOp → Text
  | add => "add"
  | sub => "sub"
  | mul => "mul"
  | sdiv => "sdiv"

/-- The word for a predicate. -/
def Pred.name : Pred → Text
  | eq => "eq"
  | ne => "ne"
  | slt => "slt"
  | sgt => "sgt"

/-- An instruction. -/
def Instr.render : Instr → Text
  | arith dst op x y =>
    resultName order dst ++ " = " ++ op.name ++ " " ++ x.typed order ++ ", " ++ y.render order
  | compare dst pred x y =>
    resultName order dst ++ " = icmp " ++ pred.name ++ " " ++ x.typed order ++ ", " ++
      y.render order
  | widen dst bit => resultName order dst ++ " = zext i1 " ++ bit.render order ++ " to i64"
  | alloca var => slotName var ++ " = alloca i64"
  | load dst var => resultName order dst ++ " = load i64, i64* " ++ slotName var
  | store value var => "store " ++ value.typed order ++ ", i64* " ++ slotName var
  | print args => "call void @print" ++ renderArgs order args
  | call dst callee args =>
    resultName order dst ++ " = call i64 " ++ globalName callee ++ renderArgs order args

/-- The last instruction of a block. -/
def Terminator.render : Terminator → Text
  | jump target => "br label %" ++ target.name
  | branch cond yes no =>
    "br i1 " ++ cond.render order ++ ", label %" ++ yes.name ++ ", label %" ++ no.name
  | ret => "ret i32 0"

/-- An instruction on a line of its own. -/
def instrLine (t : Text) : Text :=
  "\t" ++ t ++ "\n"

/-- A block: its label and its instructions. -/
def Block.render (block : Block) : Text :=
  block.label.name ++ ":\n" ++
    (block.body.map fun i => instrLine (i.render order)).flatten ++
    (block.exit.toList.map fun t => instrLine (t.render order)).flatten

end

/-- The blocks of `main` with blank lines between them. -/
def renderMain (blocks : List Block) : Text :=
  "define i32 @main() \x7b\n" ++
    Text.join "\n" (blocks.map (Block.render (results blocks))) ++ "\x7d\n"

/-- The parameters of an external function. -/
def renderParams (arity : Nat) : Text :=
  Text.join ", " ((List.range arity).map fun i => "i64 %" ++ Text.ofNat i)

/-- A function. -/
def Func.render : Func → Text
  | print =>
    "define void @print(i64 %v) \x7b\n0:\n" ++
      instrLine ("%1 = call i32 (i8*, ...) @printf(i8* getelementptr ([5 x i8], " ++
        "[5 x i8]* @._printf_fmt, i64 0, i64 0), i64 %v)") ++
      instrLine "ret void" ++ "\x7d\n"
  | printf => "declare i32 @printf(i8* %format, ...)\n"
  | main blocks => renderMain blocks
  | external name arity =>
    "declare i64 " ++ globalName name ++ "(" ++ renderParams arity ++ ")\n"

/-- What a module says about itself, followed by a blank line if it says anything. -/
def Options.render (o : Options) : Text :=
  let file : Text :=
    if o.sourceFilename.isEmpty then []
    else "source_filename = " ++ quoted o.sourceFilename ++ "\n"
  let triple : Text :=
    if o.targetTriple.isEmpty then []
    else "target triple = " ++ quoted o.targetTriple ++ "\n"
  let facts := file ++ triple
  if facts.isEmpty then [] else facts ++ "\n"

/-- The format that printing uses. -/
def formatGlobal : Text :=
  "@._printf_fmt = global [5 x i8] c\"%ld\\0A\\00\"\n"

/-- The text of a module. -/
def Module.render (m : Module) : Text :=
  m.options.render ++ formatGlobal ++ "\n" ++ Text.join "\n" (m.funcs.map Func.render)

end Offside.Ir
