import Offside.Lookup

/-!
# The intermediate representation

Model of what the code generator builds (specification, 4.4): a module with the function `main`, the
builtin `print`, the formatted output it relies on, and the external functions that are called.

A module holds a program as the blocks of one function, `main`, together with the declarations of
the external functions it calls. All values are signed words of 64 bits; the result of a comparison
is a single bit until it is widened. Variables live in named slots of memory.

* `ArithOp` and `Pred` are the instructions and predicates that the tables of operators name, `add`,
  `sub`, `mul`, `sdiv` and `eq`, `ne`, `slt`, `sgt`.
* `Instr` has the instructions that the generator makes and no others. A slot is known by its
  variable, so `load` and `store` name that; a call of the builtin is `Instr.print`, which has no
  result, and any other call is `Instr.call`.
* `Label` is the name of a block, as a constructor with the number of its statement. The names that
  are printed are `Label.name` in `Ir/Name`.
* `Terminator` is a `br`, a conditional `br` or the `ret` of zero. A `Block` under construction has
  none; that every block of a finished module has one is proved in `Proofs/WellFormed`.
* `Options` is `Options`, and `Module.funcs` lists the functions in the order of the text: the
  builtin with its output function, `main`, and the externals in the order of their first call.

Instruction results are numbered in the order in which they are made. The numbers that are printed
follow the order of the text instead and are not part of the representation.

Out of scope: the body of `print`, which is the same in every module and stands in `Ir/Printer` as a
text, and types other than words and bits.
-/

namespace Offside.Ir

/-- A value that an instruction uses. -/
inductive Operand where
  | const (value : Int64)
  /-- The result of the instruction with a given number. -/
  | reg (id : Nat)
  deriving DecidableEq, Repr

/-- The arithmetic instructions. -/
inductive ArithOp where
  | add
  | sub
  | mul
  | sdiv
  deriving DecidableEq, Repr

/-- The comparisons of two words. -/
inductive Pred where
  | eq
  | ne
  | slt
  | sgt
  deriving DecidableEq, Repr

/-- The names of blocks. All blocks of one statement have the same number. -/
inductive Label where
  | entry
  | ifThen (n : Nat)
  | ifElse (n : Nat)
  | ifEnd (n : Nat)
  | whileCond (n : Nat)
  | whileBody (n : Nat)
  | whileEnd (n : Nat)
  deriving DecidableEq, Repr

/-- An instruction inside a block. Slots are known by the variables they hold. -/
inductive Instr where
  | arith (dst : Nat) (op : ArithOp) (left right : Operand)
  | compare (dst : Nat) (pred : Pred) (left right : Operand)
  /-- Makes a word of a bit. -/
  | widen (dst : Nat) (bit : Operand)
  | alloca (var : Text)
  | load (dst : Nat) (var : Text)
  | store (value : Operand) (var : Text)
  /-- Calls the function that prints a word. -/
  | print (args : List Operand)
  /-- Calls an external function. -/
  | call (dst : Nat) (callee : Text) (args : List Operand)
  deriving DecidableEq, Repr

/-- The number of the result of an instruction, if it has one. -/
def Instr.dst? : Instr → Option Nat
  | arith dst _ _ _ | compare dst _ _ _ | widen dst _ | load dst _ | call dst _ _ => some dst
  | alloca _ | store _ _ | print _ => none

/-- The last instruction of a block. -/
inductive Terminator where
  | jump (target : Label)
  | branch (cond : Operand) (yes no : Label)
  /-- Leaves the function with zero. -/
  | ret
  deriving DecidableEq, Repr

/-- A block. It has no terminator as long as it is being built. -/
structure Block where
  label : Label
  body : List Instr
  exit : Option Terminator
  deriving DecidableEq, Repr

/-- A function of a module. -/
inductive Func where
  /-- The function that prints a word. -/
  | print
  /-- The formatted output that printing relies on. -/
  | printf
  /-- The program itself. -/
  | main (blocks : List Block)
  /-- A function defined elsewhere. -/
  | external (name : Text) (arity : Nat)
  deriving DecidableEq, Repr

/-- What a module says about itself. -/
structure Options where
  targetTriple : Text
  sourceFilename : Text
  deriving DecidableEq, Repr

/-- A program in the intermediate representation. -/
structure Module where
  options : Options
  /-- The blocks of `main` in the order of their creation. -/
  blocks : List Block
  /-- The parameter counts of the external functions in the order of their first call. -/
  externals : Lookup Nat
  deriving DecidableEq, Repr

/-- All functions of a module in the order of the text. -/
def Module.funcs (m : Module) : List Func :=
  [.print, .printf, .main m.blocks] ++
    m.externals.entries.map fun (name, arity) => .external name arity

end Offside.Ir
