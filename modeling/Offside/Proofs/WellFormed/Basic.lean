import Mathlib.Data.List.Chain
import Mathlib.Logic.Relation
import Offside.Ir.Name
import Offside.Ir.Printer
import Offside.Proofs.Lowering.Builder

/-!
# Well-formed modules

What a tool that takes over the module from the code generator (specification, 4.4) relies on: names
mean one thing, control goes from block to block and ends in one place, and every value is there,
and of the right type, before it is used. The definitions here are about modules alone; that
lowering makes such modules is in the other modules of this folder.

A place in a block is given by the code in front of it. A value that is an instruction result has to
be made in front of its use, in the same block. A slot is made in `entry` and set to zero at once;
in `entry` this stands in front of every use, and the other blocks are dominated by `entry`.

* `Ty` has the types of values, a word and a bit. `Instr.operands` and `Instr.ty` say what each
  instruction wants and makes, and `Block.Typed` is a block in which everything fits.
* `Reserves` and `Clears` say that the slot of a variable is made in some code, and set to zero by
  an instruction right behind.
* `Edge` and `Dominates` are the ways between blocks.
* `Module.globals` and `Module.locals` are the names that have to differ, as they are printed.
* `Module.WellFormed` has all conditions together, one field for each.

Out of scope: that the printed text is accepted by any particular tool; `Module.render` is a
function of the module.
-/

namespace Offside.Ir

/-! ## Types -/

/-- The types of values. -/
inductive Ty where
  | word
  | bit
  deriving DecidableEq, Repr

/-- The values that an instruction uses, with the types they have to have. -/
def Instr.operands : Instr → List (Operand × Ty)
  | arith _ _ x y | compare _ _ x y => [(x, .word), (y, .word)]
  | widen _ x => [(x, .bit)]
  | store x _ => [(x, .word)]
  | print args | call _ _ args => args.map fun x => (x, .word)
  | alloca _ | load _ _ => []

/-- The value that a terminator uses, with the type it has to have. -/
def Terminator.operands : Terminator → List (Operand × Ty)
  | branch x _ _ => [(x, .bit)]
  | jump _ | ret => []

/-- The type of the result of an instruction. -/
def Instr.ty : Instr → Ty
  | compare _ _ _ _ => .bit
  | _ => .word

/-- The numbers and types of the results that some code makes. -/
def defined (code : List Instr) : List (Nat × Ty) :=
  code.flatMap fun i => i.dst?.toList.map fun id => (id, i.ty)

/-- A value has a type behind some code. -/
def Operand.HasTy (code : List Instr) : Operand → Ty → Prop
  | const _, ty => ty = .word
  | reg id, ty => (id, ty) ∈ defined code

/-- An instruction at a place in some code. -/
def Stands (code before : List Instr) (i : Instr) : Prop :=
  ∃ behind, code = before ++ i :: behind

/-- Every value of a block is made in front of its use, with the right type. -/
structure Block.Typed (blk : Block) : Prop where
  body : ∀ before i, Stands blk.body before i → ∀ x ∈ i.operands, x.1.HasTy before x.2
  exit : ∀ t ∈ blk.exit, ∀ x ∈ t.operands, x.1.HasTy blk.body x.2

/-! ## Slots -/

/-- The variable whose slot an instruction reads or writes. -/
def Instr.touches : Instr → Option Text
  | load _ v | store _ v => some v
  | _ => none

/-- Somewhere in some code the slot of a variable is made and set to zero. -/
def Reserves (code : List Instr) (v : Text) : Prop :=
  ∃ before behind, code = before ++ .alloca v :: .store (.const 0) v :: behind

/-- An instruction sets a slot to zero that was made right in front of it. -/
def Clears (before : List Instr) (i : Instr) (v : Text) : Prop :=
  i = .store (.const 0) v ∧ ∃ earlier, before = earlier ++ [.alloca v]

/-! ## Control -/

/-- The blocks that a terminator leads to. -/
def Terminator.targets : Terminator → List Label
  | jump ℓ => [ℓ]
  | branch _ yes no => [yes, no]
  | ret => []

/-- Control can go from one block to another. -/
def Edge (blocks : List Block) (ℓ ℓ' : Label) : Prop :=
  ∃ blk ∈ blocks, blk.label = ℓ ∧ ∃ t ∈ blk.exit, ℓ' ∈ t.targets

/-- Every way to a block from `entry` leads through another one. -/
def Dominates (blocks : List Block) (ℓ ℓ' : Label) : Prop :=
  ∀ path : List Label, (Label.entry :: path).IsChain (Edge blocks) →
    (Label.entry :: path).getLast? = some ℓ' → ℓ ∈ Label.entry :: path

/-! ## Names -/

/-- The name of a function. -/
def Func.name : Func → Text
  | print => "print"
  | printf => "printf"
  | main _ => "main"
  | external name _ => name

/-- The global names of a module. -/
def Module.globals (m : Module) : List Text :=
  "._printf_fmt" :: m.funcs.map Func.name

/-- The names of blocks and slots in `main`. -/
def Module.locals (m : Module) : List Text :=
  (m.blocks.map fun blk => blk.label.name) ++
    m.blocks.flatMap fun blk => (allocated blk.body).map fun v => v ++ Text.ofString ".addr"

/-! ## Calls -/

/-- The number of words that a function takes, if it takes nothing else. -/
def Func.words : Func → Option Nat
  | print => some 1
  | printf => none
  | main _ => some 0
  | external _ arity => some arity

/-- The name of the function that an instruction calls, and what is passed. -/
def Instr.call? : Instr → Option (Text × List Operand)
  | print args => some ("print", args)
  | call _ callee args => some (callee, args)
  | _ => none

/-! ## Modules -/

/-- **A well-formed module.** -/
structure Module.WellFormed (m : Module) : Prop where
  /-- Every global name means one thing. -/
  globals : m.globals.Nodup
  /-- Every name of a block or a slot means one thing. -/
  locals : m.locals.Nodup
  /-- Every instruction result has a number of its own. -/
  results : (results m.blocks).Nodup
  /-- Every block has its terminator. -/
  exits : ∀ blk ∈ m.blocks, blk.exit.isSome = true
  /-- Control goes to blocks of `main`, but never back to `entry`. -/
  targets : ∀ ℓ ℓ', Edge m.blocks ℓ ℓ' → ℓ' ≠ .entry ∧ ∃ blk ∈ m.blocks, blk.label = ℓ'
  /-- One block leaves `main`. -/
  leaves : (m.blocks.countP fun blk => blk.exit = some .ret) = 1
  /-- Every block can be reached. -/
  reached : ∀ blk ∈ m.blocks, Relation.ReflTransGen (Edge m.blocks) .entry blk.label
  /-- Every value is made in front of its use, with the right type. -/
  typed : ∀ blk ∈ m.blocks, blk.Typed
  /-- Slots are made in `entry`, and set to zero at once. -/
  made : ∀ blk ∈ m.blocks, ∀ before v, Stands blk.body before (.alloca v) →
    blk.label = .entry ∧ Stands blk.body (before ++ [.alloca v]) (.store (.const 0) v)
  /-- Slots are made and set to zero before they are used. -/
  used : ∀ blk ∈ m.blocks, ∀ before i v, Stands blk.body before i → i.touches = some v →
    (blk.label = .entry ∧ (Clears before i v ∨ Reserves before v)) ∨
      (blk.label ≠ .entry ∧ Dominates m.blocks .entry blk.label ∧
        ∃ entry ∈ m.blocks, entry.label = .entry ∧ Reserves entry.body v)
  /-- Every call is one of a function of the module, and passes as many words as it takes. -/
  calls : ∀ blk ∈ m.blocks, ∀ i ∈ blk.body, ∀ callee args, i.call? = some (callee, args) →
    ∃ f ∈ m.funcs, f.name = callee ∧ f.words = some args.length

end Offside.Ir
