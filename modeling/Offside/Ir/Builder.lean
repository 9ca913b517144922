import Offside.Ir.Basic

/-!
# Building the blocks of a module

Model of the state of the code generator (specification, 4.4): the builder with its current block,
its look-up of slots and of functions, and its counter of labels (`slot`, `nextLabel`, and the
making of blocks and instructions in `ifStatement` and `whileStatement`).

A builder holds the blocks made so far and a current block, to which instructions are added. A block
is known by its label, so what the generator does through a reference to a block is `modifyBlock`
here, and the current block is a label.

* `Builder.start` is the new builder with an empty entry block and no variable.
* `emit` and `emitResult` add an instruction to the current block; `emitResult` also gives it the
  next number and answers the operand that stands for it.
* `leave` is what ends a block, `addBlocks` what creates blocks behind the others, and `enter` the
  assignment of the current block.
* `ensureSlot` is `slot`: the slot of a variable is always made in the entry block, also when that
  block is already left, so every slot exists and holds zero before the first jump.
* `nextLabel` is `nextLabel`: all blocks of one statement share a number.

`leave` overwrites the exit of a block, as the generator does. The lowering of a program leaves each
block once.
-/

namespace Offside.Ir

/-- A module under construction. -/
structure Builder where
  /-- The blocks in the order of their creation. -/
  blocks : List Block
  /-- The block that instructions are added to. -/
  current : Label
  /-- The variables that have a slot, in the order of their first assignment. -/
  slots : List Text
  /-- The parameter counts of the external functions in the order of their first call. -/
  externals : Lookup Nat
  /-- The number of the statement that made blocks last. -/
  labels : Nat
  /-- The number of instruction results. -/
  regs : Nat
  deriving DecidableEq, Repr

namespace Builder

/-- The builder with an empty entry block (`NewLLVMIRBuilder`). -/
def start : Builder where
  blocks := [⟨.entry, [], none⟩]
  current := .entry
  slots := []
  externals := .empty
  labels := 0
  regs := 0

/-- Changes the block with a given label. -/
def modifyBlock (b : Builder) (label : Label) (f : Block → Block) : Builder :=
  { b with blocks := b.blocks.map fun block => if block.label = label then f block else block }

/-- Adds instructions to the block with a given label. -/
def emitTo (b : Builder) (label : Label) (instrs : List Instr) : Builder :=
  b.modifyBlock label fun block => { block with body := block.body ++ instrs }

/-- Adds an instruction to the current block. -/
def emit (b : Builder) (instr : Instr) : Builder :=
  b.emitTo b.current [instr]

/-- Adds an instruction with a result to the current block. -/
def emitResult (b : Builder) (instr : Nat → Instr) : Operand × Builder :=
  (.reg b.regs, { b.emit (instr b.regs) with regs := b.regs + 1 })

/-- Ends the current block. -/
def leave (b : Builder) (exit : Terminator) : Builder :=
  b.modifyBlock b.current fun block => { block with exit := some exit }

/-- Creates blocks behind the others. -/
def addBlocks (b : Builder) (labels : List Label) : Builder :=
  { b with blocks := b.blocks ++ labels.map fun label => ⟨label, [], none⟩ }

/-- Goes on in another block. -/
def enter (b : Builder) (label : Label) : Builder :=
  { b with current := label }

/-- Takes the next number for the blocks of a statement. -/
def nextLabel (b : Builder) : Nat × Builder :=
  (b.labels + 1, { b with labels := b.labels + 1 })

/-- Makes the slot of a variable, holding zero, unless there is one (`slot`). -/
def ensureSlot (b : Builder) (var : Text) : Builder :=
  if b.slots.contains var then b
  else
    { b.emitTo .entry [.alloca var, .store (.const 0) var] with slots := b.slots ++ [var] }

end Builder

end Offside.Ir
