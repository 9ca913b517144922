import Offside.Proofs.Meaning.Source

/-!
# What a module does

The meaning of the intermediate representation of `Ir/Basic`, as far as lowering uses it. The
specification names the instructions (4.4) and leaves their meaning to the representation.

A machine runs the blocks of `main`. It holds what is left of the current block, the results of the
instructions done so far, and the slots of memory. A slot is there once it is allocated and can be
read once something was stored in it. A division faults as in a program. Where an instruction finds
no value, a value of the wrong width, no slot or no block, the machine is stuck.

Calls are events. What an external function answers is up to an environment, which may look at all
calls so far; it cannot touch the slots.

* `Machine.perform` does an instruction, `Machine.goto` enters a block, and `Machine.step` is one or
  the other. `target` is the run of some blocks as a `Process`.
* `computed` and `tested` are the meanings of the arithmetic instructions and the predicates.

Being stuck is a verdict of its own, apart from faulting: a module that reads an empty slot is not
one that divides by zero. That no lowered program gets stuck is part of `Proofs/Lowering/Meaning`.

Results:
* `perform_events`, `goto_events`, `step_events`: a step takes no event back.

Out of scope: functions that do not return, and memory that runs out.
-/

namespace Offside.Meaning

open Offside.Ir

/-- The word that an arithmetic instruction makes of two words. -/
def computed : ArithOp → Int64 → Int64 → Option Int64
  | .add, x, y => some (x + y)
  | .sub, x, y => some (x - y)
  | .mul, x, y => some (x * y)
  | .sdiv, x, y => Word.divide? x y

/-- Whether a predicate holds between two words. -/
def tested : Pred → Int64 → Int64 → Bool
  | .eq, x, y => decide (x = y)
  | .ne, x, y => decide (x ≠ y)
  | .slt, x, y => decide (x < y)
  | .sgt, x, y => decide (y < x)

/-- The result of an instruction. -/
inductive Value where
  | word (w : Int64)
  | bit (b : Bool)
  deriving DecidableEq, Repr

/-- The results of the instructions done so far. -/
abbrev Regs := Nat → Option Value

namespace Regs

/-- The value that an operand holds. -/
def value? (regs : Regs) : Operand → Option Value
  | .const w => some (.word w)
  | .reg id => regs id

/-- The word that an operand holds. -/
def word? (regs : Regs) (x : Operand) : Option Int64 :=
  match regs.value? x with
  | some (.word w) => some w
  | _ => none

/-- The bit that an operand holds. -/
def bit? (regs : Regs) (x : Operand) : Option Bool :=
  match regs.value? x with
  | some (.bit b) => some b
  | _ => none

/-- The words that several operands hold. -/
def words? (regs : Regs) : List Operand → Option (List Int64)
  | [] => some []
  | x :: xs => do
    let w ← regs.word? x
    let ws ← regs.words? xs
    return w :: ws

/-- One more result. -/
def set (regs : Regs) (dst : Nat) (v : Value) : Regs :=
  fun id => if id = dst then some v else regs id

end Regs

/-- A machine in the course of running `main`. -/
structure Machine where
  /-- The instructions of the current block that are still to be done. -/
  code : List Instr
  /-- The terminator of the current block. -/
  exit : Option Terminator
  regs : Regs
  /-- The slots that are allocated, each with the word stored in it last. -/
  slots : Text → Option (Option Int64)
  events : List Event

namespace Machine

/-- The machine behind an instruction with a result. -/
def put (m : Machine) (rest : List Instr) (dst : Nat) (v : Value) : Machine :=
  { m with code := rest, regs := m.regs.set dst v }

/-- The machine behind an instruction that changes a slot. -/
def write (m : Machine) (rest : List Instr) (var : Text) (content : Option Int64) : Machine :=
  { m with code := rest, slots := fun v => if v = var then some content else m.slots v }

/-- The machine behind a call. -/
def record (m : Machine) (rest : List Instr) (e : Event) : Machine :=
  { m with code := rest, events := m.events ++ [e] }

variable (env : List Event → Int64)

/-- Does an instruction, behind which `rest` stands. -/
def perform (m : Machine) (rest : List Instr) : Instr → Verdict Machine
  | .arith dst op left right =>
    match m.regs.word? left, m.regs.word? right with
    | some x, some y =>
      match computed op x y with
      | some w => .next (m.put rest dst (.word w))
      | none => .faulted
    | _, _ => .stuck
  | .compare dst pred left right =>
    match m.regs.word? left, m.regs.word? right with
    | some x, some y => .next (m.put rest dst (.bit (tested pred x y)))
    | _, _ => .stuck
  | .widen dst bit =>
    match m.regs.bit? bit with
    | some b => .next (m.put rest dst (.word (wordOf b)))
    | none => .stuck
  | .alloca var => .next (m.write rest var none)
  | .load dst var =>
    match m.slots var with
    | some (some w) => .next (m.put rest dst (.word w))
    | _ => .stuck
  | .store x var =>
    match m.regs.word? x, m.slots var with
    | some w, some _ => .next (m.write rest var (some w))
    | _, _ => .stuck
  | .print args =>
    match m.regs.words? args with
    | some ws => .next (m.record rest ⟨printName, ws⟩)
    | none => .stuck
  | .call dst callee args =>
    match m.regs.words? args with
    | some ws =>
      let m' := m.record rest ⟨callee, ws⟩
      .next (m'.put rest dst (.word (env m'.events)))
    | none => .stuck

/-- Goes on at the start of a block. -/
def goto (blocks : List Block) (m : Machine) (label : Label) : Verdict Machine :=
  match blocks.find? fun block => block.label = label with
  | some block => .next { m with code := block.body, exit := block.exit }
  | none => .stuck

/-- Does the next instruction or the terminator. -/
def step (blocks : List Block) (m : Machine) : Verdict Machine :=
  match m.code with
  | instr :: rest => m.perform env rest instr
  | [] =>
    match m.exit with
    | some (.jump target) => m.goto blocks target
    | some (.branch cond yes no) =>
      match m.regs.bit? cond with
      | some b => m.goto blocks (if b then yes else no)
      | none => .stuck
    | some .ret => .finished
    | none => .stuck

variable {env}

theorem perform_events {m m' : Machine} {rest : List Instr} {instr : Instr}
    (h : m.perform env rest instr = .next m') : m.events <+: m'.events := by
  unfold perform at h
  split at h
  · split at h
    · split at h
      · obtain rfl := Verdict.next.inj h
        exact List.prefix_rfl
      · exact absurd h (by simp)
    · exact absurd h (by simp)
  · split at h
    · obtain rfl := Verdict.next.inj h
      exact List.prefix_rfl
    · exact absurd h (by simp)
  · split at h
    · obtain rfl := Verdict.next.inj h
      exact List.prefix_rfl
    · exact absurd h (by simp)
  · obtain rfl := Verdict.next.inj h
    exact List.prefix_rfl
  · split at h
    · obtain rfl := Verdict.next.inj h
      exact List.prefix_rfl
    · exact absurd h (by simp)
  · split at h
    · obtain rfl := Verdict.next.inj h
      exact List.prefix_rfl
    · exact absurd h (by simp)
  · split at h
    · obtain rfl := Verdict.next.inj h
      exact List.prefix_append _ _
    · exact absurd h (by simp)
  · split at h
    · obtain rfl := Verdict.next.inj h
      exact List.prefix_append _ _
    · exact absurd h (by simp)

theorem goto_events {blocks : List Block} {m m' : Machine} {label : Label}
    (h : m.goto blocks label = .next m') : m.events <+: m'.events := by
  unfold goto at h
  split at h
  · obtain rfl := Verdict.next.inj h
    exact List.prefix_rfl
  · exact absurd h (by simp)

theorem step_events {blocks : List Block} {m m' : Machine}
    (h : m.step env blocks = .next m') : m.events <+: m'.events := by
  unfold step at h
  split at h
  · exact perform_events h
  · split at h
    · exact goto_events h
    · split at h
      · exact goto_events h
      · exact absurd h (by simp)
    · exact absurd h (by simp)
    · exact absurd h (by simp)

/-- The machine in front of the block `entry`. -/
def start : Machine := ⟨[], some (.jump .entry), fun _ => none, fun _ => none, []⟩

end Machine

/-- **The run of some blocks** in an environment. -/
def target (env : List Event → Int64) (blocks : List Block) : Process Machine Event where
  step := Machine.step env blocks
  events := Machine.events
  grows := fun _ _ => Machine.step_events

end Offside.Meaning
