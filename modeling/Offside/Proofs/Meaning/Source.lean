import Offside.Ir.Lower
import Offside.Proofs.Meaning.Run

/-!
# What a program does

The meaning of the language, as the specification has it: what the statements are (4.2), that values
are signed words of 64 bits, that comparisons are one or zero, and that a condition that is no
comparison is compared with zero (4.4).

A program is run on a store of words, in which every variable starts at zero. Arithmetic wraps
around at 64 bits; a division truncates toward zero, and faults when the divisor is zero or the
quotient does not fit a word. A comparison is one or zero. A condition holds when it is not zero.
What can be seen of a run are its calls: each one is an event with the name of the function and the
words it is given. Results of calls are dropped.

The state of a run is the list of statements that are still to be done. A loop whose condition holds
puts its block in front of itself.

* `arithmetic`, `comparison` and `divide?` are the meanings of the operators, and `value` that
  of an expression, from left to right.
* `State.step` does the next statement. `source` is the run of a program as a `Process`.

Results:
* `step_events`: a step takes no event back.
* `step_ne_stuck`: a program is never stuck.

Out of scope: whether a variable is read before it is given a value. Such a program is not lowered
(`Proofs/Lowering/Offence`), and here the variable is zero.
-/

namespace Offside

namespace Word

/-- The quotient, rounded toward zero, if it is there and fits a word. -/
def divide? (x y : Int64) : Option Int64 :=
  if y = 0 ∨ (x = Int64.minValue ∧ y = -1) then none else some (x / y)

end Word

namespace Meaning

/-- A call of a function with some words. -/
structure Event where
  callee : Text
  args : List Int64
  deriving DecidableEq, Repr

/-- The words that variables hold. -/
abbrev Store := Text → Int64

namespace Store

/-- Every variable starts at zero. -/
def start : Store := fun _ => 0

/-- The store in which a variable holds another word. -/
def set (σ : Store) (var : Text) (w : Int64) : Store :=
  fun v => if v = var then w else σ v

@[simp] theorem set_self (σ : Store) (var : Text) (w : Int64) : σ.set var w var = w := by
  simp [set]

theorem set_of_ne (σ : Store) {var v : Text} (w : Int64) (h : v ≠ var) : σ.set var w v = σ v := by
  simp [set, h]

end Store

/-- The word that an arithmetic operator makes of two words. -/
def arithmetic : Kind → Int64 → Int64 → Option Int64
  | .plus, x, y => some (x + y)
  | .minus, x, y => some (x - y)
  | .times, x, y => some (x * y)
  | .divide, x, y => Word.divide? x y
  | _, _, _ => none

/-- Whether a comparison holds between two words. -/
def comparison : Kind → Int64 → Int64 → Option Bool
  | .equal, x, y => some (decide (x = y))
  | .unequal, x, y => some (decide (x ≠ y))
  | .less, x, y => some (decide (x < y))
  | .greater, x, y => some (decide (y < x))
  | _, _, _ => none

/-- One for what holds and zero for what does not. -/
def wordOf (b : Bool) : Int64 := if b then 1 else 0

/-- The word that an expression stands for; a fault has none. -/
def value (σ : Store) : Expr → Option Int64
  | .leaf token =>
    match token.kind with
    | .number => some token.num
    | .identifier => some (σ token.value)
    | _ => none
  | .arith left op right => do
    let x ← value σ left
    let y ← value σ right
    arithmetic op.kind x y
  | .compare left op right => do
    let x ← value σ left
    let y ← value σ right
    (comparison op.kind x y).map wordOf
  | .missing => none

/-- Whether a condition holds: its word is not zero. -/
def holds (σ : Store) (cond : Expr) : Option Bool :=
  (value σ cond).map fun w => decide (w ≠ 0)

/-- The words that several expressions stand for, computed from left to right. -/
def values (σ : Store) : List Expr → Option (List Int64)
  | [] => some []
  | e :: es => do
    let w ← value σ e
    let ws ← values σ es
    return w :: ws

/-- A program in the course of its run. -/
structure State where
  /-- The statements that are still to be done, the next one first. -/
  todo : List Stmt
  store : Store
  events : List Event

/-- Goes on with the first statements if a condition holds, with the second ones if not. -/
def State.choose (s : State) (cond : Expr) (yes no : List Stmt) : Verdict State :=
  match holds s.store cond with
  | some true => .next { s with todo := yes }
  | some false => .next { s with todo := no }
  | none => .faulted

/-- Does the next statement. -/
def State.step (s : State) : Verdict State :=
  match s.todo with
  | [] => .finished
  | .assign target e :: rest =>
    match value s.store e with
    | some w => .next { s with todo := rest, store := s.store.set target.value w }
    | none => .faulted
  | .call name args :: rest =>
    match values s.store args with
    | some ws => .next { s with todo := rest, events := s.events ++ [⟨name.value, ws⟩] }
    | none => .faulted
  | .ifThen cond body :: rest => s.choose cond (body ++ rest) rest
  | .ifElse cond body alt :: rest => s.choose cond (body ++ rest) (alt ++ rest)
  | .loop cond body :: rest => s.choose cond (body ++ .loop cond body :: rest) rest
  | .missing :: _ => .faulted

theorem State.choose_events {s s' : State} {cond : Expr} {yes no : List Stmt}
    (h : s.choose cond yes no = .next s') : s.events <+: s'.events := by
  unfold choose at h
  split at h
  · obtain rfl := Verdict.next.inj h
    exact List.prefix_rfl
  · obtain rfl := Verdict.next.inj h
    exact List.prefix_rfl
  · exact absurd h (by simp)

theorem State.step_events {s s' : State} (h : s.step = .next s') : s.events <+: s'.events := by
  unfold step at h
  split at h
  · exact absurd h (by simp)
  · split at h
    · obtain rfl := Verdict.next.inj h
      exact List.prefix_rfl
    · exact absurd h (by simp)
  · split at h
    · obtain rfl := Verdict.next.inj h
      exact List.prefix_append _ _
    · exact absurd h (by simp)
  · exact choose_events h
  · exact choose_events h
  · exact choose_events h
  · exact absurd h (by simp)

theorem State.step_ne_stuck (s : State) : s.step ≠ .stuck := by
  unfold step choose
  split <;> (try split) <;> simp

/-- **The run of a program.** -/
def source : Process State Event where
  step := State.step
  events := State.events
  grows := fun _ _ => State.step_events

/-- The start of the run of a program. -/
def State.start (program : Program) : State := ⟨program, .start, []⟩

end Meaning

end Offside
