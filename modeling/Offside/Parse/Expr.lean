import Offside.Parse.Cursor
import Offside.Program.Basic

/-!
# Reading expressions

Model of the rules `boolean_expression`, `expression`, `term`, `factor` and `arg_list`
(specification, 4.2; the functions `booleanExpression`, `expression`, `term`, `factor`,
`parenthesisedExpression` and `argList` of the parser).

Operators bind on three levels: products bind tighter than sums, and sums tighter than comparisons.
On each level a chain of operands is grouped to the left. Parentheses hold a sum, so a comparison
stands only outside of them, as the condition of a statement.

* `booleanExpression`, `expression` and `term` are one function, `chain`, at the levels
  `Level.comparison`, `Level.sum` and `Level.product`. They differ in the operators they take
  (`Level.accepts`), in the node they build (`Level.combine`) and in the rule for their operands
  (`operand`).
* `chainTail` is the loop of these three. It holds the expression read so far, as the loop does in
  its variable `lhs`, so an operator takes everything to its left for its left operand.
* `factor` is `factor` with `parenthesisedExpression` in it. Its error names the rule `factor`.
* `argumentList` is `argList`: nothing in front of a closing parenthesis, otherwise `arguments`, the
  loop over sums with commas between them. The closing parenthesis is left to the call.

The functions call each other downwards on a cursor that has not moved, and upwards only behind a
parenthesis or an operator. The measure counts the tokens that are left eight times and adds the
rank of the level, which is what the recursion descends on.
-/

namespace Offside

/-- The levels of operators. -/
inductive Level where
  | comparison
  | sum
  | product
  deriving DecidableEq, Repr

namespace Level

/-- Whether a token of this kind is an operator of the level. -/
def accepts : Level → Kind → Bool
  | comparison, .equal | comparison, .unequal | comparison, .less | comparison, .greater => true
  | sum, .plus | sum, .minus => true
  | product, .times | product, .divide => true
  | _, _ => false

/-- The expression that an operator of the level makes of two operands. -/
def combine : Level → Expr → Token → Expr → Expr
  | comparison => .compare
  | sum | product => .arith

/-- The nesting of the level above the leaves of an expression. -/
def rank : Level → Nat
  | comparison => 5
  | sum => 3
  | product => 1

theorem ne_eof_of_accepts {level : Level} {kind : Kind} (h : level.accepts kind = true) :
    kind ≠ .eof := by
  rintro rfl
  cases level <;> cases h

end Level

namespace Cursor

mutual

/-- Reads operands of a level with its operators between them. -/
def chain (level : Level) (c : Cursor) : Reading Expr c.size :=
  (operand level c).andThen fun left c' h => (chainTail level left c').relax h
termination_by 8 * c.size + level.rank + 1

/-- Reads what an operator of the level binds. -/
def operand (level : Level) (c : Cursor) : Reading Expr c.size :=
  match level with
  | .comparison => chain .sum c
  | .sum => chain .product c
  | .product => factor c
termination_by 8 * c.size + level.rank
decreasing_by all_goals simp only [Level.rank]; omega

/-- Reads a number, a name, or a sum in parentheses. -/
def factor (c : Cursor) : Reading Expr c.size :=
  if leaf : c.cur.kind = .number ∨ c.cur.kind = .identifier then
    .ok (.leaf c.cur) c.advance (c.advance_size_lt (by rcases leaf with h | h <;> simp [h]))
  else if paren : c.cur.kind = .openParen then
    have less := c.advance_size_lt (by simp [paren])
    ((chain .sum c.advance).andThen fun inner c' h =>
      ((c'.expect .closeParen).map fun _ => inner).relax h).relax (Nat.le_of_lt less)
  else .error (.wrongStart c.cur "factor") c
termination_by 8 * c.size
decreasing_by simp only [Level.rank]; omega

/-- Reads further operators of the level and their right operands, behind the operand `left`. -/
def chainTail (level : Level) (left : Expr) (c : Cursor) : Reading Expr (c.size + 1) :=
  if more : level.accepts c.cur.kind = true then
    have less := c.advance_size_lt (Level.ne_eof_of_accepts more)
    ((operand level c.advance).andThen fun right c' h =>
      (chainTail level (level.combine left c.cur right) c').relax h).relax
        (Nat.le_succ_of_le (Nat.le_of_lt less))
  else .ok left c (Nat.lt_succ_self _)
termination_by 8 * c.size + 7
decreasing_by
  · have : level.rank ≤ 5 := by cases level <;> simp [Level.rank]
    omega
  · omega

end

/-- Reads one or more sums with commas between them. -/
def arguments (c : Cursor) : Reading (List Expr) c.size :=
  (chain .sum c).andThen fun arg c' h =>
    if comma : c'.cur.kind = .comma then
      have less := c'.advance_size_lt (by simp [comma])
      ((arguments c'.advance).map (arg :: ·)).relax (Nat.le_of_lt (Nat.lt_trans less h))
    else .ok [arg] c' h
termination_by c.size

/-- Reads the arguments of a call up to the closing parenthesis, which is left (`argList`). -/
def argumentList (c : Cursor) : Reading (List Expr) (c.size + 1) :=
  if c.cur.kind = .closeParen then .ok [] c (Nat.lt_succ_self _)
  else (arguments c).relax (Nat.le_succ _)

end Cursor

end Offside
