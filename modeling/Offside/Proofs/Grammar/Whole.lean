import Offside.Proofs.Grammar.Derivation

/-!
# Programs without gaps

The syntax tree admits more than the parser makes: empty references, tokens of any kind as leaves,
operators in the wrong place (`Program/Basic`). No partly built node is ever exposed (specification,
3), so none of this is in a program that was read.

A program that is read from tokens is whole: no statement and no expression is missing, its leaves
are numbers and names, and each of its operators is of the level on which it stands.

Results:
* `Expr.IsWhole.combine`: an operator of a level makes a whole expression of two whole operands.
* `areWhole_of_parseTokens`: every program that is read from tokens is whole. It is proved along the
  derivation of the program.
-/

namespace Offside

namespace Expr

/-- No part of the expression is missing, and its tokens are of the kinds that may stand there. -/
def IsWhole : Expr → Prop
  | .leaf token => token.kind = .number ∨ token.kind = .identifier
  | .arith left op right =>
    left.IsWhole ∧ (Level.sum.accepts op.kind = true ∨ Level.product.accepts op.kind = true) ∧
      right.IsWhole
  | .compare left op right => left.IsWhole ∧ Level.comparison.accepts op.kind = true ∧ right.IsWhole
  | .missing => False

/-- An operator of a level makes a whole expression of two whole operands. -/
theorem IsWhole.combine {left right : Expr} {op : Token} :
    ∀ {level : Level}, left.IsWhole → level.accepts op.kind = true → right.IsWhole →
      (level.combine left op right).IsWhole
  | .comparison, hl, hop, hr => ⟨hl, hop, hr⟩
  | .sum, hl, hop, hr => ⟨hl, Or.inl hop, hr⟩
  | .product, hl, hop, hr => ⟨hl, Or.inr hop, hr⟩

end Expr

namespace Stmt

mutual

/-- No part of the statement is missing. -/
def IsWhole : Stmt → Prop
  | .assign _ value => value.IsWhole
  | .call _ args => ∀ e ∈ args, e.IsWhole
  | .ifThen cond body => cond.IsWhole ∧ AreWhole body
  | .ifElse cond body alt => cond.IsWhole ∧ AreWhole body ∧ AreWhole alt
  | .loop cond body => cond.IsWhole ∧ AreWhole body
  | .missing => False

/-- No part of the statements is missing. -/
def AreWhole : List Stmt → Prop
  | [] => True
  | s :: ss => s.IsWhole ∧ AreWhole ss

end

end Stmt

namespace Grammar

mutual

theorem Chain.isWhole : ∀ {level : Level} (t : Chain level), t.expr.IsWhole
  | _, .mk first more => more.isWhole_fold first.isWhole

theorem Operand.isWhole : ∀ {level : Level} (t : Operand level), t.expr.IsWhole
  | _, .sum chain => chain.isWhole
  | _, .product chain => chain.isWhole
  | _, .number t => Or.inl t.kind_eq
  | _, .name t => Or.inr t.kind_eq
  | _, .group _ inner _ => inner.isWhole

/-- Further operands behind a whole one leave the expression whole. -/
theorem Tail.isWhole_fold : ∀ {level : Level} (t : Tail level) {left : Expr}, left.IsWhole →
    (t.fold left).IsWhole
  | _, .nil, _, h => h
  | _, .cons op right more, _, h => more.isWhole_fold (h.combine op.accepted right.isWhole)

end

theorem Args.isWhole (t : Args) : ∀ e ∈ t.exprs, e.IsWhole := by
  intro e he
  cases t with
  | none => exact absurd he List.not_mem_nil
  | some first more =>
    rcases List.mem_cons.mp he with rfl | he
    · exact first.isWhole
    · obtain ⟨arg, -, rfl⟩ := List.mem_map.mp he
      exact arg.2.isWhole

mutual

theorem Statement.isWhole : ∀ t : Statement, t.stmt.IsWhole
  | .assign _ _ value => value.isWhole
  | .call _ _ args _ => args.isWhole
  | .ifThen _ cond _ body => ⟨cond.isWhole, body.areWhole⟩
  | .ifElse _ cond _ body _ _ alt => ⟨cond.isWhole, body.areWhole, alt.areWhole⟩
  | .loop _ cond _ body => ⟨cond.isWhole, body.areWhole⟩

theorem Suite.areWhole : ∀ t : Suite, Stmt.AreWhole t.stmts
  | .inline items => items.areWhole
  | .indented _ items _ => items.areWhole

theorem Items.areWhole : ∀ t : Items, Stmt.AreWhole t.stmts
  | .nil => trivial
  | .colon _ more => more.areWhole
  | .stmt s more => ⟨s.isWhole, more.areWhole⟩

end

end Grammar

/-- **A program that is read from tokens has no gaps.** -/
theorem areWhole_of_parseTokens {ts : List Token} {program : Program}
    (h : parseTokens ts = .ok program) : Stmt.AreWhole program := by
  obtain ⟨d, rfl⟩ := derivation_of_parseTokens h
  exact d.items.areWhole

end Offside
