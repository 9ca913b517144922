import Offside.Proofs.Grammar.Derivation

/-!
# The tokens that a program keeps

The tree of a program holds tokens: names, numbers and operators (specification, 3). That these are
all there are in the source, in their order, says that the parser neither drops nor moves an
operand.

A program keeps the names, the numbers and the operators of its source. The other tokens only say
how the program is put together, and are left out. So the tokens of a program in the order in which
they are read are those of its stream that are of these kinds, and none of them is lost, doubled or
moved.

* `Kind.isKept` are the kinds that a program keeps, and `keptOf` those of some tokens.
* `Expr.tokens`, `Stmt.tokens` and `Stmt.tokensOf` go over a tree from left to right.

Results:
* `Derivation.tokensOf_eq`: the tokens of a program are those of its stream that it keeps. It is
  proved by induction on the derivation, one case for each rule.
* `tokensOf_of_parseTokens`: so for a stream that is read.
-/

namespace Offside

/-- The kinds of tokens that a program keeps. -/
def Kind.isKept : Kind → Bool
  | identifier | number | plus | minus | times | divide | equal | unequal | less | greater => true
  | _ => false

/-- The tokens that a program keeps. -/
def keptOf (ts : List Token) : List Token :=
  ts.filter fun t => t.kind.isKept

/-- The tokens of an expression in order. -/
def Expr.tokens : Expr → List Token
  | .leaf token => [token]
  | .arith left op right | .compare left op right => left.tokens ++ op :: right.tokens
  | .missing => []

namespace Stmt

mutual

/-- The tokens of a statement in order. -/
def tokens : Stmt → List Token
  | .assign target value => target :: value.tokens
  | .call name args => name :: args.flatMap Expr.tokens
  | .ifThen cond body => cond.tokens ++ tokensOf body
  | .ifElse cond body alt => cond.tokens ++ (tokensOf body ++ tokensOf alt)
  | .loop cond body => cond.tokens ++ tokensOf body
  | .missing => []

/-- The tokens of statements in order. -/
def tokensOf : List Stmt → List Token
  | [] => []
  | s :: ss => s.tokens ++ tokensOf ss

end

end Stmt

theorem keptOf_append (ts us : List Token) : keptOf (ts ++ us) = keptOf ts ++ keptOf us :=
  List.filter_append ..

theorem keptOf_keep {t : Token} (h : t.kind.isKept = true) (ts : List Token) :
    keptOf (t :: ts) = t :: keptOf ts :=
  List.filter_cons_of_pos h

theorem keptOf_skip {t : Token} (h : t.kind.isKept = false) (ts : List Token) :
    keptOf (t :: ts) = keptOf ts :=
  List.filter_cons_of_neg (by simp [h])

/-- Operators are kept. -/
theorem Level.isKept_of_accepts {level : Level} {kind : Kind} (h : level.accepts kind = true) :
    kind.isKept = true := by
  cases kind <;> first | rfl | (cases level <;> cases h)

theorem Level.combine_tokens (level : Level) (left : Expr) (op : Token) (right : Expr) :
    (level.combine left op right).tokens = left.tokens ++ op :: right.tokens := by
  cases level <;> rfl

namespace Grammar

theorem Terminal.isKept {kind : Kind} (t : Terminal kind) (h : kind.isKept = true) :
    t.token.kind.isKept = true := by
  rw [t.kind_eq, h]

theorem Terminal.skip {kind : Kind} (t : Terminal kind) (h : kind.isKept = false)
    (ts : List Token) :
    keptOf (t.token :: ts) = keptOf ts :=
  keptOf_skip (by rw [t.kind_eq, h]) ts

mutual

theorem Chain.tokens_expr : ∀ {level : Level} (t : Chain level), t.expr.tokens = keptOf t.tokens
  | _, .mk first more => by
    rw [Chain.expr, Chain.tokens, more.tokens_fold, first.tokens_expr, keptOf_append]

theorem Operand.tokens_expr : ∀ {level : Level} (t : Operand level),
    t.expr.tokens = keptOf t.tokens
  | _, .sum chain => chain.tokens_expr
  | _, .product chain => chain.tokens_expr
  | _, .number t => (keptOf_keep (t.isKept rfl) []).symm
  | _, .name t => (keptOf_keep (t.isKept rfl) []).symm
  | _, .group opening inner closing => by
    rw [Operand.expr, Operand.tokens, inner.tokens_expr, opening.skip rfl, keptOf_append,
      closing.skip rfl]
    exact (List.append_nil _).symm

/-- The tokens of further operands stand behind those of the expression in front of them. -/
theorem Tail.tokens_fold : ∀ {level : Level} (t : Tail level) (left : Expr),
    (t.fold left).tokens = left.tokens ++ keptOf t.tokens
  | _, .nil, left => (List.append_nil _).symm
  | level, .cons op right more, left => by
    rw [Tail.fold, Tail.tokens, more.tokens_fold, Level.combine_tokens, right.tokens_expr,
      keptOf_keep (Level.isKept_of_accepts op.accepted), keptOf_append, List.append_assoc,
      List.cons_append]

end

theorem Args.tokens_exprs (t : Args) : t.exprs.flatMap Expr.tokens = keptOf t.tokens := by
  cases t with
  | none => rfl
  | some first more =>
    rw [Args.exprs, Args.tokens, List.flatMap_cons, keptOf_append, first.tokens_expr]
    refine congrArg _ ?_
    induction more with
    | nil => rfl
    | cons arg more ih =>
      obtain ⟨comma, arg⟩ := arg
      rw [moreArgs, List.flatMap_cons, List.cons_append, comma.skip rfl, keptOf_append,
        List.map_cons, List.flatMap_cons, ih, arg.tokens_expr]
      rfl

/-- The tokens of a header and of what stands behind it. -/
theorem header_kept {k : Kind} (word : Terminal k) (hk : k.isKept = false)
    (cond : Chain .comparison) (colon : Terminal .colon) (ts : List Token) :
    keptOf (word.token :: (cond.tokens ++ colon.token :: ts)) = cond.expr.tokens ++ keptOf ts := by
  rw [word.skip hk, keptOf_append, colon.skip rfl, cond.tokens_expr]

mutual

theorem Statement.tokens_stmt : ∀ t : Statement, t.stmt.tokens = keptOf t.tokens
  | .assign target sign value => by
    rw [Statement.stmt, Stmt.tokens, Statement.tokens, keptOf_keep (target.isKept rfl),
      sign.skip rfl, value.tokens_expr]
  | .call name opening args closing => by
    rw [Statement.stmt, Stmt.tokens, Statement.tokens, keptOf_keep (name.isKept rfl),
      opening.skip rfl, keptOf_append, closing.skip rfl, args.tokens_exprs]
    exact congrArg _ (List.append_nil _).symm
  | .ifThen word cond colon body => by
    rw [Statement.stmt, Stmt.tokens, Statement.tokens, header_kept word rfl, body.tokens_stmts]
  | .ifElse word cond colon body other colon' alt => by
    rw [Statement.stmt, Stmt.tokens, Statement.tokens, header_kept word rfl, keptOf_append,
      other.skip rfl, colon'.skip rfl, body.tokens_stmts, alt.tokens_stmts]
  | .loop word cond colon body => by
    rw [Statement.stmt, Stmt.tokens, Statement.tokens, header_kept word rfl, body.tokens_stmts]

theorem Suite.tokens_stmts : ∀ t : Suite, Stmt.tokensOf t.stmts = keptOf t.tokens
  | .inline items => items.tokens_stmts
  | .indented indent items dedent => by
    have hclosing : keptOf (closing dedent) = [] := by
      cases dedent with
      | none => rfl
      | some marker => exact marker.skip rfl []
    rw [Suite.stmts, Suite.tokens, items.tokens_stmts, indent.skip rfl, keptOf_append, hclosing,
      List.append_nil]

theorem Items.tokens_stmts : ∀ t : Items, Stmt.tokensOf t.stmts = keptOf t.tokens
  | .nil => rfl
  | .colon token more => by
    rw [Items.stmts, Items.tokens, token.skip rfl, more.tokens_stmts]
  | .stmt s more => by
    rw [Items.stmts, Stmt.tokensOf, Items.tokens, keptOf_append, s.tokens_stmt, more.tokens_stmts]

end

/-- **The tokens of a program are those of its stream that it keeps.** -/
theorem Derivation.tokensOf_eq {stream : List Token} (d : Derivation stream) :
    Stmt.tokensOf d.items.stmts = keptOf stream := by
  rw [d.items.tokens_stmts, d.tokens_eq]

end Grammar

/-- The tokens of a program that is read from tokens. -/
theorem tokensOf_of_parseTokens {ts : List Token} {program : Program}
    (h : parseTokens ts = .ok program) : Stmt.tokensOf program = keptOf (streamOf ts) := by
  obtain ⟨d, rfl⟩ := derivation_of_parseTokens h
  exact d.tokensOf_eq

end Offside
