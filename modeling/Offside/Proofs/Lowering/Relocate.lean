import Offside.Proofs.Lowering.Blame
import Offside.Proofs.SExpr.Unique

/-!
# Lowering does not look at positions

`Ir.lower` on programs that differ in the positions of their tokens only.

Where the tokens of a program stand shows in its code nowhere, and in an error as the place of the
error only. So lowering a program whose tokens are moved gives the same module, or the same error at
the place to which its token is moved. As the S-expression determines all of a program but the
positions, the layout of a source has no influence on its code.

* `LowerError.relocate` is the error at the place where a map moves it.
* `Moved` compares two results of lowering, and `Moved.bind` puts two parts together.

Results:
* `lowerExpr_moved`, `lowerStmts_moved`: lowering expressions and statements whose tokens are moved.
* `lower_relocate`: lowering a program whose tokens are moved.
* `lower_of_sexpr_eq`: programs of sources with the same S-expression are lowered to the same
  module, or fail with the same error but for its position.
-/

namespace Offside.Ir

/-- The error at the place where a map moves it. -/
def LowerError.relocate (f : Position → Position) : LowerError → LowerError
  | .undefined name pos => .undefined name (f pos)
  | .arity name pos want got => .arity name (f pos) want got
  | .reserved name pos => .reserved name (f pos)
  | .noStatement => .noStatement
  | .noExpression => .noExpression
  | .badOperand token => .badOperand (token.relocate f)
  | .badComparison token => .badComparison (token.relocate f)
  | .badOperator token => .badOperator (token.relocate f)

/-- Two results of lowering, the second of which is the first with its error moved. -/
def Moved {α : Type} (f : Position → Position) (x y : Except LowerError α) : Prop :=
  y = x.mapError (LowerError.relocate f)

section Moved

variable {α β : Type} {f : Position → Position} {x y : Except LowerError α}

theorem moved_ok (f : Position → Position) (a : α) : Moved f (.ok a) (.ok a) :=
  rfl

theorem moved_error (f : Position → Position) (e : LowerError) :
    Moved f (.error e : Except LowerError α) (.error (e.relocate f)) :=
  rfl

/-- **Lowering in two parts is moved part by part.** -/
theorem Moved.bind {g g' : α → Except LowerError β} (h : Moved f x y)
    (hg : ∀ a, Moved f (g a) (g' a)) : Moved f (x >>= g) (y >>= g') := by
  rw [Moved] at h
  subst h
  cases x with
  | ok a => exact hg a
  | error e => rfl

end Moved

namespace Builder

variable (f : Position → Position) (b : Builder)

theorem lowerLeaf_moved (token : Token) :
    Moved f (b.lowerLeaf token) (b.lowerLeaf (token.relocate f)) := by
  have hkind : (token.relocate f).kind = token.kind := rfl
  have hvalue : (token.relocate f).value = token.value := rfl
  unfold lowerLeaf
  rw [hkind, hvalue]
  cases token.kind with
  | number => exact moved_ok f _
  | identifier =>
    simp only
    split
    · exact moved_ok f _
    · exact moved_error f _
  | _ => exact moved_error f _

theorem lowerBinary_moved (op? : Option BinaryOp) (unknown : LowerError) (x y : Operand) :
    Moved f (b.lowerBinary op? unknown x y) (b.lowerBinary op? (unknown.relocate f) x y) := by
  cases op? with
  | some op => exact moved_ok f _
  | none => exact moved_error f _

theorem lowerExpr_moved (e : Expr) :
    Moved f (b.lowerExpr e) (b.lowerExpr (e.mapTokens (Token.relocate f))) := by
  induction e generalizing b with
  | leaf token => exact lowerLeaf_moved f b token
  | arith left op right ihl ihr =>
    rw [Expr.mapTokens, lowerExpr, lowerExpr]
    refine (ihl b).bind ?_
    rintro ⟨x, b₁⟩
    refine (ihr b₁).bind ?_
    rintro ⟨y, b₂⟩
    exact lowerBinary_moved f b₂ _ (.badOperator op) x y
  | compare left op right ihl ihr =>
    rw [Expr.mapTokens, lowerExpr, lowerExpr]
    refine (ihl b).bind ?_
    rintro ⟨x, b₁⟩
    refine (ihr b₁).bind ?_
    rintro ⟨y, b₂⟩
    exact (lowerBinary_moved f b₂ _ (.badComparison op) x y).bind fun _ => moved_ok f _
  | missing => exact moved_error f _

theorem lowerExprs_moved (es : List Expr) :
    Moved f (b.lowerExprs es) (b.lowerExprs (es.map (Expr.mapTokens (Token.relocate f)))) := by
  induction es generalizing b with
  | nil => exact moved_ok f _
  | cons e es ih =>
    rw [List.map_cons, lowerExprs, lowerExprs]
    refine (lowerExpr_moved f b e).bind ?_
    rintro ⟨x, b₁⟩
    exact (ih b₁).bind fun _ => moved_ok f _

/-- A condition that is no comparison is an expression whose word is compared with zero. -/
theorem nonzero_moved (cond : Expr) : Moved f
    (do
      let (x, b) ← b.lowerExpr cond
      return b.emitResult (.compare · .ne x (.const 0)))
    (do
      let (x, b) ← b.lowerExpr (cond.mapTokens (Token.relocate f))
      return b.emitResult (.compare · .ne x (.const 0))) :=
  (lowerExpr_moved f b cond).bind fun _ => moved_ok f _

theorem lowerCond_moved (cond : Expr) :
    Moved f (b.lowerCond cond) (b.lowerCond (cond.mapTokens (Token.relocate f))) := by
  cases cond with
  | compare left op right =>
    rw [Expr.mapTokens, lowerCond, lowerCond]
    refine (lowerExpr_moved f b left).bind ?_
    rintro ⟨x, b₁⟩
    refine (lowerExpr_moved f b₁ right).bind ?_
    rintro ⟨y, b₂⟩
    exact lowerBinary_moved f b₂ _ (.badComparison op) x y
  | _ => exact nonzero_moved f b _

theorem lowerCall_moved (name : Token) (args : List Expr) :
    Moved f (b.lowerCall name args)
      (b.lowerCall (name.relocate f) (args.map (Expr.mapTokens (Token.relocate f)))) := by
  have hvalue : (name.relocate f).value = name.value := rfl
  unfold lowerCall
  rw [hvalue, List.length_map]
  split
  · exact moved_error f _
  · generalize b.declare name.value args.length = d
    obtain ⟨arity, b₁⟩ := d
    simp only
    split
    · exact moved_error f _
    · refine (lowerExprs_moved f b₁ args).bind ?_
      rintro ⟨xs, b₂⟩
      split <;> exact moved_ok f _

mutual

/-- **Lowering a statement whose tokens are moved.** -/
theorem lowerStmt_moved : ∀ (s : Stmt) (b : Builder),
    Moved f (b.lowerStmt s) (b.lowerStmt (s.mapTokens (Token.relocate f)))
  | .assign target value, b => by
    rw [Stmt.mapTokens, lowerStmt, lowerStmt]
    exact (lowerExpr_moved f b value).bind fun _ => moved_ok f _
  | .call name args, b => lowerCall_moved f b name args
  | .ifThen cond body, b => by
    rw [Stmt.mapTokens, lowerStmt, lowerStmt]
    refine (lowerCond_moved f b cond).bind ?_
    rintro ⟨bit, b₁⟩
    exact (lowerStmts_moved body _).bind fun _ => moved_ok f _
  | .ifElse cond body alt, b => by
    rw [Stmt.mapTokens, lowerStmt, lowerStmt]
    refine (lowerCond_moved f b cond).bind ?_
    rintro ⟨bit, b₁⟩
    refine (lowerStmts_moved body _).bind fun b₂ => ?_
    exact (lowerStmts_moved alt _).bind fun _ => moved_ok f _
  | .loop cond body, b => by
    rw [Stmt.mapTokens, lowerStmt, lowerStmt]
    refine (lowerCond_moved f _ cond).bind ?_
    rintro ⟨bit, b₁⟩
    exact (lowerStmts_moved body _).bind fun _ => moved_ok f _
  | .missing, _ => moved_error f _

/-- **Lowering statements whose tokens are moved.** -/
theorem lowerStmts_moved : ∀ (ss : List Stmt) (b : Builder),
    Moved f (b.lowerStmts ss) (b.lowerStmts (Stmt.mapAll (Token.relocate f) ss))
  | [], _ => moved_ok f _
  | s :: ss, b => by
    rw [Stmt.mapAll, lowerStmts, lowerStmts]
    exact (lowerStmt_moved s b).bind fun b₁ => lowerStmts_moved ss b₁

end

end Builder

/-- **Lowering a program whose tokens are moved** gives the same module, or the same error where its
token is moved. -/
theorem lower_relocate (f : Position → Position) (options : Options) (p : Program) :
    lower options (p.relocate f) = (lower options p).mapError (LowerError.relocate f) :=
  (Builder.lowerStmts_moved f p .start).bind fun _ => moved_ok f _

/-- **The code of a program depends on its S-expression only.** Two programs of sources with the
same S-expression are lowered to the same module, or lowering fails for both, with the same error
but for its position. -/
theorem lower_of_sexpr_eq (options : Options) {tab tab' : TabWidth} {src src' : Text}
    {p p' : Program} (hp : parse tab src = .ok p) (hp' : parse tab' src' = .ok p')
    (h : p'.sexpr = p.sexpr) :
    match lower options p', lower options p with
    | .ok m', .ok m => m' = m
    | .error e', .error e => (e'.relocate fun _ => .unset) = e.relocate fun _ => .unset
    | _, _ => False := by
  have hsame : p'.relocate (fun _ => .unset) = p.relocate fun _ => .unset :=
    unplaced_eq_of_sexpr_eq hp hp' h
  have hlower := congrArg (lower options) hsame
  rw [lower_relocate, lower_relocate] at hlower
  generalize lower options p = x, lower options p' = y at hlower
  cases x with
  | ok m =>
    cases y with
    | ok m' => exact Except.ok.inj hlower
    | error e' => cases hlower
  | error e =>
    cases y with
    | ok m' => cases hlower
    | error e' => exact Except.error.inj hlower

/-- The two layouts are lowered to one module. -/
theorem lower_of_sexpr_eq_long :
    parse .standard (Text.ofString shortSource) = .ok shortProgram ∧
      parse ⟨4, by decide⟩ (Text.ofString longSource) = .ok longProgram ∧
      longProgram.sexpr = shortProgram.sexpr ∧
      ∃ m, lower ⟨[], []⟩ shortProgram = .ok m ∧ lower ⟨[], []⟩ longProgram = .ok m := by
  refine ⟨parse_short, parse_long, sexpr_long, ?_⟩
  have hsame := lower_of_sexpr_eq ⟨[], []⟩ parse_short parse_long sexpr_long
  obtain ⟨m, hm⟩ : ∃ m, lower ⟨[], []⟩ shortProgram = .ok m := ⟨_, rfl⟩
  rw [hm] at hsame
  cases hlong : lower ⟨[], []⟩ longProgram with
  | ok m' =>
    rw [hlong] at hsame
    exact ⟨m, hm, congrArg Except.ok hsame⟩
  | error e =>
    rw [hlong] at hsame
    exact hsame.elim

end Offside.Ir
