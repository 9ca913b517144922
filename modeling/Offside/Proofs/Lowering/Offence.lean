import Offside.Proofs.Grammar.Whole
import Offside.Proofs.Lowering.Builder

/-!
# The first offence

When `Ir.lower` fails, and with which error, told from the program alone (specification, 4.4:
undefined variables, wrong numbers of arguments, reserved names).

A program uses names: it reads variables, gives them values and calls functions. `Stmt.usesOf` lists
these uses in program order, the blocks of a conditional one behind the other and the block of a
loop once, whatever the program does when it runs. Whether a use offends is a matter of the uses in
front of it (`offence?`): a variable is read that was given no value, a function is called that
belongs to the module, or it is called with another number of arguments than the first time.

* `paramCount?` is the number of parameters of a function behind some uses: those of the first call
  of it, or the one of the builtin.
* `firstOffence?` is the first offence of some uses, and `Lawful` says that there is none.

Lowering keeps a table of slots and a table of functions instead of the uses (`Knows`). Each of its
functions either succeeds on uses of which none offends, or fails with the first offence among them
(`Agrees`). `Agrees.bind` puts two parts together, so each function of the generator is one short
proof.

Results:
* `firstOffence?_eq_none`, `firstOffence?_eq_some`: what it means to be the first offence.
* `lowerExpr_agrees`, `lowerCall_agrees`: the same for expressions and calls.
* `lowerStmts_agrees`: lowering statements without gaps meets the first offence of their uses.
* `lower_append_error`: a program that cannot be lowered is not repaired by statements behind it.
* `lower_fails_iff_offends`: the programs that are lowered are those without an offence, and the
  others fail with their first one.
-/

namespace Offside

/-! ## The uses of names -/

/-- What a program does with a name in one place. -/
inductive Use where
  /-- The value of a variable is read. -/
  | read (token : Token)
  /-- A variable is given a value. -/
  | write (name : Text)
  /-- A function is called. -/
  | call (name : Token) (argCount : Nat)
  deriving DecidableEq, Repr

/-- The variables that an expression reads, from left to right. -/
def Expr.uses : Expr → List Use
  | .leaf token => if token.kind = .identifier then [.read token] else []
  | .arith left _ right => left.uses ++ right.uses
  | .compare left _ right => left.uses ++ right.uses
  | .missing => []

namespace Stmt

mutual

/-- The uses of names in a statement, in program order. A variable has its value behind the
expression that the value is computed with, and a function is called in front of its arguments. -/
def uses : Stmt → List Use
  | .assign target value => value.uses ++ [.write target.value]
  | .call name args => .call name args.length :: args.flatMap Expr.uses
  | .ifThen cond body => cond.uses ++ usesOf body
  | .ifElse cond body alt => cond.uses ++ (usesOf body ++ usesOf alt)
  | .loop cond body => cond.uses ++ usesOf body
  | .missing => []

/-- The uses of names in some statements. -/
def usesOf : List Stmt → List Use
  | [] => []
  | s :: ss => s.uses ++ usesOf ss

end

end Stmt

namespace Ir

/-! ## Offences -/

/-- The number of arguments that a use passes to a function. -/
def argCount? (name : Text) : Use → Option Nat
  | .call callee argCount => if callee.value = name then some argCount else none
  | _ => none

/-- The number of parameters of a function behind some uses: those of the first call of it, or the
one of the function that prints. -/
def paramCount? (before : List Use) (name : Text) : Option Nat :=
  if name = printName then some 1 else before.findSome? (argCount? name)

/-- The offence of a use behind others. -/
def offence? (before : List Use) : Use → Option LowerError
  | .read token =>
    if .write token.value ∈ before then none else some (.undefined token.value token.pos)
  | .write _ => none
  | .call name argCount =>
    if name.value ∈ reservedNames then some (.reserved name.value name.pos)
    else
      match paramCount? before name.value with
      | some want =>
        if want = argCount then none else some (.arity name.value name.pos want argCount)
      | none => none

/-- The first offence of some uses behind others. -/
def firstOffence? (before : List Use) : List Use → Option LowerError
  | [] => none
  | use :: rest => (offence? before use).or (firstOffence? (before ++ [use]) rest)

/-- None of some uses offends. -/
def Lawful (uses : List Use) : Prop :=
  ∀ before use after, uses = before ++ use :: after → offence? before use = none

/-- A call of a free name offends if its function has another number of parameters. -/
theorem offence?_call (before : List Use) {name : Token} (h : name.value ∉ reservedNames)
    (argCount : Nat) :
    offence? before (.call name argCount) =
      if (paramCount? before name.value).getD argCount = argCount then none
      else some (.arity name.value name.pos ((paramCount? before name.value).getD argCount)
        argCount) := by
  rw [offence?, if_neg h]
  cases paramCount? before name.value with
  | none => rw [Option.getD_none, if_pos rfl]
  | some want => rw [Option.getD_some]

/-- The first offence is looked for in the first part, and in the second part behind it. -/
theorem firstOffence?_append (before us vs : List Use) : firstOffence? before (us ++ vs) =
    (firstOffence? before us).or (firstOffence? (before ++ us) vs) := by
  induction us generalizing before with
  | nil => rw [List.nil_append, List.append_nil, firstOffence?, Option.none_or]
  | cons use us ih =>
    rw [List.cons_append, firstOffence?, firstOffence?, ih, Option.or_assoc, List.append_assoc,
      List.singleton_append]

/-- There is no first offence where nothing offends. -/
theorem firstOffence?_eq_none {before uses : List Use} : firstOffence? before uses = none ↔
    ∀ us use vs, uses = us ++ use :: vs → offence? (before ++ us) use = none := by
  constructor
  · rintro h us use vs rfl
    rw [firstOffence?_append, Option.or_eq_none_iff, firstOffence?, Option.or_eq_none_iff] at h
    exact h.2.1
  · induction uses generalizing before with
    | nil => exact fun _ => rfl
    | cons use uses ih =>
      intro h
      have hfirst : offence? before use = none := by
        simpa using h [] use uses rfl
      have hrest : firstOffence? (before ++ [use]) uses = none := by
        refine ih fun us v vs hv => ?_
        have := h (use :: us) v vs (by rw [hv, List.cons_append])
        rwa [List.append_assoc, List.singleton_append]
      rw [firstOffence?, hfirst, hrest, Option.or_none]

theorem firstOffence?_nil_eq_none {uses : List Use} :
    firstOffence? [] uses = none ↔ Lawful uses :=
  firstOffence?_eq_none

/-- The first offence is that of a use in front of which nothing offends. -/
theorem firstOffence?_eq_some {before uses : List Use} {e : LowerError} :
    firstOffence? before uses = some e ↔ ∃ us use vs, uses = us ++ use :: vs ∧
      firstOffence? before us = none ∧ offence? (before ++ us) use = some e := by
  constructor
  · induction uses generalizing before with
    | nil =>
      intro h
      exact absurd h nofun
    | cons use uses ih =>
      intro h
      rcases Option.or_eq_some_iff.mp h with hfirst | ⟨hnone, hrest⟩
      · exact ⟨[], use, uses, rfl, rfl, by rwa [List.append_nil]⟩
      · obtain ⟨us, v, vs, rfl, hus, hv⟩ := ih hrest
        refine ⟨use :: us, v, vs, rfl, ?_, ?_⟩
        · rw [firstOffence?, hnone, hus, Option.or_none]
        · rwa [List.append_assoc, List.singleton_append] at hv
  · rintro ⟨us, use, vs, rfl, hus, hv⟩
    rw [firstOffence?_append, hus, Option.none_or, firstOffence?, hv, Option.some_or]

/-! ## What lowering knows of the uses behind it -/

namespace Builder

/-- The slots of a builder are the variables with a value, and it has the number of parameters of
each function that is known. -/
structure Knows (b : Builder) (before : List Use) : Prop where
  slots : ∀ v, v ∈ b.slots ↔ .write v ∈ before
  arities : ∀ name, b.arity? name = paramCount? before name

theorem knows_start : Knows start [] where
  slots := by simp [start]
  arities := by
    intro name
    rfl

variable {b b' : Builder} {before us vs : List Use}

/-- A builder knows as much as another one with the same slots and functions. -/
theorem Knows.congr (h : Knows b before) (hs : b'.slots = b.slots)
    (he : b'.externals = b.externals) : Knows b' before where
  slots := by
    rw [hs]
    exact h.slots
  arities := by
    intro name
    rw [← h.arities name, arity?, arity?, he]

/-- A read changes nothing. -/
theorem Knows.read (h : Knows b before) (token : Token) : Knows b (before ++ [.read token]) where
  slots := by simpa using h.slots
  arities := by
    intro name
    rw [h.arities name, paramCount?, paramCount?, List.findSome?_append]
    simp [argCount?]

/-- A slot is made for a variable that is given a value. -/
theorem Knows.write (h : Knows b before) (v : Text) :
    Knows (b.ensureSlot v) (before ++ [.write v]) where
  slots := by
    intro u
    by_cases hv : v ∈ b.slots
    · rw [ensureSlot_of_mem hv, h.slots]
      have := (h.slots v).mp hv
      simp only [List.mem_append, List.mem_singleton, Use.write.injEq]
      exact ⟨Or.inl, fun hu => hu.elim id fun hu => hu ▸ this⟩
    · rw [ensureSlot_of_not_mem hv]
      simp [h.slots]
  arities := by
    intro name
    have hsame : (b.ensureSlot v).arity? name = b.arity? name := by
      unfold ensureSlot
      split
      · rfl
      · rfl
    rw [hsame, h.arities name, paramCount?, paramCount?, List.findSome?_append]
    simp [argCount?]

/-- The number of parameters that a call agrees with, behind some uses: its own number of arguments
if the function is called for the first time. -/
theorem Knows.declare_fst (h : Knows b before) (name : Text) (argCount : Nat) :
    (b.declare name argCount).1 = (paramCount? before name).getD argCount := by
  rw [← h.arities name]
  unfold declare
  split
  · next arity ha => rw [ha, Option.getD_some]
  · next ha => rw [ha, Option.getD_none]

/-- A call tells the parameters of its function if they are not known yet. -/
theorem paramCount?_call (before : List Use) (callee : Token) (argCount : Nat) (name : Text) :
    paramCount? (before ++ [.call callee argCount]) name =
      (paramCount? before name).or (if callee.value = name then some argCount else none) := by
  unfold paramCount?
  by_cases hp : name = printName
  · rw [if_pos hp, if_pos hp, Option.some_or]
  · rw [if_neg hp, if_neg hp, List.findSome?_append, List.findSome?_singleton, argCount?]

/-- A function is declared where it is called for the first time. -/
theorem Knows.call (h : Knows b before) (callee : Token) (argCount : Nat) :
    Knows (b.declare callee.value argCount).2 (before ++ [.call callee argCount]) where
  slots := by
    have hsame : (b.declare callee.value argCount).2.slots = b.slots := by
      unfold declare
      split
      · rfl
      · rfl
    rw [hsame]
    simpa using h.slots
  arities := by
    intro name
    rw [paramCount?_call, ← h.arities name]
    unfold declare
    split
    · -- the function is known, and stays as it is
      next arity ha =>
      by_cases hn : callee.value = name
      · rw [← hn, ha, Option.some_or]
      · rw [if_neg hn, Option.or_none]
    · next hnone =>
      by_cases hn : callee.value = name
      · subst hn
        have hp : callee.value ≠ printName := by
          intro hp
          exact absurd hnone (by simp [arity?, hp])
        rw [hnone, if_pos rfl, Option.none_or, arity?, if_neg hp]
        exact Lookup.get?_set_self _ _ _
      · rw [if_neg hn, Option.or_none, arity?, arity?]
        split
        · rfl
        · exact Lookup.get?_set_of_ne _ _ (Ne.symm hn)

/-! ## What lowering meets -/

/-- Lowering a part of a program agrees with its uses: it succeeds if none of them offends, and then
the builder knows them, and it fails with the first offence otherwise. -/
def Agrees {α : Type} (before uses : List Use) (out : α → Builder) : Except LowerError α → Prop
  | .ok a => firstOffence? before uses = none ∧ Knows (out a) (before ++ uses)
  | .error e => firstOffence? before uses = some e

section Agrees

variable {α β : Type} {out : α → Builder} {out' : β → Builder} {x : Except LowerError α}
  {f : α → Except LowerError β} {e : LowerError}

theorem agrees_ok {a : α} (h : Knows (out a) before) : Agrees before [] out (.ok a) :=
  ⟨rfl, by rwa [List.append_nil]⟩

theorem Agrees.eq_error_iff (hx : Agrees before us out x) :
    x = .error e ↔ firstOffence? before us = some e := by
  cases x with
  | error e' =>
    rw [show firstOffence? before us = some e' from hx, Except.error.injEq, Option.some.injEq]
  | ok a =>
    rw [hx.1]
    exact ⟨fun h => absurd h nofun, fun h => absurd h nofun⟩

theorem Agrees.eq_ok_iff (hx : Agrees before us out x) :
    (∃ a, x = .ok a) ↔ firstOffence? before us = none := by
  cases x with
  | error e' =>
    rw [show firstOffence? before us = some e' from hx]
    exact ⟨fun ⟨_, h⟩ => absurd h nofun, fun h => absurd h nofun⟩
  | ok a => exact ⟨fun _ => hx.1, fun _ => ⟨a, rfl⟩⟩

/-- One use, which offends. -/
theorem agrees_error {use : Use} {rest : List Use} (h : offence? before use = some e) :
    Agrees before (use :: rest) out (.error e) := by
  show firstOffence? before (use :: rest) = some e
  rw [firstOffence?, h, Option.some_or]

/-- One use that does not offend, in front of others. -/
theorem Agrees.cons {use : Use} {rest : List Use} (h : offence? before use = none)
    (hx : Agrees (before ++ [use]) rest out x) : Agrees before (use :: rest) out x := by
  cases x with
  | error e =>
    show firstOffence? before (use :: rest) = some e
    rw [firstOffence?, h, Option.none_or]
    exact hx
  | ok a =>
    refine ⟨?_, ?_⟩
    · rw [firstOffence?, h, Option.none_or]
      exact hx.1
    · rw [← List.singleton_append, ← List.append_assoc]
      exact hx.2

/-- **Two parts, one behind the other**: the second is lowered if nothing in the first offends. -/
theorem Agrees.bind (hx : Agrees before us out x)
    (hf : ∀ a, Knows (out a) (before ++ us) → Agrees (before ++ us) vs out' (f a)) :
    Agrees before (us ++ vs) out' (x >>= f) := by
  cases x with
  | error e =>
    show firstOffence? before (us ++ vs) = some e
    rw [firstOffence?_append, show firstOffence? before us = some e from hx, Option.some_or]
  | ok a =>
    obtain ⟨hnone, hk⟩ := hx
    have hrest := hf a hk
    show Agrees before (us ++ vs) out' (f a)
    generalize f a = y at hrest
    cases y with
    | error e =>
      show firstOffence? before (us ++ vs) = some e
      rw [firstOffence?_append, hnone, Option.none_or]
      exact hrest
    | ok c =>
      refine ⟨?_, ?_⟩
      · rw [firstOffence?_append, hnone, Option.none_or]
        exact hrest.1
      · rw [← List.append_assoc]
        exact hrest.2

/-- The last part has no uses. -/
theorem Agrees.finish (hx : Agrees before us out x)
    (hf : ∀ a, Knows (out a) (before ++ us) → Agrees (before ++ us) [] out' (f a)) :
    Agrees before us out' (x >>= f) := by
  have := hx.bind hf
  rwa [List.append_nil] at this

end Agrees

/-! ## Expressions -/

theorem lowerLeaf_agrees (h : Knows b before) {token : Token}
    (hw : token.kind = .number ∨ token.kind = .identifier) :
    Agrees before (Expr.leaf token).uses Prod.snd (b.lowerLeaf token) := by
  unfold lowerLeaf Expr.uses
  rcases hw with hk | hk
  · rw [hk, if_neg (by decide)]
    exact agrees_ok h
  · rw [hk, if_pos rfl]
    by_cases hv : token.value ∈ b.slots
    · have hsome := (h.slots token.value).mp hv
      have hnone : offence? before (.read token) = none := if_pos hsome
      refine Agrees.cons hnone ?_
      simp only [List.contains_eq_mem, hv, decide_true, if_true]
      exact agrees_ok ((h.read token).congr rfl rfl)
    · have hno := (h.slots token.value).not.mp hv
      simp only [List.contains_eq_mem, hv, decide_false, Bool.false_eq_true, if_false]
      exact agrees_error (if_neg hno)

/-- An operator of a sum or a product stands for an operation. -/
theorem isSome_arithOp? {k : Kind}
    (h : Level.sum.accepts k = true ∨ Level.product.accepts k = true) :
    ((arithOp? k).map BinaryOp.arith).isSome = true := by
  cases k <;> first
    | rfl
    | exact absurd h (by simp [Level.accepts])

/-- An operator of a comparison stands for an operation. -/
theorem isSome_pred? {k : Kind} (h : Level.comparison.accepts k = true) :
    ((pred? k).map BinaryOp.compare).isSome = true := by
  cases k <;> first
    | rfl
    | exact absurd h (by simp [Level.accepts])

/-- An operation makes its value without an offence. -/
theorem lowerBinary_agrees (h : Knows b before) {op? : Option BinaryOp} {unknown : LowerError}
    (x y : Operand) (hop : op?.isSome = true) :
    Agrees before [] Prod.snd (b.lowerBinary op? unknown x y) := by
  obtain ⟨op, rfl⟩ := Option.isSome_iff_exists.mp hop
  exact agrees_ok (h.congr rfl rfl)

/-- Lowering an expression meets the first offence of its uses. -/
theorem lowerExpr_agrees {e : Expr} : ∀ {b : Builder} {before : List Use}, Knows b before →
    e.IsWhole → Agrees before e.uses Prod.snd (b.lowerExpr e) := by
  induction e with
  | leaf token =>
    intro b before h hw
    exact lowerLeaf_agrees h hw
  | arith left op right ihl ihr =>
    intro b before h hw
    obtain ⟨hl, hop, hr⟩ := hw
    rw [lowerExpr]
    refine (ihl h hl).bind fun ⟨x, b₁⟩ h₁ => ?_
    exact (ihr h₁ hr).finish fun ⟨y, b₂⟩ h₂ => lowerBinary_agrees h₂ x y (isSome_arithOp? hop)
  | compare left op right ihl ihr =>
    intro b before h hw
    obtain ⟨hl, hop, hr⟩ := hw
    rw [lowerExpr]
    refine (ihl h hl).bind fun ⟨x, b₁⟩ h₁ => ?_
    refine (ihr h₁ hr).finish fun ⟨y, b₂⟩ h₂ => ?_
    exact (lowerBinary_agrees h₂ x y (isSome_pred? hop)).finish fun ⟨bit, b₃⟩ h₃ =>
      agrees_ok (h₃.congr rfl rfl)
  | missing =>
    intro b before h hw
    exact absurd hw id

theorem lowerExprs_agrees : ∀ {es : List Expr} {b : Builder} {before : List Use}, Knows b before →
    (∀ e ∈ es, e.IsWhole) → Agrees before (es.flatMap Expr.uses) Prod.snd (b.lowerExprs es)
  | [], b, before, h, _ => agrees_ok h
  | e :: es, b, before, h, hw => by
    obtain ⟨he, hes⟩ := List.forall_mem_cons.mp hw
    rw [lowerExprs, List.flatMap_cons]
    refine (lowerExpr_agrees h he).bind fun ⟨x, b₁⟩ h₁ => ?_
    exact (lowerExprs_agrees h₁ hes).finish fun ⟨xs, b₂⟩ h₂ => agrees_ok h₂

/-- A condition that is no comparison is an expression whose word is compared with zero. -/
theorem nonzero_agrees {cond : Expr} (h : Knows b before) (hw : cond.IsWhole) :
    Agrees before cond.uses Prod.snd (do
      let (x, b) ← b.lowerExpr cond
      return b.emitResult (.compare · .ne x (.const 0))) :=
  (lowerExpr_agrees h hw).finish fun ⟨_, _⟩ h₁ => agrees_ok (h₁.congr rfl rfl)

theorem lowerCond_agrees {cond : Expr} (h : Knows b before) (hw : cond.IsWhole) :
    Agrees before cond.uses Prod.snd (b.lowerCond cond) := by
  cases cond with
  | leaf token => exact nonzero_agrees h hw
  | arith left op right => exact nonzero_agrees h hw
  | compare left op right =>
    obtain ⟨hl, hop, hr⟩ := hw
    rw [lowerCond]
    refine (lowerExpr_agrees h hl).bind fun ⟨x, b₁⟩ h₁ => ?_
    exact (lowerExpr_agrees h₁ hr).finish fun ⟨y, b₂⟩ h₂ =>
      lowerBinary_agrees h₂ x y (isSome_pred? hop)
  | missing => exact absurd hw id

/-! ## Statements -/

/-- A call offends before its arguments are looked at. -/
theorem lowerCall_agrees (h : Knows b before) {name : Token} {args : List Expr}
    (hw : ∀ e ∈ args, e.IsWhole) :
    Agrees before (Stmt.call name args).uses id (b.lowerCall name args) := by
  unfold lowerCall Stmt.uses
  by_cases hres : name.value ∈ reservedNames
  · rw [if_pos (by simpa using hres)]
    exact agrees_error (if_pos hres)
  · rw [if_neg (by simpa using hres)]
    have hwant := h.declare_fst name.value args.length
    have hoffence := offence?_call before hres args.length
    have hknows := h.call name args.length
    rw [← hwant] at hoffence
    generalize b.declare name.value args.length = d at hoffence hknows ⊢
    obtain ⟨want, b₁⟩ := d
    simp only [ne_eq, ite_not]
    by_cases heq : want = args.length
    · rw [if_pos heq] at hoffence ⊢
      refine Agrees.cons hoffence ?_
      refine (lowerExprs_agrees hknows hw).finish fun ⟨xs, b₂⟩ h₂ => ?_
      show Agrees _ [] id (if name.value = printName then Except.ok (b₂.emit (.print xs))
        else Except.ok (b₂.emitResult (.call · name.value xs)).2)
      split
      · exact agrees_ok (h₂.congr rfl rfl)
      · exact agrees_ok (h₂.congr rfl rfl)
    · rw [if_neg heq] at hoffence ⊢
      exact agrees_error hoffence

mutual

/-- **Lowering a statement meets the first offence of its uses.** -/
theorem lowerStmt_agrees : ∀ {s : Stmt} {b : Builder} {before : List Use}, Knows b before →
    s.IsWhole → Agrees before s.uses id (b.lowerStmt s)
  | .assign target value, b, before, h, hw => by
    rw [lowerStmt, Stmt.uses]
    refine (lowerExpr_agrees h hw).bind fun ⟨x, b₁⟩ h₁ => ?_
    exact Agrees.cons rfl (agrees_ok ((h₁.write target.value).congr rfl rfl))
  | .call name args, b, before, h, hw => lowerCall_agrees h hw
  | .ifThen cond body, b, before, h, hw => by
    rw [lowerStmt, Stmt.uses]
    refine (lowerCond_agrees h hw.1).bind fun ⟨bit, b₁⟩ h₁ => ?_
    let n := b₁.labels + 1
    have hthen : Knows ((b₁.fork [.ifThen n, .ifEnd n] (.branch bit (.ifThen n) (.ifEnd n))).enter
        (.ifThen n)) (before ++ cond.uses) := h₁.congr rfl rfl
    exact (lowerStmts_agrees hthen hw.2).finish fun b₂ h₂ => agrees_ok (h₂.congr rfl rfl)
  | .ifElse cond body alt, b, before, h, hw => by
    obtain ⟨hcond, hbody, halt⟩ := hw
    rw [lowerStmt, Stmt.uses]
    refine (lowerCond_agrees h hcond).bind fun ⟨bit, b₁⟩ h₁ => ?_
    let n := b₁.labels + 1
    have hthen : Knows ((b₁.fork [.ifThen n, .ifElse n, .ifEnd n]
        (.branch bit (.ifThen n) (.ifElse n))).enter (.ifThen n)) (before ++ cond.uses) :=
      h₁.congr rfl rfl
    refine (lowerStmts_agrees hthen hbody).bind fun b₂ h₂ => ?_
    have helse : Knows ((b₂.leave (.jump (.ifEnd n))).enter (.ifElse n))
        (before ++ cond.uses ++ Stmt.usesOf body) := h₂.congr rfl rfl
    exact (lowerStmts_agrees helse halt).finish fun b₃ h₃ => agrees_ok (h₃.congr rfl rfl)
  | .loop cond body, b, before, h, hw => by
    rw [lowerStmt, Stmt.uses]
    let n := b.labels + 1
    have hcond : Knows ((b.fork [.whileCond n, .whileBody n, .whileEnd n]
        (.jump (.whileCond n))).enter (.whileCond n)) before := h.congr rfl rfl
    refine (lowerCond_agrees hcond hw.1).bind fun ⟨bit, b₁⟩ h₁ => ?_
    have hbody : Knows ((b₁.leave (.branch bit (.whileBody n) (.whileEnd n))).enter (.whileBody n))
        (before ++ cond.uses) := h₁.congr rfl rfl
    exact (lowerStmts_agrees hbody hw.2).finish fun b₂ h₂ => agrees_ok (h₂.congr rfl rfl)
  | .missing, b, before, _, hw => absurd hw id

/-- **Lowering statements meets the first offence of their uses.** -/
theorem lowerStmts_agrees : ∀ {ss : List Stmt} {b : Builder} {before : List Use}, Knows b before →
    Stmt.AreWhole ss → Agrees before (Stmt.usesOf ss) id (b.lowerStmts ss)
  | [], b, before, h, _ => agrees_ok h
  | s :: ss, b, before, h, hw => by
    rw [lowerStmts, Stmt.usesOf]
    exact (lowerStmt_agrees h hw.1).bind fun b₁ h₁ => lowerStmts_agrees h₁ hw.2

end

end Builder

/-! ## Programs -/

theorem lowerStmts_append (b : Builder) (ss ss' : List Stmt) :
    b.lowerStmts (ss ++ ss') = b.lowerStmts ss >>= (·.lowerStmts ss') := by
  induction ss generalizing b with
  | nil => rfl
  | cons s ss ih =>
    rw [List.cons_append, Builder.lowerStmts, Builder.lowerStmts]
    cases b.lowerStmt s with
    | error e => rfl
    | ok b₁ => exact ih b₁

theorem lower_eq_error {options : Options} {program : Program} {e : LowerError} :
    lower options program = .error e ↔ Builder.start.lowerStmts program = .error e := by
  unfold lower
  cases Builder.start.lowerStmts program with
  | error e' =>
    constructor
    · rintro ⟨⟩
      rfl
    · rintro ⟨⟩
      rfl
  | ok b => exact ⟨fun h => absurd h nofun, fun h => absurd h nofun⟩

theorem lower_eq_ok {options : Options} {program : Program} :
    (∃ m, lower options program = .ok m) ↔ ∃ b, Builder.start.lowerStmts program = .ok b := by
  unfold lower
  cases Builder.start.lowerStmts program with
  | error e => exact ⟨fun ⟨_, h⟩ => absurd h nofun, fun ⟨_, h⟩ => absurd h nofun⟩
  | ok b => exact ⟨fun _ => ⟨b, rfl⟩, fun _ => ⟨_, rfl⟩⟩

/-- **What cannot be lowered is not repaired** by statements behind it. -/
theorem lower_append_error {options : Options} {program : Program} {e : LowerError}
    (h : lower options program = .error e) (more : Program) :
    lower options (program ++ more) = .error e := by
  rw [lower_eq_error] at h ⊢
  rw [lowerStmts_append, h]
  rfl

/-- **Lowering fails with the first offence.** A program that is read from tokens is lowered if and
only if none of its uses of names offends. Otherwise lowering fails with the offence of the first
use that offends: its kind, name and position, and for a call the number of parameters and that of
arguments. A program that fails fails in the same way with any statements behind it. -/
theorem lower_fails_iff_offends (options : Options) {ts : List Token} {program : Program}
    (h : parseTokens ts = .ok program) :
    ((∃ m, lower options program = .ok m) ↔ Lawful (Stmt.usesOf program)) ∧
      (∀ e, lower options program = .error e ↔
        ∃ before use after, Stmt.usesOf program = before ++ use :: after ∧ Lawful before ∧
          offence? before use = some e) ∧
      ∀ ss e, lower options ss = .error e → ∀ more, lower options (ss ++ more) = .error e := by
  have hagrees := Builder.lowerStmts_agrees Builder.knows_start (areWhole_of_parseTokens h)
  refine ⟨?_, fun e => ?_, fun ss e hs more => lower_append_error hs more⟩
  · rw [lower_eq_ok, hagrees.eq_ok_iff, firstOffence?_nil_eq_none]
  · rw [lower_eq_error, hagrees.eq_error_iff, firstOffence?_eq_some]
    simp only [firstOffence?_nil_eq_none, List.nil_append]

/-- A function is called with one argument, and then with two, the second of which has no value. -/
def secondCall : Program :=
  let x (line column : Int) : Token := .plain .identifier "x" ⟨0, line, column⟩
  let f (line : Int) : Token := .plain .identifier "f" ⟨0, line, 1⟩
  [.assign (x 1 1) (.leaf ⟨.number, "1", 1, ⟨0, 1, 5⟩⟩),
   .call (f 2) [.leaf (x 2 3)],
   .call (f 3) [.leaf (x 3 3), .leaf (.plain .identifier "y" ⟨0, 3, 6⟩)]]

/-- The tokens of the program with the two calls. -/
def secondCallTokens : List Token :=
  let x (line column : Int) : Token := .plain .identifier "x" ⟨0, line, column⟩
  let f (line : Int) : Token := .plain .identifier "f" ⟨0, line, 1⟩
  let sign (kind : Kind) (line column : Int) : Token := .plain kind [] ⟨0, line, column⟩
  [x 1 1, sign .assign 1 3, ⟨.number, "1", 1, ⟨0, 1, 5⟩⟩,
   f 2, sign .openParen 2 2, x 2 3, sign .closeParen 2 4,
   f 3, sign .openParen 3 2, x 3 3, sign .comma 3 4, .plain .identifier "y" ⟨0, 3, 6⟩,
   sign .closeParen 3 7]

theorem parseTokens_secondCall : parseTokens secondCallTokens = .ok secondCall := by
  decide +kernel

/-- The second call offends in front of the variable that it passes. -/
theorem lower_fails_secondCall :
    lower ⟨[], []⟩ secondCall = .error (.arity "f" ⟨0, 3, 1⟩ 1 2) := by
  refine ((lower_fails_iff_offends ⟨[], []⟩ parseTokens_secondCall).2.1 _).mpr
    ⟨(Stmt.usesOf secondCall).take 3, (Stmt.usesOf secondCall)[3], (Stmt.usesOf secondCall).drop 4,
      by decide, ?_, by decide⟩
  exact firstOffence?_nil_eq_none.mp (by decide)

end Ir

end Offside
