import Offside.Proofs.Grammar.Tree
import Offside.Proofs.Render.Layout

/-!
# Derivations of written expressions

The part of the way back from a text to its program that is about expressions: where parentheses are
written, and why they are enough.

Tokens that are found as they are written have a derivation for the expression they were written
for. The parentheses of a written expression are where the grammar needs them: a product is a chain
of the product level, and what is neither a sum nor a product, or stands in parentheses, is an
operand of it. A chain is grouped to the left, so a left operand of the same level is continued by
one operator and one operand (`Chain.snoc`).

* `FoundOn` says that some tokens are others as they are found on a line.
* `Derives` and `Binds` say that some tokens are a chain or an operand of a level, for an expression
  up to positions. `Expr.Derived` joins them for the levels where an expression may stand.

Results:
* `Derives.snoc`: a chain is continued by an operator and an operand.
* `Expr.derived`: the derivations of an arithmetic expression on the levels where it may stand, by
  induction on the expression.
* `Expr.derived_test`: the derivation of a condition.
* `Expr.derived_args`: the derivation of arguments.
-/

namespace Offside

open Grammar

/-! ## Tokens found as they are written -/

/-- The first tokens are the second ones as they are found on a line. -/
def FoundOn (line : Int) (found written : List Token) : Prop :=
  found.map Token.rowed = written.map (Token.onLine line)

namespace FoundOn

variable {line : Int} {found ts us : List Token} {t : Token}

theorem append (h : FoundOn line found (ts ++ us)) :
    ∃ as bs, found = as ++ bs ∧ FoundOn line as ts ∧ FoundOn line bs us := by
  rw [FoundOn, List.map_append] at h
  exact List.map_eq_append_iff.mp h

theorem cons (h : FoundOn line found (t :: ts)) :
    ∃ a as, found = a :: as ∧ a.rowed = t.onLine line ∧ FoundOn line as ts := by
  rw [FoundOn, List.map_cons] at h
  exact List.map_eq_cons_iff.mp h

theorem nil (h : FoundOn line found []) : found = [] :=
  List.map_eq_nil_iff.mp h

end FoundOn

theorem kind_of_found {line : Int} {a t : Token} (h : a.rowed = t.onLine line) :
    a.kind = t.kind := by
  have hk := congrArg Token.kind h
  exact hk

theorem line_of_found {line : Int} {a t : Token} (h : a.rowed = t.onLine line) :
    a.pos.line = line := by
  have hl := congrArg (fun u : Token => u.pos.line) h
  exact hl

theorem unplaced_of_found {line : Int} {a t : Token} (h : a.rowed = t.onLine line) :
    a.unplaced = t.bare := by
  have hu := congrArg Token.unplaced h
  exact hu

/-- The sign of a kind as it was found. -/
def signTerminal {line : Int} {a : Token} {kind : Kind}
    (h : a.rowed = (Token.sign kind).onLine line) :
    Terminal kind :=
  ⟨a, kind_of_found h⟩

/-! ## Chains -/

namespace Grammar

/-- The rest of a chain with one more operator and operand at its end. -/
def Tail.snoc {level : Level} (op : Operator level) (right : Operand level) :
    Tail level → Tail level
  | .nil => .cons op right .nil
  | .cons op' right' more => .cons op' right' (more.snoc op right)

/-- A chain with one more operator and operand at its end. -/
def Chain.snoc {level : Level} : Chain level → Operator level → Operand level → Chain level
  | .mk first more, op, right => .mk first (more.snoc op right)

theorem Tail.tokens_snoc {level : Level} (op : Operator level) (right : Operand level) :
    ∀ t : Tail level, (t.snoc op right).tokens = t.tokens ++ op.token :: right.tokens
  | .nil => by simp [Tail.snoc, Tail.tokens]
  | .cons op' right' more => by simp [Tail.snoc, Tail.tokens, more.tokens_snoc op right]

theorem Tail.fold_snoc {level : Level} (op : Operator level) (right : Operand level) :
    ∀ (t : Tail level) (left : Expr),
      (t.snoc op right).fold left = level.combine (t.fold left) op.token right.expr
  | .nil, _ => by simp [Tail.snoc, Tail.fold]
  | .cons _ _ more, left => by
    rw [Tail.snoc, Tail.fold, more.fold_snoc op right, Tail.fold]

theorem Chain.tokens_snoc {level : Level} (c : Chain level) (op : Operator level)
    (right : Operand level) : (c.snoc op right).tokens = c.tokens ++ op.token :: right.tokens := by
  obtain ⟨first, more⟩ := c
  simp [Chain.snoc, Chain.tokens, Tail.tokens_snoc]

theorem Chain.expr_snoc {level : Level} (c : Chain level) (op : Operator level)
    (right : Operand level) :
    (c.snoc op right).expr = level.combine c.expr op.token right.expr := by
  obtain ⟨first, more⟩ := c
  rw [Chain.snoc, Chain.expr, Tail.fold_snoc, Chain.expr]

end Grammar

/-! ## Derivations on the levels -/

/-- Some tokens are a chain of a level, for an expression up to positions. -/
def Derives (level : Level) (found : List Token) (e : Expr) : Prop :=
  ∃ c : Chain level, c.tokens = found ∧ c.expr.mapTokens .unplaced = e.mapTokens .bare

/-- Some tokens are an operand of a level, for an expression up to positions. -/
def Binds (level : Level) (found : List Token) (e : Expr) : Prop :=
  ∃ o : Operand level, o.tokens = found ∧ o.expr.mapTokens .unplaced = e.mapTokens .bare

theorem Binds.derives {level : Level} {found : List Token} {e : Expr} (h : Binds level found e) :
    Derives level found e := by
  obtain ⟨o, ho, he⟩ := h
  exact ⟨.mk o .nil, by rw [Chain.tokens, Tail.tokens, List.append_nil, ho],
    by rw [Chain.expr, Tail.fold, he]⟩

theorem Derives.product {found : List Token} {e : Expr} (h : Derives .product found e) :
    Binds .sum found e := by
  obtain ⟨c, hc, he⟩ := h
  exact ⟨.product c, hc, he⟩

theorem Derives.sum {found : List Token} {e : Expr} (h : Derives .sum found e) :
    Binds .comparison found e := by
  obtain ⟨c, hc, he⟩ := h
  exact ⟨.sum c, hc, he⟩

theorem Expr.mapTokens_combine (level : Level) (f : Token → Token) (left : Expr) (op : Token)
    (right : Expr) : (level.combine left op right).mapTokens f =
      level.combine (left.mapTokens f) (f op) (right.mapTokens f) := by
  cases level <;> rfl

/-- A chain is continued by an operator and an operand. -/
theorem Derives.snoc {level : Level} {as bs : List Token} {a op : Token} {line : Int} {l r : Expr}
    (hl : Derives level as l) (hop : level.accepts op.kind = true) (ha : a.rowed = op.onLine line)
    (hr : Binds level bs r) : Derives level (as ++ a :: bs) (level.combine l op r) := by
  obtain ⟨c, rfl, hc⟩ := hl
  obtain ⟨o, rfl, ho⟩ := hr
  refine ⟨c.snoc ⟨a, by rw [kind_of_found ha]; exact hop⟩ o, c.tokens_snoc _ o, ?_⟩
  rw [Chain.expr_snoc, Expr.mapTokens_combine, Expr.mapTokens_combine, hc, ho, unplaced_of_found ha]

section Enclosed

variable {line : Int} {found : List Token} {e : Expr}

/-- The derivations of an expression on the levels where it may stand. -/
structure Expr.Derived (line : Int) (e : Expr) : Prop where
  sum : ∀ {found}, FoundOn line found e.written → Derives .sum found e
  product : e.isOf .sum = false → ∀ {found}, FoundOn line found e.written → Derives .product found e
  operand : e.isOf .sum = false → e.isOf .product = false →
    ∀ {found}, FoundOn line found e.written → Binds .product found e

/-- What stands in parentheses is an operand of a product. -/
theorem Expr.Derived.parens (h : e.Derived line)
    (hf : FoundOn line found (.sign .openParen :: (e.written ++ [.sign .closeParen]))) :
    Binds .product found e := by
  obtain ⟨a, as, rfl, ha, has⟩ := hf.cons
  obtain ⟨bs, cs, rfl, hbs, hcs⟩ := has.append
  obtain ⟨c, cs, rfl, hc, hnil⟩ := hcs.cons
  obtain rfl := hnil.nil
  obtain ⟨chain, rfl, hchain⟩ := h.sum hbs
  exact ⟨.group (signTerminal ha) chain (signTerminal hc), rfl, hchain⟩

theorem Expr.Derived.enclosed_operand (h : e.Derived line) {wanted : Bool}
    (hw : wanted = false → e.isOf .sum = false ∧ e.isOf .product = false)
    (hf : FoundOn line found (enclosed wanted e.written)) : Binds .product found e := by
  cases wanted with
  | true => exact h.parens hf
  | false => exact h.operand (hw rfl).1 (hw rfl).2 hf

theorem Expr.Derived.enclosed_product (h : e.Derived line) {wanted : Bool}
    (hw : wanted = false → e.isOf .sum = false)
    (hf : FoundOn line found (enclosed wanted e.written)) : Derives .product found e := by
  cases wanted with
  | true => exact (h.parens hf).derives
  | false => exact h.product (hw rfl) hf

end Enclosed

namespace Expr

variable {line : Int}

theorem derived_leaf {t : Token} (h : t.IsName ∨ t.IsNumeral) : (leaf t).Derived line := by
  have hbinds : ∀ {found}, FoundOn line found [t] → Binds .product found (leaf t) := by
    intro found hf
    obtain ⟨a, as, rfl, ha, hnil⟩ := hf.cons
    obtain rfl := hnil.nil
    have he : (leaf a).mapTokens .unplaced = (leaf t).mapTokens .bare :=
      congrArg leaf (unplaced_of_found ha)
    rcases h with h | h
    · exact ⟨.name ⟨a, (kind_of_found ha).trans h.1⟩, rfl, he⟩
    · exact ⟨.number ⟨a, (kind_of_found ha).trans h.1⟩, rfl, he⟩
  exact ⟨fun hf => (hbinds hf).derives.product.derives, fun _ _ hf => (hbinds hf).derives,
    fun _ _ _ hf => hbinds hf⟩

/-- A sum is a chain of its left operand and one operand more. -/
theorem derived_sum {left right : Expr} {op : Token} (hop : Level.sum.accepts op.kind = true)
    (hl : left.Derived line) (hr : right.Derived line) : (arith left op right).Derived line := by
  have hno : Level.product.accepts op.kind = false := by
    generalize op.kind = k at hop
    cases k <;> first | rfl | exact absurd hop (by simp [Level.accepts])
  have hof : (arith left op right).isOf .sum = true := hop
  refine ⟨fun hf => ?_, fun h => absurd h (by simp [hof]), fun h => absurd h (by simp [hof])⟩
  simp only [written, hno, Bool.false_and, Bool.or_false] at hf
  obtain ⟨as, bs, rfl, has, hbs⟩ := hf.append
  obtain ⟨a, bs, rfl, ha, hbs⟩ := hbs.cons
  exact (hl.sum has).snoc hop ha (hr.enclosed_product id hbs).product

/-- A product is a chain of the product level. -/
theorem derived_product {left right : Expr} {op : Token}
    (hop : Level.product.accepts op.kind = true)
    (hl : left.Derived line) (hr : right.Derived line) : (arith left op right).Derived line := by
  have hof : (arith left op right).isOf .product = true := hop
  have hchain : ∀ {found}, FoundOn line found (arith left op right).written →
      Derives .product found (arith left op right) := by
    intro found hf
    simp only [written, hop, Bool.true_and] at hf
    obtain ⟨as, bs, rfl, has, hbs⟩ := hf.append
    obtain ⟨a, bs, rfl, ha, hbs⟩ := hbs.cons
    exact (hl.enclosed_product id has).snoc hop ha
      (hr.enclosed_operand Bool.or_eq_false_iff.mp hbs)
  exact ⟨fun hf => (hchain hf).product.derives, fun _ _ hf => hchain hf,
    fun _ h => absurd h (by simp [hof])⟩

/-- **A written expression is derived** on every level where it may stand. -/
theorem derived : ∀ {e : Expr}, e.IsArithmetic → e.Derived line
  | .leaf _, h => derived_leaf h
  | .arith _ _ _, ⟨hl, hop, hr⟩ =>
    hop.elim (fun h => derived_sum h.1 (derived hl) (derived hr))
      (fun h => derived_product h.1 (derived hl) (derived hr))

/-- A written condition is derived. -/
theorem derived_test : ∀ {e : Expr}, e.IsTest → ∀ {found : List Token},
    FoundOn line found e.written → Derives .comparison found e
  | .compare _ _ _, ⟨hl, hop, hr⟩, _, hf => by
    obtain ⟨as, bs, rfl, has, hbs⟩ := hf.append
    obtain ⟨a, bs, rfl, ha, hbs⟩ := hbs.cons
    exact (derived_test hl has).snoc hop.1 ha ((derived hr).sum hbs).sum
  | .leaf _, h, _, hf => ((derived h).sum hf).sum.derives
  | .arith _ _ _, h, _, hf => ((derived h).sum hf).sum.derives

/-- Written arguments are derived. -/
theorem derived_args {args : List Expr} (h : ∀ e ∈ args, e.IsArithmetic) {found : List Token}
    (hf : FoundOn line found (writtenArgs args)) :
    ∃ t : Args, t.tokens = found ∧
      t.exprs.map (mapTokens .unplaced) = args.map (mapTokens .bare) := by
  have hmore : ∀ (es : List Expr) (found : List Token), (∀ e ∈ es, e.IsArithmetic) →
      FoundOn line found (es.flatMap fun e => .sign .comma :: e.written) →
      ∃ more : List (Terminal .comma × Chain .sum), moreArgs more = found ∧
        (more.map fun x => x.2.expr).map (mapTokens .unplaced) = es.map (mapTokens .bare) := by
    intro es
    induction es with
    | nil =>
      intro found _ hf
      exact ⟨[], hf.nil.symm, rfl⟩
    | cons e es ih =>
      intro found hes hf
      rw [List.forall_mem_cons] at hes
      obtain ⟨as, bs, rfl, has, hbs⟩ := hf.append
      obtain ⟨a, as, rfl, ha, has⟩ := has.cons
      obtain ⟨c, rfl, hc⟩ := (derived hes.1).sum has
      obtain ⟨more, rfl, hm⟩ := ih bs hes.2 hbs
      exact ⟨(signTerminal ha, c) :: more, rfl, congrArg₂ List.cons hc hm⟩
  cases args with
  | nil => exact ⟨.none, hf.nil.symm, rfl⟩
  | cons e es =>
    rw [List.forall_mem_cons] at h
    obtain ⟨as, bs, rfl, has, hbs⟩ := hf.append
    obtain ⟨c, rfl, hc⟩ := (derived h.1).sum has
    obtain ⟨more, rfl, hm⟩ := hmore es bs h.2 hbs
    exact ⟨.some c more, rfl, congrArg₂ List.cons hc hm⟩

end Expr

end Offside
