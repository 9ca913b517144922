import Offside.Parse.Stmt

/-!
# The grammar

The grammar of the specification (4.2), as a type of trees.

The derivations of the grammar are trees whose leaves are the tokens of a stream. Each constructor
is one alternative of a rule, and a leaf is a token of the kind the rule names, so a tree of a wrong
shape cannot be built:

* comparison = sum (comparison operator sum)*, sum = product (sum operator product)*, product =
  factor (product operator factor)*;
* factor = number | identifier | `(` sum `)`;
* assignment = identifier `=` sum, call = identifier `(` (sum (`,` sum)*)? `)`;
* conditional = `if` comparison `:` suite (`else` `:` suite)?, loop = `while` comparison `:` suite;
* suite = items | indent items dedent?, items = (`:` | statement)*.

These are `boolean_expression`, `expression`, `term`, `factor`, `assign_stmt`, `function_call`,
`if_stmt`, `while_stmt`, `block` and the sequence of statements of the specification. A colon in the
place of a statement is an item there too.

What a rule says about the neighbours of a phrase is not a matter of shape. It is said by `Fits`,
which knows the line of the token in front and the tokens behind: an item of an inline suite begins
on the line of the token in front of it, such a suite ends only at the end of the stream, in front
of `else` or a dedent marker, or in front of another line, an indented suite without a dedent marker
ends the stream, and a conditional without `else` is not followed by `else`.

* `Chain.tokens` and the functions beside it are the leaves of a tree from left to right.
* `Chain.expr`, `Statement.stmt`, `Suite.stmts` and the functions beside them are what a tree stands
  for. A chain is grouped to the left (`Tail.fold`).
* `streamOf` is the part of a stream in front of the first end of source, which is what a derivation
  is about, and `Derivation` a derivation of it.
-/

namespace Offside

/-! ## Streams -/

/-- The tokens in front of the first end of source. -/
def streamOf (tokens : List Token) : List Token :=
  tokens.takeWhile fun t => t.kind != .eof

/-- The kind of the next token; the end of the stream counts as an end of source. -/
def nextKind : List Token → Kind
  | [] => .eof
  | t :: _ => t.kind

/-- The line of the last of some tokens, or the line in front of them if there are none. -/
def lineAfter (line : Int) (tokens : List Token) : Int :=
  tokens.foldl (fun _ t => t.pos.line) line

@[simp] theorem lineAfter_nil (line : Int) : lineAfter line [] = line := rfl

@[simp] theorem lineAfter_cons (line : Int) (t : Token) (ts : List Token) :
    lineAfter line (t :: ts) = lineAfter t.pos.line ts := rfl

@[simp] theorem lineAfter_append (line : Int) (ts us : List Token) :
    lineAfter line (ts ++ us) = lineAfter (lineAfter line ts) us :=
  List.foldl_append

namespace Grammar

/-- A token of a given kind. -/
@[ext] structure Terminal (kind : Kind) where
  token : Token
  kind_eq : token.kind = kind

/-- An operator of a level. -/
@[ext] structure Operator (level : Level) where
  token : Token
  accepted : level.accepts token.kind = true

/-! ## Expressions -/

mutual

/-- Operands of a level with its operators between them. -/
inductive Chain : Level → Type where
  | mk {level : Level} (first : Operand level) (more : Tail level) : Chain level

/-- What an operator of a level binds. -/
inductive Operand : Level → Type where
  | sum (chain : Chain .sum) : Operand .comparison
  | product (chain : Chain .product) : Operand .sum
  | number (token : Terminal .number) : Operand .product
  | name (token : Terminal .identifier) : Operand .product
  | group (opening : Terminal .openParen) (inner : Chain .sum) (closing : Terminal .closeParen) :
      Operand .product

/-- Further operators of a level and their right operands. -/
inductive Tail : Level → Type where
  | nil {level : Level} : Tail level
  | cons {level : Level} (op : Operator level) (right : Operand level) (more : Tail level) :
      Tail level

end

mutual

/-- The tokens of a chain. -/
def Chain.tokens : {level : Level} → Chain level → List Token
  | _, .mk first more => first.tokens ++ more.tokens

/-- The tokens of an operand. -/
def Operand.tokens : {level : Level} → Operand level → List Token
  | _, .sum chain => chain.tokens
  | _, .product chain => chain.tokens
  | _, .number t => [t.token]
  | _, .name t => [t.token]
  | _, .group opening inner closing => opening.token :: (inner.tokens ++ [closing.token])

/-- The tokens of the rest of a chain. -/
def Tail.tokens : {level : Level} → Tail level → List Token
  | _, .nil => []
  | _, .cons op right more => op.token :: (right.tokens ++ more.tokens)

end

mutual

/-- The expression of a chain, which is grouped to the left. -/
def Chain.expr : {level : Level} → Chain level → Expr
  | _, .mk first more => more.fold first.expr

/-- The expression of an operand. -/
def Operand.expr : {level : Level} → Operand level → Expr
  | _, .sum chain => chain.expr
  | _, .product chain => chain.expr
  | _, .number t => .leaf t.token
  | _, .name t => .leaf t.token
  | _, .group _ inner _ => inner.expr

/-- The expression of the rest of a chain, behind the operand `left`. -/
def Tail.fold : {level : Level} → Tail level → Expr → Expr
  | _, .nil, left => left
  | level, .cons op right more, left => more.fold (level.combine left op.token right.expr)

end

/-- The arguments of a call. -/
inductive Args where
  | none
  | some (first : Chain .sum) (more : List (Terminal .comma × Chain .sum))

/-- The tokens of the arguments behind the first one. -/
def moreArgs (args : List (Terminal .comma × Chain .sum)) : List Token :=
  args.flatMap fun (comma, arg) => comma.token :: arg.tokens

/-- The tokens of the arguments of a call. -/
def Args.tokens : Args → List Token
  | none => []
  | some first more => first.tokens ++ moreArgs more

/-- The expressions of the arguments of a call. -/
def Args.exprs : Args → List Expr
  | none => []
  | some first more => first.expr :: more.map fun (_, arg) => arg.expr

/-! ## Statements -/

mutual

/-- A statement. -/
inductive Statement where
  | assign (target : Terminal .identifier) (sign : Terminal .assign) (value : Chain .sum)
  | call (name : Terminal .identifier) (opening : Terminal .openParen) (args : Args)
      (closing : Terminal .closeParen)
  | ifThen (word : Terminal .ifWord) (cond : Chain .comparison) (colon : Terminal .colon)
      (body : Suite)
  | ifElse (word : Terminal .ifWord) (cond : Chain .comparison) (colon : Terminal .colon)
      (body : Suite) (other : Terminal .elseWord) (colon' : Terminal .colon) (alt : Suite)
  | loop (word : Terminal .whileWord) (cond : Chain .comparison) (colon : Terminal .colon)
      (body : Suite)

/-- The block behind the colon of a header. -/
inductive Suite where
  | inline (items : Items)
  /-- Without a dedent marker the block is closed by the end of the stream. -/
  | indented (indent : Terminal .indent) (items : Items) (dedent : Option (Terminal .dedent))

/-- Statements, with colons that are skipped. -/
inductive Items where
  | nil
  | colon (token : Terminal .colon) (more : Items)
  | stmt (s : Statement) (more : Items)

end

/-- The dedent marker at the end of a suite, if there is one. -/
def closing : Option (Terminal .dedent) → List Token
  | none => []
  | some dedent => [dedent.token]

mutual

/-- The tokens of a statement. -/
def Statement.tokens : Statement → List Token
  | .assign target sign value => target.token :: sign.token :: value.tokens
  | .call name opening args closing =>
    name.token :: opening.token :: (args.tokens ++ [closing.token])
  | .ifThen word cond colon body => word.token :: (cond.tokens ++ colon.token :: body.tokens)
  | .ifElse word cond colon body other colon' alt =>
    word.token :: (cond.tokens ++
      colon.token :: (body.tokens ++ other.token :: colon'.token :: alt.tokens))
  | .loop word cond colon body => word.token :: (cond.tokens ++ colon.token :: body.tokens)

/-- The tokens of a suite. -/
def Suite.tokens : Suite → List Token
  | .inline items => items.tokens
  | .indented indent items dedent => indent.token :: (items.tokens ++ closing dedent)

/-- The tokens of some items. -/
def Items.tokens : Items → List Token
  | .nil => []
  | .colon token more => token.token :: more.tokens
  | .stmt s more => s.tokens ++ more.tokens

end

mutual

/-- The statement that a derivation stands for. -/
def Statement.stmt : Statement → Stmt
  | .assign target _ value => .assign target.token value.expr
  | .call name _ args _ => .call name.token args.exprs
  | .ifThen _ cond _ body => .ifThen cond.expr body.stmts
  | .ifElse _ cond _ body _ _ alt => .ifElse cond.expr body.stmts alt.stmts
  | .loop _ cond _ body => .loop cond.expr body.stmts

/-- The statements of a suite. -/
def Suite.stmts : Suite → List Stmt
  | .inline items => items.stmts
  | .indented _ items _ => items.stmts

/-- The statements among some items. -/
def Items.stmts : Items → List Stmt
  | .nil => []
  | .colon _ more => more.stmts
  | .stmt s more => s.stmt :: more.stmts

end

/-- The first token of a statement. -/
def Statement.first : Statement → Token
  | .assign target _ _ => target.token
  | .call name _ _ _ => name.token
  | .ifThen word _ _ _ | .ifElse word _ _ _ _ _ _ => word.token
  | .loop word _ _ _ => word.token

/-! ## What stands around a phrase -/

end Grammar

/-- Whether items of this extent may end in front of some tokens and behind a given line. -/
def Extent.Ends (extent : Extent) (line : Int) : List Token → Prop
  | [] => True
  | t :: _ =>
    match extent with
    | program => False
    | inline => t.kind.endsBlock = true ∨ t.pos.line ≠ line
    | indented => t.kind.endsBlock = true

/-- Whether an item of this extent may begin with a token behind a given line. -/
def Extent.Admits (extent : Extent) (line : Int) (first : Token) : Prop :=
  extent = .inline → first.pos.line = line

namespace Grammar

mutual

/-- What the grammar asks of the tokens behind a statement. -/
def Statement.Fits : Statement → List Token → Prop
  | .assign _ _ _, _ => True
  | .call _ _ _ _, _ => True
  | .ifThen _ _ colon body, rest =>
    body.Fits colon.token.pos.line rest ∧ nextKind rest ≠ .elseWord
  | .ifElse _ _ colon body other colon' alt, rest =>
    body.Fits colon.token.pos.line (other.token :: colon'.token :: (alt.tokens ++ rest)) ∧
      alt.Fits colon'.token.pos.line rest
  | .loop _ _ colon body, rest => body.Fits colon.token.pos.line rest

/-- What the grammar asks of the line in front of a suite and of the tokens behind it. -/
def Suite.Fits : Suite → Int → List Token → Prop
  | .inline items, line, rest => items.Fits .inline line rest
  | .indented indent items dedent, _, rest =>
    items.Fits .indented indent.token.pos.line (closing dedent ++ rest) ∧
      (dedent = none → rest = [])

/-- What the grammar asks of the line in front of some items and of the tokens behind them. -/
def Items.Fits : Items → Extent → Int → List Token → Prop
  | .nil, extent, line, rest => extent.Ends line rest
  | .colon token more, extent, line, rest =>
    extent.Admits line token.token ∧ more.Fits extent token.token.pos.line rest
  | .stmt s more, extent, line, rest =>
    extent.Admits line s.first ∧ s.Fits (more.tokens ++ rest) ∧
      more.Fits extent (lineAfter line s.tokens) rest

end

/-- **A derivation of a stream** from the rule for programs. -/
structure Derivation (stream : List Token) where
  items : Items
  tokens_eq : items.tokens = stream
  fits : items.Fits .program 0 []

end Grammar

end Offside
