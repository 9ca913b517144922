import Offside.Frontend

/-!
# Writing a program down

A text for every program of the grammar of the specification (4.2), which has no writer of programs
itself. `Proofs/Render/RoundTrip` reads these texts back.

A program is written with one statement a line. The statements of a block stand on the lines behind
the header, one blank further in than the header; an empty block takes no line. The word `else`
stands on a line of its own, as far in as its `if`. Tokens of a line are separated by one blank, but
`else` and its colon are written together. Parentheses stand only where the grammar would group
otherwise: around a sum that is an operand of a product, and around a right operand that is as weak
as its operator.

* `written` has the tokens of an expression in the order they are written, `Stmt.lines` the lines of
  a statement, and `render` the text of a program.
* `Kind.spelling` is the text of a token whose kind leaves no choice.

Not every program can be written: a program put together by hand may hold a keyword in the place of
a name, a number whose text is no numeral, or a comparison inside an argument. The programs that can
be written are `Grammatical`, which is decidable. Nesting is not bounded, and a name may have
letters of any script.

What is read back has positions of its own, and a value only where a number was read: `unplaced`
forgets the first, `bare` forgets both.

Out of scope: comments, colons that are skipped, and blocks on the line of their header, which no
written text has; what they come to is in `Proofs/Editing` and `Proofs/Grammar`.
-/

namespace Offside

/-! ## Programs without positions -/

namespace Token

/-- The token without its position. -/
def unplaced (t : Token) : Token :=
  { t with pos := .unset }

/-- The token without its position, and without a value unless it is a number. -/
def bare (t : Token) : Token :=
  { t with num := if t.kind = .number then t.num else 0, pos := .unset }

end Token

/-- The expression with every token replaced. -/
def Expr.mapTokens (f : Token → Token) : Expr → Expr
  | .leaf t => .leaf (f t)
  | .arith left op right => .arith (left.mapTokens f) (f op) (right.mapTokens f)
  | .compare left op right => .compare (left.mapTokens f) (f op) (right.mapTokens f)
  | .missing => .missing

mutual

/-- The statement with every token replaced. -/
def Stmt.mapTokens (f : Token → Token) : Stmt → Stmt
  | .assign target value => .assign (f target) (value.mapTokens f)
  | .call name args => .call (f name) (args.map (Expr.mapTokens f))
  | .ifThen cond body => .ifThen (cond.mapTokens f) (Stmt.mapAll f body)
  | .ifElse cond body alt =>
    .ifElse (cond.mapTokens f) (Stmt.mapAll f body) (Stmt.mapAll f alt)
  | .loop cond body => .loop (cond.mapTokens f) (Stmt.mapAll f body)
  | .missing => .missing

/-- The statements with every token replaced. -/
def Stmt.mapAll (f : Token → Token) : List Stmt → List Stmt
  | [] => []
  | s :: ss => s.mapTokens f :: Stmt.mapAll f ss

end

/-- The program without positions. -/
def Program.unplaced (p : Program) : Program :=
  Stmt.mapAll Token.unplaced p

/-- The program without positions, and without values of tokens that are no numbers. -/
def Program.bare (p : Program) : Program :=
  Stmt.mapAll Token.bare p

/-! ## The text of a program -/

/-- The text of a token whose kind leaves no choice. -/
def Kind.spelling : Kind → Text
  | ifWord => "if"
  | elseWord => "else"
  | whileWord => "while"
  | plus => "+"
  | minus => "-"
  | times => "*"
  | divide => "/"
  | assign => "="
  | equal => "=="
  | unequal => "!="
  | less => "<"
  | greater => ">"
  | openParen => "("
  | closeParen => ")"
  | comma => ","
  | colon => ":"
  | _ => []

/-- The token of such a kind. -/
def Token.sign (kind : Kind) : Token :=
  .plain kind kind.spelling .unset

namespace Expr

/-- Whether an expression is two operands of an operator of a level. -/
def isOf (level : Level) : Expr → Bool
  | .arith _ op _ => level.accepts op.kind
  | _ => false

end Expr

/-- Tokens in parentheses, if they are wanted. -/
def enclosed (wanted : Bool) (ts : List Token) : List Token :=
  if wanted then .sign .openParen :: (ts ++ [.sign .closeParen]) else ts

namespace Expr

/-- The tokens of an expression in the order they are written. -/
def written : Expr → List Token
  | .leaf t => [t]
  | .arith left op right =>
    let product := Level.product.accepts op.kind
    enclosed (product && left.isOf .sum) left.written ++
      op :: enclosed (right.isOf .sum || product && right.isOf .product) right.written
  | .compare left op right => left.written ++ op :: right.written
  | .missing => []

/-- The tokens of arguments with commas between them. -/
def writtenArgs : List Expr → List Token
  | [] => []
  | e :: es => e.written ++ es.flatMap fun e => .sign .comma :: e.written

end Expr

/-- A line: its distance from the margin and its tokens. -/
structure Line where
  depth : Nat
  tokens : List Token

namespace Line

/-- A line that opens a block. -/
def header (depth : Nat) (word : Kind) (cond : Expr) : Line :=
  ⟨depth, .sign word :: (cond.written ++ [.sign .colon])⟩

/-- The line between the two blocks of a conditional. -/
def other (depth : Nat) : Line :=
  ⟨depth, [.sign .elseWord, .sign .colon]⟩

end Line

mutual

/-- The lines of a statement that begins `depth` blanks from the margin. -/
def Stmt.lines (depth : Nat) : Stmt → List Line
  | .assign target value => [⟨depth, target :: .sign .assign :: value.written⟩]
  | .call name args =>
    [⟨depth, name :: .sign .openParen :: (Expr.writtenArgs args ++ [.sign .closeParen])⟩]
  | .ifThen cond body => .header depth .ifWord cond :: Stmt.linesOf (depth + 1) body
  | .ifElse cond body alt =>
    .header depth .ifWord cond ::
      (Stmt.linesOf (depth + 1) body ++ .other depth :: Stmt.linesOf (depth + 1) alt)
  | .loop cond body => .header depth .whileWord cond :: Stmt.linesOf (depth + 1) body
  | .missing => []

/-- The lines of statements that begin `depth` blanks from the margin. -/
def Stmt.linesOf (depth : Nat) : List Stmt → List Line
  | [] => []
  | s :: ss => s.lines depth ++ Stmt.linesOf depth ss

end

/-- What separates a token from the next one of its line. -/
def Token.gap (t : Token) : Text :=
  if t.kind = .elseWord then [] else [Text.blank]

namespace Line

/-- The texts of tokens with their gaps. -/
def spaced : List Token → Text
  | [] => []
  | [t] => t.value
  | t :: u :: ts => t.value ++ (t.gap ++ spaced (u :: ts))

/-- The text of a line. -/
def text (l : Line) : Text :=
  List.replicate l.depth Text.blank ++ (spaced l.tokens ++ [Text.newline])

end Line

/-- The text of a program. -/
def render (p : Program) : Text :=
  (Stmt.linesOf 0 p).flatMap Line.text

/-! ## Programs that can be written -/

/-- The words that are no names. -/
def keywords : List Text := ["if", "else", "while"]

namespace Token

/-- An identifier: a letter or an underscore, then letters, underscores and digits. -/
def IsName (t : Token) : Prop :=
  t.kind = .identifier ∧ t.value ∉ keywords ∧ t.value ≠ [] ∧
    ((Rune.decode t.value).take 1).all Rune.isNameStart = true ∧
    (Rune.decode t.value).all Rune.isNamePart = true

/-- A number with its digits. -/
def IsNumeral (t : Token) : Prop :=
  t.kind = .number ∧ t.value ≠ [] ∧ (Rune.decode t.value).all Rune.isDigit = true ∧
    t.num.toInt = Text.digitsValue t.value

/-- An operator of a level with its text. -/
def IsOperator (level : Level) (t : Token) : Prop :=
  level.accepts t.kind = true ∧ t.value = t.kind.spelling

instance (t : Token) : Decidable t.IsName := inferInstanceAs (Decidable (_ ∧ _ ∧ _ ∧ _ ∧ _))

instance (t : Token) : Decidable t.IsNumeral := inferInstanceAs (Decidable (_ ∧ _ ∧ _ ∧ _))

instance (level : Level) (t : Token) : Decidable (t.IsOperator level) :=
  inferInstanceAs (Decidable (_ ∧ _))

end Token

namespace Expr

/-- Names, numbers and arithmetic operators. -/
def IsArithmetic : Expr → Prop
  | .leaf t => t.IsName ∨ t.IsNumeral
  | .arith left op right =>
    left.IsArithmetic ∧ (op.IsOperator .sum ∨ op.IsOperator .product) ∧ right.IsArithmetic
  | .compare _ _ _ => False
  | .missing => False

/-- A condition: comparisons nest only in the left operand. -/
def IsTest : Expr → Prop
  | .compare left op right => left.IsTest ∧ op.IsOperator .comparison ∧ right.IsArithmetic
  | e => e.IsArithmetic

/-- Decides whether an expression is arithmetic. -/
def decIsArithmetic : (e : Expr) → Decidable e.IsArithmetic
  | .leaf t => inferInstanceAs (Decidable (t.IsName ∨ t.IsNumeral))
  | .arith left op right =>
    have := left.decIsArithmetic
    have := right.decIsArithmetic
    inferInstanceAs (Decidable (_ ∧ (op.IsOperator .sum ∨ op.IsOperator .product) ∧ _))
  | .compare _ _ _ => isFalse id
  | .missing => isFalse id

instance : DecidablePred IsArithmetic := decIsArithmetic

/-- Decides whether an expression is a condition. -/
def decIsTest : (e : Expr) → Decidable e.IsTest
  | .compare left op right =>
    have := left.decIsTest
    inferInstanceAs (Decidable (_ ∧ op.IsOperator .comparison ∧ right.IsArithmetic))
  | .leaf t => inferInstanceAs (Decidable (IsArithmetic (.leaf t)))
  | .arith left op right => inferInstanceAs (Decidable (IsArithmetic (.arith left op right)))
  | .missing => isFalse id

instance : DecidablePred IsTest := decIsTest

end Expr

namespace Stmt

mutual

/-- A statement that can be written. -/
def IsWritable : Stmt → Prop
  | .assign target value => target.IsName ∧ value.IsArithmetic
  | .call name args => name.IsName ∧ ∀ e ∈ args, e.IsArithmetic
  | .ifThen cond body => cond.IsTest ∧ AreWritable body
  | .ifElse cond body alt => cond.IsTest ∧ AreWritable body ∧ AreWritable alt
  | .loop cond body => cond.IsTest ∧ AreWritable body
  | .missing => False

/-- Statements that can be written. -/
def AreWritable : List Stmt → Prop
  | [] => True
  | s :: ss => s.IsWritable ∧ AreWritable ss

end

mutual

/-- Decides whether a statement can be written. -/
def decIsWritable : (s : Stmt) → Decidable s.IsWritable
  | .assign target value => inferInstanceAs (Decidable (target.IsName ∧ value.IsArithmetic))
  | .call name args =>
    inferInstanceAs (Decidable (name.IsName ∧ ∀ e ∈ args, Expr.IsArithmetic e))
  | .ifThen cond body =>
    have := decAreWritable body
    inferInstanceAs (Decidable (cond.IsTest ∧ AreWritable body))
  | .ifElse cond body alt =>
    have := decAreWritable body
    have := decAreWritable alt
    inferInstanceAs (Decidable (cond.IsTest ∧ AreWritable body ∧ AreWritable alt))
  | .loop cond body =>
    have := decAreWritable body
    inferInstanceAs (Decidable (cond.IsTest ∧ AreWritable body))
  | .missing => isFalse id

/-- Decides whether statements can be written. -/
def decAreWritable : (ss : List Stmt) → Decidable (AreWritable ss)
  | [] => isTrue trivial
  | s :: ss =>
    have := decIsWritable s
    have := decAreWritable ss
    inferInstanceAs (Decidable (s.IsWritable ∧ AreWritable ss))

end

end Stmt

/-- A program that can be written. -/
def Grammatical (p : Program) : Prop :=
  Stmt.AreWritable p

instance : DecidablePred Grammatical := Stmt.decAreWritable

end Offside
