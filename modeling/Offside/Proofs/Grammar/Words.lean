import Offside.Proofs.Grammar.Kept
import Offside.Proofs.Lexer.Levels

/-!
# Every token of a stream is accounted for

The second half of what `Proofs/Grammar/Kept` begins: the tokens that are not in the tree have built
a part of it each.

A program keeps the names, the numbers and the operators of its stream. Of the tokens that it does
not keep, the keywords and the equals sign each build a statement: `if` a conditional, `else` the
second block of one, `while` a loop and the equals sign an assignment. So there are as many
statements of each of these forms in a program, those inside of blocks included, as there are such
tokens in its stream.

* `Kind.builds` are these four kinds, and `Stmt.isBuiltBy` says whether a token of some kind builds
  a statement of this form.
* `Stmt.parts` is a statement with all the statements inside it, at any depth, and `buildCount`
  counts among these.

Results:
* `Items.builds_eq`: a sequence has as many statements of a form as tokens that build them. The
  induction is on the derivation; expressions build nothing.
* `parseTokens_accounts`: nothing of a stream that is read is lost, doubled or moved.

Out of scope: the colons, the commas, the parentheses and the markers, which neither stand in a
program nor build a statement of their own.
-/

namespace Offside

open Grammar Lexer

/-- The kinds of tokens that build statements and are not kept. -/
def Kind.builds : Kind → Bool
  | ifWord | elseWord | whileWord | assign => true
  | _ => false

namespace Stmt

/-- Whether a token of some kind builds a statement of this form. A conditional with two blocks is
built by two tokens. -/
def isBuiltBy (k : Kind) : Stmt → Bool
  | .assign _ _ => Kind.assign == k
  | .ifThen _ _ => Kind.ifWord == k
  | .ifElse _ _ _ => Kind.ifWord == k || Kind.elseWord == k
  | .loop _ _ => Kind.whileWord == k
  | .call _ _ | .missing => false

mutual

/-- A statement and the statements in its blocks. -/
def parts : Stmt → List Stmt
  | .assign target value => [.assign target value]
  | .call name args => [.call name args]
  | .ifThen cond body => .ifThen cond body :: partsOf body
  | .ifElse cond body alt => .ifElse cond body alt :: (partsOf body ++ partsOf alt)
  | .loop cond body => .loop cond body :: partsOf body
  | .missing => [.missing]

/-- Some statements and the statements in their blocks. -/
def partsOf : List Stmt → List Stmt
  | [] => []
  | s :: ss => s.parts ++ partsOf ss

end

/-- How many of some statements and of those in their blocks a token of some kind builds. -/
def buildCount (k : Kind) (ss : List Stmt) : Nat :=
  (partsOf ss).countP (isBuiltBy k)

end Stmt

namespace Grammar

variable {k : Kind}

/-- A token counts if it is of the kind that is counted. -/
theorem Terminal.kindCount_cons {kind : Kind} (t : Terminal kind) (k : Kind) (ts : List Token) :
    kindCount k (t.token :: ts) = kindCount k ts + if kind = k then 1 else 0 := by
  rw [Lexer.kindCount_cons, t.kind_eq]

/-- Tokens that build nothing do not count. -/
theorem Terminal.kindCount_skip {kind : Kind} (t : Terminal kind) (hk : k.builds = true)
    (h : kind.builds = false) (ts : List Token) :
    kindCount k (t.token :: ts) = kindCount k ts := by
  rw [t.kindCount_cons, if_neg, Nat.add_zero]
  rintro rfl
  rw [hk] at h
  cases h

theorem Operator.kindCount_skip {level : Level} (op : Operator level) (hk : k.builds = true)
    (ts : List Token) : kindCount k (op.token :: ts) = kindCount k ts := by
  rw [Lexer.kindCount_cons, if_neg, Nat.add_zero]
  rintro rfl
  have hkept := Level.isKept_of_accepts op.accepted
  generalize op.token.kind = kind at hk hkept
  cases kind <;> cases hkept <;> cases hk

/-! ## Expressions build no statements -/

mutual

theorem Chain.kindCount_eq_zero (hk : k.builds = true) :
    ∀ {level : Level} (t : Chain level), kindCount k t.tokens = 0
  | _, .mk first more => by
    rw [Chain.tokens, kindCount_append, first.kindCount_eq_zero hk, more.kindCount_eq_zero hk]

theorem Operand.kindCount_eq_zero (hk : k.builds = true) :
    ∀ {level : Level} (t : Operand level), kindCount k t.tokens = 0
  | _, .sum chain => chain.kindCount_eq_zero hk
  | _, .product chain => chain.kindCount_eq_zero hk
  | _, .number t => t.kindCount_skip hk rfl []
  | _, .name t => t.kindCount_skip hk rfl []
  | _, .group opening inner closing => by
    rw [Operand.tokens, opening.kindCount_skip hk rfl, kindCount_append,
      inner.kindCount_eq_zero hk, closing.kindCount_skip hk rfl]
    rfl

theorem Tail.kindCount_eq_zero (hk : k.builds = true) :
    ∀ {level : Level} (t : Tail level), kindCount k t.tokens = 0
  | _, .nil => rfl
  | _, .cons op right more => by
    rw [Tail.tokens, op.kindCount_skip hk, kindCount_append, right.kindCount_eq_zero hk,
      more.kindCount_eq_zero hk]

end

theorem Args.kindCount_eq_zero (hk : k.builds = true) (t : Args) : kindCount k t.tokens = 0 := by
  cases t with
  | none => rfl
  | some first more =>
    rw [Args.tokens, kindCount_append, first.kindCount_eq_zero hk, Nat.zero_add]
    induction more with
    | nil => rfl
    | cons arg more ih =>
      obtain ⟨comma, arg⟩ := arg
      rw [moreArgs, List.flatMap_cons, List.cons_append, comma.kindCount_skip hk rfl,
        kindCount_append, arg.kindCount_eq_zero hk, Nat.zero_add]
      exact ih

/-- Of a header, only its keyword builds something. -/
theorem kindCount_behind_header (hk : k.builds = true) {kind : Kind} (word : Terminal kind)
    (cond : Chain .comparison) (colon : Terminal .colon) (ts : List Token) :
    kindCount k (word.token :: (cond.tokens ++ colon.token :: ts)) =
      kindCount k ts + if kind = k then 1 else 0 := by
  rw [word.kindCount_cons, kindCount_append, cond.kindCount_eq_zero hk,
    colon.kindCount_skip hk rfl, Nat.zero_add]

theorem closing_kindCount (hk : k.builds = true) (dedent : Option (Terminal .dedent)) :
    kindCount k (closing dedent) = 0 := by
  cases dedent with
  | none => rfl
  | some marker => exact marker.kindCount_skip hk rfl []

/-! ## Every statement is built once -/

/-- No token is both words of a conditional. -/
theorem ite_words (k : Kind) :
    ((if Kind.ifWord = k then 1 else 0) + if Kind.elseWord = k then 1 else 0) =
      if (Kind.ifWord == k || Kind.elseWord == k) = true then 1 else 0 := by
  cases k <;> rfl

mutual

theorem Statement.builds_eq (hk : k.builds = true) :
    ∀ t : Statement, kindCount k t.tokens = t.stmt.parts.countP (Stmt.isBuiltBy k)
  | .assign target sign value => by
    rw [Statement.tokens, target.kindCount_skip hk rfl, sign.kindCount_cons,
      value.kindCount_eq_zero hk, Statement.stmt, Stmt.parts, List.countP_singleton]
    simp [Stmt.isBuiltBy]
  | .call name opening args closing => by
    rw [Statement.tokens, name.kindCount_skip hk rfl, opening.kindCount_skip hk rfl,
      kindCount_append, args.kindCount_eq_zero hk, closing.kindCount_skip hk rfl]
    rfl
  | .ifThen word cond colon body => by
    rw [Statement.tokens, kindCount_behind_header hk, body.builds_eq hk, Statement.stmt,
      Stmt.parts, List.countP_cons]
    simp [Stmt.isBuiltBy]
  | .ifElse word cond colon body other colon' alt => by
    rw [Statement.tokens, kindCount_behind_header hk, kindCount_append, body.builds_eq hk,
      other.kindCount_cons, colon'.kindCount_skip hk rfl, alt.builds_eq hk, Statement.stmt,
      Stmt.parts, List.countP_cons, List.countP_append, Stmt.isBuiltBy, ← ite_words]
    omega
  | .loop word cond colon body => by
    rw [Statement.tokens, kindCount_behind_header hk, body.builds_eq hk, Statement.stmt,
      Stmt.parts, List.countP_cons]
    simp [Stmt.isBuiltBy]

theorem Suite.builds_eq (hk : k.builds = true) :
    ∀ t : Suite, kindCount k t.tokens = (Stmt.partsOf t.stmts).countP (Stmt.isBuiltBy k)
  | .inline items => items.builds_eq hk
  | .indented indent items dedent => by
    rw [Suite.tokens, indent.kindCount_skip hk rfl, kindCount_append, items.builds_eq hk,
      closing_kindCount hk]
    rfl

/-- **A sequence has as many statements of a form as tokens that build them.** -/
theorem Items.builds_eq (hk : k.builds = true) :
    ∀ t : Items, kindCount k t.tokens = (Stmt.partsOf t.stmts).countP (Stmt.isBuiltBy k)
  | .nil => rfl
  | .colon token more => by
    rw [Items.tokens, token.kindCount_skip hk rfl, more.builds_eq hk]
    rfl
  | .stmt s more => by
    rw [Items.tokens, kindCount_append, s.builds_eq hk, more.builds_eq hk, Items.stmts,
      Stmt.partsOf, List.countP_append]

end

end Grammar

/-- **Nothing of a stream is lost, doubled or moved.** The tokens of a program in order are the
names, the numbers and the operators of its stream, and there are as many conditionals, second
blocks, loops and assignments in it as tokens that build them. -/
theorem parseTokens_accounts {ts : List Token} {program : Program}
    (h : parseTokens ts = .ok program) :
    Stmt.tokensOf program = keptOf (streamOf ts) ∧
      ∀ k ∈ [Kind.ifWord, .elseWord, .whileWord, .assign],
        kindCount k (streamOf ts) = Stmt.buildCount k program := by
  obtain ⟨d, rfl⟩ := derivation_of_parseTokens h
  refine ⟨d.tokensOf_eq, fun k hk => ?_⟩
  have hbuilds : k.builds = true := by
    have hall : ∀ k ∈ [Kind.ifWord, .elseWord, .whileWord, .assign], k.builds = true := by decide
    exact hall k hk
  calc kindCount k (streamOf ts) = kindCount k d.items.tokens := by rw [d.tokens_eq]
    _ = Stmt.buildCount k d.items.stmts := d.items.builds_eq hbuilds

/-- A loop around a conditional with two blocks. Behind the end of the source stands a token that
does not belong to the stream. -/
def branchTokens : List Token :=
  [.plain .whileWord "while" ⟨0, 1, 1⟩, .plain .identifier "a" ⟨6, 1, 7⟩,
   .plain .colon ":" ⟨7, 1, 8⟩,
   .plain .indent [] ⟨11, 2, 3⟩, .plain .ifWord "if" ⟨11, 2, 3⟩, .plain .identifier "b" ⟨14, 2, 6⟩,
   .plain .less "<" ⟨16, 2, 8⟩, .plain .identifier "a" ⟨18, 2, 10⟩, .plain .colon ":" ⟨19, 2, 11⟩,
   .plain .identifier "x" ⟨21, 2, 13⟩, .plain .assign "=" ⟨23, 2, 15⟩,
   .plain .openParen "(" ⟨25, 2, 17⟩, ⟨.number, "1", 1, ⟨26, 2, 18⟩⟩, .plain .plus "+" ⟨28, 2, 20⟩,
   .plain .identifier "a" ⟨30, 2, 22⟩, .plain .closeParen ")" ⟨31, 2, 23⟩,
   .plain .elseWord "else" ⟨35, 3, 3⟩, .plain .colon ":" ⟨39, 3, 7⟩,
   .plain .identifier "f" ⟨41, 3, 9⟩,
   .plain .openParen "(" ⟨42, 3, 10⟩, .plain .closeParen ")" ⟨43, 3, 11⟩,
   .plain .dedent [] ⟨44, 3, 12⟩,
   .eofAt ⟨44, 3, 12⟩, .plain .ifWord "if" ⟨44, 3, 12⟩]

/-- The program of these tokens. -/
def branchProgram : Program :=
  [.loop (.leaf (.plain .identifier "a" ⟨6, 1, 7⟩))
    [.ifElse
      (.compare (.leaf (.plain .identifier "b" ⟨14, 2, 6⟩)) (.plain .less "<" ⟨16, 2, 8⟩)
        (.leaf (.plain .identifier "a" ⟨18, 2, 10⟩)))
      [.assign (.plain .identifier "x" ⟨21, 2, 13⟩)
        (.arith (.leaf ⟨.number, "1", 1, ⟨26, 2, 18⟩⟩) (.plain .plus "+" ⟨28, 2, 20⟩)
          (.leaf (.plain .identifier "a" ⟨30, 2, 22⟩)))]
      [.call (.plain .identifier "f" ⟨41, 3, 9⟩) []]]]

theorem parseTokens_branch : parseTokens branchTokens = .ok branchProgram := by decide +kernel

/-- The tokens of that stream, none of which stands behind the end of the source. -/
theorem parseTokens_accounts_branch :
    parseTokens branchTokens = .ok branchProgram ∧
      Stmt.tokensOf branchProgram = keptOf (streamOf branchTokens) ∧
      ∀ k ∈ [Kind.ifWord, .elseWord, .whileWord, .assign],
        kindCount k (streamOf branchTokens) = Stmt.buildCount k branchProgram :=
  ⟨parseTokens_branch, parseTokens_accounts parseTokens_branch⟩

end Offside
