import Offside.Parse.Expr

/-!
# Reading statements and programs

Model of the rules `program`, `statement`, `assign_stmt`, `function_call`, `if_stmt`, `while_stmt`
and `block` (specification, 4.2; the functions `Parse`, `statement`, `assignment`, `functionCall`,
`ifStmt`, `whileStmt`, `block` and `statements` of the parser).

A program is a sequence of statements; colons between them are skipped. A block follows the colon of
a header. If an indent marker stands there, the block lasts until the matching dedent marker or the
end of the source. Otherwise the block is *inline*: it takes statements as long as each begins on
the line of the token in front of it.

* The three loops over statements are one function, `sequence`, at the extents of a program, an
  inline block and an indented block. `Extent.endsAt` is the test `done` of `statements` in the two
  blocks, and the condition of the loop of `Parse` in a program.
* `block` is `block`. The dedent behind an indented block is expected, unless the source ends there.
* `statement` is `statement` with `ifStmt` and `whileStmt` in it. A name with no token behind it is
  an error at an end of source in the place of the name; any other token behind a name than an
  equals sign or a parenthesis is the offending token itself.
* `assignment` and `call` are `assignment` and `functionCall`, and `header` is what `ifStmt` and
  `whileStmt` begin with: a condition and a colon.
* `program` is `Parse`, and `parseTokens` a new parser's `Parse`.

An inline block is measured against the token in front of each statement, not against its colon. So
a statement on the last line of a call that runs over lines still belongs to the block. What follows
for dedent markers is worked out in `Proofs/Grammar/Indentation`.

A cursor is not reset when reading stops, so that reading can go on where it stopped: a second call
of `program` begins there, as a second `Parse` does.
-/

namespace Offside

/-- The extents of statement sequences. -/
inductive Extent where
  | program
  | inline
  | indented
  deriving DecidableEq, Repr

/-- Whether a sequence of this extent ends in front of the current token. -/
def Extent.endsAt (extent : Extent) (c : Cursor) : Bool :=
  match extent with
  | program => c.cur.kind == .eof
  | inline => c.cur.kind.endsBlock || c.cur.pos.line != c.last.line
  | indented => c.cur.kind.endsBlock

namespace Cursor

/-- Reads an assignment, its target being the current token. -/
def assignment (c : Cursor) (h : c.cur.kind ≠ .eof) : Reading Stmt c.size :=
  ((c.advance.expect .assign).relax (c.advance_size_lt h)).andThen fun _ c' h' =>
    ((c'.chain .sum).map (.assign c.cur ·)).relax (Nat.le_of_lt h')

/-- Reads a call, the name of the function being the current token (`functionCall`). -/
def call (c : Cursor) (h : c.cur.kind ≠ .eof) : Reading Stmt c.size :=
  ((c.advance.expect .openParen).relax (c.advance_size_lt h)).andThen fun _ c₁ h₁ =>
    (c₁.argumentList.relax h₁).andThen fun args c₂ h₂ =>
      ((c₂.expect .closeParen).map fun _ => .call c.cur args).relax h₂

/-- Reads the condition and the colon behind the current keyword. -/
def header (c : Cursor) (h : c.cur.kind ≠ .eof) : Reading Expr c.size :=
  ((c.advance.chain .comparison).relax (Nat.le_of_lt (c.advance_size_lt h))).andThen
    fun cond c' h' => ((c'.expect .colon).map fun _ => cond).relax h'

mutual

/-- Reads one statement. The token behind a name tells an assignment from a call. -/
def statement (c : Cursor) : Reading Stmt c.size :=
  if word : c.cur.kind = .identifier then
    match c.next? with
    | none => .error (.wrongKind (.eofAt c.cur.pos) [.assign, .openParen]) c
    | some t =>
      if t.kind = .assign then c.assignment (by simp [word])
      else if t.kind = .openParen then c.call (by simp [word])
      else .error (.wrongKind t [.assign, .openParen]) c
  else if cond : c.cur.kind = .ifWord then
    (c.header (by simp [cond])).andThen fun test c₁ h₁ =>
      (c₁.block.relax h₁).andThen fun body c₂ h₂ =>
        if c₂.cur.kind = .elseWord then
          ((c₂.advance.expect .colon).relax (Nat.lt_of_le_of_lt c₂.advance_size_le h₂)).andThen
            fun _ c₃ h₃ => (c₃.block.map (.ifElse test body ·)).relax h₃
        else .ok (.ifThen test body) c₂ h₂
  else if loop : c.cur.kind = .whileWord then
    (c.header (by simp [loop])).andThen fun test c₁ h₁ =>
      (c₁.block.map (.loop test ·)).relax h₁
  else .error (.wrongStart c.cur "statement") c
termination_by 3 * c.size

/-- Reads the block behind the colon of a header. -/
def block (c : Cursor) : Reading (List Stmt) (c.size + 1) :=
  if indented : c.cur.kind = .indent then
    have less := c.advance_size_lt (by simp [indented])
    ((c.advance.sequence .indented).andThen fun body c' h =>
      if c'.cur.kind = .eof then .ok body c' h
      else ((c'.expect .dedent).map fun _ => body).relax h).relax
        (Nat.le_succ_of_le less)
  else c.sequence .inline
termination_by 3 * c.size + 2

/-- Reads statements up to the end of their extent (`statements`). -/
def sequence (c : Cursor) (extent : Extent) : Reading (List Stmt) (c.size + 1) :=
  if extent.endsAt c then .ok [] c (Nat.lt_succ_self _)
  else if colon : c.cur.kind = .colon then
    have less := c.advance_size_lt (by simp [colon])
    (c.advance.sequence extent).relax (Nat.le_succ_of_le less)
  else
    (c.statement.andThen fun stmt c' h => ((c'.sequence extent).map (stmt :: ·)).relax h).relax
      (Nat.le_succ _)
termination_by 3 * c.size + 1

end

/-- Reads the rest of the stream as a program (`Parse`). -/
def program (c : Cursor) : Except SyntaxError Program × Cursor :=
  (c.sequence .program).result

end Cursor

/-- The program that a token stream spells. -/
def parseTokens (tokens : List Token) : Except SyntaxError Program :=
  (Cursor.ofTokens tokens).program.1

end Offside
