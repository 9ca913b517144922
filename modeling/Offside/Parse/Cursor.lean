import Offside.Token

/-!
# Reading a token stream

Model of the cursor of the parser (specification, 4.2): `NewParser`, `advance`, `peek`, `check` and
`expect`, and `SyntaxError` with its two ways of being made.

A `Cursor` stands in front of a token of a stream. Behind the last token it stands in front of an
end of source, as often as it is asked.

* `Cursor.cur` is the field `cur`, and `last` the position of the field `prev`, the last token read:
  its line is what an inline block is measured against, and an end of source behind the last token
  stands there. `Cursor.ofTokens` is `NewParser`: no token is in front of the place, and the
  position of that absent token is `Position.unset`.
* `Cursor.advance` is `advance`. On a stream that is used up the current token is an end of source
  at the position of the last token, and moving on keeps it.
* `Cursor.next?` is `peek`, and `Cursor.expect` is `expect`, which moves on over a token of the kind
  that is wanted and is a syntax error at any other.
* `SyntaxError.wrongKind` is the error with kinds in the field `Expected`, and
  `SyntaxError.wrongStart` the one that names a grammar rule in `Rule` (`errorf`).
  `SyntaxError.message` is `Error`.

Constructs are read by functions from a cursor to a `Reading`: either the construct and the cursor
behind it, or a syntax error and the cursor where reading stopped. A reading carries a bound on the
tokens that are left, which is what makes the recursive descent end without fuel: `relax` weakens
the bound, `andThen` reads on behind a construct, and `result` forgets it.

Results:
* `advance_size_lt`: moving on from a token other than the end of source leaves fewer tokens.
-/

namespace Offside

/-- A token that does not fit the grammar. -/
structure SyntaxError where
  /-- The token that does not fit. -/
  got : Token
  /-- The kinds of which one should have stood there; empty if the rule says all. -/
  expected : List Kind
  /-- The construct that cannot begin with the token. -/
  rule : Text
  deriving DecidableEq, Repr

namespace SyntaxError

/-- The error of a token where one of some kinds should stand. -/
def wrongKind (got : Token) (expected : List Kind) : SyntaxError :=
  ⟨got, expected, []⟩

/-- The error of a token that begins no construct of the kind `rule`. -/
def wrongStart (got : Token) (rule : Text) : SyntaxError :=
  ⟨got, [], rule⟩

/-- The position of the token and what was wanted in its place (`Error`). -/
def message (e : SyntaxError) : Text :=
  if e.expected.isEmpty then
    e.got.pos.render ++ ": unexpected " ++ e.got.describe ++ " in " ++ e.rule
  else
    e.got.pos.render ++ ": expected " ++ Text.join " or " (e.expected.map Kind.name) ++ ", got " ++
      e.got.describe

end SyntaxError

/-- A place in a token stream. -/
structure Cursor where
  /-- The position of the token in front of the place. -/
  last : Position
  /-- The tokens behind the place. -/
  ahead : List Token
  deriving DecidableEq, Repr

namespace Cursor

/-- The place in front of a whole stream (`NewParser`). -/
def ofTokens (tokens : List Token) : Cursor :=
  ⟨.unset, tokens⟩

/-- The number of tokens that are left. -/
def size (c : Cursor) : Nat :=
  c.ahead.length

/-- The token at the place. A stream that is used up shows the end of source at the position of its
last token. -/
def cur (c : Cursor) : Token :=
  match c.ahead with
  | t :: _ => t
  | [] => .eofAt c.last

/-- The token after the one at the place, if the stream has it (`peek`). -/
def next? (c : Cursor) : Option Token :=
  c.ahead.tail.head?

/-- The place behind the current token. -/
def advance (c : Cursor) : Cursor :=
  match c.ahead with
  | t :: ts => ⟨t.pos, ts⟩
  | [] => c

theorem advance_size_le (c : Cursor) : c.advance.size ≤ c.size := by
  unfold advance size
  split
  · next h => simp [h]
  · exact Nat.le_refl _

/-- Moving on from a token other than the end of source leaves fewer tokens. -/
theorem advance_size_lt (c : Cursor) (h : c.cur.kind ≠ .eof) : c.advance.size < c.size := by
  unfold cur at h
  unfold advance size
  split
  · next hc => simp [hc]
  · next hc => simp [hc, Token.eofAt, Token.plain] at h

end Cursor

/-- The outcome of reading a construct: fewer than `bound` tokens are left if it is there. -/
inductive Reading (α : Type) (bound : Nat) where
  | ok (value : α) (rest : Cursor) (shorter : rest.size < bound)
  | error (e : SyntaxError) (stop : Cursor)

namespace Reading

variable {α β : Type} {m n : Nat}

/-- The reading under a weaker bound. -/
def relax (h : m ≤ n) : Reading α m → Reading α n
  | ok value rest shorter => ok value rest (Nat.lt_of_lt_of_le shorter h)
  | error e stop => error e stop

/-- Reads on behind a construct. -/
def andThen (r : Reading α n) (f : (value : α) → (rest : Cursor) → rest.size < n → Reading β n) :
    Reading β n :=
  match r with
  | ok value rest shorter => f value rest shorter
  | error e stop => error e stop

/-- Makes something else of the construct. -/
def map (f : α → β) : Reading α n → Reading β n
  | ok value rest shorter => ok (f value) rest shorter
  | error e stop => error e stop

/-- The outcome and the cursor where reading stopped. -/
def result : Reading α n → Except SyntaxError α × Cursor
  | ok value rest _ => (.ok value, rest)
  | error e stop => (.error e, stop)

end Reading

/-- Reads a token of one kind (`expect`). -/
def Cursor.expect (kind : Kind) (c : Cursor) : Reading Token (c.size + 1) :=
  if c.cur.kind = kind then .ok c.cur c.advance (Nat.lt_succ_of_le c.advance_size_le)
  else .error (.wrongKind c.cur [kind]) c

end Offside
