import Offside.Lexer.Stream
import Offside.Parse.Stmt

/-!
# From a source to a program

Model of the frontend (specification, 4.3): `Tokenize`, `Parse` and `ParseString`, and of
`IsIncomplete` (4.5).

A source is cut into tokens and the tokens are read as a program. The first fault of either stage is
the answer if there is one.

* `parse` is `Parse`. The lexer runs to the end before the parser begins, so a lexical error
  anywhere in the source is the answer, however early a syntax error stands.
* `SourceError` joins `LexicalError` and `SyntaxError`, the two errors that a source can have, and
  `SourceError.message` is the `Error` of either. `SourceError.pos` is the place that is shown.
* `SourceError.isIncomplete` is `IsIncomplete`: a syntax error whose offending token is the end of
  the source. Its comment promises that more source could still make the program valid; when that is
  so is worked out in `Proofs/Fault/Incomplete`.

Results:
* `parse_eq_ok`: a source spells a program if and only if its tokens do.
* `parse_eq_grammar`: a source has a syntax error if and only if its tokens have it.

Out of scope: the list of options that a frontend is made with; `parse` takes the tab width that the
options come to (`TabWidth.ofWishes`). Readers and files are in `Source`.
-/

namespace Offside

/-- What is wrong with a source. -/
inductive SourceError where
  /-- The source cannot be cut into tokens. -/
  | lexical (e : LexicalError)
  /-- The tokens do not make up a program. -/
  | grammar (e : SyntaxError)
  deriving DecidableEq, Repr

namespace SourceError

/-- The position and the reason of a fault. -/
def message : SourceError → Text
  | lexical e => e.message
  | grammar e => e.message

/-- Where the fault lies. -/
def pos : SourceError → Position
  | lexical e => e.pos
  | grammar e => e.got.pos

/-- Whether the tokens ran out where the grammar wanted one more (`IsIncomplete`). -/
def isIncomplete : SourceError → Bool
  | lexical _ => false
  | grammar e => e.got.kind == .eof

end SourceError

/-- The program that a source spells (`Parse`). -/
def parse (tab : TabWidth) (src : Text) : Except SourceError Program :=
  match tokenize tab src with
  | .error e => .error (.lexical e)
  | .ok tokens =>
    match parseTokens tokens with
    | .error e => .error (.grammar e)
    | .ok program => .ok program

theorem parse_eq_ok {tab : TabWidth} {src : Text} {program : Program} :
    parse tab src = .ok program ↔
      ∃ ts, tokenize tab src = .ok ts ∧ parseTokens ts = .ok program := by
  rw [parse]
  constructor
  · intro h
    split at h
    · cases h
    · next ts hts =>
      split at h
      · cases h
      · next p hp => exact ⟨ts, hts, Except.ok.inj h ▸ hp⟩
  · rintro ⟨ts, hts, hp⟩
    simp only [hts, hp]

theorem parse_eq_grammar {tab : TabWidth} {src : Text} {e : SyntaxError} :
    parse tab src = .error (.grammar e) ↔
      ∃ ts, tokenize tab src = .ok ts ∧ parseTokens ts = .error e := by
  rw [parse]
  constructor
  · intro h
    split at h
    · cases h
    · next ts hts =>
      split at h
      · next e' he => exact ⟨ts, hts, SourceError.grammar.inj (Except.error.inj h) ▸ he⟩
      · cases h
  · rintro ⟨ts, hts, he⟩
    simp only [hts, he]

end Offside
