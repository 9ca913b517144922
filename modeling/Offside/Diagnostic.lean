import Offside.Frontend

/-!
# Diagnostics

Model of `FormatError` and `caretPadding` (specification, 4.5), and of wrapped errors (7).

A fault of a source is shown with the line it lies in, the line before it, and a caret under the
offending column. Faults of other kinds are shown by their message.

* `Snippet.padding` is `caretPadding`: a tab under each tab and a blank under every other rune, and
  blanks past the end of the line.
* `Snippet.shownLine` takes the carriage returns off the end of a line, and `Snippet.numbered` puts
  its number in front, in four columns or as many as it needs. `Snippet.caret` is the line below,
  whose gutter is always seven runes wide; what follows for long sources is worked out in
  `Proofs/Fault/Caret`.
* `Snippet.render?` is the rest of `FormatError` behind the header: the line in front if there is
  one, the line and the caret, or nothing if the source has no such line. A column below one counts
  as one.
* `SourceError.heading` and `SourceError.render` are the header and the whole text. If the source
  has no such line, the line feeds at the end of the header are taken off.
* A `Diagnostic` is an error of any kind, perhaps wrapped in contexts, each of which puts its text
  in front of the message. `Diagnostic.sourceError?` is the search through the contexts for a
  lexical or a syntax error, so a wrapped fault of a source is still shown as itself.

Out of scope: errors of other packages keep nothing but their message.
-/

namespace Offside

namespace Snippet

/-- The runes that lead a caret to the column behind `n` runes of a line: a tab under each tab, a
blank under every other rune and past the end of the line (`caretPadding`). -/
def padding : List Rune → Nat → Text
  | _, 0 => []
  | [], n => List.replicate n Text.blank
  | r :: rs, n + 1 => (if r.is '\t' then 0x09 else Text.blank) :: padding rs n

/-- A line as it is shown: without carriage returns at its end. -/
def shownLine (line : Text) : Text :=
  line.dropEnd (· == Text.carriageReturn)

/-- A line with its number in front. -/
def numbered (n : Nat) (line : Text) : Text :=
  Text.padLeft 4 Text.blank (Text.ofNat n) ++ " | " ++ shownLine line ++ "\n"

/-- The caret under column `column` of a line. -/
def caret (line : Text) (column : Int) : Text :=
  "     | " ++ padding (Rune.decode (shownLine line)) (column - 1).toNat ++ "^"

/-- The line of a position with its caret, and the line before it, if the source has the line. -/
def render? (src : Text) (pos : Position) : Option Text :=
  let lines := src.lines
  if pos.line < 1 then none
  else
    let index := (pos.line - 1).toNat
    lines[index]?.map fun line =>
      let before :=
        match index with
        | 0 => []
        | i + 1 => (lines[i]?.map (numbered (i + 1))).getD []
      before ++ numbered (index + 1) line ++ caret line pos.column

end Snippet

namespace SourceError

/-- What kind of fault it is. -/
def heading : SourceError → Text
  | lexical _ => "lexical error"
  | grammar _ => "syntax error"

/-- The fault with the place in the source where it lies. -/
def render (e : SourceError) (src : Text) : Text :=
  let title := e.heading ++ " at " ++ e.message
  match Snippet.render? src e.pos with
  | none => title.dropEnd (· == Text.newline)
  | some snippet => title ++ "\n\n" ++ snippet

end SourceError

/-- A fault of any kind, perhaps in a context. -/
inductive Diagnostic where
  | source (e : SourceError)
  | other (message : Text)
  | within (context : Text) (inner : Diagnostic)
  deriving DecidableEq, Repr

namespace Diagnostic

/-- The message of a fault with its contexts in front, the outermost first. -/
def message : Diagnostic → Text
  | source e => e.message
  | other message => message
  | within context inner => context ++ ": " ++ inner.message

/-- The fault of a source inside all contexts. -/
def sourceError? : Diagnostic → Option SourceError
  | source e => some e
  | other _ => none
  | within _ inner => inner.sourceError?

/-- Whether more text might mend the fault. -/
def isIncomplete (d : Diagnostic) : Bool :=
  d.sourceError?.any SourceError.isIncomplete

/-- The fault as it is shown to a reader of the source. -/
def render (d : Diagnostic) (src : Text) : Text :=
  match d.sourceError? with
  | some e => e.render src
  | none => d.message

end Diagnostic

end Offside
