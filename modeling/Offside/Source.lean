import Offside.Diagnostic
import Offside.Directory

/-!
# Where sources come from

Model of `ParseString`, `ParseReader` and `ParseFile` (specification, 4.3) with the errors that come
before the text is there.

A source is given as a text, delivered by a reader that may fail on the way, or kept in a file. What
goes wrong before the text is there is reported with its context in front.

* `Source.fetch` gets the text. A failing reader is an error in the context `read source`, whatever
  it delivered before it failed; a file that cannot be read is one in the context `read` with the
  path.
* `Source.parse` reads the text as a program. Errors of the source itself are not put in a context,
  so a caller sees the lexical or syntax error as it is.

Out of scope: readers in pieces. A reader is known by the text that it delivered in all and by how
it ended.
-/

namespace Offside

/-- Where a source comes from. -/
inductive Source where
  | text (src : Text)
  /-- A reader that delivered a text, and perhaps failed afterwards. -/
  | delivery (src : Text) (failure : Option Text)
  | file (path : Text)
  deriving DecidableEq, Repr

namespace Source

/-- The text of a source. -/
def fetch (d : Directory) : Source → Except Diagnostic Text
  | text src => .ok src
  | delivery src none => .ok src
  | delivery _ (some failure) => .error (.within "read source" (.other failure))
  | file path =>
    match d.read path with
    | .ok src => .ok src
    | .error e => .error (.within ("read " ++ path) (.other e.message))

/-- The program that a source spells. -/
def parse (tab : TabWidth) (d : Directory) (source : Source) : Except Diagnostic Program :=
  match source.fetch d with
  | .error e => .error e
  | .ok src =>
    match Offside.parse tab src with
    | .error e => .error (.source e)
    | .ok program => .ok program

end Source

end Offside
