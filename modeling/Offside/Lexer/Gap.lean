import Offside.Position
import Offside.Text.Space

/-!
# Gaps between lexemes and the width of an indentation

Model of `skipWhitespace` and `skipComment` (`skip_whitespace` of the specification, 4.1), of the
loop of `lineStartState` that measures an indentation (4.1.1), and of the option `WithTabWidth`.

A *gap* is what separates two lexemes: space characters, and comments from a `#` to the end of the
line. At the start of a line and inside parentheses a gap runs over line ends, otherwise it stops in
front of a line feed.

* `splitGap` splits off a gap. With `acrossLines` false it is `skipWhitespace` at depth zero, with
  `acrossLines` true it is `skipWhitespace` inside parentheses, and also what the loop of
  `lineStartState` passes over. `inComment` is the state of being inside the loop of `skipComment`.
* `widen` is one round of the loop of `lineStartState`: a blank is one column, a tab leads to the
  next multiple of the tab width, a line feed starts again at zero, and every other space character
  takes no column. `widthOf` is the loop over a gap. The runes of a comment are passed through
  `widen` too; that is harmless, for a comment ends with its line or with the source, and both
  forget the width.
* `TabWidth.orElse` is `WithTabWidth`, which ignores a width that is not positive, and
  `TabWidth.ofWishes` applies several options in order to the width that `NewLexer` begins with. A
  `TabWidth` carries the proof that it is positive.

Widths are signed words and wrap around, as the scanner's do, and the remainder is truncated toward
zero. Where that makes a difference is worked out in `Proofs/Lexer/Width`.

Results:
* `splitGap_append`: a gap and what follows it make up the input.
* `splitGap_length_le`: what follows a gap is no longer than the input.
-/

namespace Offside

/-- The number of columns a tab leads to a multiple of. -/
structure TabWidth where
  columns : Int64
  positive : 0 < columns

namespace TabWidth

/-- Eight columns, unless something else is asked for. -/
def standard : TabWidth := ⟨8, by decide⟩

instance : Inhabited TabWidth := ⟨standard⟩

/-- The given width if it is positive (`WithTabWidth`). -/
def orElse (fallback : TabWidth) (columns : Int64) : TabWidth :=
  if h : 0 < columns then ⟨columns, h⟩ else fallback

/-- The last positive one of several wishes, or the standard width. -/
def ofWishes (wishes : List Int64) : TabWidth :=
  wishes.foldl orElse standard

end TabWidth

namespace Lexer

/-- Splits a gap off the front of the input. `acrossLines` says whether the gap may run over line
ends, `inComment` whether the input begins inside a comment. -/
def splitGap (acrossLines inComment : Bool) : List Rune → List Rune × List Rune
  | [] => ([], [])
  | r :: rs =>
    if r.isNewline then
      if acrossLines then
        let (gap, rest) := splitGap acrossLines false rs
        (r :: gap, rest)
      else ([], r :: rs)
    else if inComment || r.is '#' then
      let (gap, rest) := splitGap acrossLines true rs
      (r :: gap, rest)
    else if r.isSpace then
      let (gap, rest) := splitGap acrossLines false rs
      (r :: gap, rest)
    else ([], r :: rs)

/-- A gap and what follows it make up the input. -/
theorem splitGap_append (acrossLines inComment : Bool) (rs : List Rune) :
    (splitGap acrossLines inComment rs).1 ++ (splitGap acrossLines inComment rs).2 = rs := by
  induction rs generalizing inComment with
  | nil => rfl
  | cons r rs ih =>
    unfold splitGap
    split
    · split <;> simp [ih]
    · split
      · simp [ih]
      · split <;> simp [ih]

theorem splitGap_length_le (acrossLines inComment : Bool) (rs : List Rune) :
    (splitGap acrossLines inComment rs).2.length ≤ rs.length := by
  have h := congrArg List.length (splitGap_append acrossLines inComment rs)
  simp only [List.length_append] at h
  omega

/-- The width after one more rune of an indentation. -/
def widen (tab : TabWidth) (width : Int64) (r : Rune) : Int64 :=
  if r.is ' ' then width + 1
  else if r.is '\t' then width + (tab.columns - width % tab.columns)
  else if r.isNewline then 0
  else width

/-- The width of the indentation that a gap ends in. -/
def widthOf (tab : TabWidth) (gap : List Rune) : Int64 :=
  gap.foldl (widen tab) 0

end Lexer

end Offside
