import Offside.Diagnostic
import Offside.Proofs.Fault.Earliest
import Offside.Proofs.Lexer.Exact

/-!
# A fault is shown where it lies

`Snippet.render?`, which is `FormatError` with `caretPadding` (specification, 4.5), at the positions
that `parse` gives to its faults.

The lexer counts lines and columns rune by rune, while a fault is shown with the lines that the
source is split into. Both agree, since a fault has an exact position: it lies on a line of the
source, behind as many runes of it as the column says, and the caret stands under the rune behind
these.

* `Position.OnLine` is a position on a line of its source: the first runes of the line, one less
  than the column says, end at the offset.
* `Snippet.ShownAs` is what is shown of a line, without reference to how it is computed, and
  `Snippet.lead` the rune that leads a caret past a rune of a line, or past its end.
* `Snippet.Shows` has the parts of a snippet: the line before, the line, and the caret behind as
  many runes as the column says.

Results:
* `parse_error_isExact`: the position of a fault is exact.
* `Position.IsExact.onLine`: an exact position lies on a line of its source.
* `Snippet.decode_padding`: what leads a caret to its column, rune by rune.
* `Snippet.render?_eq`: the snippet of a position that lies on a line of the source.
* `parse_error_shown`: a fault is shown on its line, with the line before it if there is one.

Out of scope: whether the caret stands under the rune at fault, which depends on the gutters in
front of the lines (`Proofs/Fault/Caret`).
-/

namespace Offside

open Lexer

/-! ## The position of a fault -/

/-- The token at fault is one of the tokens, if the end of the source is among them. -/
theorem got_mem_of_error {ts : List Token} {e : SyntaxError} (h : parseTokens ts = .error e)
    {t : Token} (ht : t ∈ ts) (hk : t.kind = .eof) : e.got ∈ ts := by
  obtain ⟨before, stop, hh⟩ := halts_of_error h
  have hahead : ts = before ++ (e.place stop).ahead := hh.stops.blames.passes.ahead_eq
  have hgot := hh.stops.blames.got
  rw [Cursor.cur] at hgot
  cases hstop : (e.place stop).ahead with
  | nil =>
    rw [hahead, hstop, List.append_nil] at ht
    exact absurd hk (hh.ne_eof t ht)
  | cons u us =>
    rw [hstop] at hgot hahead
    rw [hahead, ← hgot]
    exact List.mem_append_right _ List.mem_cons_self

/-- **The position of a fault is exact.** -/
theorem parse_error_isExact {tab : TabWidth} {src : Text} {e : SourceError}
    (h : parse tab src = .error e) : e.pos.IsExact src := by
  obtain ⟨ts, o, hc, -, htok⟩ := course_source tab src
  have hexact := (hc.sited (Scan.stands_ofSource src)).exact
  cases o with
  | some fault =>
    rw [parse, htok] at h
    obtain rfl := Except.error.inj h
    exact hexact (.error fault) (List.mem_append_right _ (List.mem_singleton_self _))
  | none =>
    have hts : tokenize tab src = .ok ts := htok
    rw [parse, hts] at h
    simp only at h
    split at h
    · next e' he' =>
      obtain rfl := Except.error.inj h
      obtain ⟨us, pos, rfl, -⟩ := tokenize_ends hts
      have hmem := got_mem_of_error he' (List.mem_append_right us (List.mem_singleton_self _)) rfl
      exact hexact (.ok e'.got) (List.mem_append_left _ (List.mem_map_of_mem hmem))
    · cases h

/-! ## The line of a position -/

/-- **A position on a line of its source**, the line counted from zero. The first runes of the line,
one less than the column says, end at the offset. -/
structure Position.OnLine (p : Position) (src : Text) (index : Nat) (line : Text) : Prop where
  line_eq : p.line = index + 1
  getElem_eq : src.lines[index]? = some line
  column_pos : 1 ≤ p.column
  column_le : (p.column - 1).toNat ≤ (Rune.decode line).length
  offset_nonneg : 0 ≤ p.offset
  offset_le : p.offset ≤ src.length
  take_eq : src.take p.offset.toNat = (src.lines.take index).flatMap (· ++ [Text.newline]) ++
    Rune.encode ((Rune.decode line).take (p.column - 1).toNat)

/-- **An exact position lies on a line of its source.** -/
theorem Position.IsExact.onLine {src : Text} {p : Position} (h : p.IsExact src) :
    ∃ index line, p.OnLine src index line := by
  have hsrc := List.take_append_drop p.offset.toNat src
  have hline := h.line_eq
  have hcolumn := h.column_eq
  have hboundary := h.boundary
  generalize hbefore : src.take p.offset.toNat = before at hsrc hline hcolumn hboundary
  generalize src.drop p.offset.toNat = after at hsrc hboundary
  obtain ⟨hget, htake⟩ := Text.lines_at before after
  rw [hsrc] at hget htake
  rw [← hsrc] at hboundary
  have hrunes := Rune.decode_line hboundary
  have hcount : (p.column - 1).toNat = (Rune.decode (Text.lastLine before)).length := by omega
  refine ⟨before.count Text.newline, _, ⟨by omega, hget, by omega, ?_, h.nonneg, h.le_length, ?_⟩⟩
  · rw [hcount, hrunes, List.length_append]
    exact Nat.le_add_right _ _
  · rw [hcount, hrunes, List.take_left, Rune.encode_decode, hbefore]
    exact htake

/-! ## What is shown -/

namespace Snippet

/-- What is shown of a line: the line without the carriage returns at its end. -/
def ShownAs (line shown : Text) : Prop :=
  shown.getLast? ≠ some Text.carriageReturn ∧
    ∃ n, line = shown ++ List.replicate n Text.carriageReturn

theorem shownAs_shownLine (line : Text) : ShownAs line (shownLine line) := by
  constructor
  · rw [shownLine, Text.dropEnd, List.getLast?_reverse]
    intro hlast
    have hnot := List.head?_dropWhile_not (· == Text.carriageReturn) line.reverse
    rw [hlast] at hnot
    exact absurd hnot (by simp)
  · have hreturns : line.reverse.takeWhile (· == Text.carriageReturn) =
        List.replicate _ Text.carriageReturn :=
      List.eq_replicate_of_mem fun b hb => by simpa using List.mem_takeWhile_imp hb
    have hsplit := congrArg List.reverse
      (List.takeWhile_append_dropWhile (p := (· == Text.carriageReturn)) (l := line.reverse))
    rw [List.reverse_append, List.reverse_reverse, hreturns, List.reverse_replicate] at hsplit
    exact ⟨_, hsplit.symm⟩

/-- The rune that leads a caret past a rune of a line, or past the end of the line. -/
def lead (r : Option Rune) : Rune :=
  if r = some (.char '\t') then .char '\t' else .char ' '

theorem decode_padding_cons (rs : List Rune) (n : Nat) :
    Rune.decode (padding rs (n + 1)) = lead rs.head? :: Rune.decode (padding rs.tail n) := by
  have htab : Rune.decode (0x09 :: padding rs.tail n) =
      .char '\t' :: Rune.decode (padding rs.tail n) :=
    Rune.decode_char_append '\t' _
  have hblank : Rune.decode (Text.blank :: padding rs.tail n) =
      .char ' ' :: Rune.decode (padding rs.tail n) :=
    Rune.decode_char_append ' ' _
  cases rs with
  | nil =>
    have hnil : padding [] (n + 1) = Text.blank :: padding [] n := by
      cases n <;> rfl
    rw [hnil]
    exact hblank
  | cons r rs =>
    rw [padding, List.head?_cons, List.tail_cons, lead]
    by_cases hr : r = .char '\t'
    · rw [if_pos (by simp [Rune.is, hr]), if_pos (by rw [hr])]
      exact htab
    · rw [if_neg (by simp [Rune.is, hr]), if_neg (by simp [hr])]
      exact hblank

/-- **What leads a caret to its column, rune by rune**: a tab under every tab, and a blank under
every other rune and behind the line. -/
theorem decode_padding (rs : List Rune) (n : Nat) :
    Rune.decode (padding rs n) = (List.range n).map fun i => lead rs[i]? := by
  induction n generalizing rs with
  | zero => cases rs <;> simp [padding, Rune.decode]
  | succ n ih =>
    rw [decode_padding_cons, ih, List.range_succ_eq_map, List.map_cons, List.map_map,
      ← List.head?_eq_getElem?]
    refine congrArg (lead rs.head? :: ·) (List.map_congr_left fun i _ => ?_)
    cases rs <;> rfl

/-- A shown line with its number, counted from one. -/
def entry (number : Nat) (shown : Text) : Text :=
  Text.padLeft 4 Text.blank (Text.ofNat number) ++ " | " ++ shown ++ "\n"

/-- What is shown above a line: the line before it, if there is one. -/
def IsAbove (src : Text) : Nat → Text → Prop
  | 0, above => above = []
  | index + 1, above => ∃ line shown, src.lines[index]? = some line ∧ ShownAs line shown ∧
      above = entry (index + 1) shown

/-- **The parts of a snippet.** The caret stands behind as many runes as the column says. -/
structure Shows (src : Text) (index : Nat) (line : Text) (column : Int)
    (above shown padding : Text) : Prop where
  isAbove : IsAbove src index above
  shownAs : ShownAs line shown
  runes_eq : Rune.decode padding =
    (List.range (column - 1).toNat).map fun i => lead (Rune.decode shown)[i]?

/-- The snippet of a position that lies on a line of the source. -/
theorem render?_eq {src : Text} {p : Position} {index : Nat} {line : Text}
    (h : p.OnLine src index line) : ∃ above shown padding,
      render? src p = some (above ++ entry (index + 1) shown ++ ("     | " ++ padding ++ "^")) ∧
        Shows src index line p.column above shown padding := by
  have hindex : (p.line - 1).toNat = index := by
    have := h.line_eq
    omega
  have hpos : ¬ p.line < 1 := by
    have := h.line_eq
    omega
  rw [render?, if_neg hpos]
  simp only [hindex, h.getElem_eq, Option.map_some]
  refine ⟨_, shownLine line, _, rfl, ?_, shownAs_shownLine line, decode_padding _ _⟩
  cases index with
  | zero => rfl
  | succ i =>
    have hlt : i < src.lines.length :=
      Nat.lt_of_succ_lt (List.getElem?_eq_some_iff.mp h.getElem_eq).1
    refine ⟨src.lines[i], _, List.getElem?_eq_getElem hlt, shownAs_shownLine _, ?_⟩
    simp only [List.getElem?_eq_getElem hlt]
    rfl

end Snippet

open Snippet

/-- **A fault is shown on its line.** It lies on a line of the source, so this line is always shown,
with the line before it if there is one, both without carriage returns at their ends. The first
runes of the whole line, one less than the column says, end where the fault lies, and the caret
stands behind as many runes, a tab under each tab and a blank under every other rune. -/
theorem parse_error_shown {tab : TabWidth} {src : Text} {e : SourceError}
    (h : parse tab src = .error e) :
    1 ≤ e.pos.line ∧ e.pos.line ≤ src.lines.length ∧
      ∃ index line above shown padding,
        e.pos.OnLine src index line ∧ Shows src index line e.pos.column above shown padding ∧
          (Diagnostic.source e).render src = e.heading ++ " at " ++ e.message ++ "\n\n" ++
            (above ++ entry (index + 1) shown ++ ("     | " ++ padding ++ "^")) := by
  obtain ⟨index, line, honLine⟩ := (parse_error_isExact h).onLine
  obtain ⟨above, shown, padding, hrender, hshows⟩ := render?_eq honLine
  have hlt : index < src.lines.length := (List.getElem?_eq_some_iff.mp honLine.getElem_eq).1
  have hline := honLine.line_eq
  refine ⟨by omega, by omega, index, line, above, shown, padding, honLine, hshows, ?_⟩
  show e.render src = _
  rw [SourceError.render, hrender]

/-- A source whose last line begins with a tab and ends with a carriage return behind an open
parenthesis. -/
def openSource : String := "if a:\r\n\tb = (\r"

/-- The marker at its end, where a factor is missed. -/
def openFault : SourceError :=
  .grammar (.wrongStart (.plain .dedent [] ⟨14, 2, 8⟩) "factor")

theorem parse_openSource : parse .standard (Text.ofString openSource) = .error openFault := by
  have htokens : tokenize .standard (Text.ofString openSource) = .ok
      [.plain .ifWord "if" ⟨0, 1, 1⟩, .plain .identifier "a" ⟨3, 1, 4⟩, .plain .colon ":" ⟨4, 1, 5⟩,
       .plain .indent [] ⟨8, 2, 2⟩, .plain .identifier "b" ⟨8, 2, 2⟩, .plain .assign "=" ⟨10, 2, 4⟩,
       .plain .openParen "(" ⟨12, 2, 6⟩, .plain .dedent [] ⟨14, 2, 8⟩, .eofAt ⟨14, 2, 8⟩] :=
    tokenize_of_steps 25 (by decide +kernel) (by decide +kernel)
  exact parse_eq_grammar.mpr ⟨_, htokens, by decide +kernel⟩

/-- The caret stands behind the line as it is shown, since the carriage return is left out. -/
theorem parse_error_shown_open :
    parse .standard (Text.ofString openSource) = .error openFault ∧
      ∃ index line above shown padding, openFault.pos.OnLine (Text.ofString openSource) index line ∧
        Shows (Text.ofString openSource) index line openFault.pos.column above shown padding ∧
        (Diagnostic.source openFault).render (Text.ofString openSource) =
          openFault.heading ++ " at " ++ openFault.message ++ "\n\n" ++
            (above ++ entry (index + 1) shown ++ ("     | " ++ padding ++ "^")) :=
  ⟨parse_openSource, (parse_error_shown parse_openSource).2.2⟩

example : (Diagnostic.source openFault).render (Text.ofString openSource) =
    "syntax error at 2:8: unexpected DEDENT in factor\n\n" ++ "   1 | if a:\n" ++
      "   2 | \tb = (\n" ++ "     | \t      ^" := by
  decide +kernel

end Offside
