import Offside.Diagnostic
import Offside.Proofs.Grammar.Likeness
import Offside.Proofs.Text.Lines

/-!
# Line ends do not matter

The scanner skips carriage returns as white space (specification, 4.1), and `FormatError` takes them
off the end of the lines it shows. Together this makes a source with other line ends the same
source.

A line may end with a line feed, or with a carriage return and a line feed. A carriage return is a
space character of no width, so it belongs to the gap in front of the line feed, and the line feed
begins the next line at the same place. Only the offsets of what follows are different.

A fault is shown with the line it lies in, and lines are shown without carriage returns at their
end, so faults are shown alike.

* `Text.withReturns` is a text with a carriage return in front of every line feed, whatever stood
  there before.
* `cutReturn` is the one point of care: a gap may end between the carriage return and the line feed.

Results:
* `Rune.decode_withReturns`: the runes of a text whose line ends are rewritten.
* `Lexer.rewriting_withReturns`: this is a rewriting of the gaps.
* `SourceError.render_withReturns`: a fault is shown alike.
* `parse_withReturns`: tokens, programs and faults of a source with the other line ends, for every
  byte string.
-/

namespace Offside

/-! ## Texts with carriage returns -/

/-- The text with a carriage return in front of every line feed. -/
def Text.withReturns (t : Text) : Text :=
  t.flatMap fun b => if b = newline then [carriageReturn, newline] else [b]

theorem Text.withReturns_of_not_mem {l : Text} (h : newline ∉ l) : l.withReturns = l := by
  induction l with
  | nil => rfl
  | cons b l ih =>
    obtain ⟨hb, hl⟩ := not_or.mp (mt List.mem_cons.mpr h)
    have hrest : List.flatMap _ l = l := ih hl
    rw [withReturns, List.flatMap_cons, if_neg (Ne.symm hb), hrest, List.singleton_append]

theorem Text.withReturns_append {l : Text} (h : newline ∉ l) (rest : Text) :
    (l ++ newline :: rest).withReturns = l ++ carriageReturn :: newline :: rest.withReturns := by
  have hl : List.flatMap _ l = l := withReturns_of_not_mem h
  rw [withReturns, List.flatMap_append, hl, List.flatMap_cons, if_pos rfl]
  rfl

namespace Rune

/-- Some runes with a carriage return in front of every line feed. -/
def withReturns : List Rune → List Rune
  | [] => []
  | r :: rs => if r.isNewline then .char '\r' :: r :: withReturns rs else r :: withReturns rs

theorem withReturns_newline {r : Rune} (h : r.isNewline = true) (rs : List Rune) :
    withReturns (r :: rs) = .char '\r' :: r :: withReturns rs := by
  rw [withReturns, if_pos h]

theorem withReturns_other {r : Rune} (h : r.isNewline = false) (rs : List Rune) :
    withReturns (r :: rs) = r :: withReturns rs := by
  rw [withReturns, if_neg (by simp [h])]

theorem withReturns_append (rs ss : List Rune) :
    withReturns (rs ++ ss) = withReturns rs ++ withReturns ss := by
  induction rs with
  | nil => rfl
  | cons r rs ih =>
    rw [List.cons_append]
    cases h : r.isNewline with
    | true => rw [withReturns_newline h, withReturns_newline h, ih]; rfl
    | false => rw [withReturns_other h, withReturns_other h, ih]; rfl

theorem withReturns_of_forall {rs : List Rune} (h : ∀ r ∈ rs, r.isNewline = false) :
    withReturns rs = rs := by
  induction rs with
  | nil => rfl
  | cons r rs ih =>
    obtain ⟨hr, hrs⟩ := List.forall_mem_cons.mp h
    rw [withReturns_other hr, ih hrs]

/-- **The runes of a text whose line ends are rewritten.** -/
theorem decode_withReturns (t : Text) : decode t.withReturns = withReturns (decode t) := by
  induction t using Text.lineInduction with
  | last l hl =>
    rw [Text.withReturns_of_not_mem hl, withReturns_of_forall (not_newline_of_line hl)]
  | more l rest hl ih =>
    have hreturn : decode (Text.carriageReturn :: Text.newline :: rest.withReturns) =
        .char '\r' :: .char '\n' :: decode rest.withReturns := by
      rw [show Text.carriageReturn :: Text.newline :: rest.withReturns =
        String.utf8EncodeChar '\r' ++ (String.utf8EncodeChar '\n' ++ rest.withReturns) from rfl,
        decode_char_append, decode_char_append]
    rw [Text.withReturns_append hl, decode_append_ascii l (by decide), hreturn, ih,
      decode_append_newline, withReturns_append, withReturns_of_forall (not_newline_of_line hl),
      withReturns_newline rfl]

end Rune

namespace Lexer

open Rune (withReturns)

/-! ## Gaps with carriage returns -/

/-- The carriage return that ends a gap in front of some runes, and the runes behind it. -/
def cutReturn : List Rune → List Rune × List Rune
  | [] => ([], [])
  | r :: rs =>
    if r.isNewline then ([.char '\r'], r :: withReturns rs)
    else ([], r :: withReturns rs)

/-- **A gap is rewritten on its own**, up to a carriage return at its end. -/
theorem splitGap_withReturns (acrossLines inComment : Bool) (rs : List Rune) :
    splitGap acrossLines inComment (withReturns rs) =
      (withReturns (splitGap acrossLines inComment rs).1 ++
          (cutReturn (splitGap acrossLines inComment rs).2).1,
        (cutReturn (splitGap acrossLines inComment rs).2).2) := by
  induction rs generalizing inComment with
  | nil => rfl
  | cons r rs ih =>
    cases hn : r.isNewline with
    | true =>
      obtain rfl : r = .char '\n' := by simpa [Rune.isNewline, Rune.is] using hn
      -- the carriage return is part of the gap, in a comment or as white space
      have hreturn : splitGap acrossLines inComment (withReturns (.char '\n' :: rs)) =
          (.char '\r' :: (splitGap acrossLines inComment (.char '\n' :: withReturns rs)).1,
            (splitGap acrossLines inComment (.char '\n' :: withReturns rs)).2) := by
        cases inComment <;> cases acrossLines <;> rfl
      rw [hreturn]
      cases acrossLines with
      | true =>
        have hfeed (ss : List Rune) : splitGap true inComment (.char '\n' :: ss) =
            (.char '\n' :: (splitGap true false ss).1, (splitGap true false ss).2) := rfl
        rw [hfeed, hfeed, ih, Rune.withReturns_newline rfl]
        rfl
      | false => rfl
    | false =>
      rw [Rune.withReturns_other hn, splitGap, splitGap]
      simp only [hn, Bool.false_eq_true, if_false]
      split
      · rw [ih, Rune.withReturns_other hn]
        rfl
      · split
        · rw [ih, Rune.withReturns_other hn]
          rfl
        · simp only [cutReturn, hn, Bool.false_eq_true, if_false]
          rfl

theorem afterAll_withReturns (gap : List Rune) {p q : Position} (h : p.SameColumn q) :
    (p.afterAll gap).SameColumn (q.afterAll (withReturns gap)) := by
  induction gap generalizing p q with
  | nil => exact h
  | cons r gap ih =>
    cases hn : r.isNewline with
    | true =>
      rw [Rune.withReturns_newline hn]
      exact ih (.after_newline hn h.line_eq)
    | false =>
      rw [Rune.withReturns_other hn]
      exact ih (h.after r)

/-- Carriage returns have no width. -/
theorem widthOf_withReturns (tab : TabWidth) (gap : List Rune) :
    widthOf tab (withReturns gap) = widthOf tab gap := by
  have hall : ∀ width, (withReturns gap).foldl (widen tab) width = gap.foldl (widen tab) width := by
    induction gap with
    | nil => exact fun _ => rfl
    | cons r gap ih =>
      intro width
      cases hn : r.isNewline with
      | true =>
        rw [Rune.withReturns_newline hn]
        exact ih _
      | false =>
        rw [Rune.withReturns_other hn]
        exact ih _
  exact hall 0

/-- **Writing carriage returns is a rewriting of the gaps.** -/
theorem rewriting_withReturns (tab : TabWidth) :
    Rewriting tab Position.SameColumn Position.SameColumn withReturns where
  solid h := Rune.withReturns_other h.1 _
  apart := by
    intro rs h
    cases rs with
    | nil => exact h
    | cons r rs =>
      intro a ha
      cases hn : r.isNewline with
      | true =>
        rw [Rune.withReturns_newline hn] at ha
        rw [← Option.some.inj ha]
        exact fun hsolid => absurd hsolid.2.2 (by decide)
      | false =>
        rw [Rune.withReturns_other hn] at ha
        rw [← Option.some.inj ha]
        exact h r rfl
  after _ h := h.after _
  gap := by
    intro p q acrossLines rs gap rest r h hsplit hsolid
    refine ⟨withReturns gap, ?_, afterAll_withReturns gap h, widthOf_withReturns tab gap⟩
    rw [splitGap_withReturns, hsplit]
    simp only [cutReturn, hsolid.1, Bool.false_eq_true, if_false, List.append_nil]
  newline := by
    intro p q rs gap rest r h hsplit hn
    refine ⟨withReturns gap ++ [.char '\r'], ?_, .after_newline hn ?_⟩
    · rw [splitGap_withReturns, hsplit]
      simp only [cutReturn, hn, if_true]
    · rw [Position.afterAll_append]
      exact (afterAll_withReturns gap h).line_eq
  finish := by
    intro p q acrossLines rs gap h hsplit
    refine ⟨withReturns gap, ?_, afterAll_withReturns gap h⟩
    rw [splitGap_withReturns, hsplit]
    simp only [cutReturn, List.append_nil]

end Lexer

/-! ## Faults as they are shown -/

theorem SourceError.message_unoffset (e : SourceError) :
    (e.relocate .unoffset).message = e.message := by
  cases e <;> rfl

theorem SourceError.render_unoffset (e : SourceError) (src : Text) :
    (e.relocate .unoffset).render src = e.render src := by
  cases e <;> rfl

namespace Snippet

/-- A carriage return at the end of a line is not shown. -/
theorem shownLine_return (l : Text) : shownLine (l ++ [Text.carriageReturn]) = shownLine l := by
  unfold shownLine Text.dropEnd
  rw [List.reverse_append, List.reverse_singleton, List.singleton_append,
    List.dropWhile_cons_of_pos (by decide)]

theorem shownLines_withReturns (t : Text) :
    t.withReturns.lines.map shownLine = t.lines.map shownLine := by
  induction t using Text.lineInduction with
  | last l hl => rw [Text.withReturns_of_not_mem hl]
  | more l rest hl ih =>
    have hline : Text.newline ∉ l ++ [Text.carriageReturn] := by
      simp only [List.mem_append, List.mem_singleton, not_or]
      exact ⟨hl, by decide⟩
    rw [Text.withReturns_append hl, List.append_cons, Text.lines_append hline,
      Text.lines_append hl, List.map_cons, List.map_cons, shownLine_return, ih]

/-- A place is shown by what its line and the line before it show. -/
theorem render?_congr {src src' : Text} (h : src'.lines.map shownLine = src.lines.map shownLine)
    (pos : Position) : render? src' pos = render? src pos := by
  have hnumbered (n : Nat) {a b : Text} (hab : shownLine a = shownLine b) :
      numbered n a = numbered n b := by
    rw [numbered, numbered, hab]
  have hline (i : Nat) : src'.lines[i]?.map shownLine = src.lines[i]?.map shownLine := by
    rw [← List.getElem?_map, ← List.getElem?_map, h]
  unfold render?
  split
  · rfl
  · generalize (pos.line - 1).toNat = index
    have hhere := hline index
    cases hx : src.lines[index]? with
    | none =>
      rw [hx, Option.map_none, Option.map_eq_none_iff] at hhere
      simp only [hx, hhere, Option.map_none]
    | some line =>
      rw [hx, Option.map_some, Option.map_eq_some_iff] at hhere
      obtain ⟨line', hx', hshown⟩ := hhere
      simp only [hx, hx', Option.map_some, hnumbered _ hshown, caret, hshown]
      cases index with
      | zero => rfl
      | succ i =>
        have habove := hline i
        simp only
        cases hy : src.lines[i]? with
        | none =>
          rw [hy, Option.map_none, Option.map_eq_none_iff] at habove
          rw [habove]
        | some above =>
          rw [hy, Option.map_some, Option.map_eq_some_iff] at habove
          obtain ⟨above', hy', hshown'⟩ := habove
          rw [hy', Option.map_some, Option.map_some, hnumbered _ hshown']

end Snippet

theorem SourceError.render_withReturns (e : SourceError) (src : Text) :
    e.render src.withReturns = e.render src := by
  unfold SourceError.render
  rw [Snippet.render?_congr (Snippet.shownLines_withReturns src)]

open Lexer

/-- **Line ends do not matter.** A source with a carriage return in front of every line feed has the
same tokens or the same lexical fault, up to offsets. It spells the same program up to offsets, or
it has a fault with the same message, which is shown alike. -/
theorem parse_withReturns (tab : TabWidth) (src : Text) :
    ((tokenize tab src.withReturns).map (List.map (Token.relocate .unoffset))).mapError
          (LexicalError.relocate .unoffset) =
        ((tokenize tab src).map (List.map (Token.relocate .unoffset))).mapError
          (LexicalError.relocate .unoffset) ∧
      match parse tab src.withReturns, parse tab src with
      | .ok p', .ok p => p'.relocate .unoffset = p.relocate .unoffset
      | .error e', .error e =>
        e'.relocate .unoffset = e.relocate .unoffset ∧ e'.message = e.message ∧
          (Diagnostic.source e').render src.withReturns = (Diagnostic.source e).render src
      | _, _ => False := by
  have htokens := (rewriting_withReturns tab).tokenize (Rune.decode_withReturns src) rfl
  have hparse := parse_alike (f := .unoffset) htokens (fun _ _ h => h) rfl (fun _ _ h => h)
    fun _ _ h => h.line_eq
  constructor
  · exact htokens.relocate_eq (fun _ _ h => h) fun _ _ h => h
  · generalize parse tab src = x, parse tab src.withReturns = y at hparse
    cases hparse with
    | ok value => exact value
    | @error e e' fault =>
      refine ⟨fault, ?_, ?_⟩
      · rw [← e'.message_unoffset, fault, e.message_unoffset]
      · show e'.render src.withReturns = e.render src
        rw [← e'.render_unoffset, fault, e.render_unoffset, e.render_withReturns]

end Offside
