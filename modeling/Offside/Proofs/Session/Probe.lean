import Offside.Proofs.Lexer.Levels
import Offside.Proofs.Render.Legible
import Offside.Proofs.Text.Space
import Offside.Session.Basic

/-!
# What the probe says of commands

`Buffer.wantsMore` on the two commands of a session, and on white space.

Whether a line is a whole input is asked of the parser before the line is looked at. To the parser a
command is a colon, which it skips, and a name, behind which it wants an equals sign or a
parenthesis. So the probe asks for more, unless the command is indented: then the indentation is a
fault of its own and the input is whole.

* `IsCommand` is a text that is a command and white space, and `margin` the width of the white space
  that a line begins with.

Results:
* `parseTokens_command`: behind a colon and a name the grammar wants more.
* `IsCommand.tokens`: the tokens of a source whose first line is a command.
* `IsCommand.wantsMore`: a command asks for more exactly if it is not indented. The width counts
  here, not the white space: a carriage return has none.
* `wantsMore_blank`: white space is a whole input.
-/

namespace Offside

namespace Lexer

/-! ## Courses that are known -/

theorem splitGap_spaces {lead : List Rune} (hl : ∀ r ∈ lead, r.isSpace = true) {r : Rune}
    (hr : Solid r) (rs : List Rune) : splitGap true false (lead ++ r :: rs) = (lead, r :: rs) := by
  rw [splitGap_spaces_append hl, splitGap_solid hr, List.append_nil]

/-- A lexeme without a gap in front of it is read. -/
theorem Course.read {tab : TabWidth} {s : Scan} {ts : List Token} {e : Option LexicalError}
    {r : Rune} {rest lexeme after : List Rune} {t : Token} (h : Course tab s ts e)
    (hf : s.fresh = false) (hin : s.input = r :: rest) (hr : Solid r)
    (hread : readLexeme r rest s.pos = .ok (t, lexeme, after)) :
    ∃ ts', ts = t :: ts' ∧
      Course tab ⟨false, after, s.pos.afterAll lexeme, s.levels, depthAfter s.depth t.kind⟩
        ts' e := by
  have hgap : s.gap = [] := by rw [Scan.gap, hin, splitGap_solid hr]
  have hnext : s.next = s.pos := by rw [Scan.next, hgap, Position.afterAll_nil]
  have hrest : s.rest = r :: rest := by rw [Scan.rest, hin, splitGap_solid hr]
  rw [← hnext] at hread ⊢
  exact h.behind_lexeme hf hrest hr.1 hread

end Lexer

open Lexer

/-! ## Commands to the parser -/

/-- A colon, a name, and the end of the source: the grammar wants more. -/
theorem parseTokens_command {t u v : Token} {ts : List Token} (ht : t.kind = .colon)
    (hu : u.kind = .identifier) (hv : v.kind = .eof) :
    parseTokens (t :: u :: v :: ts) = .error (.wrongKind v [.assign, .openParen]) := by
  rw [parseTokens, Cursor.program, Cursor.sequence]
  simp only [Extent.endsAt, Cursor.ofTokens, Cursor.cur, ht, Cursor.advance]
  rw [Cursor.sequence, Cursor.statement]
  simp [Extent.endsAt, Cursor.cur, ht, hu, Cursor.next?, hv, Reading.relax, Reading.result,
    Reading.andThen]

/-- No statement begins with an indent marker. -/
theorem parseTokens_indent {t : Token} {ts : List Token} (ht : t.kind = .indent) :
    parseTokens (t :: ts) = .error (.wrongStart t "statement") := by
  rw [parseTokens, Cursor.program, Cursor.sequence, Cursor.statement]
  simp [Extent.endsAt, Cursor.ofTokens, Cursor.cur, ht, Reading.relax, Reading.result,
    Reading.andThen]

theorem parseTokens_end {t : Token} (ht : t.kind = .eof) : parseTokens [t] = .ok [] := by
  rw [parseTokens, Cursor.program, Cursor.sequence]
  simp [Extent.endsAt, Cursor.ofTokens, Cursor.cur, ht, Reading.result]

namespace Session

/-- The names of the commands. -/
def commandNames : List (List Char) :=
  [['i', 'r'], ['q', 'u', 'i', 't']]

/-- The word of a command. -/
def word (name : List Char) : List Char :=
  ':' :: name

theorem name_spec {name : List Char} (h : name ∈ commandNames) :
    (∃ first more, name = first :: more ∧ Rune.isNameStart (.char first) = true ∧
      Rune.isDigit (.char first) = false) ∧
      (∀ c ∈ name, Rune.isNamePart (.char c) = true) ∧
        wordKind (Text.ofChars name) = .identifier := by
  simp only [commandNames, List.mem_cons, List.not_mem_nil, or_false] at h
  rcases h with rfl | rfl
  · refine ⟨⟨'i', ['r'], rfl, by decide, by decide⟩, ?_, by decide +kernel⟩
    simp only [List.forall_mem_cons]
    exact ⟨by decide, by decide, by simp⟩
  · refine ⟨⟨'q', ['u', 'i', 't'], rfl, by decide, by decide⟩, ?_, by decide +kernel⟩
    simp only [List.forall_mem_cons]
    exact ⟨by decide, by decide, by decide, by decide, by simp⟩

theorem readLexeme_colon (rest : List Rune) (pos : Position) :
    readLexeme (.char ':') rest pos = .ok (.plain .colon ":" pos, [.char ':'], rest) := by
  have hclass : classOf (.char ':') = .operator := by decide
  have hop : readOperator (.char ':') rest pos = .ok (.colon, [.char ':'], rest) := by
    simp [readOperator, pairKind?, operatorKind?, Rune.is]
  rw [readLexeme, hclass]
  simp only [hop, Except.map]
  rfl

theorem readLexeme_name {first : Char} {more : List Char} {trail : List Rune} (pos : Position)
    (hstart : Rune.isNameStart (.char first) = true) (hdigit : Rune.isDigit (.char first) = false)
    (hmore : ∀ c ∈ more, Rune.isNamePart (.char c) = true)
    (htrail : ∀ r ∈ trail, r.isSpace = true) :
    readLexeme (.char first) (more.map .char ++ trail) pos =
      .ok (.plain (wordKind (Text.ofChars (first :: more))) (Text.ofChars (first :: more)) pos,
        (first :: more).map .char, trail) := by
  have hclass : classOf (.char first) = .word := by rw [classOf, hdigit, hstart]; rfl
  have hspan : (more.map Rune.char ++ trail).takeWhile Rune.isNamePart = more.map .char ∧
      (more.map Rune.char ++ trail).dropWhile Rune.isNamePart = trail := by
    cases trail with
    | nil =>
      have hall : ∀ r ∈ more.map Rune.char, r.isNamePart = true := by
        intro r hr
        obtain ⟨c, hc, rfl⟩ := List.mem_map.mp hr
        exact hmore c hc
      rw [List.append_nil]
      exact ⟨List.takeWhile_eq_self_iff.mpr hall, List.dropWhile_eq_nil_iff.mpr hall⟩
    | cons r trail =>
      have hr : r.isNamePart = false := by
        rw [Bool.eq_false_iff]
        intro hp
        have hs := (solid_of_isNamePart hp).2.2
        rw [htrail r List.mem_cons_self] at hs
        cases hs
      exact span_chars hmore hr trail
  rw [readLexeme, hclass]
  simp only [hspan.1, hspan.2, ← List.map_cons, Rune.encode_chars]

/-- The width of the white space that a line begins with. -/
def margin (tab : TabWidth) (line : Text) : Int64 :=
  widthOf tab ((Rune.decode line).takeWhile Rune.isSpace)

/-- A text that is a command and white space. -/
structure IsCommand (src : Text) (name lead trail : List Char) : Prop where
  known : name ∈ commandNames
  runes : Rune.decode src = (lead ++ (word name ++ trail)).map .char
  lead : ∀ c ∈ lead, Rune.isSpace (.char c) = true
  trail : ∀ c ∈ trail, Rune.isSpace (.char c) = true

theorem isCommand_of_trim {src : Text} {name : List Char} (hname : name ∈ commandNames)
    (h : src.trim = Text.ofChars (word name)) : ∃ lead trail, IsCommand src name lead trail := by
  have hascii : ∀ name ∈ commandNames, ∀ b ∈ Text.ofChars (word name), b < 0x80 := by decide +kernel
  obtain ⟨lead, trail, hruns, hlead, htrail⟩ := Text.decode_of_trim h (hascii name hname)
  exact ⟨lead, trail, hname, hruns, hlead, htrail⟩

theorem isSpace_map {cs : List Char} (h : ∀ c ∈ cs, Rune.isSpace (.char c) = true) :
    ∀ r ∈ cs.map Rune.char, r.isSpace = true := by
  intro r hr
  obtain ⟨c, hc, rfl⟩ := List.mem_map.mp hr
  exact h c hc

theorem solid_colon : Solid (.char ':') := by decide

theorem IsCommand.margin_eq {tab : TabWidth} {src : Text} {name lead trail : List Char}
    (h : IsCommand src name lead trail) : margin tab src = widthOf tab (lead.map .char) := by
  rw [margin, h.runes, List.map_append, List.takeWhile_append_of_pos (isSpace_map h.lead), word,
    List.cons_append, List.map_cons, List.takeWhile_cons_of_neg (by simp [solid_colon.2.2]),
    List.append_nil]

/-- The first line of a source that is a command: the fault of its indentation, or the markers of
the indentation and the two tokens of the command. -/
theorem IsCommand.tokens {src : Text} {name lead trail : List Char}
    (h : IsCommand src name lead trail) (tab : TabWidth) :
    match adjust [] (margin tab src) with
    | none => ∃ e, tokenize tab src = .error e
    | some (kinds, levels) => ∃ p q t u,
      tokenize tab src = .ok (markersAt p kinds ++
        t :: u :: (markersAt q (levels.map fun _ => .dedent) ++ [.eofAt q])) ∧
        t.kind = .colon ∧ u.kind = .identifier := by
  obtain ⟨ts, e, hc, -, htok⟩ := course_source tab src
  obtain ⟨⟨first, more, rfl, hstart, hdigit⟩, hparts, hkind⟩ := name_spec h.known
  have hin : Rune.decode src =
      lead.map .char ++ .char ':' :: .char first :: (more.map .char ++ trail.map .char) := by
    rw [h.runes]
    simp [word]
  have hsplit : splitGap true false (Rune.decode src) =
      (lead.map .char, .char ':' :: .char first :: (more.map .char ++ trail.map .char)) := by
    rw [hin]
    exact splitGap_spaces (isSpace_map h.lead) solid_colon _
  have hgap : (Scan.ofSource src).gap = lead.map .char := congrArg Prod.fst hsplit
  have hrest := congrArg Prod.snd hsplit
  have hadjust : adjust (Scan.ofSource src).levels (widthOf tab (Scan.ofSource src).gap) =
      adjust [] (margin tab src) := by
    rw [hgap, ← h.margin_eq]
    rfl
  cases ha : adjust [] (margin tab src) with
  | none =>
    obtain ⟨-, rfl⟩ := hc.behind_lost rfl hrest (hadjust.trans ha)
    exact ⟨_, htok⟩
  | some x =>
    obtain ⟨kinds, levels⟩ := x
    obtain ⟨ts, rfl, hline⟩ := hc.behind_indentation rfl hrest (hadjust.trans ha)
    obtain ⟨ts, rfl, hname⟩ := hline.read rfl rfl solid_colon (readLexeme_colon _ _)
    obtain ⟨ts, rfl, hend⟩ := hname.read rfl rfl (solid_of_isNameStart hstart)
      (readLexeme_name _ hstart hdigit (fun c hc => hparts c (List.mem_cons_of_mem _ hc))
        (isSpace_map h.trail))
    obtain ⟨rfl, q, rfl⟩ := hend.spaces (isSpace_map h.trail)
    exact ⟨_, q, _, _, htok, rfl, hkind⟩

/-- **A command asks for more exactly if it is not indented.** -/
theorem IsCommand.wantsMore {tab : TabWidth} {src : Text} {name lead trail : List Char}
    (h : IsCommand src name lead trail) :
    Buffer.wantsMore tab src = decide (margin tab src = 0) := by
  have htok := h.tokens tab
  rw [Buffer.wantsMore, parse]
  cases ha : adjust [] (margin tab src) with
  | none =>
    rw [ha] at htok
    obtain ⟨e, he⟩ := htok
    have hne : margin tab src ≠ 0 := by
      intro h0
      rw [h0] at ha
      exact absurd ha (by decide)
    simp [he, hne, SourceError.isIncomplete]
  | some x =>
    obtain ⟨kinds, levels⟩ := x
    rw [ha] at htok
    obtain ⟨p, q, t, u, he, ht, hu⟩ := htok
    rw [he]
    rcases adjust_cases ha with ⟨hlt, rfl, rfl⟩ | ⟨n, hn, rfl, rfl, hw⟩
    · have hne : margin tab src ≠ 0 := by
        intro h0
        rw [h0] at hlt
        exact absurd hlt (by decide)
      simp only [markersAt, List.map_cons, List.map_nil, List.cons_append, List.nil_append]
      rw [parseTokens_indent rfl]
      simp [hne, SourceError.isIncomplete, SyntaxError.wrongStart, Token.plain]
    · obtain rfl : n = 0 := Nat.le_zero.mp hn
      have h0 : margin tab src = 0 := hw.symm
      simp only [markersAt, List.replicate_zero, List.drop_zero, List.map_nil, List.nil_append]
      rw [parseTokens_command ht hu rfl]
      simp [h0, SourceError.isIncomplete, SyntaxError.wrongKind, Token.eofAt, Token.plain]

/-- White space is a whole input. -/
theorem wantsMore_blank (tab : TabWidth) {src : Text}
    (h : ∀ r ∈ Rune.decode src, r.isSpace = true) :
    Buffer.wantsMore tab src = false := by
  obtain ⟨ts, e, hc, -, htok⟩ := course_source tab src
  obtain ⟨rfl, q, rfl⟩ := hc.spaces h
  have hp : parse tab src = .ok [] := parse_eq_ok.mpr ⟨_, htok, parseTokens_end rfl⟩
  rw [Buffer.wantsMore, hp]

end Session

end Offside
