import Offside.Proofs.Fault.Incomplete
import Offside.Proofs.Grammar.Append

/-!
# Sources one behind the other

What `parse` makes of a source with another one on the line behind it.

A source on the line behind another one is read as it is read alone, if the other one leaves nothing
open: no parenthesis, which a program closes anyway, and no indented block. Its tokens then stand as
many lines further down as the other source has.

The tokens come from `Proofs/Lexer/Continue`, which reads the first source as before and begins the
second on a new line, and from `Proofs/Lexer/Simulation`, which reads the second as it is read
alone. The program comes from `Proofs/Grammar/Append`.

Results:
* `Course.lines`: the tokens of a source stand on its lines.
* `tokenize_beyond`: behind a source at whose end no indented block is open, reading goes on with no
  level open.
* `tokenize_append`: the tokens of two sources one behind the other.
* `parse_append`: the program of two sources one behind the other: the statements of the first
  exactly as they are, and then those of the second up to positions.

Out of scope: a first source with an indented block open at its end. The line of the second decides
what becomes of that block.
-/

namespace Offside

namespace Lexer

variable {tab : TabWidth}

/-! ## The lines of a source -/

/-- The next lexeme stands on a line of the source. -/
theorem Scan.line_bounds (s : Scan) :
    s.pos.line ≤ s.next.line ∧ s.next.line < s.beyond.line := by
  have hbeyond : s.beyond = s.next.afterAll (s.rest ++ [.char '\n']) := by
    rw [Scan.beyond, Scan.next, ← Position.afterAll_append, ← List.append_assoc, s.gap_append_rest]
  have hcount : 0 < (s.rest ++ [Rune.char '\n']).countP Rune.isNewline :=
    List.countP_pos_iff.mpr ⟨Rune.char '\n', by simp, rfl⟩
  rw [hbeyond, afterAll_line, Scan.next, afterAll_line]
  omega

/-- **The tokens of a source stand on its lines.** -/
theorem Course.lines {s : Scan} {ts : List Token} {e : Option LexicalError}
    (h : Course tab s ts e) :
    ∀ t ∈ ts, s.pos.line ≤ t.pos.line ∧ t.pos.line < s.beyond.line := by
  induction h with
  | @finish s _ =>
    intro t ht
    have hpos : t.pos = s.next := by
      rcases List.mem_append.mp ht with ht | ht
      · exact pos_of_mem_markersAt ht
      · rw [List.mem_singleton.mp ht]
        rfl
    rw [hpos]
    exact s.line_bounds
  | @newline s r rest ts e _ hr hn _ ih =>
    intro t ht
    have hline : (s.next.after r).line = s.next.line + 1 := by rw [Position.after, if_pos hn]
    have hnext := s.line_bounds.1
    obtain ⟨hle, hlt⟩ := ih t ht
    rw [hline] at hle
    rw [Scan.beyond_newline hr] at hlt
    omega
  | @line s r rest kinds levels ts e _ hr _ _ ih =>
    intro t ht
    rcases List.mem_append.mp ht with ht | ht
    · rw [pos_of_mem_markersAt ht]
      exact s.line_bounds
    · obtain ⟨hle, hlt⟩ := ih t ht
      rw [Scan.beyond_line hr] at hlt
      exact ⟨s.line_bounds.1.trans hle, hlt⟩
  | lost _ _ _ => exact fun t ht => absurd ht List.not_mem_nil
  | @lexeme s r rest lexeme after t ts e _ hr _ hread _ ih =>
    intro u hu
    rcases List.mem_cons.mp hu with rfl | hu
    · rw [(readLexeme_spec hread).2.2.1]
      exact s.line_bounds
    · have hnext := s.line_bounds.1
      obtain ⟨hle, hlt⟩ := ih u hu
      rw [afterAll_line] at hle
      rw [Scan.beyond_lexeme hr hread] at hlt
      omega
  | fault _ _ _ _ => exact fun t ht => absurd ht List.not_mem_nil

/-! ## The same source at another place -/

/-- A source is read alike from two places, if reading on keeps them related. -/
theorem rewriting_id (tab : TabWidth) {E : Position → Position → Prop}
    (hE : ∀ p q r, E p q → E (p.after r) (q.after r)) : Rewriting tab E E id := by
  have hall (rs : List Rune) (p q : Position) (h : E p q) : E (p.afterAll rs) (q.afterAll rs) := by
    induction rs generalizing p q with
    | nil => exact h
    | cons r rs ih => exact ih _ _ (hE p q r h)
  exact {
    solid _ := rfl
    apart h := h
    after _ h := hE _ _ _ h
    gap h hsplit _ := ⟨_, hsplit, hall _ _ _ h, rfl⟩
    newline h hsplit _ := ⟨_, hsplit, hE _ _ _ (hall _ _ _ h)⟩
    finish h hsplit := ⟨_, hsplit, hall _ _ _ h⟩ }

theorem shift_after (n : Int) (p q : Position) (r : Rune) (h : p.Shift n q) :
    (p.after r).Shift n (q.after r) := by
  have hline : q.line = p.line + n := h
  unfold Position.Shift Position.after
  split
  · simp only [hline]
    omega
  · exact hline

end Lexer

open Lexer

/-- Behind a source at whose end no indented block is open, reading goes on with no level open. -/
theorem tokenize_beyond {tab : TabWidth} {src : Text} {ts : List Token}
    (h : tokenize tab src = .ok ts) (hopen : ¬ OpenAtEnd tab src) (more : Text) :
    ∃ behind e, tokenize tab (src ++ Text.newline :: more) =
        e.elim (.ok (streamOf ts ++ behind)) .error ∧
      ∃ s : Scan, s.Opens (Rune.decode more) (Scan.ofSource src).beyond []
        (depthOver 0 (streamOf ts)) ∧ Course tab s behind e := by
  obtain ⟨front, pos, levels, hts, hmore⟩ := tokenize_continue h
  obtain ⟨us, pos', hus, hne⟩ := tokenize_ends h
  have hstream : streamOf ts = us := by rw [hus, streamOf_eofAt hne]
  rw [hts, ← List.append_assoc] at hus
  obtain ⟨rfl, -⟩ := List.append_inj' hus rfl
  cases levels with
  | nil =>
    obtain rfl : streamOf ts = front := hstream.trans (List.append_nil front)
    exact hmore more
  | cons level levels =>
    -- the source would end with the marker that closes the level
    refine absurd ⟨ts, h, .plain .dedent [] pos, ?_, rfl⟩ hopen
    rw [hstream, markersAt_dedents, List.getLast?_append, List.getLast?_replicate,
      if_neg (by simp)]
    rfl

/-- **The tokens of two sources one behind the other**, if the first leaves no parenthesis and no
indented block open: those of the second stand some lines further down, below those of the first. -/
theorem tokenize_append {tab : TabWidth} {src src' : Text} {ts us : List Token}
    (h : tokenize tab src = .ok ts) (h' : tokenize tab src' = .ok us) (hopen : ¬ OpenAtEnd tab src)
    (hflat : depthOver 0 (streamOf ts) = 0) :
    ∃ n vs, tokenize tab (src ++ Text.newline :: src') = .ok (streamOf ts ++ vs) ∧
      List.Forall₂ (Token.Alike (Position.Shift n)) us vs ∧
      (∀ t ∈ streamOf ts, t.pos.line ≤ n) ∧ ∀ v ∈ vs, n < v.pos.line := by
  have hcourse := course_of_tokenize h
  obtain ⟨vs, e, hwhole, s, hs, hrest⟩ := tokenize_beyond h hopen src'
  let n := (Scan.ofSource src).beyond.line - 1
  have hstart : Rewritten (Position.Shift n) id (.ofSource src') s := by
    have hdepth : s.depth = 0 := hs.depth_eq.trans hflat
    have hfresh : s.fresh = true := by
      have hwide := hs.wide
      rwa [Scan.Wide, hdepth, decide_eq_false (Nat.lt_irrefl 0), Bool.or_false] at hwide
    refine ⟨hfresh, hs.input_eq, ?_, hs.levels_eq, hdepth⟩
    show s.pos.line = 1 + n
    rw [hs.pos_eq]
    omega
  have hmatch :=
    (rewriting_id tab (shift_after n)).simulation.course (course_of_tokenize h') hstart hrest
  obtain rfl := hmatch.eq_none
  refine ⟨n, vs, hwhole, hmatch.forall₂ fun _ _ h => h, fun t ht => ?_, fun v hv => ?_⟩
  · have hlt := (hcourse.lines t ((List.takeWhile_sublist _).subset ht)).2
    omega
  · have hle := (hrest.lines v hv).1
    rw [hs.pos_eq] at hle
    omega

/-- The levels that a source opens are closed in front of its end. -/
theorem indents_le_of_tokenize {tab : TabWidth} {src : Text} {ts : List Token}
    (h : tokenize tab src = .ok ts) :
    kindCount .indent (streamOf ts) ≤ kindCount .dedent (streamOf ts) := by
  obtain ⟨-, hpaired, -, us, pos, rfl, hne⟩ := (tokenize_laidOut tab src).2 ts h
  have htotal := hpaired.total
  rw [kindCount_append, kindCount_append] at htotal
  rw [streamOf_eofAt hne]
  exact (htotal.trans (Nat.zero_add _)).ge

/-- **Appending a program appends its statements.** Two sources that spell programs, the first of
which leaves no indented block open at its end, spell together the statements of the first and then
those of the second, these with other positions. -/
theorem parse_append {tab : TabWidth} {src src' : Text} {p q : Program} (hp : parse tab src = .ok p)
    (hq : parse tab src' = .ok q) (hopen : ¬ OpenAtEnd tab src) :
    ∃ more, parse tab (src ++ Text.newline :: src') = .ok (p ++ more) ∧
      Program.unplaced more = Program.unplaced q := by
  obtain ⟨ts, hts, hp⟩ := parse_eq_ok.mp hp
  obtain ⟨us, hus, hq⟩ := parse_eq_ok.mp hq
  have hne : ∀ t ∈ streamOf ts, t.kind ≠ .eof := fun t => ne_eof_of_mem_streamOf
  have hfront : parseTokens (streamOf ts) = .ok p :=
    parseTokens_of_streamOf_eq hp (streamOf_eq_self hne)
  obtain ⟨n, vs, hwhole, halike, habove, hbelow⟩ :=
    tokenize_append hts hus hopen (depthOver_of_parseTokens hne hfront)
  obtain ⟨more, hmore, hunplaced⟩ := parseTokens_shift halike hq
  have hend : Finished n (streamOf ts) := ⟨habove, indents_le_of_tokenize hts⟩
  exact ⟨more, parse_eq_ok.mpr ⟨_, hwhole, parseTokens_append hne hfront hmore hend hbelow⟩,
    hunplaced⟩

/-- A source that ends with a suite on the line of its header. -/
def guardSource : String := "if a: x = 1"

/-- The program of the source. -/
def guardProgram : Program :=
  [.ifThen (.leaf (.plain .identifier "a" ⟨3, 1, 4⟩))
    [.assign (.plain .identifier "x" ⟨6, 1, 7⟩) (.leaf ⟨.number, "1", 1, ⟨10, 1, 11⟩⟩)]]

theorem tokenize_guard : tokenize .standard (Text.ofString guardSource) = .ok
    [.plain .ifWord "if" ⟨0, 1, 1⟩, .plain .identifier "a" ⟨3, 1, 4⟩, .plain .colon ":" ⟨4, 1, 5⟩,
     .plain .identifier "x" ⟨6, 1, 7⟩, .plain .assign "=" ⟨8, 1, 9⟩, ⟨.number, "1", 1, ⟨10, 1, 11⟩⟩,
     .eofAt ⟨11, 1, 12⟩] :=
  tokenize_of_steps 40 (by decide +kernel) (by decide +kernel)

theorem parse_guard : parse .standard (Text.ofString guardSource) = .ok guardProgram :=
  parse_eq_ok.mpr ⟨_, tokenize_guard, by decide +kernel⟩

theorem not_openAtEnd_guard : ¬ OpenAtEnd .standard (Text.ofString guardSource) := by
  rintro ⟨ts, hts, t, ht, hk⟩
  obtain rfl := Except.ok.inj (tokenize_guard.symm.trans hts)
  obtain rfl := Option.some.inj (Option.mem_def.mp ht)
  cases hk

/-- A source to append. -/
def loopSource : String := "while x:\n  x = 0"

/-- The program of this source. -/
def loopProgram : Program :=
  [.loop (.leaf (.plain .identifier "x" ⟨6, 1, 7⟩))
    [.assign (.plain .identifier "x" ⟨11, 2, 3⟩) (.leaf ⟨.number, "0", 0, ⟨15, 2, 7⟩⟩)]]

theorem parse_loop : parse .standard (Text.ofString loopSource) = .ok loopProgram := by
  have htokens : tokenize .standard (Text.ofString loopSource) = .ok
      [.plain .whileWord "while" ⟨0, 1, 1⟩, .plain .identifier "x" ⟨6, 1, 7⟩,
       .plain .colon ":" ⟨7, 1, 8⟩, .plain .indent [] ⟨11, 2, 3⟩, .plain .identifier "x" ⟨11, 2, 3⟩,
       .plain .assign "=" ⟨13, 2, 5⟩, ⟨.number, "0", 0, ⟨15, 2, 7⟩⟩, .plain .dedent [] ⟨16, 2, 8⟩,
       .eofAt ⟨16, 2, 8⟩] :=
    tokenize_of_steps 40 (by decide +kernel) (by decide +kernel)
  exact parse_eq_ok.mpr ⟨_, htokens, by decide +kernel⟩

/-- The loop is appended to the conditional, whose suite is ended by the line of the loop. -/
theorem parse_append_guard :
    parse .standard (Text.ofString guardSource) = .ok guardProgram ∧
      parse .standard (Text.ofString loopSource) = .ok loopProgram ∧
      ¬ OpenAtEnd .standard (Text.ofString guardSource) ∧
      ∃ more, parse .standard
          (Text.ofString guardSource ++ Text.newline :: Text.ofString loopSource) =
            .ok (guardProgram ++ more) ∧
        Program.unplaced more = Program.unplaced loopProgram :=
  ⟨parse_guard, parse_loop, not_openAtEnd_guard,
    parse_append parse_guard parse_loop not_openAtEnd_guard⟩

end Offside
