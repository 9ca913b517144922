import Offside.Frontend
import Offside.Proofs.Fault.Earliest
import Offside.Proofs.Lexer.Continue
import Offside.Proofs.Render.Lines

/-!
# Incomplete sources

The comment on `IsIncomplete` says that more source could still make the program valid
(specification, 4.5), and a session goes by it. Here is when that is so.

A source whose fault is the end of the source is called incomplete: more text should mend it. It
does (`parse_completes`). The converse fails in one case. A source that breaks off inside an
indented block ends, for the parser, with the dedent markers that close the block, and it is such a
marker that is at fault, though more lines of the block would mend it.

* `fillText` is a text with tokens of some kinds, a blank behind each. It is written on one more
  line, behind any source that has no level open.
* `Breaks` are the tokens of a source: those that every continuation has too, and the dedent markers
  that close what is open at the end.
* `OpenAtEnd` says that an indented block is open at the end of a source.

Results:
* `Course.fill`: such a text is read as tokens of these kinds.
* `Breaks.fault_closes`: if a source can be continued to a program, its fault is the end of the
  source or a marker that closes a level there.
* `parse_completes`: every incomplete source can be continued to a program.
* `parse_incomplete_iff`: a source with a fault that can be continued to a program is incomplete
  exactly if no indented block is open at its end.
* `parse_incomplete_missed`: a source that can be continued and is not incomplete.

Out of scope: lexical faults, although one of them can be mended too: an equals sign may follow an
exclamation mark at the very end.
-/

namespace Offside

namespace Lexer

/-! ## Text that completes a phrase -/

/-- The sign of a kind of token that completes a phrase. -/
def fillSign : Kind → Char
  | .assign => '='
  | .number => '1'
  | .closeParen => ')'
  | _ => ':'

/-- Tokens of some kinds, with a blank behind each. -/
def fillText (kinds : List Kind) : List Char :=
  kinds.flatMap fun k => [fillSign k, ' ']

theorem fillSign_solid {k : Kind} (hk : k ∈ fillers) : Solid (.char (fillSign k)) := by
  have hall : ∀ k ∈ fillers, Solid (.char (fillSign k)) := by decide
  exact hall k hk

/-- A sign in front of a blank is read as a token of its kind. -/
theorem readLexeme_fillSign {k : Kind} (hk : k ∈ fillers) (rest : List Rune) (pos : Position) :
    ∃ t, readLexeme (.char (fillSign k)) (.char ' ' :: rest) pos =
      .ok (t, [.char (fillSign k)], .char ' ' :: rest) ∧ t.kind = k := by
  simp only [fillers, List.mem_cons, List.not_mem_nil, or_false] at hk
  rcases hk with rfl | rfl | rfl | rfl
  · exact ⟨_, rfl, rfl⟩
  · exact ⟨_, rfl, rfl⟩
  · exact ⟨_, rfl, rfl⟩
  · exact ⟨_, rfl, rfl⟩

variable {tab : TabWidth} {s : Scan} {ts : List Token} {e : Option LexicalError}

/-- **Such a text is read as tokens of these kinds**, if no level is open. -/
theorem Course.fill {kinds : List Kind} (hk : kinds ⊆ fillers) (h : Course tab s ts e) {n : Nat}
    (hin : s.input = List.replicate n (.char ' ') ++ (fillText kinds).map .char)
    (hf : s.fresh = false) (hl : s.levels = []) :
    e = none ∧ ∃ fill pos, ts = fill ++ [.eofAt pos] ∧ fill.map Token.kind = kinds := by
  induction kinds generalizing s ts n with
  | nil =>
    obtain ⟨he, pos, rfl⟩ := h.spaces fun r hr => by
      rw [hin, fillText, List.flatMap_nil, List.map_nil, List.append_nil] at hr
      rw [List.eq_of_mem_replicate hr]
      rfl
    exact ⟨he, [], pos, by rw [hl]; rfl, rfl⟩
  | cons k kinds ih =>
    obtain ⟨hkind, hkinds⟩ := List.cons_subset.mp hk
    have hsolid := fillSign_solid hkind
    have hsplit := splitGap_blanks (s.fresh || decide (0 < s.depth)) n hsolid
      (.char ' ' :: (fillText kinds).map .char)
    have hrest : s.rest = .char (fillSign k) :: .char ' ' :: (fillText kinds).map .char := by
      rw [Scan.rest, hin]
      exact congrArg Prod.snd hsplit
    obtain ⟨t, hread, rfl⟩ := readLexeme_fillSign hkind ((fillText kinds).map .char) s.next
    obtain ⟨ts', rfl, hmore⟩ := h.behind_lexeme hf hrest hsolid.1 hread
    obtain ⟨he, fill, pos, rfl, hfill⟩ := ih hkinds hmore (n := 1) rfl rfl hl
    exact ⟨he, t :: fill, pos, rfl, by rw [List.map_cons, hfill]⟩

/-- The same where a line begins: a line that begins with a sign is not indented. -/
theorem Course.fillLine {kinds : List Kind} (hk : kinds ⊆ fillers) (h : Course tab s ts e)
    (hin : s.input = (fillText kinds).map .char) (hl : s.levels = []) :
    e = none ∧ ∃ fill pos, ts = fill ++ [.eofAt pos] ∧ fill.map Token.kind = kinds := by
  cases hf : s.fresh with
  | false => exact h.fill hk (n := 0) hin hf hl
  | true =>
    cases kinds with
    | nil =>
      obtain ⟨he, pos, rfl⟩ := h.spaces (by rw [hin]; simp [fillText])
      exact ⟨he, [], pos, by rw [hl]; rfl, rfl⟩
    | cons k kinds =>
      have hsolid := fillSign_solid (hk List.mem_cons_self)
      have hsplit := splitGap_solid hsolid (s.fresh || decide (0 < s.depth))
        (.char ' ' :: (fillText kinds).map .char)
      have hgap : s.gap = [] := by
        rw [Scan.gap, hin]
        exact congrArg Prod.fst hsplit
      have hrest : s.rest = .char (fillSign k) :: .char ' ' :: (fillText kinds).map .char := by
        rw [Scan.rest, hin]
        exact congrArg Prod.snd hsplit
      have hadjust : adjust s.levels (widthOf tab s.gap) = some ([], []) := by
        rw [hl, hgap]
        rfl
      obtain ⟨ts', rfl, hmore⟩ := h.behind_indentation hf hrest hadjust
      exact hmore.fill hk (n := 0) rfl rfl rfl

end Lexer

open Lexer

/-- The tokens of a source: those that every continuation has too, and the dedent markers that close
what is open at the end. -/
structure Breaks (tab : TabWidth) (src : Text) (ts front : List Token) (levels : List Int64)
    (pos : Position) : Prop where
  stream_eq : streamOf ts = front ++ markersAt pos (levels.map fun _ => .dedent)
  plain : ∀ t ∈ front, t.kind ≠ .eof
  continues : ∀ more, ∃ behind e, tokenize tab (src ++ Text.newline :: more) =
      e.elim (.ok (front ++ behind)) .error ∧
    ∃ s : Scan, s.input = Rune.decode more ∧ s.levels = levels ∧ s.Wide ∧ Course tab s behind e

theorem breaks_of_tokenize {tab : TabWidth} {src : Text} {ts : List Token}
    (h : tokenize tab src = .ok ts) : ∃ front levels pos, Breaks tab src ts front levels pos := by
  obtain ⟨front, pos, levels, hts, hmore⟩ := tokenize_continue h
  obtain ⟨us, pos', hus, hplain⟩ := tokenize_ends h
  have heq : front ++ markersAt pos (levels.map fun _ => .dedent) = us := by
    rw [hts, ← List.append_assoc] at hus
    exact (List.append_inj' hus rfl).1
  refine ⟨front, levels, pos, ?_, fun t ht => hplain t (heq ▸ List.mem_append_left _ ht),
    fun more => ?_⟩
  · rw [hus, heq, streamOf_append hplain]
    simp [streamOf, Token.eofAt, Token.plain]
  · obtain ⟨behind, e, htok, s, hs, hc⟩ := hmore more
    exact ⟨behind, e, htok, s, hs.input_eq, hs.levels_eq, hs.wide, hc⟩

theorem markersAt_dedents (pos : Position) (levels : List Int64) :
    markersAt pos (levels.map fun _ => .dedent) =
      List.replicate levels.length (.plain .dedent [] pos) := by
  rw [markersAt, List.map_const', List.map_replicate]

/-- Behind the source stands a marker for every level that is open there. -/
theorem Breaks.getLast {tab : TabWidth} {src : Text} {ts front : List Token} {levels : List Int64}
    {pos : Position} (h : Breaks tab src ts front levels pos) (hne : levels ≠ []) :
    (streamOf ts).getLast? = some (.plain .dedent [] pos) := by
  rw [h.stream_eq, markersAt_dedents, List.getLast?_append, List.getLast?_replicate,
    if_neg (by simpa using hne), Option.some_or]

/-- If the end of the source is at fault, no level is closed in front of it. -/
theorem Halts.last_ne_dedent {ts before : List Token} {e : SyntaxError} {stop : Cursor}
    (h : Halts ts before e stop) (hg : e.got.kind = .eof) :
    ∀ t ∈ (streamOf ts).getLast?, t.kind ≠ .dedent := by
  intro t ht hk
  obtain ⟨u, hu, hplain⟩ := h.ends hg
  rw [h.streamOf_of_end hg, Option.mem_def, Option.mem_def.mp hu] at ht
  obtain rfl := Option.some.inj ht
  rw [hk] at hplain
  cases hplain

/-- If a source can be continued to a program, its fault is the end of the source or a marker that
closes a level there: the tokens in front of those are also the first ones of the program. -/
theorem Breaks.fault_closes {tab : TabWidth} {src : Text} {ts front before behind : List Token}
    {levels : List Int64} {pos : Position} {e : SyntaxError} {stop : Cursor} {program : Program}
    (hb : Breaks tab src ts front levels pos) (hh : Halts ts before e stop)
    (hp : parseTokens (front ++ behind) = .ok program) (hg : e.got.kind ≠ .eof) :
    e.got ∈ markersAt pos (levels.map fun _ => .dedent) := by
  obtain ⟨rest, hrest⟩ := List.head?_eq_some_iff.mp (hh.next.resolve_right fun hn => hg hn.2)
  have hsplit := hh.streamOf_eq.symm.trans hb.stream_eq
  rw [hrest] at hsplit
  rcases List.append_eq_append_iff.mp hsplit with ⟨c, hfront, hc⟩ | ⟨c, -, hc⟩
  · cases c with
    | nil =>
      rw [List.nil_append] at hc
      exact hc ▸ List.mem_cons_self
    | cons x c =>
      obtain ⟨rfl, -⟩ := List.cons.inj hc
      rw [hfront, List.append_assoc] at hp
      exact absurd hp (hh.dead _ _)
  · exact hc ▸ List.mem_append_right _ List.mem_cons_self

/-! ## Incomplete sources can be completed -/

/-- **An incomplete source can be continued to a program**: the tokens that are missing are written
on one more line. -/
theorem parse_completes {tab : TabWidth} {src : Text} {e : SourceError}
    (h : parse tab src = .error e) (hi : e.isIncomplete = true) :
    ∃ more program, parse tab (src ++ Text.newline :: more) = .ok program := by
  cases e with
  | lexical e => cases hi
  | grammar e =>
    have hg : e.got.kind = .eof := by simpa [SourceError.isIncomplete] using hi
    obtain ⟨ts, hts, herror⟩ := parse_eq_grammar.mp h
    obtain ⟨before, stop, hh⟩ := halts_of_error herror
    obtain ⟨front, levels, pos, hb⟩ := breaks_of_tokenize hts
    have hbefore := hh.streamOf_of_end hg
    -- at the end no level is open, or the last token in front of it would be a marker
    have hlevels : levels = [] := by
      by_contra hne
      exact hh.last_ne_dedent hg _ (hb.getLast hne) rfl
    subst hlevels
    have hfront : front = before := by
      rw [← hbefore, hb.stream_eq]
      exact (List.append_nil _).symm
    subst hfront
    obtain ⟨kinds, hk, hc⟩ := hh.completable
    obtain ⟨behind, e', htok, s, hin, hl, -, hcourse⟩ :=
      hb.continues (Text.ofChars (fillText kinds))
    rw [Rune.decode_ofChars] at hin
    obtain ⟨rfl, fill, pos', rfl, hfill⟩ := hcourse.fillLine hk hin hl
    obtain ⟨program, hp⟩ := hc fill hfill (front ++ (fill ++ [.eofAt pos'])) (by
      rw [streamOf_append hb.plain, streamOf_append (ne_eof_of_fill hk hfill)]
      simp [streamOf, Token.eofAt, Token.plain])
    exact ⟨_, program, parse_eq_ok.mpr ⟨_, htok, hp⟩⟩

/-- A call that breaks off behind a comma. -/
def openCallSource : String := "f(1,"

theorem parse_openCall : parse .standard (Text.ofString openCallSource) =
    .error (.grammar (.wrongStart (.eofAt ⟨4, 1, 5⟩) "factor")) := by
  have htokens : tokenize .standard (Text.ofString openCallSource) = .ok
      [.plain .identifier "f" ⟨0, 1, 1⟩, .plain .openParen "(" ⟨1, 1, 2⟩,
       ⟨.number, "1", 1, ⟨2, 1, 3⟩⟩, .plain .comma "," ⟨3, 1, 4⟩, .eofAt ⟨4, 1, 5⟩] :=
    tokenize_of_steps 40 (by decide +kernel) (by decide +kernel)
  exact parse_eq_grammar.mpr ⟨_, htokens, by decide +kernel⟩

/-- The call can be completed. -/
theorem parse_completes_openCall :
    parse .standard (Text.ofString openCallSource) =
        .error (.grammar (.wrongStart (.eofAt ⟨4, 1, 5⟩) "factor")) ∧
      (SourceError.grammar (.wrongStart (.eofAt ⟨4, 1, 5⟩) "factor")).isIncomplete = true ∧
      ∃ more program,
        parse .standard (Text.ofString openCallSource ++ Text.newline :: more) = .ok program :=
  ⟨parse_openCall, rfl, parse_completes parse_openCall rfl⟩

/-! ## Sources that can be continued -/

/-- An indented block is open at the end of a source: its tokens end with a dedent marker. -/
def OpenAtEnd (tab : TabWidth) (src : Text) : Prop :=
  ∃ ts, tokenize tab src = .ok ts ∧ ∃ t ∈ (streamOf ts).getLast?, t.kind = .dedent

/-- **A source with a fault that can be continued to a program is incomplete** exactly if no
indented block is open at its end. Otherwise a marker that closes a block there is at fault. -/
theorem parse_incomplete_iff {tab : TabWidth} {src more : Text} {e : SyntaxError}
    {program : Program}
    (h : parse tab src = .error (.grammar e))
    (hmore : parse tab (src ++ Text.newline :: more) = .ok program) :
    ((SourceError.grammar e).isIncomplete = true ↔ ¬ OpenAtEnd tab src) ∧
      (OpenAtEnd tab src → e.got.kind = .dedent) := by
  obtain ⟨ts, hts, herror⟩ := parse_eq_grammar.mp h
  obtain ⟨before, stop, hh⟩ := halts_of_error herror
  obtain ⟨front, levels, pos, hb⟩ := breaks_of_tokenize hts
  obtain ⟨us, hus, hprogram⟩ := parse_eq_ok.mp hmore
  obtain ⟨behind, e', htok, -⟩ := hb.continues more
  rw [hus] at htok
  cases e' with
  | some e' => cases htok
  | none =>
    obtain rfl := Except.ok.inj htok
    have hopen : OpenAtEnd tab src ↔ ∃ t ∈ (streamOf ts).getLast?, t.kind = .dedent := by
      constructor
      · rintro ⟨ts', hts', ht⟩
        obtain rfl := Except.ok.inj (hts.symm.trans hts')
        exact ht
      · exact fun ht => ⟨ts, hts, ht⟩
    rw [hopen, SourceError.isIncomplete, beq_iff_eq]
    by_cases hg : e.got.kind = .eof
    · have hclosed : ¬ ∃ t ∈ (streamOf ts).getLast?, t.kind = .dedent :=
        fun ⟨t, ht, hk⟩ => hh.last_ne_dedent hg t ht hk
      exact ⟨⟨fun _ => hclosed, fun _ => hg⟩, fun ho => absurd ho hclosed⟩
    · have hmarker := hb.fault_closes hh hprogram hg
      have hne : levels ≠ [] := by
        rintro rfl
        exact absurd hmarker List.not_mem_nil
      have hlast : ∃ t ∈ (streamOf ts).getLast?, t.kind = .dedent := ⟨_, hb.getLast hne, rfl⟩
      rw [markersAt_dedents] at hmarker
      have hgot := List.eq_of_mem_replicate hmarker
      exact ⟨⟨fun hk => absurd hk hg, fun ho => absurd hlast ho⟩, fun _ => by rw [hgot]; rfl⟩

/-! ## A block that breaks off -/

/-- A source that breaks off in an indented block, behind the equals sign of an assignment. -/
def brokenSource : String := "if a:\n  x ="

/-- The line that is missing. -/
def missingLine : String := "  1"

/-- The source with this line. -/
def mendedSource : String := "if a:\n  x =\n  1"

theorem mended_eq : Text.ofString mendedSource =
    Text.ofString brokenSource ++ Text.newline :: Text.ofString missingLine := by
  decide +kernel

/-- The tokens of the source up to the place where it breaks off. -/
def brokenTokens : List Token :=
  [.plain .ifWord "if" ⟨0, 1, 1⟩, .plain .identifier "a" ⟨3, 1, 4⟩, .plain .colon ":" ⟨4, 1, 5⟩,
   .plain .indent [] ⟨8, 2, 3⟩, .plain .identifier "x" ⟨8, 2, 3⟩, .plain .assign "=" ⟨10, 2, 5⟩]

/-- The marker that closes the block where it breaks off. -/
def brokenEnd : Token :=
  .plain .dedent [] ⟨11, 2, 6⟩

theorem tokenize_broken : tokenize .standard (Text.ofString brokenSource) =
    .ok (brokenTokens ++ [brokenEnd, .eofAt ⟨11, 2, 6⟩]) :=
  tokenize_of_steps 40 (by decide +kernel) (by decide +kernel)

theorem parse_broken : parse .standard (Text.ofString brokenSource) =
    .error (.grammar (.wrongStart brokenEnd "factor")) :=
  parse_eq_grammar.mpr ⟨_, tokenize_broken, by decide +kernel⟩

/-- The statement of the mended source. -/
def mendedProgram : Program :=
  [.ifThen (.leaf (.plain .identifier "a" ⟨3, 1, 4⟩))
    [.assign (.plain .identifier "x" ⟨8, 2, 3⟩) (.leaf ⟨.number, "1", 1, ⟨14, 3, 3⟩⟩)]]

theorem tokenize_mended : tokenize .standard (Text.ofString mendedSource) =
    .ok (brokenTokens ++
      [⟨.number, "1", 1, ⟨14, 3, 3⟩⟩, .plain .dedent [] ⟨15, 3, 4⟩, .eofAt ⟨15, 3, 4⟩]) :=
  tokenize_of_steps 40 (by decide +kernel) (by decide +kernel)

theorem parse_mended :
    parse .standard (Text.ofString brokenSource ++ Text.newline :: Text.ofString missingLine) =
      .ok mendedProgram := by
  rw [← mended_eq]
  exact parse_eq_ok.mpr ⟨_, tokenize_mended, by decide +kernel⟩

/-- **A source that can be mended and is not incomplete.** -/
theorem parse_incomplete_missed :
    parse .standard (Text.ofString brokenSource) =
        .error (.grammar (.wrongStart brokenEnd "factor")) ∧
      parse .standard (Text.ofString brokenSource ++ Text.newline :: Text.ofString missingLine) =
        .ok mendedProgram ∧
      (SourceError.grammar (.wrongStart brokenEnd "factor")).isIncomplete = false :=
  ⟨parse_broken, parse_mended, rfl⟩

/-- The block of that source is open at its end. -/
theorem parse_incomplete_broken :
    parse .standard (Text.ofString brokenSource) =
        .error (.grammar (.wrongStart brokenEnd "factor")) ∧
      parse .standard (Text.ofString brokenSource ++ Text.newline :: Text.ofString missingLine) =
        .ok mendedProgram ∧
      ((SourceError.grammar (.wrongStart brokenEnd "factor")).isIncomplete = true ↔
        ¬ OpenAtEnd .standard (Text.ofString brokenSource)) ∧
      (OpenAtEnd .standard (Text.ofString brokenSource) → brokenEnd.kind = .dedent) :=
  ⟨parse_broken, parse_mended, parse_incomplete_iff parse_broken parse_mended⟩

end Offside
