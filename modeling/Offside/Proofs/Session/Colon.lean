import Offside.Proofs.Lexer.Last
import Offside.Proofs.Session.Command

/-!
# Lines that end in a colon

The help text of the command `repl` says that a line ending in a colon opens a block, and the
buffer's `add` looks at the last character of the line. To the language, the colon that matters is a
token. Here is how the two are related.

A session takes a line for the first one of a block if the line ends in a colon. To the lexer a line
ends with its last lexeme, as what stands behind it is a gap, to which a comment belongs. So the two
see the same end of a line without a comment, and of another line the lexer sees the end in front of
the comment.

* `Buffer.before` is the text in front of the next line: the lines so far, each with a line feed.

Results:
* `Buffer.decode_text_add`: the runes of the text that a line is added to.
* `last_colon_iff`: the last token of a line is a colon if and only if the line ends in a colon
  without its comment.
* `opensBlock_iff_colon`: the lines that open a block, and those whose last token is a colon; the
  two are the same for every line without a number sign.
* `opensBlock_noted`: a line whose comment ends in a colon opens a block.
-/

namespace Offside

open Lexer

/-! ## The line that is added to a buffer -/

/-- The text of a line without a number sign has no comment. -/
theorem Text.withoutComments_of_no_sign {t : Text} (h : numberSign ∉ t) :
    t.withoutComments = t := by
  have htake {l : Text} (hl : numberSign ∉ l) : l.takeWhile (· != numberSign) = l := by
    rw [List.takeWhile_eq_self_iff]
    intro b hb
    rw [bne_iff_ne]
    exact fun he => hl (he ▸ hb)
  induction t using lineInduction with
  | last l hl => rw [withoutComments_of_not_mem hl, htake h]
  | more l rest hl ih =>
    rw [List.mem_append, List.mem_cons, not_or, not_or] at h
    rw [withoutComments_append hl, htake h.1, ih h.2.2]

namespace Buffer

/-- The text in front of the next line. -/
def before (b : Buffer) : Text :=
  Text.join "\n" (b.lines ++ [[]])

theorem before_cases (b : Buffer) :
    b.before = [] ∧ (∀ line, Text.join "\n" (b.lines ++ [line]) = line) ∨
      ∃ text, b.before = text ++ [Text.newline] ∧
        ∀ line, Text.join "\n" (b.lines ++ [line]) = text ++ Text.newline :: line := by
  unfold before
  cases hl : b.lines with
  | nil => exact Or.inl ⟨Session.join_singleton [], fun line => Session.join_singleton line⟩
  | cons l lines =>
    exact Or.inr ⟨_, Session.join_concat (by simp) [],
      fun line => Session.join_concat (by simp) line⟩

theorem decode_text_add (b : Buffer) (tab : TabWidth) (line : Text) (hb : b.block = false) :
    Rune.decode (b.add tab line).2.text = Rune.decode b.before ++ Rune.decode line ∧
      Rune.ClosesComments (Rune.decode b.before) := by
  rw [text, add_lines tab line hb]
  rcases b.before_cases with ⟨hbefore, htext⟩ | ⟨text, hbefore, htext⟩
  · rw [htext, hbefore, Rune.decode_nil]
    exact ⟨rfl, .nil⟩
  · rw [htext, hbefore, Rune.decode_append_newline, Rune.decode_append_newline, Rune.decode_nil,
      List.append_assoc, List.singleton_append]
    exact ⟨rfl, .newline _⟩

theorem add_opens (b : Buffer) (tab : TabWidth) (line : Text) (hb : b.block = false) :
    (b.add tab line).2.block = opensBlock line := by
  unfold add
  rw [if_neg (by simp [hb])]
  dsimp only
  split
  · next ho => exact ho.symm
  · next ho => exact (Bool.eq_false_iff.mpr ho).symm

end Buffer

/-- **The last token of a line is a colon** if and only if the line ends in a colon without its
comment. -/
theorem last_colon_iff {tab : TabWidth} {b : Buffer} {line : Text} {ts : List Token}
    (hb : b.block = false) (ht : tokenize tab (b.add tab line).2.text = .ok ts)
    (hline : ∃ t ∈ bodyOf ts, (b.before.length : Int) ≤ t.pos.offset) :
    (∃ t ∈ (bodyOf ts).getLast?, t.kind = .colon) ↔
      line.withoutComments.trim.endsWith ":" = true := by
  obtain ⟨hdecode, hcloses⟩ := b.decode_text_add tab line hb
  obtain ⟨u, hu, hreach⟩ := hline
  rcases (course_of_tokenize ht).last rfl with ⟨hnil, -⟩ | ⟨t, front, lexeme, back, hlast⟩
  · rw [hnil] at hu
    cases hu
  · have hplace := hreach.trans (offset_le_last ht hlast.isLast u hu)
    have hstart : (Scan.ofSource (b.add tab line).2.text).pos.offset +
        (Rune.encode (Rune.decode b.before)).length ≤ t.pos.offset := by
      rw [Rune.encode_decode]
      exact (Int.zero_add _).symm ▸ hplace
    have hinput : (Scan.ofSource (b.add tab line).2.text).input = _ := hdecode
    rw [hinput] at hlast
    obtain ⟨before, hrest⟩ := hlast.uncomment_line hcloses hstart
    obtain ⟨lexeme, r, rfl⟩ := (List.eq_nil_or_concat' lexeme).resolve_left hlast.ne_nil
    have hend : Rune.decode line.withoutComments =
        (before ++ lexeme) ++ r :: Rune.uncomment false back := by
      rw [Rune.decode_withoutComments, hrest]
      simp
    have hsolid : Solid r := hlast.solid r (List.mem_append_right _ (List.mem_singleton_self r))
    have htrim : line.withoutComments.trim.endsWith ":" = true ↔ r = .char ':' :=
      Text.trim_endsWith_iff rfl (by decide) hend hsolid.2.2 hlast.blank
    have hkind : t.kind = .colon ↔ r = .char ':' := by
      rw [hlast.colon_iff, List.getLast?_concat, Option.some.injEq]
    rw [hlast.isLast, htrim, ← hkind]
    exact ⟨fun ⟨u, hu, hk⟩ => Option.some.inj hu ▸ hk, fun hk => ⟨t, rfl, hk⟩⟩

/-- **Whether a line opens a block, and whether its last token is a colon.** A line that is added to
the lines of an input opens a block if and only if it ends in a colon, with its comment. If the line
has tokens, the last token in front of the closing ones is a colon if and only if the line ends in a
colon without its comment. So the two agree on lines without comments. -/
theorem opensBlock_iff_colon {tab : TabWidth} {b : Buffer} {line : Text} {ts : List Token}
    (hb : b.block = false) (ht : tokenize tab (b.add tab line).2.text = .ok ts)
    (hline : ∃ t ∈ bodyOf ts, (b.before.length : Int) ≤ t.pos.offset) :
    ((b.add tab line).2.block = true ↔ line.trim.endsWith ":" = true) ∧
      ((∃ t ∈ (bodyOf ts).getLast?, t.kind = .colon) ↔
        line.withoutComments.trim.endsWith ":" = true) ∧
      (Text.numberSign ∉ line →
        ((b.add tab line).2.block = true ↔ ∃ t ∈ (bodyOf ts).getLast?, t.kind = .colon)) := by
  have hopens : (b.add tab line).2.block = true ↔ line.trim.endsWith ":" = true := by
    rw [b.add_opens tab line hb, Buffer.opensBlock]
  have hcolon := last_colon_iff hb ht hline
  refine ⟨hopens, hcolon, fun hsign => ?_⟩
  rw [hopens, hcolon, Text.withoutComments_of_no_sign hsign]

/-! ## A line with a comment that ends in a colon, and a header on two lines -/

/-- An assignment with a comment. -/
def notedLine : Text := "x = 1 # note:"

/-- The tokens of the line. -/
def notedTokens : List Token :=
  [.plain .identifier "x" ⟨0, 1, 1⟩, .plain .assign "=" ⟨2, 1, 3⟩, ⟨.number, "1", 1, ⟨4, 1, 5⟩⟩,
   .eofAt ⟨13, 1, 14⟩]

/-- The line opens a block, and its last token is no colon. -/
theorem opensBlock_noted :
    Buffer.empty.block = false ∧
      tokenize .standard (Buffer.empty.add .standard notedLine).2.text = .ok notedTokens ∧
      (∃ t ∈ bodyOf notedTokens, (Buffer.empty.before.length : Int) ≤ t.pos.offset) ∧
      (Buffer.empty.add .standard notedLine).2.block = true ∧
      ¬ ∃ t ∈ (bodyOf notedTokens).getLast?, t.kind = .colon := by
  have htext : (Buffer.empty.add .standard notedLine).2.text = notedLine := by decide +kernel
  have htokens : tokenize .standard notedLine = .ok notedTokens :=
    tokenize_of_steps 40 (by decide +kernel) (by decide +kernel)
  refine ⟨rfl, by rw [htext]; exact htokens, ⟨_, List.mem_cons_self, by decide⟩,
    by decide +kernel, ?_⟩
  rintro ⟨t, ht, hk⟩
  obtain rfl := Option.some.inj ht
  cases hk

/-- A header whose condition goes on on the next line. -/
def openHeader : Buffer := ⟨["while (n"], false⟩

/-- The tokens of the header with its second line. -/
def headerTokens : List Token :=
  [.plain .whileWord "while" ⟨0, 1, 1⟩, .plain .openParen "(" ⟨6, 1, 7⟩,
   .plain .identifier "n" ⟨7, 1, 8⟩, .plain .greater ">" ⟨11, 2, 3⟩, ⟨.number, "0", 0, ⟨13, 2, 5⟩⟩,
   .plain .closeParen ")" ⟨14, 2, 6⟩, .plain .colon ":" ⟨15, 2, 7⟩, .eofAt ⟨17, 2, 9⟩]

/-- The second line opens the block of the header. -/
theorem opensBlock_header :
    openHeader.block = false ∧
      tokenize .standard (openHeader.add .standard "  > 0): ").2.text = .ok headerTokens ∧
      (∃ t ∈ bodyOf headerTokens, (openHeader.before.length : Int) ≤ t.pos.offset) ∧
      (openHeader.add .standard "  > 0): ").2.block = true ∧
      ∃ t ∈ (bodyOf headerTokens).getLast?, t.kind = .colon := by
  have htext : (openHeader.add .standard "  > 0): ").2.text = "while (n\n  > 0): " := by
    decide +kernel
  have htokens : tokenize .standard (openHeader.add .standard "  > 0): ").2.text =
      .ok headerTokens := by
    rw [htext]
    exact tokenize_of_steps 60 (by decide +kernel) (by decide +kernel)
  have hopens : (openHeader.add .standard "  > 0): ").2.block = true := by decide +kernel
  have hline : ∃ t ∈ bodyOf headerTokens, (openHeader.before.length : Int) ≤ t.pos.offset :=
    ⟨.plain .colon ":" ⟨15, 2, 7⟩, by decide, by decide +kernel⟩
  obtain ⟨-, -, hagree⟩ := opensBlock_iff_colon rfl htokens hline
  exact ⟨rfl, htokens, hline, hopens, (hagree (by decide)).mp hopens⟩

end Offside
