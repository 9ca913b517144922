import Offside.Proofs.Editing.Comment
import Offside.Proofs.Lexer.Leftmost
import Offside.Proofs.Lexer.Width

/-!
# Tabs of an indentation

The block mechanism of the specification (4.1.1): a tab advances the width to the next multiple of
the tab width. So blanks can be written in its place.

A tab in the white space at the beginning of a line stands for the blanks up to the next tab stop.
If these blanks are written instead, the line keeps its width, whatever the tab width is then. The
rest of the text is not touched, so every lexeme keeps its line, and only columns and offsets
change.

* `Text.untabbed` is the text without tabs in the indentations of its lines; `expand` is some white
  space and `untab` a line.
* `Measured` says that the indentation of every line is narrow enough to be measured
  (`Proofs/Lexer/Width`).
* `Spaced` are runes with blanks in place of some tabs, and `Alongside` two lexers side by side,
  each in its own source. The relation has to know both sources, as it is the widths of their lines
  that agree.

Results:
* `columnsOver_expand`: white space has as many columns as the blanks that it stands for.
* `Text.lines_untabbed`: the lines of a text without tabs in its indentations.
* `lineWidth_untabbed`: each line keeps its width, for every tab width.
* `simulation_spaced`: two lexers, one of which finds blanks where the other one finds a tab.
* `tokenize_of_widths`: the tokens of a source depend on the tab width only through the widths of
  its lines.
* `tokenize_untabbed`: the tokens of a source and those without tabs in its indentations.
-/

namespace Offside

open Lexer (columnsAfter columnsOver)

/-! ## White space without tabs -/

namespace Rune

/-- Some white space behind a number of columns, with the blanks up to the next tab stop in place of
each tab. -/
def expand (tab : TabWidth) (columns : Nat) : List Rune → List Rune
  | [] => []
  | r :: rs =>
    if r.is '\t' then
      List.replicate (tab.size - columns % tab.size) (.char ' ') ++
        expand tab (columnsAfter tab columns r) rs
    else r :: expand tab (columnsAfter tab columns r) rs

/-- A line without tabs in its indentation. -/
def untab (tab : TabWidth) (line : List Rune) : List Rune :=
  expand tab 0 (line.takeWhile isSpace) ++ line.dropWhile isSpace

end Rune

/-- The text without tabs in the indentations of its lines. -/
def Text.untabbed (tab : TabWidth) (t : Text) : Text :=
  join [newline] (t.lines.map fun line => Rune.encode (Rune.untab tab (Rune.decode line)))

namespace Rune

variable {tab : TabWidth} {rs : List Rune} {columns : Nat}

theorem expand_tab (tab : TabWidth) (columns : Nat) (rs : List Rune) :
    expand tab columns (.char '\t' :: rs) =
      List.replicate (tab.size - columns % tab.size) (.char ' ') ++
        expand tab (columns + (tab.size - columns % tab.size)) rs := rfl

theorem expand_keep {r : Rune} (h : r ≠ .char '\t') (tab : TabWidth) (columns : Nat)
    (rs : List Rune) :
    expand tab columns (r :: rs) = r :: expand tab (columnsAfter tab columns r) rs := by
  rw [expand, if_neg (by simpa [is] using h)]

/-- What holds of blanks and of all runes but the tabs holds of the white space without tabs. -/
theorem forall_expand {P : Rune → Prop} (hblank : P (.char ' ')) (h : ∀ r ∈ rs, P r) :
    ∀ r ∈ expand tab columns rs, P r := by
  induction rs generalizing columns with
  | nil => exact List.forall_mem_nil _
  | cons r rs ih =>
    obtain ⟨hr, hrs⟩ := List.forall_mem_cons.mp h
    by_cases htab : r = .char '\t'
    · rw [htab, expand_tab, List.forall_mem_append]
      exact ⟨fun a ha => List.eq_of_mem_replicate ha ▸ hblank, ih hrs⟩
    · rw [expand_keep htab]
      exact List.forall_mem_cons.mpr ⟨hr, ih hrs⟩

theorem takeWhile_dropWhile (p : Rune → Bool) (rs : List Rune) :
    (rs.dropWhile p).takeWhile p = [] := by
  induction rs with
  | nil => rfl
  | cons r rs ih =>
    cases hr : p r with
    | true => rw [List.dropWhile_cons_of_pos hr, ih]
    | false =>
      rw [List.dropWhile_cons_of_neg (by simp [hr]),
        List.takeWhile_cons_of_neg (by simp [hr])]

theorem takeWhile_untab (tab : TabWidth) (line : List Rune) :
    (untab tab line).takeWhile isSpace = expand tab 0 (line.takeWhile isSpace) := by
  have hspace : ∀ r ∈ expand tab 0 (line.takeWhile isSpace), r.isSpace = true :=
    forall_expand (by decide) fun r hr => List.mem_takeWhile_imp hr
  rw [untab, List.takeWhile_append_of_pos hspace, takeWhile_dropWhile, List.append_nil]

/-- Space characters are characters. -/
theorem decode_encode_spaces {lead : List Rune} (h : ∀ r ∈ lead, r.isSpace = true)
    (rs : List Rune) :
    decode (encode (lead ++ rs)) = lead ++ decode (encode rs) := by
  induction lead with
  | nil => rfl
  | cons r lead ih =>
    obtain ⟨hr, hlead⟩ := List.forall_mem_cons.mp h
    cases r with
    | char c =>
      rw [List.cons_append, encode_cons, bytes, decode_char_append, ih hlead, List.cons_append]
    | stray b => exact absurd hr (show ¬ Text.isSpaceCode 0xFFFD = true by decide)

/-- The runes of a line without tabs in its indentation. -/
theorem decode_untab (tab : TabWidth) (line : Text) :
    decode (encode (untab tab (decode line))) = untab tab (decode line) := by
  have hsplit : decode line = (decode line).takeWhile isSpace ++ (decode line).dropWhile isSpace :=
    List.takeWhile_append_dropWhile.symm
  rw [untab, decode_encode_spaces (forall_expand (by decide) fun r hr => List.mem_takeWhile_imp hr),
    (decode_encode_of_append hsplit).2]

end Rune

namespace Text

/-- No line feed comes in. -/
theorem newline_not_mem_untab (tab : TabWidth) {l : Text} (h : newline ∉ l) :
    newline ∉ Rune.encode (Rune.untab tab (Rune.decode l)) := by
  have hline := Rune.not_newline_of_line h
  have hnone : ∀ r ∈ Rune.untab tab (Rune.decode l), r.isNewline = false := by
    rw [Rune.untab, List.forall_mem_append]
    exact ⟨Rune.forall_expand rfl fun r hr => hline r (List.takeWhile_subset _ hr),
      fun r hr => hline r (List.dropWhile_subset _ hr)⟩
  rw [← List.count_eq_zero, count_newline, Rune.decode_untab]
  exact List.countP_eq_zero.mpr fun r hr => by simp [hnone r hr]

theorem untabbed_of_not_mem (tab : TabWidth) {l : Text} (h : newline ∉ l) :
    l.untabbed tab = Rune.encode (Rune.untab tab (Rune.decode l)) :=
  join_map_lines_of_not_mem _ h

theorem untabbed_append (tab : TabWidth) {l : Text} (h : newline ∉ l) (rest : Text) :
    (l ++ newline :: rest).untabbed tab =
      Rune.encode (Rune.untab tab (Rune.decode l)) ++ newline :: rest.untabbed tab :=
  join_map_lines_append _ h rest

/-- **The lines of a text without tabs in its indentations.** -/
theorem lines_untabbed (tab : TabWidth) (t : Text) :
    (t.untabbed tab).lines =
      t.lines.map fun line => Rune.encode (Rune.untab tab (Rune.decode line)) := by
  refine List.splitOn_intercalate newline (fun l hl => ?_)
    (mt List.map_eq_nil_iff.mp (List.splitOn_ne_nil newline t))
  obtain ⟨line, hline, rfl⟩ := List.mem_map.mp hl
  exact newline_not_mem_untab tab (newline_not_mem_of_mem_lines hline)

end Text

namespace Lexer

/-! ## Widths -/

variable {tab tab' : TabWidth}

theorem foldl_blanks (tab : TabWidth) (columns n : Nat) :
    (List.replicate n (.char ' ')).foldl (columnsAfter tab) columns = columns + n := by
  induction n generalizing columns with
  | zero => rfl
  | succ n ih =>
    rw [List.replicate_succ, List.foldl_cons, ih, columnsAfter_blank, Nat.add_assoc, Nat.add_comm 1]

/-- A rune that is no tab takes the same columns for every tab width. -/
theorem columnsAfter_keep {r : Rune} (h : r ≠ .char '\t') (tab tab' : TabWidth) (columns : Nat) :
    columnsAfter tab' columns r = columnsAfter tab columns r := by
  have hr : r.is '\t' = false := by simpa [Rune.is] using h
  simp only [columnsAfter, hr, Bool.false_eq_true, if_false]

theorem foldl_expand (tab tab' : TabWidth) (columns : Nat) (rs : List Rune) :
    (Rune.expand tab columns rs).foldl (columnsAfter tab') columns =
      rs.foldl (columnsAfter tab) columns := by
  induction rs generalizing columns with
  | nil => rw [Rune.expand, List.foldl_nil, List.foldl_nil]
  | cons r rs ih =>
    by_cases htab : r = .char '\t'
    · subst htab
      rw [List.foldl_cons, columnsAfter_tab, Rune.expand_tab, List.foldl_append, foldl_blanks, ih]
    · rw [Rune.expand_keep htab, List.foldl_cons, List.foldl_cons,
        columnsAfter_keep htab tab tab', ih]

/-- **White space has as many columns as the blanks that it stands for**, for every tab width. -/
theorem columnsOver_expand (tab tab' : TabWidth) (rs : List Rune) :
    columnsOver tab' (Rune.expand tab 0 rs) = columnsOver tab rs :=
  foldl_expand tab tab' 0 rs

theorem widthOf_expand (tab' : TabWidth) {rs : List Rune} (hline : ∀ r ∈ rs, r.isNewline = false)
    (h : columnsOver tab rs ≤ Word.greatest) :
    widthOf tab' (Rune.expand tab 0 rs) = widthOf tab rs := by
  have hcolumns := columnsOver_expand tab tab' rs
  apply Int64.toInt_inj.mp
  rw [widthOf_toInt hline h, widthOf_toInt (Rune.forall_expand rfl hline) (hcolumns ▸ h), hcolumns]

theorem lineAt_nil (n : Nat) : lineAt n [] = [] := by
  induction n with
  | zero => rfl
  | succ n ih => exact ih

/-- The runes of a line of a text. -/
theorem lineAt_decode (t : Text) (n : Nat) :
    lineAt n (Rune.decode t) = (t.lines[n]?).elim [] Rune.decode := by
  induction t using Text.lineInduction generalizing n with
  | last l hl =>
    rw [Text.lines_of_not_mem hl]
    cases n with
    | zero => exact List.takeWhile_eq_self_iff.mpr (Rune.forall_line hl)
    | succ n =>
      rw [lineAt, List.dropWhile_eq_nil_iff.mpr (Rune.forall_line hl), List.drop_nil, lineAt_nil]
      rfl
  | more l rest hl ih =>
    rw [Text.lines_append hl, Rune.decode_append_newline]
    cases n with
    | zero =>
      rw [lineAt, List.takeWhile_append_of_pos (Rune.forall_line hl),
        List.takeWhile_cons_of_neg (by decide), List.append_nil]
      rfl
    | succ n =>
      rw [lineAt, List.dropWhile_append_of_pos (Rune.forall_line hl),
        List.dropWhile_cons_of_neg (by decide), List.drop_one, List.tail_cons, ih,
        List.getElem?_cons_succ]

/-- The indentation of every line is narrow enough to be measured. -/
def Measured (tab : TabWidth) (src : Text) : Prop :=
  ∀ line ∈ src.lines,
    columnsOver tab ((Rune.decode line).takeWhile Rune.isSpace) ≤ Word.greatest

/-- **Each line keeps its width**, for every tab width. -/
theorem lineWidth_untabbed {src : Text} (h : Measured tab src) (tab' : TabWidth) (line : Int) :
    lineWidth tab' (src.untabbed tab) line = lineWidth tab src line := by
  rw [lineWidth, lineWidth, lineAt_decode, lineAt_decode, Text.lines_untabbed, List.getElem?_map]
  cases hl : src.lines[(line - 1).toNat]? with
  | none => rfl
  | some l =>
    have hmem := List.mem_of_getElem? hl
    have hline := Rune.not_newline_of_line (Text.newline_not_mem_of_mem_lines hmem)
    simp only [Option.map_some, Option.elim_some, Rune.decode_untab, Rune.takeWhile_untab]
    exact widthOf_expand tab' (fun r hr => hline r (List.takeWhile_subset _ hr)) (h l hmem)

/-! ## Blanks in place of tabs -/

/-- **Some runes with blanks in place of some tabs**, at least one for each. -/
inductive Spaced : List Rune → List Rune → Prop where
  | nil : Spaced [] []
  | keep (r : Rune) {rs rs' : List Rune} (more : Spaced rs rs') : Spaced (r :: rs) (r :: rs')
  | tab (n : Nat) {rs rs' : List Rune} (more : Spaced rs rs') :
      Spaced (.char '\t' :: rs) (List.replicate (n + 1) (.char ' ') ++ rs')

namespace Spaced

variable {rs rs' ss ss' behind word : List Rune} {r : Rune}

theorem refl (rs : List Rune) : Spaced rs rs := by
  induction rs with
  | nil => exact .nil
  | cons r rs ih => exact .keep r ih

theorem append (h : Spaced rs rs') (h' : Spaced ss ss') : Spaced (rs ++ ss) (rs' ++ ss') := by
  induction h with
  | nil => exact h'
  | keep r _ ih => exact .keep r ih
  | tab n _ ih =>
    rw [List.append_assoc]
    exact .tab n ih

/-- The tabs of white space are replaced by the blanks that they stand for. -/
theorem expand (tab : TabWidth) (columns : Nat) (rs : List Rune) :
    Spaced rs (Rune.expand tab columns rs) := by
  induction rs generalizing columns with
  | nil => exact .nil
  | cons r rs ih =>
    by_cases htab : r = .char '\t'
    · have hmod := Nat.mod_lt columns tab.size_pos
      have hn : tab.size - columns % tab.size = tab.size - columns % tab.size - 1 + 1 := by omega
      rw [htab, Rune.expand_tab, hn]
      exact .tab _ (ih _)
    · rw [Rune.expand_keep htab]
      exact .keep r (ih _)

theorem untab (tab : TabWidth) (line : List Rune) : Spaced line (Rune.untab tab line) := by
  have h := (expand tab 0 (line.takeWhile Rune.isSpace)).append (refl (line.dropWhile Rune.isSpace))
  rwa [List.takeWhile_append_dropWhile] at h

/-- The runes of a text without tabs in its indentations. -/
theorem untabbed (tab : TabWidth) (t : Text) :
    Spaced (Rune.decode t) (Rune.decode (t.untabbed tab)) := by
  induction t using Text.lineInduction with
  | last l hl =>
    rw [Text.untabbed_of_not_mem tab hl, Rune.decode_untab]
    exact untab tab _
  | more l rest hl ih =>
    rw [Text.untabbed_append tab hl, Rune.decode_append_newline, Rune.decode_append_newline,
      Rune.decode_untab]
    exact (untab tab _).append (.keep _ ih)

/-- In front of a rune that is no tab, both have this rune. -/
theorem of_cons (h : Spaced (r :: rs) ss) (hr : r ≠ .char '\t') :
    ∃ rs', ss = r :: rs' ∧ Spaced rs rs' := by
  cases h with
  | keep _ more => exact ⟨_, rfl, more⟩
  | tab n _ => exact absurd rfl hr

/-- Both have the solid runes of a lexeme. -/
theorem of_append (h : Spaced (word ++ behind) ss) (hword : ∀ r ∈ word, Solid r) :
    ∃ behind', ss = word ++ behind' ∧ Spaced behind behind' := by
  induction word generalizing ss with
  | nil => exact ⟨ss, rfl, h⟩
  | cons r word ih =>
    obtain ⟨hr, hword⟩ := List.forall_mem_cons.mp hword
    obtain ⟨rs', rfl, hrest⟩ := h.of_cons (by rintro rfl; exact absurd hr (by decide))
    obtain ⟨behind', rfl, hbehind⟩ := ih hrest hword
    exact ⟨behind', rfl, hbehind⟩

theorem apart (h : Spaced rs rs') (hrs : Apart rs) : Apart rs' := by
  cases h with
  | nil => exact hrs
  | keep r more => exact fun a ha => hrs a ha
  | tab n more =>
    intro a ha hsolid
    rw [List.replicate_succ, List.cons_append, List.head?_cons, Option.mem_some_iff] at ha
    exact absurd (ha ▸ hsolid) (by decide)

/-- Blanks and tabs are part of every gap, also in a comment. -/
theorem splitGap_blanks {blanks : List Rune} (h : ∀ r ∈ blanks, r.IsBlank)
    (acrossLines inComment : Bool) (rs : List Rune) :
    Lexer.splitGap acrossLines inComment (blanks ++ rs) =
      (blanks ++ (Lexer.splitGap acrossLines inComment rs).1,
        (Lexer.splitGap acrossLines inComment rs).2) := by
  induction blanks with
  | nil => rfl
  | cons r blanks ih =>
    obtain ⟨hr, hblanks⟩ := List.forall_mem_cons.mp h
    have hclass : r.isNewline = false ∧ r.is '#' = false ∧ r.isSpace = true := by
      rcases hr with rfl | rfl <;> decide
    rw [List.cons_append, Lexer.splitGap, hclass.1, hclass.2.1, hclass.2.2]
    cases inComment <;> simp [ih hblanks]

/-- **The gaps have as many lines, and the same comes behind them.** -/
theorem splitGap (h : Spaced rs rs') (acrossLines inComment : Bool) :
    (Lexer.splitGap acrossLines inComment rs').1.countP Rune.isNewline =
        (Lexer.splitGap acrossLines inComment rs).1.countP Rune.isNewline ∧
      Spaced (Lexer.splitGap acrossLines inComment rs).2
        (Lexer.splitGap acrossLines inComment rs').2 := by
  induction h generalizing inComment with
  | nil => exact ⟨rfl, .nil⟩
  | @keep r rs rs' more ih =>
    rw [Lexer.splitGap, Lexer.splitGap]
    cases hn : r.isNewline with
    | true =>
      cases acrossLines with
      | true =>
        simp only [if_true, List.countP_cons, (ih false).1]
        exact ⟨trivial, (ih false).2⟩
      | false => exact ⟨rfl, .keep r more⟩
    | false =>
      simp only [Bool.false_eq_true, if_false]
      split
      · simp only [List.countP_cons, (ih true).1]
        exact ⟨trivial, (ih true).2⟩
      · split
        · simp only [List.countP_cons, (ih false).1]
          exact ⟨trivial, (ih false).2⟩
        · exact ⟨rfl, .keep r more⟩
  | @tab n rs rs' more ih =>
    have htab : ∀ r ∈ [Rune.char '\t'], r.IsBlank := by decide
    have hblanks : ∀ r ∈ List.replicate (n + 1) (Rune.char ' '), r.IsBlank :=
      fun r hr => Or.inl (List.eq_of_mem_replicate hr)
    have hnone {blanks : List Rune} (h : ∀ r ∈ blanks, r.IsBlank) :
        blanks.countP Rune.isNewline = 0 :=
      List.countP_eq_zero.mpr fun r hr => by simp [isNewline_of_isBlank (h r hr)]
    rw [← List.singleton_append, splitGap_blanks htab, splitGap_blanks hblanks, List.countP_append,
      List.countP_append, hnone htab, hnone hblanks, (ih inComment).1]
    exact ⟨rfl, (ih inComment).2⟩

end Spaced

/-! ## Lexers side by side -/

/-- Behind as many line feeds, two positions are on the same line again. -/
theorem SameLine.afterAll {p q : Position} (h : SameLine p q) {rs rs' : List Rune}
    (hrs : rs'.countP Rune.isNewline = rs.countP Rune.isNewline) :
    SameLine (p.afterAll rs) (q.afterAll rs') := by
  rw [SameLine, afterAll_line, afterAll_line, hrs, show q.line = p.line from h]

/-- Reading a lexeme. -/
theorem Scan.Stands.behind {src : Text} {s : Scan} (h : s.Stands src) {lexeme after : List Rune}
    (hr : s.rest = lexeme ++ after) (levels : List Int64) (depth : Nat) :
    Scan.Stands src ⟨false, after, s.next.afterAll lexeme, levels, depth⟩ := by
  have hin : s.input = (s.gap ++ lexeme) ++ after := by
    rw [← s.gap_append_rest, hr, List.append_assoc]
  have hmove := h.move hin levels depth
  rwa [Position.afterAll_append] at hmove

/-- **Two lexers side by side**, each in its source, one of which finds blanks where the other one
finds a tab. -/
structure Alongside (src src' : Text) (s s' : Scan) : Prop where
  fresh : s'.fresh = s.fresh
  input : Spaced s.input s'.input
  line : SameLine s.pos s'.pos
  levels : s'.levels = s.levels
  depth : s'.depth = s.depth
  stands : s.Stands src
  stands' : s'.Stands src'

section Alongside

variable {src src' : Text} {s s' : Scan}

theorem Alongside.next (h : Alongside src src' s s') :
    SameLine s.next s'.next ∧ Spaced s.rest s'.rest := by
  obtain ⟨hlines, hrest⟩ := h.input.splitGap (s.fresh || decide (0 < s.depth)) false
  rw [Scan.next, Scan.next, Scan.gap, Scan.gap, Scan.rest, Scan.rest, h.fresh, h.depth]
  exact ⟨h.line.afterAll hlines, hrest⟩

/-- **Lexers side by side find the same** if the lines of their sources have the same widths. -/
theorem simulation_spaced (hw : ∀ line, lineWidth tab' src' line = lineWidth tab src line) :
    Simulation tab tab' SameLine SameLine (Alongside src src') where
  fresh := Alongside.fresh
  levels := Alongside.levels
  finish := by
    intro s s' h hr
    obtain ⟨hline, hrest⟩ := h.next
    rw [hr] at hrest
    generalize s'.rest = rest' at hrest
    cases hrest
    exact ⟨rfl, hline⟩
  newline := by
    intro s s' r rest h hf hr hn
    obtain ⟨hline, hrest⟩ := h.next
    obtain ⟨rest', hr', hmore⟩ := (hr ▸ hrest).of_cons (by rintro rfl; exact absurd hn (by decide))
    have hd := Scan.depth_of_newline hf hr hn
    have hbehind : SameLine (s.next.afterAll [r]) (s'.next.afterAll [r]) := hline.afterAll rfl
    exact ⟨rest', hr', rfl, hmore, hbehind, h.levels, h.depth,
      h.stands.newline hr hn hd, h.stands'.newline hr' hn (h.depth.trans hd)⟩
  line := by
    intro s s' r rest h hf hr
    obtain ⟨hline, hrest⟩ := h.next
    have hsolid := Scan.solid_of_fresh hf hr
    obtain ⟨rest', hr', hmore⟩ :=
      (hr ▸ hrest).of_cons (by rintro rfl; exact absurd hsolid (by decide))
    refine ⟨?_, hline, rest', hr', fun levels => ⟨rfl, .keep r hmore, hline, rfl, h.depth, ?_, ?_⟩⟩
    · rw [h.stands'.width (h.fresh.trans hf) hr', h.stands.width hf hr, hline, hw]
    · exact h.stands.move (by rw [← hr, s.gap_append_rest]) levels s.depth
    · exact h.stands'.move (by rw [← hr', s'.gap_append_rest]) levels s'.depth
  lexeme := by
    intro s s' r rest h hf hr hn
    obtain ⟨hline, hrest⟩ := h.next
    have hsolid : Solid r := solid_behind_gap hr (Or.inr hn)
    obtain ⟨word, behind, rfl, hword, hbehind⟩ := exists_apart rest
    rw [hr, ← List.cons_append] at hrest
    obtain ⟨behind', hr', hmore⟩ := hrest.of_append (List.forall_mem_cons.mpr ⟨hsolid, hword⟩)
    refine ⟨hline, word, behind, behind', rfl, hr', hbehind, hmore.apart hbehind, ?_⟩
    intro t lexeme left hread
    have happ := (readLexeme_spec hread).1
    refine ⟨rfl, (Spaced.refl left).append hmore, hline.afterAll rfl, h.levels, by rw [h.depth],
      h.stands.behind ?_ _ _, h.stands'.behind ?_ _ _⟩
    · rw [← List.append_assoc, happ, hr, List.cons_append]
    · rw [← List.append_assoc, happ, hr', List.cons_append]

/-- **A course depends on the tab width only through the widths of the lines.** -/
theorem Course.of_widths {ts : List Token} {e : Option LexicalError} (h : Course tab s ts e)
    (hs : s.Stands src) (hw : ∀ line, lineWidth tab' src line = lineWidth tab src line) :
    Course tab' s ts e := by
  have hgap {s : Scan} {r : Rune} {rest : List Rune} (hs : s.Stands src) (hf : s.fresh = true)
      (hr : s.rest = r :: rest) : widthOf tab' s.gap = widthOf tab s.gap := by
    rw [hs.width hf hr, hs.width hf hr, hw]
  induction h with
  | finish hr => exact .finish hr
  | newline hf hr hn _ ih =>
    exact .newline hf hr hn (ih (hs.newline hr hn (Scan.depth_of_newline hf hr hn)))
  | @line s r rest kinds levels ts e hf hr ha _ ih =>
    exact .line hf hr (hgap hs hf hr ▸ ha) (ih (hs.move (by rw [← hr, s.gap_append_rest]) _ _))
  | lost hf hr ha => exact .lost hf hr (hgap hs hf hr ▸ ha)
  | lexeme hf hr hn hread _ ih =>
    exact .lexeme hf hr hn hread (ih (hs.behind (by rw [hr, (readLexeme_spec hread).1]) _ _))
  | fault hf hr hn hread => exact .fault hf hr hn hread

end Alongside

/-- The tokens of a source depend on the tab width only through the widths of its lines. -/
theorem tokenize_of_widths {src : Text}
    (hw : ∀ line, lineWidth tab' src line = lineWidth tab src line) :
    tokenize tab' src = tokenize tab src := by
  obtain ⟨ts, e, hc, -, htok⟩ := course_source tab src
  obtain ⟨ts', e', hc', -, htok'⟩ := course_source tab' src
  obtain ⟨rfl, rfl⟩ := (hc.of_widths (Scan.stands_ofSource src) hw).unique hc'
  rw [htok, htok']

end Lexer

open Lexer

/-- **A tab of an indentation stands for blanks.** In a source whose indentations are narrow enough
to be measured, let the blanks up to the next tab stop be written in place of each tab in the white
space at the beginning of a line. Then the same tokens are found on the same lines, or the same
fault; and without tabs in its indentations, the source has the same tokens for every tab width. -/
theorem tokenize_untabbed (tab : TabWidth) (src : Text) (h : Measured tab src) :
    ((tokenize tab (src.untabbed tab)).map (List.map (Token.relocate .onLine))).mapError
        (LexicalError.relocate .onLine) =
      ((tokenize tab src).map (List.map (Token.relocate .onLine))).mapError
        (LexicalError.relocate .onLine) ∧
    ∀ tab', tokenize tab' (src.untabbed tab) = tokenize tab (src.untabbed tab) := by
  have hline : ∀ p q, SameLine p q → q.onLine = p.onLine := by
    intro p q h
    rw [Position.onLine, Position.onLine, show q.line = p.line from h]
  have hstart : Alongside src (src.untabbed tab) (.ofSource src) (.ofSource (src.untabbed tab)) :=
    ⟨rfl, .untabbed tab src, rfl, rfl, rfl, Scan.stands_ofSource _, Scan.stands_ofSource _⟩
  have hfound := (simulation_spaced (lineWidth_untabbed h tab)).tokenize hstart
  refine ⟨hfound.relocate_eq (fun _ _ h => h) hline, fun tab' => tokenize_of_widths fun line => ?_⟩
  rw [lineWidth_untabbed h tab', lineWidth_untabbed h tab]

/-- Two lines of the same width, a blank and a tab in front of one and a tab in front of the other,
a comment that is indented by tabs, and a tab within a line. -/
def tabbedSource : String := "if a:\n \tx = 1\n\t\t# tabs\n\ty =\t2\n"

/-- The source with blanks in place of the tabs of its indentations. -/
def blankSource : String :=
  "if a:\n        x = 1\n                # tabs\n        y =\t2\n"

/-- The tabs of a source are replaced, and it is read alike. -/
theorem tokenize_untabbed_mixed :
    Measured .standard (Text.ofString tabbedSource) ∧
      (Text.ofString tabbedSource).untabbed .standard = Text.ofString blankSource ∧
      ((tokenize .standard (Text.ofString blankSource)).map
          (List.map (Token.relocate .onLine))).mapError (LexicalError.relocate .onLine) =
        ((tokenize .standard (Text.ofString tabbedSource)).map
          (List.map (Token.relocate .onLine))).mapError (LexicalError.relocate .onLine) ∧
      ∀ tab', tokenize tab' (Text.ofString blankSource) =
        tokenize .standard (Text.ofString blankSource) := by
  have hmeasured : Measured .standard (Text.ofString tabbedSource) := by
    unfold Measured
    decide +kernel
  have huntabbed : (Text.ofString tabbedSource).untabbed .standard = Text.ofString blankSource := by
    decide +kernel
  obtain ⟨hsame, hall⟩ := tokenize_untabbed .standard _ hmeasured
  rw [huntabbed] at hsame hall
  exact ⟨hmeasured, huntabbed, hsame, hall⟩

end Offside
