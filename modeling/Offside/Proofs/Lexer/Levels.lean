import Offside.Proofs.Lexer.Cut

/-!
# Levels and markers

The block mechanism of the specification (4.1.1): the indentation stack and the `INDENT` and
`DEDENT` markers.

The widths of the open indentations are a stack that grows from zero upwards. A line whose first
token stands outside parentheses is a *logical line*, and its width is compared with the stack; the
end of the source closes all levels. `laidOut` puts markers between tokens by this rule alone, from
the lines of the source and the lines of the tokens; it knows nothing of how a lexer walks over
gaps.

* `Reachable` has the states of a lexer that is set to a source and then asked to take steps or to
  deliver, in any order. `Rising` is what all of them preserve.
* `lineAt` and `lineWidth` are a line of a source and its width. `Scan.Stands` is the place of a
  lexer among the lines, and gives that the width it measures is the width of the line.
* `Paired` says that the tokens behind some open levels close these and all that they open
  themselves, and never more than are open.

Results:
* `Reachable.rising`: the stack of a lexer is strictly increasing at all times.
* `Scan.Stands.width`: the width that the lexer measures is the width of the line.
* `Course.laidOut`: the markers of a stream are those that the rule puts there, by induction on the
  course.
* `laidOut_balanced`: what the rule puts there is balanced: in front of every token at least as many
  levels were opened as closed, and in the end as many.
* `tokenize_laidOut`: all of this for the tokens of a source.

Out of scope: what the columns of a line are where a width wraps around (`Proofs/Lexer/Width`).
-/

namespace Offside

namespace Lexer

/-! ## The stack -/

/-- The indentation stack of a lexer, the outermost width first. -/
def stack (l : Lexer) : List Int64 :=
  0 :: l.levels.reverse

/-- The states of a lexer that is set to a source and then asked to take steps or to deliver. -/
inductive Reachable (tab : TabWidth) (src : Text) : Lexer → Prop where
  | start : Reachable tab src (ofSource tab src)
  | step {l : Lexer} (before : Reachable tab src l) : Reachable tab src l.step
  | next {l : Lexer} (before : Reachable tab src l) : Reachable tab src l.next.2

/-- Levels that grow from zero upwards, the innermost first. -/
def Rising (levels : List Int64) : Prop :=
  (levels ++ [0]).Pairwise (· > ·)

theorem rising_nil : Rising [] :=
  List.pairwise_singleton _ _

theorem Rising.drop {levels : List Int64} (h : Rising levels) (n : Nat) :
    Rising (levels.drop n) :=
  h.sublist ((List.drop_sublist n levels).append_right [0])

theorem Rising.cons {levels : List Int64} {width : Int64} (h : Rising levels)
    (hw : levels.headD 0 < width) : Rising (width :: levels) := by
  unfold Rising at h ⊢
  rw [List.cons_append, List.pairwise_cons]
  refine ⟨fun level hl => ?_, h⟩
  cases levels with
  | nil =>
    obtain rfl := List.mem_singleton.mp hl
    exact hw
  | cons top below =>
    rw [List.cons_append, List.pairwise_cons] at h
    rcases List.mem_cons.mp hl with rfl | hl
    · exact hw
    · exact Int64.lt_trans (h.1 level hl) hw

theorem Rising.adjust {levels levels' : List Int64} {width : Int64} {kinds : List Kind}
    (h : Rising levels) (ha : adjust levels width = some (kinds, levels')) : Rising levels' := by
  rcases adjust_cases ha with ⟨hw, -, rfl⟩ | ⟨n, -, -, rfl, -⟩
  · exact h.cons hw
  · exact h.drop n

/-- What a step does to the levels: it leaves them, adjusts them to a line, or closes them all. -/
theorem step_levels (l : Lexer) :
    l.step.levels = l.levels ∨ l.step.levels = [] ∨
      ∃ width kinds, adjust l.levels width = some (kinds, l.step.levels) := by
  cases hm : l.mode with
  | lineStart =>
    rw [step_lineStart hm]
    split
    · exact Or.inl rfl
    · rw [settle_eq]
      split
      · next ha => exact Or.inr (Or.inr ⟨_, _, ha⟩)
      · exact Or.inl rfl
  | between =>
    rw [step_between hm]
    split <;> exact Or.inl rfl
  | lexeme cls first start =>
    rw [step, hm]
    cases cls with
    | number =>
      simp only [readNumber]
      split <;> exact Or.inl rfl
    | word => exact Or.inl rfl
    | operator =>
      simp only [readSymbol]
      split <;> exact Or.inl rfl
  | finish =>
    rw [step, hm]
    exact Or.inr (Or.inl rfl)
  | done => exact Or.inl (by rw [step, hm])
  | failed e => exact Or.inl (by rw [step, hm])

theorem Rising.step {l : Lexer} (h : Rising l.levels) : Rising l.step.levels := by
  rcases l.step_levels with hs | hs | ⟨width, kinds, hs⟩
  · rwa [hs]
  · rw [hs]
    exact rising_nil
  · exact h.adjust hs

theorem Rising.fill {l : Lexer} (h : Rising l.levels) : Rising l.fill.levels := by
  fun_induction Lexer.fill l with
  | case1 l _ ih => exact ih h.step
  | case2 l _ => exact h

theorem next_levels (l : Lexer) : l.next.2.levels = l.fill.levels := by
  rw [next]
  split
  · rfl
  · split <;> rfl

/-- **The stack is strictly increasing at all times.** -/
theorem Reachable.rising {tab : TabWidth} {src : Text} {l : Lexer} (h : Reachable tab src l) :
    Rising l.levels := by
  induction h with
  | start => exact rising_nil
  | step _ ih => exact ih.step
  | next _ ih =>
    rw [next_levels]
    exact ih.fill

theorem Rising.stack {l : Lexer} (h : Rising l.levels) : l.stack.Pairwise (· < ·) := by
  have hs : l.stack = (l.levels ++ [0]).reverse := by simp [Lexer.stack]
  rw [hs, List.pairwise_reverse]
  exact h

/-! ## Lines -/

/-- A line of some runes, counted from zero, without the line feed. -/
def lineAt : Nat → List Rune → List Rune
  | 0, rs => rs.takeWhile fun r => !r.isNewline
  | n + 1, rs => lineAt n ((rs.dropWhile fun r => !r.isNewline).drop 1)

/-- The measured width of a line of a source, counted from one. -/
def lineWidth (tab : TabWidth) (src : Text) (line : Int) : Int64 :=
  widthOf tab ((lineAt (line - 1).toNat (Rune.decode src)).takeWhile Rune.isSpace)

/-- A line begins behind some runes. -/
def StartsLine (read : List Rune) : Prop :=
  ∀ r ∈ read.getLast?, r.isNewline = true

theorem startsLine_nil : StartsLine [] := by
  simp [StartsLine]

theorem startsLine_concat {r : Rune} (h : r.isNewline = true) (read : List Rune) :
    StartsLine (read ++ [r]) := by
  intro a ha
  rw [List.getLast?_concat] at ha
  rwa [← Option.some.inj ha]

theorem startsLine_append {read more : List Rune} (h : StartsLine read) (h' : StartsLine more) :
    StartsLine (read ++ more) := by
  intro r hr
  rw [List.getLast?_append] at hr
  cases hm : more.getLast? with
  | none =>
    rw [hm, Option.none_or] at hr
    exact h r hr
  | some a =>
    rw [hm, Option.some_or] at hr
    exact h' r (hm ▸ hr)

/-- The line that begins behind some runes. -/
theorem lineAt_append {read : List Rune} (h : StartsLine read) (rs : List Rune) :
    lineAt (read.countP Rune.isNewline) (read ++ rs) = rs.takeWhile fun r => !r.isNewline := by
  induction read with
  | nil => rfl
  | cons a read ih =>
    have hread : StartsLine read := by
      intro r hr
      refine h r ?_
      rw [List.getLast?_cons, Option.mem_def.mp hr]
      rfl
    cases ha : a.isNewline with
    | true =>
      rw [List.countP_cons_of_pos ha, lineAt, List.cons_append,
        List.dropWhile_cons_of_neg (by simp [ha])]
      exact ih hread
    | false =>
      -- the first rune belongs to a line that ends in the rest
      have hpos : 0 < read.countP Rune.isNewline := by
        cases hl : read.getLast? with
        | none =>
          rw [List.getLast?_eq_none_iff] at hl
          subst hl
          exact absurd (h a rfl) (by simp [ha])
        | some r => exact List.countP_pos_iff.mpr ⟨r, List.mem_of_getLast? hl, hread r hl⟩
      obtain ⟨n, hn⟩ := Nat.exists_eq_succ_of_ne_zero (Nat.ne_of_gt hpos)
      rw [List.countP_cons_of_neg (by simp [ha]), hn, lineAt, List.cons_append,
        List.dropWhile_cons_of_pos (by simp [ha])]
      rw [hn] at ih
      exact ih hread

theorem afterAll_line (p : Position) (rs : List Rune) :
    (p.afterAll rs).line = p.line + rs.countP Rune.isNewline := by
  induction rs generalizing p with
  | nil => simp
  | cons r rs ih =>
    rw [Position.afterAll_cons, ih, Position.after, List.countP_cons]
    cases r.isNewline
    · simp
    · simp
      omega

/-! ## The margin of a line -/

/-- A gap that ends in front of a lexeme: whole lines, and the margin of the line of the lexeme. -/
theorem IsGap.margin {gap after : List Rune} (h : IsGap gap after) (hafter : ¬ EndsLine after) :
    ∃ above margin, gap = above ++ margin ∧ StartsLine above ∧
      ∀ r ∈ margin, r.isSpace = true ∧ r.isNewline = false := by
  induction h with
  | nil => exact ⟨[], [], rfl, startsLine_nil, by simp⟩
  | @space r gap after hs _ ih =>
    obtain ⟨above, margin, rfl, hb, hm⟩ := ih hafter
    cases above with
    | cons a above => exact ⟨r :: a :: above, margin, rfl, by simpa [StartsLine] using hb, hm⟩
    | nil =>
      cases hn : r.isNewline with
      | true => exact ⟨[r], margin, rfl, startsLine_concat hn [], hm⟩
      | false =>
          exact ⟨[], r :: margin, rfl, startsLine_nil, List.forall_mem_cons.mpr ⟨⟨hs, hn⟩, hm⟩⟩
  | @comment body gap after _ he _ ih =>
    obtain ⟨above, margin, rfl, hb, hm⟩ := ih hafter
    cases above with
    | cons a above =>
      refine ⟨.char '#' :: (body ++ a :: above), margin, by simp, ?_, hm⟩
      simpa [StartsLine, List.getLast?_cons, List.getLast?_append] using hb
    | nil =>
      -- a comment that is not ended by a line feed of the gap would reach the lexeme
      cases margin with
      | nil => exact absurd he hafter
      | cons a margin =>
        have hline := he a rfl
        rw [(hm a List.mem_cons_self).2] at hline
        cases hline

/-- Whole lines do not count for the width. -/
theorem widthOf_append {tab : TabWidth} {above : List Rune} (h : StartsLine above)
    (margin : List Rune) : widthOf tab (above ++ margin) = widthOf tab margin := by
  rcases List.eq_nil_or_concat above with rfl | ⟨lines, r, rfl⟩
  · rfl
  · have hr : r.isNewline = true := h r (by simp)
    have hw : ∀ width, widen tab width r = 0 := by
      intro width
      rw [Rune.isNewline, Rune.is, beq_iff_eq] at hr
      rw [hr]
      rfl
    simp only [widthOf, List.concat_eq_append, List.foldl_append, List.foldl_cons,
      List.foldl_nil, hw]

/-- The place of a lexer in a source. Lines are begun outside parentheses only. -/
structure Scan.Stands (src : Text) (s : Scan) : Prop where
  read : ∃ read, Rune.decode src = read ++ s.input ∧ s.pos = Position.start.afterAll read ∧
    (s.fresh = true → StartsLine read)
  flat : s.fresh = true → s.depth = 0

theorem Scan.stands_ofSource (src : Text) : (Scan.ofSource src).Stands src :=
  ⟨⟨[], rfl, rfl, fun _ => startsLine_nil⟩, fun _ => rfl⟩

/-- Reading on. -/
theorem Scan.Stands.move {src : Text} {s : Scan} (h : s.Stands src) {piece after : List Rune}
    (hin : s.input = piece ++ after) (levels : List Int64) (depth : Nat) :
    Scan.Stands src ⟨false, after, s.pos.afterAll piece, levels, depth⟩ := by
  obtain ⟨⟨read, hsrc, hpos, -⟩, -⟩ := h
  refine ⟨⟨read ++ piece, ?_, ?_, by simp⟩, by simp⟩
  · rw [hsrc, hin, List.append_assoc]
  · rw [hpos, Position.afterAll_append]

/-- Lines end outside parentheses, since inside of them the gap runs over the line feed. -/
theorem Scan.depth_of_newline {s : Scan} {r : Rune} {rest : List Rune} (hf : s.fresh = false)
    (hr : s.rest = r :: rest) (hn : r.isNewline = true) : s.depth = 0 := by
  by_contra hd
  rw [Scan.rest, hf, Bool.false_or, decide_eq_true (Nat.pos_of_ne_zero hd)] at hr
  rw [(solid_of_splitGap hr).1] at hn
  cases hn

/-- Reading the end of a line. -/
theorem Scan.Stands.newline {src : Text} {s : Scan} (h : s.Stands src) {r : Rune} {rest : List Rune}
    (hr : s.rest = r :: rest) (hn : r.isNewline = true) (hd : s.depth = 0) :
    Scan.Stands src ⟨true, rest, s.next.after r, s.levels, s.depth⟩ := by
  obtain ⟨⟨read, hsrc, hpos, -⟩, -⟩ := h
  refine ⟨⟨read ++ (s.gap ++ [r]), ?_, ?_, fun _ => ?_⟩, fun _ => hd⟩
  · rw [hsrc, ← s.gap_append_rest, hr]
    simp
  · rw [Position.afterAll_append, ← hpos, Position.afterAll_append]
    rfl
  · rw [← List.append_assoc]
    exact startsLine_concat hn _

/-- **The width that the lexer measures is the width of the line.** -/
theorem Scan.Stands.width {tab : TabWidth} {src : Text} {s : Scan} {r : Rune} {rest : List Rune}
    (h : s.Stands src) (hf : s.fresh = true) (hr : s.rest = r :: rest) :
    widthOf tab s.gap = lineWidth tab src s.next.line := by
  obtain ⟨⟨read, hsrc, hpos, hread⟩, -⟩ := h
  have hsolid := Scan.solid_of_fresh hf hr
  have hgap : IsGap s.gap (r :: rest) := hr ▸ s.isGap_gap
  have hends : ¬ EndsLine (r :: rest) := fun he => absurd (he r rfl) (by simp [hsolid.1])
  obtain ⟨above, margin, hsplit, habove, hmargin⟩ := hgap.margin hends
  have hbegin : StartsLine (read ++ above) := startsLine_append (hread hf) habove
  -- the line of the lexeme is as many lines down as lines end in front of its margin
  have hnone : margin.countP Rune.isNewline = 0 :=
    List.countP_eq_zero.mpr fun a ha => by simp [(hmargin a ha).2]
  have hline : (s.next.line - 1).toNat = (read ++ above).countP Rune.isNewline := by
    rw [Scan.next, hpos, ← Position.afterAll_append, afterAll_line, hsplit, ← List.append_assoc,
      List.countP_append, hnone]
    simp only [Position.start]
    omega
  have hruns : Rune.decode src = (read ++ above) ++ (margin ++ r :: rest) := by
    rw [hsrc, ← s.gap_append_rest, hsplit, hr]
    simp
  have hleft : ((margin ++ r :: rest).takeWhile fun a => !a.isNewline) =
      margin ++ r :: rest.takeWhile fun a => !a.isNewline := by
    rw [List.takeWhile_append_of_pos fun a ha => by simp [(hmargin a ha).2],
      List.takeWhile_cons_of_pos (by simp [hsolid.1])]
  rw [lineWidth, hline, hruns, lineAt_append hbegin, hleft,
    List.takeWhile_append_of_pos fun a ha => (hmargin a ha).1,
    List.takeWhile_cons_of_neg (by simp [hsolid.2.2]), List.append_nil, hsplit,
    widthOf_append habove]

/-! ## The rule -/

/-- **Puts the markers between some tokens**: the tokens that are left, given the open levels, the
number of open parentheses and the line of the token in front. A width that meets no level is a
fault. -/
def laidOut (tab : TabWidth) (src : Text) (levels : List Int64) (depth : Nat) (line : Int) :
    List Token → Option (List Token)
  | [] => some []
  | t :: ts =>
    if t.kind = .eof then some (markersAt t.pos (levels.map fun _ => .dedent) ++ [t])
    else if depth = 0 ∧ t.pos.line ≠ line then
      match adjust levels (lineWidth tab src t.pos.line) with
      | none => none
      | some (kinds, levels) =>
        (laidOut tab src levels (depthAfter depth t.kind) t.pos.line ts).map
          (markersAt t.pos kinds ++ t :: ·)
    else (laidOut tab src levels (depthAfter depth t.kind) t.pos.line ts).map (t :: ·)

/-- The tokens that are no markers. -/
def unmarked (ts : List Token) : List Token :=
  ts.filter fun t => !t.kind.isMarker

theorem unmarked_markers {kinds : List Kind} (h : ∀ k ∈ kinds, k.isMarker = true) (pos : Position)
    (ts : List Token) : unmarked (markersAt pos kinds ++ ts) = unmarked ts := by
  rw [unmarked, List.filter_append, List.filter_eq_nil_iff.mpr, List.nil_append, unmarked]
  intro t ht
  obtain ⟨k, hk, rfl⟩ := List.mem_map.mp ht
  simp [Token.plain, h k hk]

theorem unmarked_cons {t : Token} (h : t.kind ∈ spelled) (ts : List Token) :
    unmarked (t :: ts) = t :: unmarked ts :=
  List.filter_cons_of_pos (by simp [isMarker_of_spelled h])

theorem ne_eof_of_spelled {k : Kind} (h : k ∈ spelled) : k ≠ .eof := by
  rintro rfl
  exact absurd h (by decide)

theorem isMarker_dedents (levels : List Int64) :
    ∀ k ∈ levels.map fun _ => Kind.dedent, k.isMarker = true := by
  intro k hk
  obtain ⟨-, -, rfl⟩ := List.mem_map.mp hk
  rfl

/-! ## The lexer keeps to the rule -/

theorem IsLexeme.isNewline_eq_false {lexeme after : List Rune} {t : Token}
    (h : IsLexeme lexeme after t) (hv : t.value = Rune.encode lexeme) :
    ∀ r ∈ lexeme, r.isNewline = false := by
  intro r hr
  by_contra hn
  rw [Bool.not_eq_false, Rune.isNewline, Rune.is, beq_iff_eq] at hn
  subst hn
  cases h with
  | @word first more hl hs hp _ _ =>
    rw [hl] at hr
    rcases List.mem_cons.mp hr with rfl | hr
    · exact absurd hs (by decide)
    · exact absurd (hp _ hr) (by decide)
  | number _ hd _ _ _ => exact absurd (hd _ hr) (by decide)
  | operator hk _ =>
    have hall : ∀ e ∈ operatorTable, (10 : UInt8) ∉ e.1 := by decide
    obtain ⟨before, behind, htable, -⟩ := List.lookup_eq_some_iff.mp hk
    refine hall (t.value, t.kind) (htable ▸ List.mem_append_right _ List.mem_cons_self) ?_
    rw [hv]
    exact List.mem_flatMap.mpr ⟨_, hr, by decide⟩

/-- In front of a lexeme, the next token is the one of this lexeme. -/
theorem Course.head {tab : TabWidth} {s : Scan} {ts : List Token} {r : Rune} {rest : List Rune}
    (h : Course tab s ts none) (hf : s.fresh = false) (hin : s.input = r :: rest) (hr : Solid r) :
    ∃ t ts', ts = t :: ts' ∧ t.pos = s.pos ∧ t.kind ∈ spelled := by
  have hgap : s.gap = [] := by rw [Scan.gap, hin, splitGap_solid hr]
  have hrest : s.rest = r :: rest := by rw [Scan.rest, hin, splitGap_solid hr]
  cases h with
  | finish he =>
    rw [hrest] at he
    cases he
  | newline _ he hn _ =>
    obtain ⟨rfl, -⟩ := List.cons.inj (hrest.symm.trans he)
    rw [hr.1] at hn
    cases hn
  | line he _ _ _ =>
    rw [hf] at he
    cases he
  | @lexeme _ _ _ _ _ t ts _ _ _ _ hread _ =>
    obtain ⟨-, -, hpos, hl⟩ := readLexeme_spec hread
    refine ⟨t, ts, rfl, ?_, hl.spelled⟩
    rw [hpos, Scan.next, hgap, Position.afterAll_nil]

/-- The line in front of the next token: a line that begins is a further one. -/
def Scan.Follows (s : Scan) (line : Int) : Prop :=
  if s.fresh then line < s.pos.line else line = s.pos.line

/-- A gap that does not run across lines has no line feed. -/
theorem countP_splitGap (inComment : Bool) (rs : List Rune) :
    (splitGap false inComment rs).1.countP Rune.isNewline = 0 := by
  induction rs generalizing inComment with
  | nil => rfl
  | cons r rs ih =>
    unfold splitGap
    cases hn : r.isNewline with
    | true => rfl
    | false =>
      simp only [Bool.false_eq_true, if_false]
      split
      · rw [List.countP_cons_of_neg (by simp [hn])]
        exact ih true
      · split
        · rw [List.countP_cons_of_neg (by simp [hn])]
          exact ih false
        · rfl

/-- A gap outside parentheses stays on its line, unless a line begins. -/
theorem Scan.next_line {s : Scan} (hf : s.fresh = false) (hd : s.depth = 0) :
    s.next.line = s.pos.line := by
  have hgap : s.gap.countP Rune.isNewline = 0 := by
    rw [Scan.gap, hf, hd]
    exact countP_splitGap false s.input
  rw [Scan.next, afterAll_line, hgap]
  simp

/-- **The markers of a stream are those that the rule puts there.** -/
theorem Course.laidOut {tab : TabWidth} {src : Text} {s : Scan} {ts : List Token}
    {e : Option LexicalError} (h : Course tab s ts e) (he : e = none) (hs : s.Stands src)
    (line : Int)
    (hline : s.Follows line) :
    laidOut tab src s.levels s.depth line (unmarked ts) = some ts := by
  induction h generalizing line with
  | @finish s hr =>
    rw [unmarked_markers (isMarker_dedents _)]
    rfl
  | @newline s r rest ts e hf hr hn _ ih =>
    have hd := Scan.depth_of_newline hf hr hn
    refine ih he (hs.newline hr hn hd) line ?_
    rw [Scan.Follows, hf] at hline
    simp only [Bool.false_eq_true, if_false] at hline
    simp only [Scan.Follows, if_true, Position.after, hn, Scan.next_line hf hd, hline]
    omega
  | @line s r rest kinds levels ts e hf hr ha hc ih =>
    subst he
    have hsolid := Scan.solid_of_fresh hf hr
    have hrest := ih rfl (hs.move (by rw [← hr, s.gap_append_rest]) _ _) s.next.line rfl
    obtain ⟨t, ts, rfl, hpos, hk⟩ := hc.head rfl rfl hsolid
    have hne : t.pos.line ≠ line := by
      rw [Scan.Follows, hf] at hline
      simp only [if_true] at hline
      rw [hpos, Scan.next, afterAll_line]
      omega
    rw [hs.width hf hr] at ha
    rw [unmarked_markers (isMarker_of_adjust ha), unmarked_cons hk]
    rw [unmarked_cons hk, Lexer.laidOut, if_neg (ne_eof_of_spelled hk), if_neg (by simp [hpos]),
      Option.map_eq_some_iff] at hrest
    obtain ⟨us, hus, hcons⟩ := hrest
    rw [Lexer.laidOut, if_neg (ne_eof_of_spelled hk), if_pos ⟨hs.flat hf, hne⟩, hpos, ha]
    rw [hpos] at hus
    simp only [hus, Option.map_some, hcons]
  | lost _ _ _ => cases he
  | @lexeme s r rest lexeme after t ts e hf hr hn hread _ ih =>
    obtain ⟨happ, hv, hpos, hl⟩ := readLexeme_spec hread
    have hin : s.input = (s.gap ++ lexeme) ++ after := by
      rw [← s.gap_append_rest, hr, List.append_assoc, happ]
    have hend : (s.next.afterAll lexeme).line = t.pos.line := by
      have hnone : lexeme.countP Rune.isNewline = 0 :=
        List.countP_eq_zero.mpr fun a ha => by simp [hl.isNewline_eq_false hv a ha]
      rw [afterAll_line, hnone, hpos]
      simp
    have hmove := hs.move hin s.levels (depthAfter s.depth t.kind)
    rw [Position.afterAll_append] at hmove
    have hrest := ih he hmove t.pos.line hend.symm
    have hsame : ¬ (s.depth = 0 ∧ t.pos.line ≠ line) := by
      rintro ⟨hd, hne⟩
      rw [Scan.Follows, hf] at hline
      simp only [Bool.false_eq_true, if_false] at hline
      rw [hpos, Scan.next_line hf hd] at hne
      exact hne hline.symm
    rw [unmarked_cons hl.spelled, Lexer.laidOut, if_neg (ne_eof_of_spelled hl.spelled),
      if_neg hsame, hrest]
    rfl
  | fault _ _ _ _ => cases he

/-! ## What the rule puts there is balanced -/

/-- How many tokens are of some kind. -/
def kindCount (kind : Kind) (ts : List Token) : Nat :=
  ts.countP fun t => t.kind = kind

theorem kindCount_cons (kind : Kind) (t : Token) (ts : List Token) :
    kindCount kind (t :: ts) = kindCount kind ts + if t.kind = kind then 1 else 0 := by
  simp [kindCount, List.countP_cons]

theorem kindCount_append (kind : Kind) (ts us : List Token) :
    kindCount kind (ts ++ us) = kindCount kind ts + kindCount kind us :=
  List.countP_append

/-- No marker is among plain tokens. -/
theorem kindCount_plain {ts : List Token} (h : ∀ t ∈ ts, t.kind.isMarker = false) {kind : Kind}
    (hk : kind.isMarker = true) : kindCount kind ts = 0 := by
  refine List.countP_eq_zero.mpr fun t ht he => ?_
  rw [← of_decide_eq_true he, h t ht] at hk
  cases hk

/-- The tokens behind `n` open levels close these levels and all that they open themselves, and
never more than are open. -/
structure Paired (n : Nat) (ts : List Token) : Prop where
  before : ∀ us, us <+: ts → kindCount .dedent us ≤ n + kindCount .indent us
  total : kindCount .dedent ts = n + kindCount .indent ts

/-- A token in front, behind which `m` levels are open. -/
theorem Paired.cons {n m : Nat} {t : Token} {ts : List Token} (h : Paired m ts)
    (hm : m + (if t.kind = .dedent then 1 else 0) = n + if t.kind = .indent then 1 else 0) :
    Paired n (t :: ts) where
  before := by
    intro us hus
    cases us with
    | nil => exact Nat.zero_le _
    | cons u us =>
      obtain ⟨rfl, hpre⟩ := List.cons_prefix_cons.mp hus
      have := h.before us hpre
      rw [kindCount_cons, kindCount_cons]
      omega
  total := by
    have := h.total
    rw [kindCount_cons, kindCount_cons]
    omega

theorem Paired.lexeme {n : Nat} {t : Token} {ts : List Token} (h : Paired n ts)
    (ht : t.kind.isMarker = false) : Paired n (t :: ts) := by
  have hi : t.kind ≠ .indent := fun hk => by simp [hk, Kind.isMarker] at ht
  have hd : t.kind ≠ .dedent := fun hk => by simp [hk, Kind.isMarker] at ht
  exact h.cons (by rw [if_neg hi, if_neg hd])

theorem Paired.dedents {n : Nat} {ts : List Token} (h : Paired n ts) (pos : Position) (k : Nat) :
    Paired (n + k) (markersAt pos (List.replicate k .dedent) ++ ts) := by
  induction k with
  | zero => exact h
  | succ k ih => exact ih.cons rfl

theorem Paired.adjust {levels levels' : List Int64} {width : Int64} {kinds : List Kind}
    {ts : List Token} (ha : adjust levels width = some (kinds, levels'))
    (h : Paired levels'.length ts) (pos : Position) :
    Paired levels.length (markersAt pos kinds ++ ts) := by
  rcases adjust_cases ha with ⟨-, rfl, rfl⟩ | ⟨k, hk, rfl, rfl, -⟩
  · exact h.cons rfl
  · have hn := h.dedents pos k
    rwa [List.length_drop, Nat.sub_add_cancel hk] at hn

/-- The end of a stream: the open levels are closed, and the source ends. -/
def IsEnd (ts : List Token) : Prop :=
  ∃ n pos, ts = List.replicate n (.plain .dedent [] pos) ++ [.eofAt pos]

/-- A place in two stretches one after the other is a place in one of them. -/
theorem place_append {α : Type} {a b us vs : List α} {t : α} (h : a ++ b = us ++ t :: vs) :
    (∃ more, a = us ++ t :: more ∧ vs = more ++ b) ∨ ∃ us', us = a ++ us' ∧ b = us' ++ t :: vs := by
  rcases List.append_eq_append_iff.mp h with ⟨us', rfl, hb⟩ | ⟨more, rfl, hb⟩
  · exact Or.inr ⟨us', rfl, hb⟩
  · cases more with
    | nil => exact Or.inr ⟨[], by simp, hb.symm⟩
    | cons u more =>
      obtain ⟨rfl, rfl⟩ := List.cons.inj hb
      exact Or.inl ⟨more, rfl, rfl⟩

/-- **Markers in order**, behind `depth` open parentheses: a level is opened in front of a lexeme,
and inside parentheses there are no markers but those at the end. -/
structure Orderly (depth : Nat) (ts : List Token) : Prop where
  indent : ∀ us t vs, ts = us ++ t :: vs → t.kind = .indent →
    ∃ u ∈ vs.head?, u.kind.isMarker = false
  parens : ∀ us t vs, ts = us ++ t :: vs → t.kind.isMarker = true → 0 < depthOver depth us →
    IsEnd (t :: vs)

theorem Orderly.lexeme {depth : Nat} {t : Token} {ts : List Token}
    (h : Orderly (depthAfter depth t.kind) ts) (ht : t.kind.isMarker = false) :
    Orderly depth (t :: ts) where
  indent := by
    intro us u vs hts hk
    cases us with
    | nil =>
      obtain ⟨rfl, -⟩ := List.cons.inj hts
      rw [hk] at ht
      exact absurd ht (by decide)
    | cons a us => exact h.indent us u vs (List.cons.inj hts).2 hk
  parens := by
    intro us u vs hts hm hd
    cases us with
    | nil =>
      obtain ⟨rfl, -⟩ := List.cons.inj hts
      rw [hm] at ht
      cases ht
    | cons a us =>
      obtain ⟨rfl, hrest⟩ := List.cons.inj hts
      exact h.parens us u vs hrest hm hd

theorem depthOver_markers {kinds : List Kind} (h : ∀ k ∈ kinds, k.isMarker = true) (pos : Position)
    (depth : Nat) : depthOver depth (markersAt pos kinds) = depth := by
  induction kinds with
  | nil => rfl
  | cons k kinds ih =>
    rw [List.forall_mem_cons] at h
    have hk : depthAfter depth k = depth := by
      cases k <;> first | rfl | exact absurd h.1 (by decide)
    simp only [depthOver, markersAt, List.map_cons, List.foldl_cons, Token.plain, hk]
    exact ih h.2

/-- Markers in front of the first lexeme of a logical line. -/
theorem Orderly.adjust {levels levels' : List Int64} {width : Int64} {kinds : List Kind} {t : Token}
    {ts : List Token} (ha : adjust levels width = some (kinds, levels')) (h : Orderly 0 (t :: ts))
    (ht : t.kind.isMarker = false) (pos : Position) :
    Orderly 0 (markersAt pos kinds ++ t :: ts) where
  indent := by
    intro us u vs hts hk
    rcases place_append hts with ⟨more, hmarks, rfl⟩ | ⟨us', rfl, hrest⟩
    · rcases adjust_cases ha with ⟨-, rfl, -⟩ | ⟨n, -, rfl, -⟩
      · -- the one marker is followed by the lexeme
        have hlen := congrArg List.length hmarks
        simp only [markersAt, List.length_map, List.length_append, List.length_cons,
          List.length_nil] at hlen
        obtain rfl := List.eq_nil_of_length_eq_zero (show more.length = 0 by omega)
        exact ⟨t, rfl, ht⟩
      · have hu : u ∈ markersAt pos (List.replicate n .dedent) := hmarks ▸ by simp
        obtain ⟨k, hk', rfl⟩ := List.mem_map.mp hu
        rw [List.eq_of_mem_replicate hk'] at hk
        cases hk
    · exact h.indent us' u vs hrest hk
  parens := by
    intro us u vs hts hm hd
    rcases place_append hts with ⟨more, hmarks, rfl⟩ | ⟨us', rfl, hrest⟩
    · -- in front of these markers no parenthesis is open
      obtain ⟨before, behind, rfl, rfl, -⟩ := List.map_eq_append_iff.mp hmarks
      have hdepth : depthOver 0 (markersAt pos before) = 0 := depthOver_markers (fun k hk =>
        isMarker_of_adjust ha k (List.mem_append_left _ hk)) pos 0
      rw [markersAt] at hdepth
      rw [hdepth] at hd
      exact absurd hd (Nat.lt_irrefl 0)
    · rw [depthOver, List.foldl_append] at hd
      have hdepth := depthOver_markers (isMarker_of_adjust ha) pos 0
      rw [depthOver] at hdepth
      rw [hdepth] at hd
      exact h.parens us' u vs hrest hm hd

theorem Orderly.finish {ts : List Token} (h : IsEnd ts) (depth : Nat) : Orderly depth ts := by
  obtain ⟨n, pos, rfl⟩ := h
  constructor
  · intro us u vs hts hk
    have hu : u ∈ List.replicate n (.plain .dedent [] pos) ++ [.eofAt pos] := hts ▸ by simp
    rcases List.mem_append.mp hu with hu | hu
    · rw [List.eq_of_mem_replicate hu] at hk
      cases hk
    · rw [List.mem_singleton.mp hu] at hk
      cases hk
  · intro us u vs hts hm _
    rcases place_append hts with ⟨more, hmarks, rfl⟩ | ⟨us', rfl, hrest⟩
    · obtain ⟨-, -, hmore⟩ := List.replicate_eq_append_iff.mp hmarks
      exact ⟨_, pos, by rw [← List.cons_append, hmore]⟩
    · cases us' with
      | nil =>
        obtain ⟨rfl, -⟩ := List.cons.inj hrest
        cases hm
      | cons a us' => exact absurd (List.cons.inj hrest).2 (by simp)

/-- **What the rule puts there is balanced and in order.** -/
theorem laidOut_balanced {tab : TabWidth} {src : Text} {levels : List Int64} {depth : Nat}
    {line : Int} {us ts : List Token} {pos : Position}
    (h : laidOut tab src levels depth line (us ++ [.eofAt pos]) = some ts)
    (hus : ∀ u ∈ us, u.kind.isMarker = false ∧ u.kind ≠ .eof) :
    Paired levels.length ts ∧ Orderly depth ts := by
  induction us generalizing levels depth line ts with
  | nil =>
    obtain rfl := Option.some.inj h
    rw [List.map_const']
    refine ⟨?_, .finish ⟨levels.length, pos, by simp [markersAt, Token.eofAt, Token.plain]⟩ depth⟩
    have hend : Paired 0 [Token.eofAt pos] :=
      Paired.lexeme ⟨fun us hus => by simp [List.prefix_nil.mp hus, kindCount], rfl⟩ rfl
    have hn := hend.dedents pos levels.length
    rwa [Nat.zero_add] at hn
  | cons u us ih =>
    obtain ⟨⟨hmark, heof⟩, hus⟩ := List.forall_mem_cons.mp hus
    rw [List.cons_append, laidOut, if_neg heof] at h
    split at h
    · next hfirst =>
      split at h
      · cases h
      · next kinds levels' ha =>
        obtain ⟨vs, hvs, rfl⟩ := Option.map_eq_some_iff.mp h
        obtain ⟨hn, ho⟩ := ih hvs hus
        rw [hfirst.1] at ho ⊢
        exact ⟨(hn.lexeme hmark).adjust ha u.pos, (ho.lexeme hmark).adjust ha hmark u.pos⟩
    · obtain ⟨vs, hvs, rfl⟩ := Option.map_eq_some_iff.mp h
      obtain ⟨hn, ho⟩ := ih hvs hus
      exact ⟨hn.lexeme hmark, ho.lexeme hmark⟩

end Lexer

open Lexer

/-- **Markers follow the stack of indentations and are balanced.** The stack of a lexer is strictly
increasing from zero at all times. The markers of a source that can be cut into tokens are those
that the rule puts there: nothing is closed that is not open, all is closed at the end, which comes
once and last, a level is opened in front of a lexeme, and inside parentheses there are no markers
but those at the end. -/
theorem tokenize_laidOut (tab : TabWidth) (src : Text) :
    (∀ l, Reachable tab src l → l.stack.head? = some 0 ∧ l.stack.Pairwise (· < ·)) ∧
    ∀ ts, tokenize tab src = .ok ts →
      laidOut tab src [] 0 0 (unmarked ts) = some ts ∧ Paired 0 ts ∧ Orderly 0 ts ∧
        ∃ us pos, ts = us ++ [.eofAt pos] ∧ ∀ t ∈ us, t.kind ≠ .eof := by
  refine ⟨fun l hl => ⟨rfl, hl.rising.stack⟩, fun ts hts => ?_⟩
  obtain ⟨us, pos, rfl, hus⟩ := tokenize_ends hts
  have hlaid : laidOut tab src [] 0 0 (unmarked (us ++ [.eofAt pos])) =
        some (us ++ [.eofAt pos]) := by
    obtain ⟨ts, e, hc, -, htok⟩ := course_source tab src
    rw [hts] at htok
    cases e with
    | some e => cases htok
    | none =>
      rw [Except.ok.inj htok]
      exact hc.laidOut rfl (Scan.stands_ofSource src) 0 (show (0 : Int) < 1 by decide)
  have hend : unmarked (us ++ [.eofAt pos]) = unmarked us ++ [.eofAt pos] := List.filter_append ..
  obtain ⟨hpaired, horderly⟩ := laidOut_balanced (hend ▸ hlaid) fun u hu => by
    obtain ⟨hu, hk⟩ := List.mem_filter.mp hu
    exact ⟨by simpa using hk, hus u hu⟩
  exact ⟨hlaid, hpaired, horderly, us, pos, rfl, hus⟩

/-- Two levels, one of which holds a call that runs over a line. -/
def wrappedSource : String := "if a:\n  if b:\n    f(1,\n2)\nc\n"

/-- The tokens of the source. -/
def wrappedTokens : List Token :=
  [.plain .ifWord "if" ⟨0, 1, 1⟩, .plain .identifier "a" ⟨3, 1, 4⟩, .plain .colon ":" ⟨4, 1, 5⟩,
   .plain .indent [] ⟨8, 2, 3⟩, .plain .ifWord "if" ⟨8, 2, 3⟩, .plain .identifier "b" ⟨11, 2, 6⟩,
   .plain .colon ":" ⟨12, 2, 7⟩, .plain .indent [] ⟨18, 3, 5⟩, .plain .identifier "f" ⟨18, 3, 5⟩,
   .plain .openParen "(" ⟨19, 3, 6⟩, ⟨.number, "1", 1, ⟨20, 3, 7⟩⟩, .plain .comma "," ⟨21, 3, 8⟩,
   ⟨.number, "2", 2, ⟨23, 4, 1⟩⟩, .plain .closeParen ")" ⟨24, 4, 2⟩, .plain .dedent [] ⟨26, 5, 1⟩,
   .plain .dedent [] ⟨26, 5, 1⟩, .plain .identifier "c" ⟨26, 5, 1⟩, .eofAt ⟨28, 6, 1⟩]

theorem tokenize_wrapped : tokenize .standard (Text.ofString wrappedSource) = .ok wrappedTokens :=
  tokenize_of_steps 45 (by decide +kernel) (by decide +kernel)

/-- The markers of that source, the second line of the call standing further left than all levels.
-/
theorem tokenize_laidOut_wrapped :
    tokenize .standard (Text.ofString wrappedSource) = .ok wrappedTokens ∧
      laidOut .standard (Text.ofString wrappedSource) [] 0 0 (unmarked wrappedTokens) =
        some wrappedTokens ∧
      Paired 0 wrappedTokens ∧ Orderly 0 wrappedTokens := by
  obtain ⟨hlaid, hpaired, horderly, -⟩ := (tokenize_laidOut .standard _).2 _ tokenize_wrapped
  exact ⟨tokenize_wrapped, hlaid, hpaired, horderly⟩

end Offside
