import Offside.Proofs.Grammar.Tree
import Offside.Proofs.Lexer.Marker

/-!
# The course of a lexer

The steps of `Lexer.step` are too small to reason about one by one: a lexeme takes two of them, and
where a run stops depends on tokens that wait. Here the run of a lexer is described in larger
pieces, and most of what is proved of sources rests on this description.

Between two lexemes a lexer is described by little: what it has left to read and where, which levels
and how many parentheses are open, and whether a line begins (`Scan`). From there it skips a gap and
then does one of six things, which are the constructors of `Course`: the source is used up, a line
ends, an indentation is settled or meets no level, a lexeme is read or is faulty. A course says all
that a run finds and how it ends, so what is true of every source is proved by induction on courses
and not on the steps of the lexer.

How the levels follow the width of a line is said by `adjust`: a greater width is pushed; otherwise
levels are popped one by one while they are greater, and the width has to be met. This is the
algorithm of the specification (4.1.1), and `Lexer.settle` is it in one go.

* `readLexeme` is a lexeme in front of what follows it: its token, its runes and the rest, or its
  fault.
* `Course.behind_newline` and the five lemmas beside it read off a course what it has behind a gap,
  so that later proofs need not look at all six cases.

Results:
* `settle_eq`: the lexer adjusts its levels in this way.
* `step_lexeme`: a lexer in front of a lexeme reads it, or stops at a fault.
* `course_stop`: the run of a lexer is a course.
* `delivered_eq`: delivering the tokens one at a time gives those that a run to the stop gives.
* `course_source`: what is delivered for a source, and its tokens, are what a course finds.
* `course_of_tokenize`: the tokens of a source are what a course finds that meets no fault.
-/

namespace Offside

namespace Lexer

/-! ## Levels -/

/-- Pops the levels that are greater than a width, with one dedent marker for each. The level that
is left has to be the width; below all levels there is the width zero. -/
def popTo (width : Int64) : List Int64 → Option (List Kind × List Int64)
  | [] => if width = 0 then some ([], []) else none
  | level :: below =>
    if width < level then
      (popTo width below).map fun (markers, levels) => (.dedent :: markers, levels)
    else if level = width then some ([], level :: below)
    else none

/-- The markers that the width of a line calls for, and the levels that are open then. -/
def adjust (levels : List Int64) (width : Int64) : Option (List Kind × List Int64) :=
  if levels.headD 0 < width then some ([.indent], width :: levels) else popTo width levels

theorem popTo_eq (width : Int64) (levels : List Int64) :
    popTo width levels =
      if (kept levels width).headD 0 = width then
        some (List.replicate (levels.length - (kept levels width).length) .dedent,
            kept levels width)
      else none := by
  induction levels with
  | nil => simp [popTo, kept, eq_comm]
  | cons level below ih =>
    unfold popTo
    by_cases h : width < level
    · have hk : kept (level :: below) width = kept below width :=
        List.dropWhile_cons_of_pos (by simpa using h)
      have hle : (kept below width).length ≤ below.length := (List.dropWhile_sublist _).length_le
      rw [if_pos h, ih, hk]
      split
      · rw [List.length_cons, Nat.succ_sub hle, List.replicate_succ]
        rfl
      · rfl
    · have hk : kept (level :: below) width = level :: below :=
        List.dropWhile_cons_of_neg (by simpa using h)
      rw [if_neg h, hk, Nat.sub_self]
      rfl

theorem popTo_cases {width : Int64} {levels levels' : List Int64} {kinds : List Kind}
    (h : popTo width levels = some (kinds, levels')) :
    ∃ n ≤ levels.length, kinds = List.replicate n .dedent ∧ levels' = levels.drop n ∧
      levels'.headD 0 = width := by
  rw [popTo_eq] at h
  split at h
  · next hw =>
    obtain ⟨rfl, rfl⟩ := Prod.mk.inj (Option.some.inj h)
    refine ⟨_, Nat.sub_le _ _, rfl, ?_, hw⟩
    exact List.suffix_iff_eq_drop.mp (List.dropWhile_suffix _)
  · cases h

/-- A line opens one level or closes some. -/
theorem adjust_cases {width : Int64} {levels levels' : List Int64} {kinds : List Kind}
    (h : adjust levels width = some (kinds, levels')) :
    (levels.headD 0 < width ∧ kinds = [.indent] ∧ levels' = width :: levels) ∨
      ∃ n ≤ levels.length, kinds = List.replicate n .dedent ∧ levels' = levels.drop n ∧
        levels'.headD 0 = width := by
  unfold adjust at h
  split at h
  · next hw =>
    obtain ⟨rfl, rfl⟩ := Prod.mk.inj (Option.some.inj h)
    exact Or.inl ⟨hw, rfl, rfl⟩
  · exact Or.inr (popTo_cases h)

theorem isMarker_of_adjust {width : Int64} {levels levels' : List Int64} {kinds : List Kind}
    (h : adjust levels width = some (kinds, levels')) : ∀ k ∈ kinds, k.isMarker = true := by
  rcases adjust_cases h with ⟨-, rfl, -⟩ | ⟨n, -, rfl, -⟩
  · decide
  · intro k hk
    rw [List.eq_of_mem_replicate hk]
    rfl

/-- Markers at a place. -/
def markersAt (pos : Position) (kinds : List Kind) : List Token :=
  kinds.map fun kind => .plain kind [] pos

theorem pos_of_mem_markersAt {pos : Position} {kinds : List Kind} {t : Token}
    (h : t ∈ markersAt pos kinds) : t.pos = pos := by
  obtain ⟨k, -, rfl⟩ := List.mem_map.mp h
  rfl

/-- **The lexer adjusts its levels to the width of a line.** -/
theorem settle_eq (l : Lexer) (width : Int64) (r : Rune) :
    l.settle width r =
      match adjust l.levels width with
      | some (kinds, levels) =>
        { l with
          pending := l.pending ++ markersAt l.pos kinds
          levels := levels
          mode := .between }
      | none => l.fail ⟨r.code, l.pos, .inconsistentDedent⟩ := by
  unfold adjust
  rw [popTo_eq]
  rcases l.settle_cases width with h | h | ⟨h₁, h₂, h₃⟩ | ⟨h₁, h₂, h₃⟩
  · rw [settle_deeper r h, if_pos h]
    rfl
  · have hk : kept l.levels width = l.levels := by
      cases hl : l.levels with
      | nil => rfl
      | cons level below =>
        rw [hl] at h
        exact List.dropWhile_cons_of_neg (by simp [h])
    rw [settle_same r h, if_neg (by simp [h]), hk, if_pos h.symm, Nat.sub_self]
    simp [markersAt]
  · rw [settle_shallower r h₁ h₂ h₃, if_neg h₁, if_pos h₃]
    simp [markersAt]
  · rw [settle_lost r h₁ h₂ h₃, if_neg h₁, if_neg h₃]

/-! ## Lexemes -/

/-- The token of the lexeme that begins with `first` at a place, its runes and what follows it. -/
def readLexeme (first : Rune) (rest : List Rune) (pos : Position) :
    Except LexicalError (Token × List Rune × List Rune) :=
  match classOf first with
  | .number =>
    let lexeme := first :: rest.takeWhile Rune.isDigit
    (numberToken first (Rune.encode lexeme) pos).map
      fun t => (t, lexeme, rest.dropWhile Rune.isDigit)
  | .word =>
    let lexeme := first :: rest.takeWhile Rune.isNamePart
    let word := Rune.encode lexeme
    .ok (.plain (wordKind word) word pos, lexeme, rest.dropWhile Rune.isNamePart)
  | .operator =>
    (readOperator first rest pos).map
      fun (kind, lexeme, rest) => (.plain kind (Rune.encode lexeme) pos, lexeme, rest)

theorem depthAfter_wordKind (depth : Nat) (word : Text) :
    depthAfter depth (wordKind word) = depth := by
  have h := wordKind_mem word
  generalize wordKind word = k at h
  simp only [List.mem_cons, List.not_mem_nil, or_false] at h
  rcases h with rfl | rfl | rfl | rfl <;> rfl

/-- **A lexer in front of a lexeme reads it**, or stops at a fault. -/
theorem step_lexeme {l : Lexer} {first : Rune} {start : Position}
    (hm : l.mode = .lexeme (classOf first) first start) (hp : l.pos = start.after first) :
    match readLexeme first l.input start with
    | .ok (t, lexeme, after) =>
      l.step = { l with
        input := after
        pos := start.afterAll lexeme
        mode := .between
        depth := depthAfter l.depth t.kind
        pending := l.pending ++ [t] }
    | .error e => l.step.mode = .failed e ∧ l.step.pending = l.pending := by
  rw [readLexeme, step, hm]
  cases classOf first with
  | number =>
    cases hn : numberToken first (Rune.encode (first :: l.input.takeWhile Rune.isDigit)) start with
    | error e => simp only [Except.map, readNumber, hn, fail, and_self]
    | ok t =>
      simp only [Except.map, readNumber, hn, emit, (numberToken_ok hn).1, depthAfter, hp,
        Position.afterAll_cons]
  | word =>
    simp only [readWord, emit, Token.plain, depthAfter_wordKind, hp, Position.afterAll_cons]
  | operator =>
    cases ho : readOperator first l.input start with
    | error e => simp only [Except.map, readSymbol, ho, fail, and_self]
    | ok x => simp only [Except.map, readSymbol, ho, emit, Token.plain]

/-! ## Courses -/

/-- A lexer between two lexemes. -/
structure Scan where
  /-- Whether a line begins. -/
  fresh : Bool
  /-- The runes that are left. -/
  input : List Rune
  pos : Position
  /-- The widths of the open indentations, the innermost first. -/
  levels : List Int64
  /-- The number of open parentheses. -/
  depth : Nat

namespace Scan

/-- The start of a source. -/
def ofSource (src : Text) : Scan :=
  ⟨true, Rune.decode src, .start, [], 0⟩

/-- The gap in front of the next lexeme. -/
def gap (s : Scan) : List Rune :=
  (splitGap (s.fresh || decide (0 < s.depth)) false s.input).1

/-- What follows the gap. -/
def rest (s : Scan) : List Rune :=
  (splitGap (s.fresh || decide (0 < s.depth)) false s.input).2

/-- The position behind the gap. -/
def next (s : Scan) : Position :=
  s.pos.afterAll s.gap

theorem gap_append_rest (s : Scan) : s.gap ++ s.rest = s.input :=
  splitGap_append _ _ _

/-- Where a line begins, the gap reaches up to a lexeme. -/
theorem solid_of_fresh {s : Scan} {r : Rune} {rest : List Rune} (hf : s.fresh = true)
    (hr : s.rest = r :: rest) : Solid r := by
  rw [Scan.rest, hf, Bool.true_or] at hr
  exact solid_of_splitGap hr

end Scan

/-- **What a lexer finds from some place on**, and the fault that stops it, if there is one. -/
inductive Course (tab : TabWidth) : Scan → List Token → Option LexicalError → Prop where
  /-- The source is used up, and the open levels are closed. -/
  | finish {s : Scan} (rest : s.rest = []) :
      Course tab s (markersAt s.next (s.levels.map fun _ => .dedent) ++ [.eofAt s.next]) none
  /-- A line ends. -/
  | newline {s : Scan} {r : Rune} {rest : List Rune} {ts : List Token} {e : Option LexicalError}
      (within : s.fresh = false) (rest_eq : s.rest = r :: rest) (isNewline : r.isNewline = true)
      (more : Course tab ⟨true, rest, s.next.after r, s.levels, s.depth⟩ ts e) : Course tab s ts e
  /-- The indentation of a line is settled. -/
  | line {s : Scan} {r : Rune} {rest : List Rune} {kinds : List Kind} {levels : List Int64}
      {ts : List Token} {e : Option LexicalError} (fresh : s.fresh = true)
      (rest_eq : s.rest = r :: rest)
      (adjusts : adjust s.levels (widthOf tab s.gap) = some (kinds, levels))
      (more : Course tab ⟨false, r :: rest, s.next, levels, s.depth⟩ ts e) :
      Course tab s (markersAt s.next kinds ++ ts) e
  /-- The indentation of a line meets no level. -/
  | lost {s : Scan} {r : Rune} {rest : List Rune} (fresh : s.fresh = true)
      (rest_eq : s.rest = r :: rest) (fails : adjust s.levels (widthOf tab s.gap) = none) :
      Course tab s [] (some ⟨r.code, s.next, .inconsistentDedent⟩)
  /-- A lexeme is read. -/
  | lexeme {s : Scan} {r : Rune} {rest lexeme after : List Rune} {t : Token} {ts : List Token}
      {e : Option LexicalError} (within : s.fresh = false) (rest_eq : s.rest = r :: rest)
      (solid : r.isNewline = false) (reads : readLexeme r rest s.next = .ok (t, lexeme, after))
      (more : Course tab
        ⟨false, after, s.next.afterAll lexeme, s.levels, depthAfter s.depth t.kind⟩ ts e) :
      Course tab s (t :: ts) e
  /-- A lexeme is faulty. -/
  | fault {s : Scan} {r : Rune} {rest : List Rune} {e : LexicalError} (within : s.fresh = false)
      (rest_eq : s.rest = r :: rest) (solid : r.isNewline = false)
      (reads : readLexeme r rest s.next = .error e) : Course tab s [] (some e)

/-! ## What comes next in a course -/

section Next

variable {tab : TabWidth} {s : Scan} {r : Rune} {rest lexeme after : List Rune} {t : Token}
  {ts : List Token} {e : Option LexicalError}

/-- In front of the end of a line, the next line begins. -/
theorem Course.behind_newline (h : Course tab s ts e) (hf : s.fresh = false)
    (hr : s.rest = r :: rest)
    (hn : r.isNewline = true) :
    Course tab ⟨true, rest, s.next.after r, s.levels, s.depth⟩ ts e := by
  cases h with
  | finish he => exact absurd (hr.symm.trans he) (by simp)
  | newline _ he _ hm =>
    obtain ⟨rfl, rfl⟩ := List.cons.inj (hr.symm.trans he)
    exact hm
  | line hf' _ _ _ => exact absurd (hf.symm.trans hf') (by simp)
  | lost hf' _ _ => exact absurd (hf.symm.trans hf') (by simp)
  | lexeme _ he hs _ _ =>
    obtain ⟨rfl, -⟩ := List.cons.inj (hr.symm.trans he)
    exact absurd (hn.symm.trans hs) (by simp)
  | fault _ he hs _ =>
    obtain ⟨rfl, -⟩ := List.cons.inj (hr.symm.trans he)
    exact absurd (hn.symm.trans hs) (by simp)

/-- Where a line begins, its indentation is settled. -/
theorem Course.behind_indentation {kinds : List Kind} {levels : List Int64} (h : Course tab s ts e)
    (hf : s.fresh = true) (hr : s.rest = r :: rest)
    (ha : adjust s.levels (widthOf tab s.gap) = some (kinds, levels)) :
    ∃ ts', ts = markersAt s.next kinds ++ ts' ∧
      Course tab ⟨false, r :: rest, s.next, levels, s.depth⟩ ts' e := by
  cases h with
  | finish he => exact absurd (hr.symm.trans he) (by simp)
  | newline hw _ _ _ => exact absurd (hf.symm.trans hw) (by simp)
  | line _ he ha' hm =>
    obtain ⟨rfl, rfl⟩ := List.cons.inj (hr.symm.trans he)
    obtain ⟨rfl, rfl⟩ := Prod.mk.inj (Option.some.inj (ha.symm.trans ha'))
    exact ⟨_, rfl, hm⟩
  | lost _ _ ha' => exact absurd (ha.symm.trans ha') (by simp)
  | lexeme hw _ _ _ _ => exact absurd (hf.symm.trans hw) (by simp)
  | fault hw _ _ _ => exact absurd (hf.symm.trans hw) (by simp)

/-- Where the indentation of a line meets no level, that is the fault. -/
theorem Course.behind_lost (h : Course tab s ts e) (hf : s.fresh = true) (hr : s.rest = r :: rest)
    (ha : adjust s.levels (widthOf tab s.gap) = none) :
    ts = [] ∧ e = some ⟨r.code, s.next, .inconsistentDedent⟩ := by
  cases h with
  | finish he => exact absurd (hr.symm.trans he) (by simp)
  | newline hw _ _ _ => exact absurd (hf.symm.trans hw) (by simp)
  | line _ _ ha' _ => exact absurd (ha.symm.trans ha') (by simp)
  | lost _ he _ =>
    obtain ⟨rfl, -⟩ := List.cons.inj (hr.symm.trans he)
    exact ⟨rfl, rfl⟩
  | lexeme hw _ _ _ _ => exact absurd (hf.symm.trans hw) (by simp)
  | fault hw _ _ _ => exact absurd (hf.symm.trans hw) (by simp)

/-- In front of a lexeme it is read. -/
theorem Course.behind_lexeme (h : Course tab s ts e) (hf : s.fresh = false)
    (hr : s.rest = r :: rest)
    (hn : r.isNewline = false) (hread : readLexeme r rest s.next = .ok (t, lexeme, after)) :
    ∃ ts', ts = t :: ts' ∧
      Course tab ⟨false, after, s.next.afterAll lexeme, s.levels, depthAfter s.depth t.kind⟩
        ts' e := by
  cases h with
  | finish he => exact absurd (hr.symm.trans he) (by simp)
  | newline _ he hn' _ =>
    obtain ⟨rfl, -⟩ := List.cons.inj (hr.symm.trans he)
    exact absurd (hn.symm.trans hn') (by simp)
  | line hf' _ _ _ => exact absurd (hf.symm.trans hf') (by simp)
  | lost hf' _ _ => exact absurd (hf.symm.trans hf') (by simp)
  | lexeme _ he _ hread' hm =>
    obtain ⟨rfl, rfl⟩ := List.cons.inj (hr.symm.trans he)
    obtain ⟨rfl, h2⟩ := Prod.mk.inj (Except.ok.inj (hread.symm.trans hread'))
    obtain ⟨rfl, rfl⟩ := Prod.mk.inj h2
    exact ⟨_, rfl, hm⟩
  | fault _ he _ hread' =>
    obtain ⟨rfl, rfl⟩ := List.cons.inj (hr.symm.trans he)
    exact absurd (hread.symm.trans hread') nofun

/-- In front of a faulty lexeme, that is the fault. -/
theorem Course.behind_fault {fault : LexicalError} (h : Course tab s ts e) (hf : s.fresh = false)
    (hr : s.rest = r :: rest) (hn : r.isNewline = false)
    (hread : readLexeme r rest s.next = .error fault) : ts = [] ∧ e = some fault := by
  cases h with
  | finish he => exact absurd (hr.symm.trans he) (by simp)
  | newline _ he hn' _ =>
    obtain ⟨rfl, -⟩ := List.cons.inj (hr.symm.trans he)
    exact absurd (hn.symm.trans hn') (by simp)
  | line hf' _ _ _ => exact absurd (hf.symm.trans hf') (by simp)
  | lost hf' _ _ => exact absurd (hf.symm.trans hf') (by simp)
  | lexeme _ he _ hread' _ =>
    obtain ⟨rfl, rfl⟩ := List.cons.inj (hr.symm.trans he)
    exact absurd (hread.symm.trans hread') nofun
  | fault _ he _ hread' =>
    obtain ⟨rfl, rfl⟩ := List.cons.inj (hr.symm.trans he)
    exact ⟨rfl, congrArg some (Except.error.inj (hread'.symm.trans hread))⟩

/-- At the end of the source the open levels are closed. -/
theorem Course.behind_end (h : Course tab s ts e) (hr : s.rest = []) :
    ts = markersAt s.next (s.levels.map fun _ => .dedent) ++ [.eofAt s.next] ∧ e = none := by
  cases h with
  | finish _ => exact ⟨rfl, rfl⟩
  | newline _ he _ _ => exact absurd (he.symm.trans hr) (by simp)
  | line _ he _ _ => exact absurd (he.symm.trans hr) (by simp)
  | lost _ he _ => exact absurd (he.symm.trans hr) (by simp)
  | lexeme _ he _ _ _ => exact absurd (he.symm.trans hr) (by simp)
  | fault _ he _ _ => exact absurd (he.symm.trans hr) (by simp)

/-- Behind a gap of white space only a line feed can follow. -/
theorem isNewline_of_spaces {s : Scan} (hs : ∀ r ∈ s.input, r.isSpace = true) {r : Rune}
    {rest : List Rune} (hr : s.rest = r :: rest) : r.isNewline = true := by
  have hspace : r.isSpace = true :=
    hs r (s.gap_append_rest ▸ hr ▸ List.mem_append_right _ List.mem_cons_self)
  cases hn : r.isNewline with
  | true => rfl
  | false =>
    rw [(solid_behind_gap hr (Or.inr hn)).2.2] at hspace
    cases hspace

/-- White space where a line begins is all gap. -/
theorem not_fresh_of_spaces {s : Scan} (hs : ∀ r ∈ s.input, r.isSpace = true) {r : Rune}
    {rest : List Rune} (hr : s.rest = r :: rest) : s.fresh ≠ true := by
  intro hf
  have hn := isNewline_of_spaces hs hr
  rw [(Scan.solid_of_fresh hf hr).1] at hn
  cases hn

/-- White space up to the end of a source: only the open levels are left to close. -/
theorem Course.spaces (h : Course tab s ts e) (hs : ∀ r ∈ s.input, r.isSpace = true) :
    e = none ∧ ∃ pos, ts = markersAt pos (s.levels.map fun _ => .dedent) ++ [.eofAt pos] := by
  induction h with
  | @finish s _ => exact ⟨rfl, s.next, rfl⟩
  | @newline s r rest ts e _ hr _ _ ih =>
    refine ih fun a ha => hs a ?_
    rw [← s.gap_append_rest, hr]
    exact List.mem_append_right _ (List.mem_cons_of_mem r ha)
  | line hf hr _ _ _ => exact absurd hf (not_fresh_of_spaces hs hr)
  | lost hf hr _ => exact absurd hf (not_fresh_of_spaces hs hr)
  | lexeme _ hr hn _ _ _ =>
    rw [isNewline_of_spaces hs hr] at hn
    cases hn
  | fault _ hr hn _ =>
    rw [isNewline_of_spaces hs hr] at hn
    cases hn

end Next

/-! ## The run of a lexer is a course -/

/-- The mode of a lexer that has stopped. -/
def stopMode : Option LexicalError → Mode
  | none => .done
  | some e => .failed e

/-- The lexer stops with more tokens, perhaps at a fault. -/
def StopsWith (l : Lexer) (ts : List Token) (e : Option LexicalError) : Prop :=
  l.stop.pending = l.pending ++ ts ∧ l.stop.mode = stopMode e

theorem StopsWith.of_stop {l l' : Lexer} {new ts : List Token} {e : Option LexicalError}
    (hs : l.stop = l'.stop) (hp : l'.pending = l.pending ++ new) (h : l'.StopsWith ts e) :
    l.StopsWith (new ++ ts) e := by
  obtain ⟨hpend, hmode⟩ := h
  refine ⟨?_, by rw [hs, hmode]⟩
  rw [hs, hpend, hp, List.append_assoc]

theorem StopsWith.of_silent {l l' : Lexer} {ts : List Token} {e : Option LexicalError}
    (hs : l.stop = l'.stop) (hp : l'.pending = l.pending) (h : l'.StopsWith ts e) :
    l.StopsWith ts e :=
  .of_stop hs (hp.trans (List.append_nil _).symm) h

/-- A lexer that has stopped finds nothing more. -/
theorem StopsWith.of_stopped {l l' : Lexer} {new : List Token} {e : Option LexicalError}
    (hs : l.stop = l'.stop) (hp : l'.pending = l.pending ++ new) (hm : l'.mode = stopMode e) :
    l.StopsWith new e := by
  have hi : l'.mode.isActive = false := by rw [hm]; cases e <;> rfl
  exact ⟨by rw [hs, stop_of_inactive hi, hp], by rw [hs, stop_of_inactive hi, hm]⟩

/-- What a lexer that begins a line or stands between two lexemes has before it. -/
def scanOf (l : Lexer) (fresh : Bool) : Scan :=
  ⟨fresh, l.input, l.pos, l.levels, l.depth⟩

theorem finish_stops {l : Lexer} (hm : l.mode = .finish) :
    l.StopsWith (markersAt l.pos (l.levels.map fun _ => .dedent) ++ [.eofAt l.pos]) none := by
  have hs : l.stop = l.close.stop := by
    rw [stop_of_active (by rw [hm]; rfl), step, hm]
  exact .of_stopped hs (by simp [close, markersAt, List.map_const']) rfl

theorem step_lineStart {l : Lexer} (hm : l.mode = .lineStart) :
    l.step =
      match (l.scanOf true).rest with
      | [] => { l with input := [], pos := (l.scanOf true).next, mode := .finish }
      | r :: rest =>
        { l with input := r :: rest, pos := (l.scanOf true).next }.settle
          (widthOf l.tab (l.scanOf true).gap) r := by
  rw [step, hm]
  simp only [startLine, scanOf, Scan.rest, Scan.next, Scan.gap, Bool.true_or]
  cases splitGap true false l.input with
  | mk gap rest => cases rest <;> rfl

theorem step_between {l : Lexer} (hm : l.mode = .between) :
    l.step =
      match (l.scanOf false).rest with
      | [] => { l with input := [], pos := (l.scanOf false).next, mode := .finish }
      | r :: rest =>
        { l with
          input := rest
          pos := (l.scanOf false).next.after r
          mode :=
            if r.isNewline then .lineStart else .lexeme (classOf r) r (l.scanOf false).next } := by
  rw [step, hm]
  simp only [startLexeme, scanOf, Scan.rest, Scan.next, Scan.gap, Bool.false_or]
  rfl

/-- What the run from some place on is. -/
def Runs (l : Lexer) (fresh : Bool) : Prop :=
  ∃ ts e, Course l.tab (l.scanOf fresh) ts e ∧ l.StopsWith ts e

/-- The run from the start of a line, given the run behind its indentation. -/
theorem runs_lineStart {l : Lexer} (hm : l.mode = .lineStart)
    (ih : ∀ l' : Lexer, l'.work < l.work → l'.mode = .between → l'.Runs false) : l.Runs true := by
  have hwork := l.step_work_lt (by rw [hm]; rfl)
  have hstop : l.stop = l.step.stop := stop_of_active (by rw [hm]; rfl)
  rw [step_lineStart hm] at hwork hstop
  cases hr : (l.scanOf true).rest with
  | nil =>
    rw [hr] at hstop
    exact ⟨_, _, .finish hr, .of_silent hstop rfl (finish_stops rfl)⟩
  | cons r rest =>
    simp only [hr, settle_eq] at hwork hstop
    cases ha : adjust l.levels (widthOf l.tab (l.scanOf true).gap) with
    | none =>
      rw [ha] at hstop
      exact ⟨_, _, .lost rfl hr ha, .of_stopped hstop (List.append_nil _).symm rfl⟩
    | some x =>
      obtain ⟨kinds, levels⟩ := x
      rw [ha] at hwork hstop
      obtain ⟨ts, e, hc, hs⟩ := ih _ hwork rfl
      exact ⟨_, e, .line rfl hr ha hc, .of_stop hstop rfl hs⟩

/-- The run from between two lexemes, given the run behind the next one or from the next line. -/
theorem runs_between {l : Lexer} (hm : l.mode = .between)
    (ih : ∀ l' : Lexer, l'.work < l.work →
      (l'.mode = .lineStart → l'.Runs true) ∧ (l'.mode = .between → l'.Runs false)) :
    l.Runs false := by
  have hwork := l.step_work_lt (by rw [hm]; rfl)
  have hstop : l.stop = l.step.stop := stop_of_active (by rw [hm]; rfl)
  rw [step_between hm] at hwork hstop
  cases hr : (l.scanOf false).rest with
  | nil =>
    rw [hr] at hstop
    exact ⟨_, _, .finish hr, .of_silent hstop rfl (finish_stops rfl)⟩
  | cons r rest =>
    rw [hr] at hwork hstop
    cases hn : r.isNewline with
    | true =>
      simp only [hn, if_true] at hwork hstop
      obtain ⟨ts, e, hc, hs⟩ := (ih _ hwork).1 rfl
      exact ⟨ts, e, .newline rfl hr hn hc, .of_silent hstop rfl hs⟩
    | false =>
      simp only [hn, Bool.false_eq_true, if_false] at hwork hstop
      generalize hl : ({ l with
        input := rest
        pos := (l.scanOf false).next.after r
        mode := .lexeme (classOf r) r (l.scanOf false).next } : Lexer) = l' at hwork hstop
      have hm' : l'.mode = .lexeme (classOf r) r (l.scanOf false).next := by rw [← hl]
      have hin : l'.input = rest := by rw [← hl]
      have hread := step_lexeme hm' (by rw [← hl])
      have hwork' := l'.step_work_lt (by rw [hm']; rfl)
      have hstop' : l'.stop = l'.step.stop := stop_of_active (by rw [hm']; rfl)
      rw [hin] at hread
      cases hl' : readLexeme r rest (l.scanOf false).next with
      | error e =>
        rw [hl'] at hread
        refine ⟨[], some e, .fault rfl hr hn hl', .of_stopped (hstop.trans hstop') ?_ hread.1⟩
        rw [hread.2, ← hl, List.append_nil]
      | ok x =>
        obtain ⟨t, lexeme, after⟩ := x
        rw [hl'] at hread
        simp only at hread
        obtain ⟨ts, e, hc, hs⟩ := (ih l'.step (by omega)).2 (by rw [hread])
        rw [hread, ← hl] at hc
        refine ⟨t :: ts, e, .lexeme rfl hr hn hl' hc, ?_⟩
        refine StopsWith.of_stop (hstop.trans hstop')
          (show l'.step.pending = l.pending ++ [t] from ?_) hs
        rw [hread, ← hl]

/-- **The run of a lexer is a course.** -/
theorem course_stop (l : Lexer) :
    (l.mode = .lineStart → l.Runs true) ∧ (l.mode = .between → l.Runs false) := by
  induction hw : l.work using Nat.strong_induction_on generalizing l with
  | _ n ih =>
    subst hw
    exact ⟨fun hm => runs_lineStart hm fun l' hlt => (ih _ hlt l' rfl).2,
      fun hm => runs_between hm fun l' hlt => ih _ hlt l' rfl⟩

/-! ## What is delivered -/

/-- The tokens that are delivered in front of the end of the source or in front of a fault, and the
fault if there is one. -/
def delivered (l : Lexer) : List Token × Option LexicalError :=
  match _h : l.next with
  | (.error e, _) => ([], some e)
  | (.ok t, l') =>
    if t.kind = .eof then ([], none)
    else
      let (ts, e) := l'.delivered
      (t :: ts, e)
termination_by l.load
decreasing_by
  rename_i ht
  exact next_load_lt _h ht

/-- The fault that a mode stands for. -/
def faultOf : Mode → Option LexicalError
  | .failed e => some e
  | _ => none

/-- Delivering the tokens one at a time gives those that a run to the stop gives, up to the end of
the source. -/
theorem delivered_eq (l : Lexer) (h : Tidy l) :
    l.delivered = (streamOf l.stop.pending, faultOf l.stop.mode) := by
  have hfill := h.fill
  rw [← l.fill_stop]
  fun_induction delivered l with
  | case1 l e l' hn =>
    rcases next_cases hn with ⟨t, ht, -⟩ | ⟨hl, hp, ⟨e', he, hm⟩ | ⟨pos, he, -⟩⟩
    · cases ht
    · obtain rfl := Except.error.inj he
      rw [hl, stop_of_inactive (by rw [hm]; rfl), hp, hm]
      rfl
    · cases he
  | case2 l t l' hn hk =>
    obtain ⟨hm, hp⟩ := next_end hfill hn hk
    rw [stop_of_inactive (by rw [hm]; rfl), hm, hp]
    simp [streamOf, hk, faultOf]
  | case3 l t l' hn hk ts e hr ih =>
    obtain ⟨hl, hl'⟩ := next_token hfill hn hk
    have hrest := ih hl' hl'.fill
    rw [fill_stop, hr] at hrest
    obtain ⟨rfl, rfl⟩ := Prod.mk.inj hrest
    rw [hl, stop_after]
    simp [streamOf, after, hk]

end Lexer

open Lexer

/-- **What is delivered for a source, and its tokens, are what a course finds.** -/
theorem course_source (tab : TabWidth) (src : Text) :
    ∃ ts e, Course tab (Scan.ofSource src) ts e ∧
      (ofSource tab src).delivered = (streamOf ts, e) ∧
      tokenize tab src = e.elim (.ok ts) .error := by
  obtain ⟨ts, e, hc, hp, hm⟩ := (course_stop (ofSource tab src)).1 rfl
  rw [show (ofSource tab src).pending ++ ts = ts from rfl] at hp
  refine ⟨ts, e, hc, ?_, ?_⟩
  · rw [delivered_eq _ (tidy_ofSource tab src), hp, hm]
    cases e <;> rfl
  · rw [tokenize_eq, outcome, hm, hp]
    cases e <;> rfl

/-- The tokens of a source are what a course finds that meets no fault. -/
theorem course_of_tokenize {tab : TabWidth} {src : Text} {ts : List Token}
    (h : tokenize tab src = .ok ts) : Course tab (Scan.ofSource src) ts none := by
  obtain ⟨ts', e, hc, -, htok⟩ := course_source tab src
  rw [h] at htok
  cases e with
  | some e => cases htok
  | none =>
    rw [Except.ok.inj htok]
    exact hc

end Offside
