import Offside.Proofs.Lexer.Continue

/-!
# Flaws of a source

The four lexical errors of the specification (4.1 and 7), told from the source alone.

What is wrong with a source can be told at each of its runes, from what stands in front of it and
what stands behind it. A rune is judged by its context: its line up to there, the parentheses and
the indentations that are open. Four things are flaws: a line that stands left of the innermost open
indentation and on no other, a run of digits that exceeds the greatest word, an exclamation mark
without an equals sign, and a rune that begins nothing.

* `Context` is what stands in front of a rune. `Context.after` is the context behind it, so a
  context is computed by going over the source rune by rune.
* `Context.Commented`, `Context.Blank` and `Context.Leads` say that a rune stands in a comment,
  behind white space only, or first on a logical line.
* `Flaw` has one constructor for each of the four.
* `Judged` judges some runes one after another, up to the first flaw.

Nothing here refers to the state of a lexer. That the flaw a lexer stops at is the first one is told
by going over its course with the context of each place: gaps have no flaws (`Context.skips_gap`),
and of a lexeme only the first rune can have one. The second half of the module has these facts;
they are put together in `Proofs/Lexer/Leftmost`.

Results:
* `adjust_eq_none_iff`: levels cannot be adjusted to a width that is below the innermost one and on
  none of them.
* `Flaw.unique`: at one place there are at most two flaws, one of them of the indentation.
* `Context.behind_gap`: what is known of the context behind a gap.
* `readsAs`: what can be read in front of a rune is a word, a number, an operator, or nothing.
* `Context.Front.judged`, `Context.Front.blamed`: a lexeme has no flaw, and a faulty lexeme has the
  flaw that it is refused for.
-/

namespace Offside

namespace Lexer

/-! ## The context of a rune -/

/-- **What stands in front of a rune**: its line up to there, and what is open. -/
structure Context where
  /-- The runes between the last line feed and the rune. -/
  line : List Rune
  /-- The number of open parentheses. -/
  depth : Nat
  /-- The widths of the open indentations, the innermost first. The width zero is left out. -/
  levels : List Int64

/-- The number of open parentheses behind a rune. -/
def parens (depth : Nat) (r : Rune) : Nat :=
  if r.is '(' then depth + 1 else if r.is ')' then depth - 1 else depth

/-- The open indentations behind the beginning of a line of a given width. -/
def nest (levels : List Int64) (width : Int64) : List Int64 :=
  if levels.headD 0 < width then width :: levels else kept levels width

namespace Context

/-- The context of the first rune of a source. -/
def start : Context :=
  ⟨[], 0, []⟩

/-- The rune stands in a comment. -/
def Commented (c : Context) : Prop :=
  .char '#' ∈ c.line

instance (c : Context) : Decidable c.Commented :=
  inferInstanceAs (Decidable (_ ∈ c.line))

/-- Only white space stands in front of the rune on its line. -/
def Blank (c : Context) : Prop :=
  ∀ a ∈ c.line, a.isSpace = true

instance (c : Context) : Decidable c.Blank :=
  inferInstanceAs (Decidable (∀ a ∈ c.line, a.isSpace = true))

/-- The rune is the first one of a logical line. -/
def Leads (c : Context) (r : Rune) : Prop :=
  Solid r ∧ c.Blank ∧ c.depth = 0

instance (c : Context) (r : Rune) : Decidable (c.Leads r) :=
  inferInstanceAs (Decidable (_ ∧ _ ∧ c.depth = 0))

/-- The width of the line up to the rune. -/
def width (tab : TabWidth) (c : Context) : Int64 :=
  widthOf tab c.line

/-- The context behind a rune. -/
def after (tab : TabWidth) (c : Context) (r : Rune) : Context :=
  if r.isNewline then { c with line := [] }
  else
    { line := c.line ++ [r]
      depth := if c.Commented then c.depth else parens c.depth r
      levels := if c.Leads r then nest c.levels (c.width tab) else c.levels }

/-- The context behind a stretch of runes. -/
def afterAll (tab : TabWidth) (c : Context) (rs : List Rune) : Context :=
  rs.foldl (after tab) c

@[simp] theorem afterAll_nil (tab : TabWidth) (c : Context) : c.afterAll tab [] = c := rfl

@[simp] theorem afterAll_cons (tab : TabWidth) (c : Context) (r : Rune) (rs : List Rune) :
    c.afterAll tab (r :: rs) = (c.after tab r).afterAll tab rs := rfl

end Context

/-! ## Flaws -/

/-- The characters of operators. -/
def signs : List Char :=
  ['+', '-', '*', '/', '=', '<', '>', '(', ')', ',', ':']

/-- A rune that may stand outside comments. -/
def IsLegal (r : Rune) : Prop :=
  r.isSpace = true ∨ r.isLetter = true ∨ r.isDigit = true ∨
    ∃ c ∈ '_' :: '#' :: '!' :: signs, r = .char c

/-- **A flaw at a rune**, in its context and with what stands behind it. -/
inductive Flaw (tab : TabWidth) (c : Context) (r : Rune) (back : List Rune) :
    LexicalError.Reason → Prop where
  /-- A logical line that stands left of the innermost open indentation and on none of the others.
  -/
  | dedent (leads : c.Leads r) (shallower : c.width tab < c.levels.headD 0)
      (off : c.width tab ∉ 0 :: c.levels) : Flaw tab c r back .inconsistentDedent
  /-- A run of digits, as long as possible and not part of a name, whose number is too large. -/
  | number (bare : ¬ c.Commented) (digit : r.isDigit = true)
      (alone : ∀ a ∈ c.line.getLast?, a.isNamePart = false)
      (exceeds : 2 ^ 63 - 1 < decimal (Rune.encode (r :: back.takeWhile Rune.isDigit))) :
      Flaw tab c r back (.outOfRange (Rune.encode (r :: back.takeWhile Rune.isDigit)))
  /-- An exclamation mark without an equals sign right behind it. -/
  | bang (bare : ¬ c.Commented) (mark : r = .char '!') (lone : ∀ a ∈ back.head?, a ≠ .char '=') :
      Flaw tab c r back .loneBang
  /-- A rune that may not stand outside comments. -/
  | illegal (bare : ¬ c.Commented) (illegal : ¬ IsLegal r) : Flaw tab c r back (.illegal r)

section Flaw

variable {tab : TabWidth} {c : Context} {r : Rune} {back : List Rune}
  {reason other : LexicalError.Reason}

theorem isLegal_of_char {ch : Char} (h : ch ∈ '_' :: '#' :: '!' :: signs) : IsLegal (.char ch) :=
  Or.inr (Or.inr (Or.inr ⟨ch, h, rfl⟩))

theorem isLegal_of_isNamePart (h : r.isNamePart = true) : IsLegal r := by
  rw [Rune.isNamePart, Rune.isNameStart, Bool.or_eq_true, Bool.or_eq_true, Rune.is, beq_iff_eq] at h
  rcases h with (rfl | h) | h
  · exact isLegal_of_char (by decide)
  · exact Or.inr (Or.inl h)
  · exact Or.inr (Or.inr (Or.inl h))

/-- Gaps are made of legal runes. -/
theorem solid_of_illegal (h : ¬ IsLegal r) : Solid r := by
  have hspace : r.isSpace = false := by
    rw [Bool.eq_false_iff]
    exact fun hs => h (Or.inl hs)
  refine ⟨?_, ?_, hspace⟩
  · rw [Bool.eq_false_iff]
    exact fun hn => h (Or.inl (isSpace_of_isNewline hn))
  · rw [Bool.eq_false_iff, Rune.is, ne_eq, beq_iff_eq]
    rintro rfl
    exact h (isLegal_of_char (by decide))

theorem Context.Leads.bare (h : c.Leads r) : ¬ c.Commented :=
  fun hc => absurd (h.2.1 _ hc) (by decide)

theorem Context.not_leads_of_mem {a : Rune} (h : a ∈ c.line) (ha : a.isSpace = false) :
    ¬ c.Leads r :=
  fun hl => absurd ((hl.2.1 a h).symm.trans ha) nofun

/-- There are no flaws in comments. -/
theorem Flaw.bare (h : Flaw tab c r back reason) : ¬ c.Commented := by
  cases h with
  | dedent leads _ _ => exact leads.bare
  | number bare _ _ _ => exact bare
  | bang bare _ _ => exact bare
  | illegal bare _ => exact bare

/-- There are no flaws in gaps. -/
theorem Flaw.solid (h : Flaw tab c r back reason) : Solid r := by
  cases h with
  | dedent leads _ _ => exact leads.1
  | number _ digit _ _ => exact solid_of_isDigit digit
  | bang _ mark _ =>
    rw [mark]
    decide
  | illegal _ illegal => exact solid_of_illegal illegal

/-- **One place has one flaw**, but for one of the indentation. -/
theorem Flaw.unique (h : Flaw tab c r back reason) (h' : Flaw tab c r back other)
    (hr : reason ≠ .inconsistentDedent) (ho : other ≠ .inconsistentDedent) : other = reason := by
  have hmark : (Rune.char '!').isDigit = false ∧ IsLegal (.char '!') :=
    ⟨by decide, isLegal_of_char (by decide)⟩
  cases h with
  | dedent => exact absurd rfl hr
  | number _ digit _ _ =>
    cases h' with
    | dedent => exact absurd rfl ho
    | number => rfl
    | bang _ mark _ =>
      rw [mark, hmark.1] at digit
      cases digit
    | illegal _ illegal => exact absurd (Or.inr (Or.inr (Or.inl digit))) illegal
  | bang _ mark _ =>
    cases h' with
    | dedent => exact absurd rfl ho
    | number _ digit _ _ =>
      rw [mark, hmark.1] at digit
      cases digit
    | bang => rfl
    | illegal _ illegal => exact absurd (mark ▸ hmark.2) illegal
  | illegal _ illegal =>
    cases h' with
    | dedent => exact absurd rfl ho
    | number _ digit _ _ => exact absurd (Or.inr (Or.inr (Or.inl digit))) illegal
    | bang _ mark _ => exact absurd (mark ▸ hmark.2) illegal
    | illegal => rfl

end Flaw

/-! ## Levels -/

section Levels

variable {levels levels' : List Int64} {width : Int64} {kinds : List Kind}

/-- What is kept of rising levels begins with the width if and only if the width is one of them. -/
theorem headD_kept_iff (h : Rising levels) :
    (kept levels width).headD 0 = width ↔ width ∈ levels ++ [0] := by
  induction levels with
  | nil => simp [kept, eq_comm]
  | cons level below ih =>
    obtain ⟨hbelow, hrising⟩ := List.pairwise_cons.mp h
    by_cases hw : width < level
    · have hne : width ≠ level := by
        rintro rfl
        exact Int64.lt_irrefl hw
      rw [show kept (level :: below) width = kept below width from
        List.dropWhile_cons_of_pos (by simpa using hw), ih hrising, List.cons_append, List.mem_cons]
      simp [hne]
    · rw [show kept (level :: below) width = level :: below from
        List.dropWhile_cons_of_neg (by simpa using hw), List.cons_append, List.mem_cons]
      refine ⟨fun hl => Or.inl hl.symm, fun hm => ?_⟩
      rcases hm with rfl | hm
      · rfl
      · exact absurd (hbelow width hm) hw

/-- **Levels cannot be adjusted to a width that is below the innermost one and on none of them.** -/
theorem adjust_eq_none_iff (h : Rising levels) :
    adjust levels width = none ↔ width < levels.headD 0 ∧ width ∉ 0 :: levels := by
  have hmem : width ∈ levels ++ [0] ↔ width ∈ 0 :: levels := by simp [or_comm]
  have htop : levels.headD 0 ∈ 0 :: levels := by cases levels <;> simp
  rw [adjust, popTo_eq, ← hmem, ← headD_kept_iff h]
  by_cases hw : levels.headD 0 < width
  · rw [if_pos hw]
    exact iff_of_false nofun fun h => Int64.lt_asymm hw h.1
  · rw [if_neg hw]
    by_cases hk : (kept levels width).headD 0 = width
    · rw [if_pos hk]
      exact iff_of_false nofun fun h => h.2 hk
    · have hne : width ≠ levels.headD 0 := by
        intro he
        rw [headD_kept_iff h, hmem] at hk
        exact hk (he ▸ htop)
      rw [if_neg hk]
      exact iff_of_true rfl ⟨Int64.lt_of_le_of_ne (Int64.not_lt.mp hw) hne, hk⟩

/-- The levels that are open then. -/
theorem nest_of_adjust (h : adjust levels width = some (kinds, levels')) :
    nest levels width = levels' := by
  rw [adjust, popTo_eq] at h
  rw [nest]
  split at h
  · next hw => rw [if_pos hw, (Prod.mk.inj (Option.some.inj h)).2]
  · next hw =>
    split at h
    · rw [if_neg hw, (Prod.mk.inj (Option.some.inj h)).2]
    · cases h

end Levels

/-! ## Reading on -/

section Context

variable {tab : TabWidth} {c : Context} {r : Rune} {rest : List Rune}

theorem Context.after_newline (h : r.isNewline = true) : c.after tab r = { c with line := [] } :=
  if_pos h

theorem Context.after_other (h : r.isNewline = false) : c.after tab r =
    { line := c.line ++ [r]
      depth := if c.Commented then c.depth else parens c.depth r
      levels := if c.Leads r then nest c.levels (c.width tab) else c.levels } :=
  if_neg (by simp [h])

theorem not_paren_of_not_solid (h : ¬ Solid r) : r.is '(' = false ∧ r.is ')' = false := by
  have hne {ch : Char} (hs : Solid (.char ch)) : r.is ch = false := by
    rw [Bool.eq_false_iff, Rune.is, ne_eq, beq_iff_eq]
    rintro rfl
    exact h hs
  exact ⟨hne (by decide), hne (by decide)⟩

/-- A rune of a comment or of a gap. -/
def Context.Skipped (c : Context) (r : Rune) : Prop :=
  c.Commented ∨ ¬ Solid r

/-- Such a rune opens and closes nothing. -/
theorem Context.Skipped.after (h : c.Skipped r) :
    (c.after tab r).depth = c.depth ∧ (c.after tab r).levels = c.levels := by
  cases hn : r.isNewline with
  | true =>
    rw [after_newline hn]
    exact ⟨rfl, rfl⟩
  | false =>
    rw [after_other hn]
    have hlead : ¬ c.Leads r := fun hl => h.elim hl.bare (absurd hl.1)
    refine ⟨?_, if_neg hlead⟩
    split
    · rfl
    · next hc =>
      obtain ⟨hopen, hclose⟩ := not_paren_of_not_solid (h.resolve_left hc)
      simp [parens, hopen, hclose]

/-- It has no flaw. -/
theorem Context.Skipped.sound (h : c.Skipped r) {back : List Rune}
    {reason : LexicalError.Reason} : ¬ Flaw tab c r back reason :=
  fun hf => h.elim hf.bare (absurd hf.solid)

/-- The width goes on as the width of a gap does. -/
theorem Context.width_after (c : Context) (r : Rune) :
    (c.after tab r).width tab = widen tab (c.width tab) r := by
  cases hn : r.isNewline with
  | true =>
    rw [after_newline hn]
    rw [Rune.isNewline, Rune.is, beq_iff_eq] at hn
    rw [hn]
    rfl
  | false => rw [after_other hn, width, width, widthOf, widthOf, List.foldl_concat]

theorem Context.width_afterAll (c : Context) (rs : List Rune) :
    (c.afterAll tab rs).width tab = rs.foldl (widen tab) (c.width tab) := by
  induction rs generalizing c with
  | nil => rfl
  | cons r rs ih => rw [afterAll_cons, ih, width_after, List.foldl_cons]

/-- All runes of a stretch are skipped. -/
def Context.Skips (tab : TabWidth) : Context → List Rune → Prop
  | _, [] => True
  | c, r :: rs => c.Skipped r ∧ Skips tab (c.after tab r) rs

theorem Context.Skips.afterAll {rs : List Rune} (h : c.Skips tab rs) :
    (c.afterAll tab rs).depth = c.depth ∧ (c.afterAll tab rs).levels = c.levels := by
  induction rs generalizing c with
  | nil => exact ⟨rfl, rfl⟩
  | cons r rs ih =>
    obtain ⟨hdepth, hlevels⟩ := ih h.2
    rw [afterAll_cons, hdepth, hlevels]
    exact h.1.after

theorem Context.line_of_no_newline {rs : List Rune} (h : ∀ r ∈ rs, r.isNewline = false) :
    (c.afterAll tab rs).line = c.line ++ rs := by
  induction rs generalizing c with
  | nil => exact (List.append_nil _).symm
  | cons r rs ih =>
    obtain ⟨hr, hrs⟩ := List.forall_mem_cons.mp h
    rw [afterAll_cons, ih hrs, after_other hr, List.append_assoc]
    rfl

theorem Context.commented_after (tab : TabWidth) (h : r.isNewline = false) :
    (c.after tab r).Commented ↔ c.Commented ∨ r = .char '#' := by
  rw [Commented, after_other h, List.mem_append, List.mem_singleton, eq_comm]
  rfl

/-- **A gap is skipped.** -/
theorem Context.skips_gap {acrossLines inComment : Bool} {rs : List Rune}
    (hc : inComment = true ↔ c.Commented) : c.Skips tab (splitGap acrossLines inComment rs).1 := by
  induction rs generalizing c inComment with
  | nil => trivial
  | cons r rs ih =>
    unfold splitGap
    split
    · next hn =>
      cases acrossLines with
      | false => trivial
      | true =>
        refine ⟨Or.inr fun hs => absurd hn (ne_true_of_eq_false hs.1), ih ?_⟩
        rw [after_newline hn, Commented]
        simp
    · next hn =>
      have hnext := commented_after (c := c) tab (Bool.eq_false_iff.mpr hn)
      split
      · next hcomment =>
        rw [Bool.or_eq_true, hc] at hcomment
        refine ⟨hcomment.imp_right fun hr hs => absurd hr (ne_true_of_eq_false hs.2.1), ih ?_⟩
        rw [hnext]
        simpa [Rune.is] using hcomment
      · next hcomment =>
        rw [Bool.or_eq_true, hc, not_or] at hcomment
        split
        · next hspace =>
          refine ⟨Or.inr fun hs => absurd hspace (ne_true_of_eq_false hs.2.2), ih ?_⟩
          rw [hnext]
          simpa [Rune.is] using hcomment
        · trivial

/-- What is known behind a gap, in front of a lexeme: no comment goes on there, only white space
stands on the line if it did so before, and a name that ends there has ended in front of the gap. -/
structure Context.Behind (tab : TabWidth) (c : Context) (inComment : Bool) (gap : List Rune) :
    Prop where
  bare : ¬ (c.afterAll tab gap).Commented
  blank : (inComment = false → c.Blank) → (c.afterAll tab gap).Blank
  apart : ∀ a ∈ (c.afterAll tab gap).line.getLast?, a.isNamePart = true → gap = []

theorem Context.Behind.cons {inComment inComment' : Bool} {gap : List Rune}
    (h : (c.after tab r).Behind tab inComment' gap)
    (hblank : (inComment = false → c.Blank) → inComment' = false → (c.after tab r).Blank)
    (hlast : ¬ (c.after tab r).Commented →
      ∀ a ∈ (c.after tab r).line.getLast?, a.isNamePart = false) :
    c.Behind tab inComment (r :: gap) where
  bare := h.bare
  blank := fun hb => h.blank (hblank hb)
  apart := by
    intro a ha hp
    have hgap := h.apart a ha hp
    subst hgap
    exact absurd (hp.symm.trans (hlast h.bare a ha)) nofun

/-- **What is known behind a gap.** -/
theorem Context.behind_gap {acrossLines inComment : Bool} {rs : List Rune}
    (hc : inComment = true ↔ c.Commented)
    (hr : (splitGap acrossLines inComment rs).2 = r :: rest) (hn : r.isNewline = false) :
    c.Behind tab inComment (splitGap acrossLines inComment rs).1 := by
  induction rs generalizing c inComment with
  | nil => cases hr
  | cons a rs ih =>
    unfold splitGap at hr ⊢
    split
    · next ha =>
      rw [if_pos ha] at hr
      cases acrossLines with
      | false =>
        obtain ⟨rfl, -⟩ := List.cons.inj hr
        exact absurd ha (ne_true_of_eq_false hn)
      | true =>
        have hline : (c.after tab a).line = [] := by rw [after_newline ha]
        refine (ih ?_ hr).cons (fun _ _ => ?_) fun _ => ?_
        · simp [Commented, hline]
        · simp [Blank, hline]
        · simp [hline]
    · next ha =>
      rw [if_neg ha] at hr
      have hnext := commented_after (c := c) tab (Bool.eq_false_iff.mpr ha)
      have hline : (c.after tab a).line = c.line ++ [a] := by
        rw [after_other (Bool.eq_false_iff.mpr ha)]
      split
      · next hcomment =>
        rw [if_pos hcomment] at hr
        have hin : (c.after tab a).Commented := by
          rw [hnext]
          simpa [hc, Rune.is] using hcomment
        exact (ih (iff_of_true rfl hin) hr).cons (fun _ h => absurd h.symm Bool.false_ne_true)
          (absurd hin)
      · next hcomment =>
        rw [if_neg hcomment] at hr
        have hout : inComment = false ∧ a.is '#' = false := by simpa using hcomment
        split
        · next hspace =>
          rw [if_pos hspace] at hr
          refine (ih ?_ hr).cons (fun hb _ b hmem => ?_) fun _ b hb => ?_
          · rw [hnext]
            simpa [hc, Rune.is] using hcomment
          · rw [hline, List.mem_append, List.mem_singleton] at hmem
            rcases hmem with hmem | rfl
            · exact hb hout.1 b hmem
            · exact hspace
          · rw [hline, List.getLast?_concat] at hb
            obtain rfl := Option.some.inj hb
            rw [Bool.eq_false_iff]
            exact fun hp => absurd hspace (ne_true_of_eq_false (solid_of_isNamePart hp).2.2)
        · next hspace =>
          refine ⟨?_, fun hb => hb hout.1, fun _ _ _ => rfl⟩
          rw [afterAll_nil, ← hc, hout.1]
          exact Bool.false_ne_true

end Context

/-! ## Lexemes -/

/-- **What can be read in front of a rune**: a word, a number, or an operator of two runes or of
one, or nothing. -/
inductive ReadsAs (r : Rune) (rest : List Rune) (pos : Position) :
    Except LexicalError (Token × List Rune × List Rune) → Prop where
  | word (starts : r.isNameStart = true) :
      ReadsAs r rest pos (.ok
        (.plain (wordKind (Rune.encode (r :: rest.takeWhile Rune.isNamePart)))
          (Rune.encode (r :: rest.takeWhile Rune.isNamePart)) pos,
        r :: rest.takeWhile Rune.isNamePart, rest.dropWhile Rune.isNamePart))
  | number {t : Token} (digit : r.isDigit = true) (kind : t.kind = .number)
      (fits : decimal (Rune.encode (r :: rest.takeWhile Rune.isDigit)) ≤ 2 ^ 63 - 1) :
      ReadsAs r rest pos (.ok (t, r :: rest.takeWhile Rune.isDigit, rest.dropWhile Rune.isDigit))
  | pair {kind : Kind} {after : List Rune} (pairs : pairKind? r = some kind)
      (equals : rest = .char '=' :: after) :
      ReadsAs r rest pos
        (.ok (.plain kind (Rune.encode [r, .char '=']) pos, [r, .char '='], after))
  | single {kind : Kind} (mark : r ≠ .char '!') (known : operatorKind? r = some kind) :
      ReadsAs r rest pos (.ok (.plain kind (Rune.encode [r]) pos, [r], rest))
  | tooLarge (digit : r.isDigit = true)
      (exceeds : 2 ^ 63 - 1 < decimal (Rune.encode (r :: rest.takeWhile Rune.isDigit))) :
      ReadsAs r rest pos
        (.error ⟨r.code, pos, .outOfRange (Rune.encode (r :: rest.takeWhile Rune.isDigit))⟩)
  | loneBang (mark : r = .char '!') (lone : ∀ a ∈ rest.head?, a ≠ .char '=') :
      ReadsAs r rest pos (.error ⟨r.code, pos, .loneBang⟩)
  | unknown (digit : r.isDigit = false) (starts : r.isNameStart = false) (mark : r ≠ .char '!')
      (unknown : operatorKind? r = none) : ReadsAs r rest pos (.error ⟨r.code, pos, .illegal r⟩)

theorem readsAs (r : Rune) (rest : List Rune) (pos : Position) :
    ReadsAs r rest pos (readLexeme r rest pos) := by
  unfold readLexeme
  cases hd : r.isDigit with
  | true =>
    have hclass : classOf r = .number := if_pos hd
    rw [hclass]
    dsimp only
    by_cases hle : decimal (Rune.encode (r :: rest.takeWhile Rune.isDigit)) ≤ Word.greatest
    · rw [numberToken, digitsValue_eq, if_pos hle]
      exact .number hd rfl hle
    · rw [numberToken, digitsValue_eq, if_neg hle]
      exact .tooLarge hd (Nat.lt_of_not_le hle)
  | false =>
    cases hs : r.isNameStart with
    | true =>
      have hclass : classOf r = .word := by simp [classOf, hd, hs]
      rw [hclass]
      exact .word hs
    | false =>
      have hclass : classOf r = .operator := by simp [classOf, hd, hs]
      rw [hclass]
      dsimp only
      by_cases hpair : ∃ k, pairKind? r = some k ∧ ∃ after, rest = .char '=' :: after
      · obtain ⟨k, hk, after, rfl⟩ := hpair
        rw [readOperator_pair hk]
        exact .pair hk rfl
      · rw [readOperator_single pos fun k hk after hr => hpair ⟨k, hk, after, hr⟩]
        by_cases hbang : r = .char '!'
        · subst hbang
          refine .loneBang rfl fun a ha he => hpair ⟨.unequal, rfl, rest.tail, ?_⟩
          obtain ⟨after, rfl⟩ := List.head?_eq_some_iff.mp ha
          rw [he, List.tail_cons]
        · rw [if_neg (by simpa [Rune.is] using hbang)]
          cases hk : operatorKind? r with
          | none => exact .unknown hd hs hbang hk
          | some k => exact .single hbang hk

/-- The characters of operators are those that have a kind. -/
theorem operatorKind?_isSome_iff (r : Rune) :
    (operatorKind? r).isSome = true ↔ ∃ c ∈ signs, r = .char c := by
  constructor
  · intro h
    unfold operatorKind? at h
    split at h
    all_goals first | exact ⟨_, by decide, rfl⟩ | cases h
  · rintro ⟨c, hc, rfl⟩
    have hall : ∀ c ∈ signs, (operatorKind? (.char c)).isSome = true :=
      List.all_eq_true.mp (by decide)
    exact hall c hc

theorem parens_of_operatorKind? {r : Rune} {kind : Kind} (h : operatorKind? r = some kind)
    (depth : Nat) : parens depth r = depthAfter depth kind := by
  unfold operatorKind? at h
  split at h <;> cases h <;> rfl

theorem pairKind?_cases {r : Rune} {kind : Kind} (h : pairKind? r = some kind) :
    r = .char '=' ∧ kind = .equal ∨ r = .char '!' ∧ kind = .unequal := by
  unfold pairKind? at h
  split at h <;> cases h
  · exact Or.inl ⟨rfl, rfl⟩
  · exact Or.inr ⟨rfl, rfl⟩

/-! ## Judging a source -/

/-- **Some runes, judged one after another** up to the first flaw. -/
inductive Judged (tab : TabWidth) : Context → Position → List Rune → Option LexicalError →
    Prop where
  | clean {c : Context} {pos : Position} : Judged tab c pos [] none
  | pass {c : Context} {pos : Position} {r : Rune} {back : List Rune} {e : Option LexicalError}
      (sound : ∀ reason, ¬ Flaw tab c r back reason)
      (more : Judged tab (c.after tab r) (pos.after r) back e) : Judged tab c pos (r :: back) e
  | blame {c : Context} {pos : Position} {r : Rune} {back : List Rune}
      {reason : LexicalError.Reason} (flaw : Flaw tab c r back reason)
      (first : ∀ other, Flaw tab c r back other → other = reason ∨ reason = .inconsistentDedent) :
      Judged tab c pos (r :: back) (some ⟨r.code, pos, reason⟩)

section Judged

variable {tab : TabWidth} {c : Context} {pos : Position} {r : Rune}
  {rest back lexeme after : List Rune} {t : Token} {levels : List Int64} {depth : Nat}
  {reason : LexicalError.Reason} {e : Option LexicalError}

/-- Judging goes on behind a gap. -/
theorem Judged.skip {gap : List Rune} (hs : c.Skips tab gap)
    (h : Judged tab (c.afterAll tab gap) (pos.afterAll gap) back e) :
    Judged tab c pos (gap ++ back) e := by
  induction gap generalizing c pos with
  | nil => exact h
  | cons a gap ih => exact .pass (fun _ => hs.1.sound) (ih hs.2 h)

theorem not_special_of_isNamePart (h : r.isNamePart = true) :
    r ≠ .char '#' ∧ r ≠ .char '!' ∧ r ≠ .char '=' ∧ r.is '(' = false ∧ r.is ')' = false := by
  have hne {ch : Char} (hc : Rune.isNamePart (.char ch) = false) : r ≠ .char ch := by
    rintro rfl
    exact absurd (h.symm.trans hc) nofun
  refine ⟨hne (by decide), hne (by decide), hne (by decide), ?_, ?_⟩
  · rw [Rune.is, beq_eq_false_iff_ne]
    exact hne (by decide)
  · rw [Rune.is, beq_eq_false_iff_ne]
    exact hne (by decide)

/-- A rune that does not lead its line and is no parenthesis opens and closes nothing. -/
theorem Context.after_plain (tab : TabWidth) (hn : r.isNewline = false) (hl : ¬ c.Leads r)
    (ho : r.is '(' = false) (hc : r.is ')' = false) :
    c.after tab r = { c with line := c.line ++ [r] } := by
  have hp : parens c.depth r = c.depth := by simp [parens, ho, hc]
  rw [after_other hn, if_neg hl, hp, ite_self]

/-- Inside a name or a number there are no flaws. -/
theorem Judged.parts {more : List Rune} (hparts : ∀ a ∈ more, a.isNamePart = true)
    (hbare : ¬ c.Commented) (hlast : ∃ a ∈ c.line.getLast?, a.isNamePart = true)
    (h : Judged tab { c with line := c.line ++ more } (pos.afterAll more) back e) :
    Judged tab c pos (more ++ back) e := by
  induction more generalizing c pos with
  | nil =>
    rw [List.append_nil] at h
    exact h
  | cons r more ih =>
    obtain ⟨hr, hmore⟩ := List.forall_mem_cons.mp hparts
    obtain ⟨hash, hbang, -, hopen, hclose⟩ := not_special_of_isNamePart hr
    obtain ⟨b, hb, hpart⟩ := hlast
    have hmem : b ∈ c.line := List.mem_of_getLast? hb
    have hlead : ¬ c.Leads r := Context.not_leads_of_mem hmem (solid_of_isNamePart hpart).2.2
    have hnext := Context.after_plain tab (solid_of_isNamePart hr).1 hlead hopen hclose
    refine .pass (fun reason hf => ?_) (ih hmore ?_ ?_ ?_)
    · cases hf with
      | dedent leads _ _ => exact hlead leads
      | number _ _ alone _ => exact absurd (hpart.symm.trans (alone b hb)) nofun
      | bang _ mark _ => exact hbang mark
      | illegal _ illegal => exact illegal (isLegal_of_isNamePart hr)
    · rw [Context.commented_after tab (solid_of_isNamePart hr).1]
      exact fun hc => hc.elim hbare hash
    · rw [hnext]
      exact ⟨r, List.getLast?_concat, hr⟩
    · rw [hnext, List.append_assoc]
      exact h

/-- **The context of a lexeme**, with the levels that are open behind its first rune. -/
structure Context.Front (tab : TabWidth) (c : Context) (levels : List Int64) (r : Rune) : Prop where
  bare : ¬ c.Commented
  solid : Solid r
  alone : r.isDigit = true → ∀ a ∈ c.line.getLast?, a.isNamePart = false
  upright : ∀ back, ¬ Flaw tab c r back .inconsistentDedent
  levels_eq : (if c.Leads r then nest c.levels (c.width tab) else c.levels) = levels

namespace Context.Front

theorem after_eq (h : c.Front tab levels r) :
    c.after tab r = ⟨c.line ++ [r], parens c.depth r, levels⟩ := by
  rw [after_other h.solid.1, h.levels_eq, if_neg h.bare]

/-- The first rune of a word or a number has no flaw if it is in range. -/
theorem sound_part (h : c.Front tab levels r) (hr : r.isNamePart = true)
    (hfits : r.isDigit = true →
      decimal (Rune.encode (r :: back.takeWhile Rune.isDigit)) ≤ 2 ^ 63 - 1) :
    ¬ Flaw tab c r back reason := by
  intro hf
  cases hf with
  | dedent leads shallower off => exact h.upright back (.dedent leads shallower off)
  | number _ digit _ exceeds => exact absurd exceeds (Nat.not_lt_of_le (hfits digit))
  | bang _ mark _ => exact (not_special_of_isNamePart hr).2.1 mark
  | illegal _ illegal => exact illegal (isLegal_of_isNamePart hr)

/-- The first rune of an operator has no flaw. -/
theorem sound_sign (h : c.Front tab levels r) (hr : r = .char '!' ∨ ∃ ch ∈ signs, r = .char ch)
    (hpair : r = .char '!' → ∃ a ∈ back.head?, a = .char '=') : ¬ Flaw tab c r back reason := by
  have hdigit : ∀ ch ∈ '!' :: signs, (!(Rune.char ch).isDigit) = true :=
    List.all_eq_true.mp (by decide)
  have hmem : ∃ ch ∈ '!' :: signs, r = .char ch := by
    rcases hr with rfl | ⟨ch, hch, rfl⟩
    · exact ⟨'!', List.mem_cons_self, rfl⟩
    · exact ⟨ch, List.mem_cons_of_mem _ hch, rfl⟩
  obtain ⟨ch, hch, hrc⟩ := hmem
  intro hf
  cases hf with
  | dedent leads shallower off => exact h.upright back (.dedent leads shallower off)
  | number _ digit _ _ =>
    rw [hrc] at digit
    simpa [digit] using hdigit ch hch
  | bang _ mark lone =>
    obtain ⟨a, ha, heq⟩ := hpair mark
    exact lone a ha heq
  | illegal _ illegal =>
    rw [hrc] at illegal
    exact illegal (isLegal_of_char (List.mem_cons_of_mem _ (List.mem_cons_of_mem _ hch)))

/-- A word or a number has no flaw if it is in range. -/
theorem judged_parts (h : c.Front tab levels r) (hr : r.isNamePart = true) {more : List Rune}
    (hfits : r.isDigit = true →
      decimal (Rune.encode (r :: (more ++ after).takeWhile Rune.isDigit)) ≤ 2 ^ 63 - 1)
    (hparts : ∀ a ∈ more, a.isNamePart = true)
    (hmore : Judged tab ⟨c.line ++ r :: more, c.depth, levels⟩ (pos.afterAll (r :: more)) after e) :
    Judged tab c pos (r :: (more ++ after)) e := by
  obtain ⟨hash, -, -, hopen, hclose⟩ := not_special_of_isNamePart hr
  have hdepth : parens c.depth r = c.depth := by simp [parens, hopen, hclose]
  refine .pass (fun _ => h.sound_part hr hfits) (.parts hparts ?_ ?_ ?_)
  · rw [commented_after tab h.solid.1]
    exact fun hc => hc.elim h.bare hash
  · rw [h.after_eq]
    exact ⟨r, List.getLast?_concat, hr⟩
  · rw [h.after_eq, hdepth]
    simpa using hmore

/-- **A lexeme has no flaw.** -/
theorem judged (h : c.Front tab levels r) (hread : readLexeme r rest pos = .ok (t, lexeme, after))
    (hmore : Judged tab ⟨c.line ++ lexeme, depthAfter c.depth t.kind, levels⟩
      (pos.afterAll lexeme) after e) : Judged tab c pos (r :: rest) e := by
  have hreads := readsAs r rest pos
  rw [hread] at hreads
  cases hreads with
  | word starts =>
    have hr : r.isNamePart = true := by rw [Rune.isNamePart, starts, Bool.true_or]
    rw [Token.plain, depthAfter_wordKind] at hmore
    rw [← List.takeWhile_append_dropWhile (p := Rune.isNamePart) (l := rest)]
    refine h.judged_parts hr (fun hd => ?_) (fun a ha => List.mem_takeWhile_imp ha) hmore
    rw [Rune.isDigit_of_isNameStart starts] at hd
    cases hd
  | number digit kind fits =>
    rw [kind] at hmore
    have hrest := List.takeWhile_append_dropWhile (p := Rune.isDigit) (l := rest)
    rw [← hrest]
    refine h.judged_parts (Rune.isNamePart_of_isDigit digit) (fun _ => ?_)
      (fun a ha => Rune.isNamePart_of_isDigit (List.mem_takeWhile_imp ha)) hmore
    rwa [hrest]
  | @pair kind _ pairs equals =>
    subst equals
    have hchar : r = .char '!' ∨ ∃ ch ∈ signs, r = .char ch := by
      rcases pairKind?_cases pairs with ⟨rfl, -⟩ | ⟨rfl, -⟩
      · exact Or.inr ⟨'=', by decide, rfl⟩
      · exact Or.inl rfl
    have hdepth : parens c.depth r = c.depth ∧ depthAfter c.depth kind = c.depth := by
      rcases pairKind?_cases pairs with ⟨rfl, rfl⟩ | ⟨rfl, rfl⟩ <;> exact ⟨rfl, rfl⟩
    have hlead : ¬ (Context.mk (c.line ++ [r]) c.depth levels).Leads (.char '=') :=
      Context.not_leads_of_mem (List.mem_append_right _ (List.mem_singleton_self r)) h.solid.2.2
    have hsolid : Solid (.char '=') := by decide
    -- the equals sign is the second rune and has no flaw either
    refine .pass (fun _ => h.sound_sign hchar fun _ => ⟨_, rfl, rfl⟩) (.pass ?_ ?_)
    · rw [h.after_eq, hdepth.1]
      intro reason hf
      cases hf with
      | dedent leads _ _ => exact hlead leads
      | number _ digit _ _ => cases digit
      | bang _ mark _ => cases mark
      | illegal _ illegal => exact illegal (isLegal_of_char (by decide))
    · rw [h.after_eq, hdepth.1, Context.after_plain tab hsolid.1 hlead rfl rfl]
      rw [show (Token.plain kind _ pos).kind = kind from rfl, hdepth.2] at hmore
      simpa using hmore
  | @single kind mark known =>
    have hchar := (operatorKind?_isSome_iff r).mp (by rw [known]; rfl)
    refine .pass (fun _ => h.sound_sign (Or.inr hchar) fun hm => absurd hm mark) ?_
    rw [h.after_eq, parens_of_operatorKind? known]
    exact hmore

/-- **A faulty lexeme has the flaw that it is refused for.** -/
theorem blamed {fault : LexicalError} (h : c.Front tab levels r)
    (hread : readLexeme r rest pos = .error fault) : Judged tab c pos (r :: rest) (some fault) := by
  have hblame {reason : LexicalError.Reason} (hf : Flaw tab c r rest reason)
      (hr : reason ≠ .inconsistentDedent) :
      Judged tab c pos (r :: rest) (some ⟨r.code, pos, reason⟩) := by
    refine .blame hf fun other ho => Or.inl (hf.unique ho hr ?_)
    rintro rfl
    exact h.upright rest ho
  have hreads := readsAs r rest pos
  rw [hread] at hreads
  cases hreads with
  | tooLarge digit exceeds => exact hblame (.number h.bare digit (h.alone digit) exceeds) nofun
  | loneBang mark lone => exact hblame (.bang h.bare mark lone) nofun
  | unknown digit starts mark unknown =>
    refine hblame (.illegal h.bare ?_) nofun
    rintro (hs | hl | hd | ⟨ch, hch, hr⟩)
    · exact absurd (hs.symm.trans h.solid.2.2) nofun
    · rw [Rune.isNameStart, hl, Bool.or_true] at starts
      cases starts
    · exact absurd (hd.symm.trans digit) nofun
    · rcases List.mem_cons.mp hch with rfl | hch
      · rw [hr] at starts
        cases starts
      rcases List.mem_cons.mp hch with rfl | hch
      · exact absurd h.solid (hr ▸ by decide)
      rcases List.mem_cons.mp hch with rfl | hch
      · exact mark hr
      · have hsome := (operatorKind?_isSome_iff r).mpr ⟨ch, hch, hr⟩
        rw [unknown] at hsome
        cases hsome

end Context.Front

end Judged

end Lexer

end Offside
