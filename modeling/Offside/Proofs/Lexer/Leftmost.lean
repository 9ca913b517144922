import Offside.Proofs.Lexer.Exact
import Offside.Proofs.Lexer.Flaw

/-!
# A lexer stops at the first flaw

That the error of `Lexer.readAll` (`Tokenize`) is the leftmost flaw of the source, and that a source
without a flaw has tokens. Flaws are those of `Proofs/Lexer/Flaw`, which know nothing of a lexer.

Between two lexemes the state of a lexer agrees with the context of the place (`Context.Fits`), and
so its course is a judgement of the runes that are left. What stands in front of the fault does not
depend on the fault: if the source is cut off there, the same tokens are found.

* `Context.Stance` says how the line of a place has begun: not at all, with an indentation that is
  settled and whose first rune comes next, or with a lexeme. `Context.Fits` adds the levels, the
  parentheses and the comment, and is what reading on preserves.
* `IsFirst` is the first flaw among some runes, and the one of the indentation if there are two at
  the place.
* `Stops` says that a source is cut off in front of a fault. It is built up from the fault
  backwards, with one lemma for each thing that a course does first: a line ends
  (`Stops.behind_newline`), an indentation is settled (`Stops.behind_indentation`) or is at fault
  itself (`Stops.at_indentation`), a lexeme is read (`Stops.behind_lexeme`).

Results:
* `Course.judged`: the course of a lexer ends at the first flaw.
* `Course.unique`: there is one course from a place.
* `Course.stops`: every fault cuts off the source.
* `tokenize_first_flaw`: a source has no tokens if and only if it has a flaw, and the error is the
  first flaw, with its position and its character.

Out of scope: the dedent markers that the line of an inconsistent indentation would have had. None
of them is delivered in front of the error.
-/

namespace Offside

namespace Lexer

/-! ## The course of a lexer is a judgement -/

/-- How the line of a place has begun, and what follows for the levels. -/
inductive Context.Stance (tab : TabWidth) (c : Context) (s : Scan) : Prop where
  /-- A line begins. -/
  | fresh (fresh : s.fresh = true) (line : c.line = []) (flat : s.depth = 0)
      (levels : c.levels = s.levels)
  /-- The indentation of a line is settled, and its first rune comes next. -/
  | settled {r : Rune} {rest : List Rune} {kinds : List Kind} (within : s.fresh = false)
      (input : s.input = r :: rest) (leads : c.Leads r) (rising : Rising c.levels)
      (adjusts : adjust c.levels (c.width tab) = some (kinds, s.levels))
  /-- The line has begun, or it begins inside parentheses. -/
  | within (within : s.fresh = false) (begun : c.depth = 0 → ¬ c.Blank)
      (levels : c.levels = s.levels)

/-- **The context of a lexer** between two lexemes. -/
structure Context.Fits (tab : TabWidth) (c : Context) (s : Scan) : Prop where
  bare : ¬ c.Commented
  depth_eq : c.depth = s.depth
  rising : Rising s.levels
  /-- No number begins right behind a name or a number. -/
  apart : ∀ a ∈ c.line.getLast?, a.isNamePart = true → ∀ r ∈ s.input.head?, r.isDigit = false
  stance : c.Stance tab s

theorem Context.fits_start (tab : TabWidth) (src : Text) : start.Fits tab (Scan.ofSource src) where
  bare := by simp [start, Commented]
  depth_eq := rfl
  rising := rising_nil
  apart := by simp [start]
  stance := .fresh rfl rfl rfl rfl

section Fits

variable {tab : TabWidth} {c : Context} {s : Scan} {r : Rune} {rest lexeme after : List Rune}
  {t : Token} {pos : Position} {ts : List Token} {e : Option LexicalError}

namespace Context.Fits

theorem skips (h : c.Fits tab s) : c.Skips tab s.gap :=
  skips_gap (iff_of_false nofun h.bare)

theorem behind (h : c.Fits tab s) (hr : s.rest = r :: rest) (hn : r.isNewline = false) :
    c.Behind tab false s.gap :=
  behind_gap (iff_of_false nofun h.bare) hr hn

/-- Judging goes on behind the gap. -/
theorem judged_gap (h : c.Fits tab s) (hj : Judged tab (c.afterAll tab s.gap) s.next s.rest e) :
    Judged tab c s.pos s.input e := by
  have hskip := Judged.skip h.skips hj
  rwa [s.gap_append_rest] at hskip

/-- Where a line begins, the next lexeme leads it, and its width is the width of the gap. -/
theorem leads (h : c.Fits tab s) (hf : s.fresh = true) (hr : s.rest = r :: rest) :
    (c.afterAll tab s.gap).Leads r ∧ (c.afterAll tab s.gap).width tab = widthOf tab s.gap ∧
      (c.afterAll tab s.gap).levels = s.levels := by
  have hsolid := Scan.solid_of_fresh hf hr
  obtain ⟨hdepth, hlevels⟩ := h.skips.afterAll
  cases h.stance with
  | settled within _ _ _ _ => exact absurd (hf.symm.trans within) nofun
  | within within _ _ => exact absurd (hf.symm.trans within) nofun
  | fresh _ line flat levels =>
    have hblank : c.Blank := by simp [Blank, line]
    refine ⟨⟨hsolid, (h.behind hr hsolid.1).blank fun _ => hblank, ?_⟩, ?_, hlevels.trans levels⟩
    · rw [hdepth, h.depth_eq, flat]
    · rw [width_afterAll, width, line]
      rfl

/-- Between two lexemes, the next lexeme has the levels of the lexer. -/
theorem front (h : c.Fits tab s) (hf : s.fresh = false) (hr : s.rest = r :: rest)
    (hn : r.isNewline = false) : (c.afterAll tab s.gap).Front tab s.levels r := by
  have hsolid : Solid r := solid_behind_gap hr (Or.inr hn)
  have hbehind := h.behind hr hn
  obtain ⟨hdepth, hlevels⟩ := h.skips.afterAll
  have halone : r.isDigit = true →
      ∀ a ∈ (c.afterAll tab s.gap).line.getLast?, a.isNamePart = false := by
    intro hd a ha
    rw [Bool.eq_false_iff]
    intro hp
    have hgap := hbehind.apart a ha hp
    have hin : s.input = r :: rest := by rw [← s.gap_append_rest, hgap, hr, List.nil_append]
    rw [hgap, afterAll_nil] at ha
    exact absurd (hd.symm.trans (h.apart a ha hp r (by rw [hin]; rfl))) nofun
  cases h.stance with
  | fresh fresh _ _ _ => exact absurd (hf.symm.trans fresh) nofun
  | @settled r' rest' kinds _ input leads rising adjusts =>
    have hgap : s.gap = [] := by rw [Scan.gap, input, splitGap_solid leads.1]
    have hrest : s.rest = r' :: rest' := by rw [Scan.rest, input, splitGap_solid leads.1]
    obtain ⟨rfl, -⟩ := List.cons.inj (hr.symm.trans hrest)
    rw [hgap] at halone ⊢
    rw [afterAll_nil] at halone ⊢
    refine ⟨h.bare, hsolid, halone, fun back hflaw => ?_, ?_⟩
    · cases hflaw with
      | dedent _ shallower off =>
        rw [(adjust_eq_none_iff rising).mpr ⟨shallower, off⟩] at adjusts
        cases adjusts
    · rw [if_pos leads, nest_of_adjust adjusts]
  | within _ begun levels =>
    have hlead : ¬ (c.afterAll tab s.gap).Leads r := by
      rintro ⟨-, hblank, hzero⟩
      rw [hdepth] at hzero
      -- the gap stays on the line, outside parentheses
      have hline : ∀ a ∈ s.gap, a.isNewline = false := by
        have hcount : s.gap.countP Rune.isNewline = 0 := by
          rw [Scan.gap, hf, ← h.depth_eq, hzero]
          exact countP_splitGap false s.input
        intro a ha
        exact Bool.eq_false_iff.mpr (List.countP_eq_zero.mp hcount a ha)
      refine begun hzero fun a ha => hblank a ?_
      rw [line_of_no_newline hline]
      exact List.mem_append_left _ ha
    refine ⟨hbehind.bare, hsolid, halone, fun back hflaw => ?_, ?_⟩
    · cases hflaw with
      | dedent leads _ _ => exact hlead leads
    · rw [if_neg hlead, hlevels, levels]

end Context.Fits

/-- What is known of the runes of a lexeme and of what follows it. -/
theorem runes_of_readLexeme (h : readLexeme r rest pos = .ok (t, lexeme, after)) (hr : Solid r) :
    r ∈ lexeme ∧ .char '#' ∉ lexeme ∧
      ∀ a ∈ lexeme.getLast?, a.isNamePart = true → ∀ b ∈ after.head?, b.isDigit = false := by
  have hash : r ≠ .char '#' := by
    rintro rfl
    exact absurd hr (by decide)
  have hparts {p : Rune → Bool} (hp : ∀ a, p a = true → a.isNamePart = true) :
      .char '#' ∉ r :: rest.takeWhile p := by
    rw [List.mem_cons, not_or]
    exact ⟨hash.symm, fun hm =>
      (not_special_of_isNamePart (hp _ (List.mem_takeWhile_imp hm))).1 rfl⟩
  have hreads := readsAs r rest pos
  rw [h] at hreads
  cases hreads with
  | word starts =>
    refine ⟨List.mem_cons_self, hparts fun _ ha => ha, fun _ _ _ b hb => ?_⟩
    rw [Bool.eq_false_iff]
    exact fun hd => absurd ((Rune.isNamePart_of_isDigit hd).symm.trans (head?_dropWhile b hb)) nofun
  | number _ _ _ =>
    exact ⟨List.mem_cons_self, hparts fun _ => Rune.isNamePart_of_isDigit,
      fun _ _ _ b hb => head?_dropWhile b hb⟩
  | pair _ _ =>
    refine ⟨List.mem_cons_self, by simp [hash.symm], fun a ha hp => ?_⟩
    obtain rfl := Option.some.inj ha
    cases hp
  | single _ known =>
    refine ⟨List.mem_cons_self, by simp [hash.symm], fun a ha hp => ?_⟩
    obtain rfl := Option.some.inj ha
    obtain ⟨ch, hch, rfl⟩ := (operatorKind?_isSome_iff r).mp (by rw [known]; rfl)
    have hall : ∀ ch ∈ signs, (!(Rune.char ch).isNamePart) = true :=
      List.all_eq_true.mp (by decide)
    have hnot := hall ch hch
    rw [List.getLast_singleton] at hp
    rw [hp] at hnot
    cases hnot

/-- **Behind a lexeme.** -/
theorem Context.Fits.behind_lexeme (h : c.Fits tab s) (hf : s.fresh = false)
    (hr : s.rest = r :: rest)
    (hn : r.isNewline = false) (hread : readLexeme r rest s.next = .ok (t, lexeme, after)) :
    Context.Fits tab
      ⟨(c.afterAll tab s.gap).line ++ lexeme, depthAfter (c.afterAll tab s.gap).depth t.kind,
        s.levels⟩
      ⟨false, after, s.next.afterAll lexeme, s.levels, depthAfter s.depth t.kind⟩ := by
  have hfront := h.front hf hr hn
  obtain ⟨hmem, hash, hlast⟩ := runes_of_readLexeme hread hfront.solid
  refine ⟨?_, ?_, h.rising, fun a ha => hlast a ?_, .within rfl (fun _ hb => ?_) rfl⟩
  · exact fun hc => (List.mem_append.mp hc).elim hfront.bare hash
  · rw [h.skips.afterAll.1, h.depth_eq]
  · rw [List.getLast?_append] at ha
    cases hl : lexeme.getLast? with
    | none =>
      rw [List.getLast?_eq_none_iff] at hl
      rw [hl] at hmem
      cases hmem
    | some b => rwa [hl, Option.some_or] at ha
  · exact absurd ((hb r (List.mem_append_right _ hmem)).symm.trans hfront.solid.2.2) nofun

/-- **The course of a lexer ends at the first flaw.** -/
theorem Course.judged (h : Course tab s ts e) (hc : c.Fits tab s) :
    Judged tab c s.pos s.input e := by
  induction h generalizing c with
  | finish hr =>
    refine hc.judged_gap ?_
    rw [hr]
    exact .clean
  | @newline s r rest ts e hf hr hn _ ih =>
    refine hc.judged_gap ?_
    rw [hr]
    have hskip : (c.afterAll tab s.gap).Skipped r :=
      Or.inr fun hs => absurd hn (ne_true_of_eq_false hs.1)
    obtain ⟨hdepth, hlevels⟩ := hc.skips.afterAll
    have hflat : s.depth = 0 := Scan.depth_of_newline hf hr hn
    refine .pass (fun _ => hskip.sound) (ih ?_)
    rw [Context.after_newline hn]
    refine ⟨by simp [Context.Commented], hdepth.trans hc.depth_eq, hc.rising, by simp,
      .fresh rfl rfl hflat (hlevels.trans ?_)⟩
    cases hc.stance with
    | fresh fresh _ _ _ => exact absurd fresh (ne_true_of_eq_false hf)
    | settled _ input leads _ _ =>
      rw [Scan.rest, input, splitGap_solid leads.1] at hr
      obtain ⟨rfl, -⟩ := List.cons.inj hr
      exact absurd hn (ne_true_of_eq_false leads.1.1)
    | within _ _ levels => exact levels
  | @line s r rest kinds levels ts e hf hr ha _ ih =>
    obtain ⟨hleads, hwidth, hlevels⟩ := hc.leads hf hr
    have hsame : (c.afterAll tab s.gap).depth = s.depth := hc.skips.afterAll.1.trans hc.depth_eq
    refine hc.judged_gap (hr ▸ ih ⟨hleads.bare, hsame, hc.rising.adjust ha,
      fun a hlast hp => ?_, ?_⟩)
    · exact absurd (hleads.2.1 a (List.mem_of_getLast? hlast))
        (ne_true_of_eq_false (solid_of_isNamePart hp).2.2)
    · exact .settled rfl rfl hleads (hlevels ▸ hc.rising) (by rw [hlevels, hwidth, ha])
  | @lost s r _ hf hr ha =>
    obtain ⟨hleads, hwidth, hlevels⟩ := hc.leads hf hr
    obtain ⟨hshallower, hoff⟩ := (adjust_eq_none_iff hc.rising).mp ha
    refine hc.judged_gap (hr ▸ .blame (.dedent hleads ?_ ?_) fun _ _ => Or.inr rfl)
    · rwa [hwidth, hlevels]
    · rwa [hwidth, hlevels]
  | @lexeme s r rest lexeme after t ts e hf hr hn hread _ ih =>
    exact hc.judged_gap (hr ▸ (hc.front hf hr hn).judged hread
      (ih (hc.behind_lexeme hf hr hn hread)))
  | fault hf hr hn hread => exact hc.judged_gap (hr ▸ (hc.front hf hr hn).blamed hread)

end Fits

/-! ## The first flaw -/

section First

variable {tab : TabWidth} {c : Context} {pos : Position} {rs : List Rune}

/-- Runes that are judged without a fault have no flaw. -/
theorem Judged.sound (h : Judged tab c pos rs none) {front back : List Rune} {r : Rune}
    (hrs : rs = front ++ r :: back) (reason : LexicalError.Reason) :
    ¬ Flaw tab (c.afterAll tab front) r back reason := by
  generalize he : (none : Option LexicalError) = e at h
  induction h generalizing front with
  | clean => simp at hrs
  | @pass c pos a rest e sound _ ih =>
    cases front with
    | nil =>
      obtain ⟨rfl, rfl⟩ := List.cons.inj hrs
      exact sound reason
    | cons b front =>
      obtain ⟨rfl, hrest⟩ := List.cons.inj hrs
      exact ih hrest he
  | blame _ _ => cases he

/-- **A fault is the first flaw**, and it is the one of the indentation if there are two. -/
structure IsFirst (tab : TabWidth) (c : Context) (pos : Position) (rs : List Rune)
    (e : LexicalError)
    (front : List Rune) (r : Rune) (back : List Rune) : Prop where
  split : rs = front ++ r :: back
  flaw : Flaw tab (c.afterAll tab front) r back e.reason
  code_eq : e.code = r.code
  pos_eq : e.pos = pos.afterAll front
  first : ∀ {front' : List Rune} {r' : Rune} {back' : List Rune} {other : LexicalError.Reason},
    rs = front' ++ r' :: back' → Flaw tab (c.afterAll tab front') r' back' other →
      front <+: front' ∧ (front' = front → other = e.reason ∨ e.reason = .inconsistentDedent)

/-- Runes that are judged with a fault have it as the first flaw. -/
theorem Judged.isFirst {e : LexicalError} (h : Judged tab c pos rs (some e)) :
    ∃ front r back, IsFirst tab c pos rs e front r back := by
  generalize he : some e = o at h
  induction h with
  | clean => cases he
  | @pass c pos a rest o sound _ ih =>
    obtain ⟨front, r, back, hf⟩ := ih he
    refine ⟨a :: front, r, back, by rw [hf.split]; rfl, hf.flaw, hf.code_eq, hf.pos_eq, ?_⟩
    intro front' r' back' other hrs hflaw
    cases front' with
    | nil =>
      obtain ⟨rfl, rfl⟩ := List.cons.inj hrs
      exact absurd hflaw (sound other)
    | cons b front' =>
      obtain ⟨rfl, hrest⟩ := List.cons.inj hrs
      obtain ⟨hle, hsame⟩ := hf.first hrest hflaw
      exact ⟨List.cons_prefix_cons.mpr ⟨rfl, hle⟩, fun heq => hsame (List.cons.inj heq).2⟩
  | @blame c pos r back reason flaw first =>
    obtain rfl := Option.some.inj he
    refine ⟨[], r, back, rfl, flaw, rfl, rfl, fun {front' r' back' other} hrs hflaw => ?_⟩
    refine ⟨List.nil_prefix, ?_⟩
    rintro rfl
    obtain ⟨rfl, rfl⟩ := List.cons.inj hrs
    exact first other hflaw

end First

/-! ## A source that is cut off at its fault -/

section CutOff

variable {tab : TabWidth} {s : Scan} {r : Rune} {rest lexeme piece unread : List Rune} {t : Token}
  {pos : Position} {ts ts' : List Token} {e e' : Option LexicalError}

/-- **There is one course from a place.** -/
theorem Course.unique (h : Course tab s ts e) (h' : Course tab s ts' e') : ts' = ts ∧ e' = e := by
  induction h generalizing ts' e' with
  | finish hr => exact h'.behind_end hr
  | newline hf hr hn _ ih => exact ih (h'.behind_newline hf hr hn)
  | line hf hr ha _ ih =>
    obtain ⟨us, rfl, hu⟩ := h'.behind_indentation hf hr ha
    obtain ⟨rfl, rfl⟩ := ih hu
    exact ⟨rfl, rfl⟩
  | lost hf hr ha => exact h'.behind_lost hf hr ha
  | lexeme hf hr hn hread _ ih =>
    obtain ⟨us, rfl, hu⟩ := h'.behind_lexeme hf hr hn hread
    obtain ⟨rfl, rfl⟩ := ih hu
    exact ⟨rfl, rfl⟩
  | fault hf hr hn hread => exact h'.behind_fault hf hr hn hread

theorem takeWhile_cut_off {p : Rune → Bool} (h : rest.dropWhile p = piece ++ unread) :
    (rest.takeWhile p ++ piece).takeWhile p = rest.takeWhile p ∧
      (rest.takeWhile p ++ piece).dropWhile p = piece := by
  have hall : ∀ a ∈ rest.takeWhile p, p a = true := fun a ha => List.mem_takeWhile_imp ha
  rw [List.takeWhile_append_of_pos hall, List.dropWhile_append_of_pos hall]
  cases piece with
  | nil => simp
  | cons a piece =>
    have ha := List.head?_dropWhile_not p rest
    rw [h, List.cons_append, List.head?_cons] at ha
    simp [show p a = false from ha]

/-- **A lexeme is read as before if the source is cut off behind it.** -/
theorem readLexeme_cut_off (h : readLexeme r rest pos = .ok (t, lexeme, piece ++ unread)) :
    ∃ rest', lexeme ++ piece = r :: rest' ∧ readLexeme r rest' pos = .ok (t, lexeme, piece) := by
  cases hc : classOf r with
  | number =>
    simp only [readLexeme, hc] at h ⊢
    cases hn : numberToken r (Rune.encode (r :: rest.takeWhile Rune.isDigit)) pos with
    | error e => rw [hn] at h; cases h
    | ok u =>
      simp only [hn, Except.map, Except.ok.injEq, Prod.mk.injEq] at h
      obtain ⟨rfl, rfl, hdrop⟩ := h
      obtain ⟨htake, hdrop⟩ := takeWhile_cut_off hdrop
      refine ⟨rest.takeWhile Rune.isDigit ++ piece, rfl, ?_⟩
      rw [htake, hdrop, hn]
      rfl
  | word =>
    simp only [readLexeme, hc] at h ⊢
    simp only [Except.ok.injEq, Prod.mk.injEq] at h
    obtain ⟨rfl, rfl, hdrop⟩ := h
    obtain ⟨htake, hdrop⟩ := takeWhile_cut_off hdrop
    refine ⟨rest.takeWhile Rune.isNamePart ++ piece, rfl, ?_⟩
    rw [htake, hdrop]
  | operator =>
    simp only [readLexeme, hc] at h ⊢
    by_cases hpair : ∃ k, pairKind? r = some k ∧ ∃ after, rest = .char '=' :: after
    · obtain ⟨k, hk, after, rfl⟩ := hpair
      simp only [readOperator_pair hk, Except.map, Except.ok.injEq, Prod.mk.injEq] at h
      obtain ⟨rfl, rfl, -⟩ := h
      refine ⟨.char '=' :: piece, rfl, ?_⟩
      rw [readOperator_pair hk]
      rfl
    · have hsingle : ∀ k, pairKind? r = some k → ∀ after, rest ≠ .char '=' :: after :=
        fun k hk after hr => hpair ⟨k, hk, after, hr⟩
      rw [readOperator_single pos hsingle] at h
      split at h
      · cases h
      · next hbang =>
        cases hk : operatorKind? r with
        | none => rw [hk] at h; cases h
        | some kind =>
          simp only [hk, Except.map, Except.ok.injEq, Prod.mk.injEq] at h
          obtain ⟨rfl, rfl, rfl⟩ := h
          refine ⟨piece, rfl, ?_⟩
          have hsingle' : ∀ k, pairKind? r = some k → ∀ after, piece ≠ .char '=' :: after := by
            rintro k hk after rfl
            exact hsingle k hk _ rfl
          rw [readOperator_single pos hsingle', if_neg hbang, hk]
          rfl

/-- A gap is the gap of what is left if the source is cut off behind it. -/
theorem splitGap_cut_off (acrossLines inComment : Bool) (rs : List Rune) :
    splitGap acrossLines inComment (splitGap acrossLines inComment rs).1 =
      ((splitGap acrossLines inComment rs).1, []) := by
  induction rs generalizing inComment with
  | nil => rfl
  | cons r rs ih =>
    rw [splitGap]
    split
    · next hn =>
      split
      · next ha =>
        subst ha
        rw [splitGap, if_pos hn, if_pos rfl, ih]
      · rfl
    · next hn =>
      split
      · next hc => rw [splitGap, if_neg hn, if_pos hc, ih]
      · next hc =>
        split
        · next hs => rw [splitGap, if_neg hn, if_neg hc, if_pos hs, ih]
        · rfl

/-- The same place in a source that ends earlier. -/
def Scan.cutOff (s : Scan) (read : List Rune) : Scan :=
  { s with input := read }

theorem Scan.cutOff_gap (s : Scan) :
    (s.cutOff s.gap).rest = [] ∧ (s.cutOff s.gap).next = s.next := by
  obtain ⟨hfst, hsnd⟩ := Prod.ext_iff.mp
    (splitGap_cut_off (s.fresh || decide (0 < s.depth)) false s.input)
  have hgap : (s.cutOff s.gap).gap = s.gap := hfst
  refine ⟨hsnd, ?_⟩
  rw [Scan.next, hgap]
  rfl

theorem Scan.cutOff_beyond (hr : s.rest = r :: rest) (read : List Rune) :
    (s.cutOff (s.gap ++ r :: read)).gap = s.gap ∧
      (s.cutOff (s.gap ++ r :: read)).rest = r :: read ∧
      (s.cutOff (s.gap ++ r :: read)).next = s.next := by
  have hsplit : splitGap (s.fresh || decide (0 < s.depth)) false s.input = (s.gap, r :: rest) :=
    Prod.ext rfl hr
  obtain ⟨hfst, hsnd⟩ := Prod.ext_iff.mp (splitGap_swap_rest hsplit read)
  have hgap : (s.cutOff (s.gap ++ r :: read)).gap = s.gap := hfst
  refine ⟨hgap, hsnd, ?_⟩
  rw [Scan.next, hgap]
  rfl

/-- **A source is cut off in front of a fault**: the runes that are read are cut into the tokens
that are found in front of the fault, up to the markers that stand at its place. -/
structure Stops (tab : TabWidth) (s : Scan) (ts : List Token) (fault : LexicalError)
    (read unread : List Rune) (before : List Token) (opened closing : List Kind) : Prop where
  input_eq : s.input = read ++ unread
  pos_eq : fault.pos = s.pos.afterAll read
  found : ts = before ++ markersAt fault.pos opened
  within : ∀ t ∈ before, s.pos.offset ≤ t.pos.offset ∧ t.pos.offset < fault.pos.offset
  markers : ∀ k ∈ opened ++ closing, k.isMarker = true
  course : Course tab (s.cutOff read)
    (before ++ (markersAt fault.pos closing ++ [.eofAt fault.pos])) none

/-- The fault lies right behind the gap. -/
theorem Stops.here {fault : LexicalError} (hp : fault.pos = s.next) {opened : List Kind}
    (ho : ∀ k ∈ opened, k.isMarker = true) :
    Stops tab s (markersAt fault.pos opened) fault s.gap s.rest [] opened
      (s.levels.map fun _ => .dedent) where
  input_eq := s.gap_append_rest.symm
  pos_eq := hp
  found := rfl
  within := List.forall_mem_nil _
  markers := List.forall_mem_append.mpr ⟨ho, isMarker_dedents _⟩
  course := by
    obtain ⟨hrest, hnext⟩ := s.cutOff_gap
    rw [hp, ← hnext]
    exact .finish hrest

namespace Stops

variable {fault : LexicalError} {read after : List Rune} {before : List Token}
  {opened closing kinds : List Kind} {levels : List Int64}

/-- What is found in front of the fault from a place on, lies behind every earlier place too. -/
theorem within_of_le (h : Stops tab s ts fault read unread before opened closing) {start : Int}
    (hle : start ≤ s.pos.offset) :
    ∀ t ∈ before, start ≤ t.pos.offset ∧ t.pos.offset < fault.pos.offset := by
  intro t ht
  obtain ⟨hfrom, hlt⟩ := h.within t ht
  exact ⟨hle.trans hfrom, hlt⟩

/-- A fault that lies behind the end of a line. -/
theorem behind_newline (hf : s.fresh = false) (hr : s.rest = r :: rest) (hn : r.isNewline = true)
    (h : Stops tab ⟨true, rest, s.next.after r, s.levels, s.depth⟩ ts fault read unread
      before opened
      closing) :
    Stops tab s ts fault (s.gap ++ r :: read) unread before opened closing := by
  obtain ⟨-, hrest, hnext⟩ := Scan.cutOff_beyond hr read
  have hline := Position.offset_le_afterAll [r] s.next
  refine ⟨?_, ?_, h.found, h.within_of_le (s.pos_le_next.trans hline), h.markers, ?_⟩
  · rw [List.append_assoc, List.cons_append, ← h.input_eq, ← hr, s.gap_append_rest]
  · rw [Position.afterAll_append]
    exact h.pos_eq
  · refine .newline hf hrest hn ?_
    rw [hnext]
    exact h.course

/-- A fault with which a line begins. The new levels are not known if the source ends there. -/
theorem at_indentation (ha : adjust s.levels (widthOf tab s.gap) = some (kinds, levels))
    (h : Stops tab ⟨false, r :: rest, s.next, levels, s.depth⟩ ts fault [] unread before opened
      closing) :
    Stops tab s (markersAt s.next kinds ++ ts) fault s.gap s.rest [] (kinds ++ opened)
      (s.levels.map fun _ => .dedent) := by
  have hpos : fault.pos = s.next := h.pos_eq
  have hnone : before = [] := by
    rw [List.eq_nil_iff_forall_not_mem]
    intro t ht
    obtain ⟨hle, hlt⟩ := h.within t ht
    rw [hpos] at hlt
    exact absurd hle (not_le_of_gt hlt)
  have hfound : markersAt s.next kinds ++ ts = markersAt fault.pos (kinds ++ opened) := by
    rw [h.found, hnone, hpos, List.nil_append, markersAt, markersAt, markersAt, List.map_append]
  rw [hfound]
  exact here hpos
    (List.forall_mem_append.mpr ⟨isMarker_of_adjust ha, (List.forall_mem_append.mp h.markers).1⟩)

/-- A fault that lies in a line behind its first rune. -/
theorem behind_indentation (hf : s.fresh = true) (hr : s.rest = r :: rest)
    (ha : adjust s.levels (widthOf tab s.gap) = some (kinds, levels))
    (h : Stops tab ⟨false, r :: rest, s.next, levels, s.depth⟩ ts fault (r :: read)
      unread before opened
      closing) :
    Stops tab s (markersAt s.next kinds ++ ts) fault (s.gap ++ r :: read) unread
      (markersAt s.next kinds ++ before) opened closing := by
  obtain ⟨hgap, hrest, hnext⟩ := Scan.cutOff_beyond hr read
  have hlater : s.next.offset < fault.pos.offset := by
    rw [h.pos_eq]
    exact Position.offset_lt_afterAll (List.cons_ne_nil r read) s.next
  refine ⟨?_, ?_, ?_, List.forall_mem_append.mpr ⟨fun t ht => ?_, h.within_of_le s.pos_le_next⟩,
    h.markers, ?_⟩
  · rw [List.append_assoc, ← h.input_eq, ← hr, s.gap_append_rest]
  · rw [Position.afterAll_append]
    exact h.pos_eq
  · rw [h.found, List.append_assoc]
  · rw [pos_of_mem_markersAt ht]
    exact ⟨s.pos_le_next, hlater⟩
  · rw [List.append_assoc, ← hnext]
    refine .line hf hrest (by rw [hgap]; exact ha) ?_
    rw [hnext]
    exact h.course

/-- A fault that lies behind a lexeme. -/
theorem behind_lexeme (hf : s.fresh = false) (hr : s.rest = r :: rest) (hn : r.isNewline = false)
    (hread : readLexeme r rest s.next = .ok (t, lexeme, after))
    (h : Stops tab ⟨false, after, s.next.afterAll lexeme, s.levels, depthAfter s.depth t.kind⟩
      ts fault
      read unread before opened closing) :
    Stops tab s (t :: ts) fault (s.gap ++ (lexeme ++ read)) unread (t :: before)
      opened closing := by
  obtain ⟨happ, hv, hpos, hl⟩ := readLexeme_spec hread
  obtain rfl : after = read ++ unread := h.input_eq
  obtain ⟨rest', hrest', hread'⟩ := readLexeme_cut_off hread
  obtain ⟨-, hrest, hnext⟩ := Scan.cutOff_beyond hr rest'
  have hlater := Position.offset_lt_afterAll (hl.ne_nil hv) s.next
  have hfault : (s.next.afterAll lexeme).offset ≤ fault.pos.offset := by
    rw [h.pos_eq]
    exact Position.offset_le_afterAll _ _
  refine ⟨?_, ?_, by rw [h.found, List.cons_append], List.forall_mem_cons.mpr ⟨?_, ?_⟩,
    h.markers, ?_⟩
  · rw [List.append_assoc, List.append_assoc, happ, ← hr, s.gap_append_rest]
  · rw [Position.afterAll_append, Position.afterAll_append]
    exact h.pos_eq
  · rw [hpos]
    exact ⟨s.pos_le_next, hlater.trans_le hfault⟩
  · exact h.within_of_le (s.pos_le_next.trans hlater.le)
  · rw [hrest']
    refine .lexeme hf hrest hn (by rw [hnext]; exact hread') ?_
    rw [hnext]
    exact h.course

end Stops

/-- **Every fault cuts off the source.** -/
theorem Course.stops (h : Course tab s ts e) {fault : LexicalError} (he : e = some fault) :
    ∃ read unread before opened closing,
      Stops tab s ts fault read unread before opened closing := by
  induction h with
  | finish _ => cases he
  | newline hf hr hn _ ih =>
    obtain ⟨read, unread, before, opened, closing, h⟩ := ih he
    exact ⟨_, unread, before, opened, closing, h.behind_newline hf hr hn⟩
  | line hf hr ha _ ih =>
    obtain ⟨read, unread, before, opened, closing, h⟩ := ih he
    cases read with
    | nil => exact ⟨_, _, [], _, _, h.at_indentation ha⟩
    | cons a read =>
      obtain ⟨rfl, -⟩ := List.cons.inj h.input_eq
      exact ⟨_, unread, _, opened, closing, h.behind_indentation hf hr ha⟩
  | lost _ _ _ =>
    obtain rfl := Option.some.inj he
    exact ⟨_, _, [], [], _, Stops.here rfl (List.forall_mem_nil _)⟩
  | lexeme hf hr hn hread _ ih =>
    obtain ⟨read, unread, before, opened, closing, h⟩ := ih he
    exact ⟨_, unread, _, opened, closing, h.behind_lexeme hf hr hn hread⟩
  | fault _ _ _ hread =>
    obtain rfl := Option.some.inj he
    exact ⟨_, _, [], [], _, Stops.here (readLexeme_error hread) (List.forall_mem_nil _)⟩

end CutOff

end Lexer

open Lexer

/-- **A flaw of a source** at an offset. -/
def FlawAt (tab : TabWidth) (src : Text) (offset : Nat) (r : Rune) (reason : LexicalError.Reason) :
    Prop :=
  ∃ front back, Rune.decode src = front ++ r :: back ∧ (Rune.encode front).length = offset ∧
    Flaw tab (Context.start.afterAll tab front) r back reason

/-- The first flaw of a source lies at the offset of the fault. -/
theorem Lexer.IsFirst.offset_eq {tab : TabWidth} {c : Context} {rs front back : List Rune}
    {r : Rune}
    {e : LexicalError} (h : IsFirst tab c .start rs e front r back) :
    e.pos.offset = (Rune.encode front).length := by
  rw [h.pos_eq, Position.afterAll_offset, Position.start, Int.zero_add]

/-- The other flaws of a source do not lie in front of the first one. -/
theorem Lexer.IsFirst.leftmost {tab : TabWidth} {src : Text} {front back : List Rune} {r : Rune}
    {e : LexicalError} (h : IsFirst tab .start .start (Rune.decode src) e front r back)
    {offset : Nat} {r' : Rune} {other : LexicalError.Reason} (hf : FlawAt tab src offset r' other) :
    (Rune.encode front).length ≤ offset ∧
      (offset = (Rune.encode front).length →
        other = e.reason ∨ e.reason = .inconsistentDedent) := by
  obtain ⟨front', back', hsrc, rfl, hflaw⟩ := hf
  obtain ⟨⟨more, rfl⟩, hsame⟩ := h.first hsrc hflaw
  rw [Rune.encode_append, List.length_append]
  refine ⟨Nat.le_add_right _ _, fun heq => hsame ?_⟩
  cases more with
  | nil => exact List.append_nil front
  | cons a more =>
    -- one more rune would take up a byte
    have hpos := a.width_pos
    simp only [Rune.encode_cons, List.length_append, Rune.length_bytes] at heq
    omega

/-- The tokens of the source up to the fault are those that are found in front of it. -/
theorem Lexer.Stops.tokenize {tab : TabWidth} {src : Text} {ts before : List Token}
    {fault : LexicalError} {read unread : List Rune} {opened closing : List Kind}
    (h : Stops tab (Scan.ofSource src) ts fault read unread before opened closing) :
    tokenize tab (src.take fault.pos.offset.toNat) =
      .ok (before ++ (markersAt fault.pos closing ++ [.eofAt fault.pos])) := by
  have hsrc : Rune.decode src = read ++ unread := h.input_eq
  have hoffset : fault.pos.offset.toNat = (Rune.encode read).length := by
    rw [h.pos_eq, Position.afterAll_offset]
    simp [Scan.ofSource, Position.start]
  obtain ⟨us, o, hu, -, htok⟩ := course_source tab (Rune.encode read)
  rw [Scan.ofSource, (Rune.decode_encode_of_append hsrc).1] at hu
  obtain ⟨rfl, rfl⟩ := h.course.unique hu
  rw [hoffset, (Rune.take_drop_encode hsrc).1, htok]
  rfl

/-- **A source cannot be cut into tokens if and only if it has a flaw, and the error is the first
flaw.** Its position is the place of the flaw, its character the rune there, and of two flaws at one
place it is the one of the indentation. All tokens in front of that place are delivered before the
error, and these are the tokens of the source up to there. At the place itself only markers stand,
and which ones may depend on whether the source goes on. -/
theorem tokenize_first_flaw (tab : TabWidth) (src : Text) :
    ((∃ e, tokenize tab src = .error e) ↔ ∃ offset r reason, FlawAt tab src offset r reason) ∧
    ∀ e, tokenize tab src = .error e → ∃ offset r,
      FlawAt tab src offset r e.reason ∧ e.pos.offset = offset ∧ e.pos.IsExact src ∧
      e.code = r.code ∧
      (∀ offset' r' other, FlawAt tab src offset' r' other → offset ≤ offset' ∧
        (offset' = offset → other = e.reason ∨ e.reason = .inconsistentDedent)) ∧
      ∃ before opened closing,
        (ofSource tab src).trace = resultsOf (before ++ markersAt e.pos opened) (some e) ∧
        tokenize tab (src.take offset) =
          .ok (before ++ (markersAt e.pos closing ++ [.eofAt e.pos])) ∧
        (∀ k ∈ opened ++ closing, k.isMarker = true) ∧
        ∀ t ∈ before, t.pos.offset < e.pos.offset := by
  obtain ⟨ts, o, hc, htrace⟩ := trace_ofSource tab src
  obtain ⟨ts', o', hc', -, htok⟩ := course_source tab src
  obtain ⟨rfl, rfl⟩ := hc.unique hc'
  have hjudged : Judged tab .start .start (Rune.decode src) o' :=
    hc.judged (Context.fits_start tab src)
  cases o' with
  | none =>
    have hok : ∀ e, tokenize tab src ≠ .error e := by
      intro e he
      rw [htok] at he
      cases he
    refine ⟨⟨fun ⟨e, he⟩ => absurd he (hok e), ?_⟩, fun e he => absurd he (hok e)⟩
    rintro ⟨offset, r, reason, front, back, hsrc, -, hflaw⟩
    exact absurd hflaw (hjudged.sound hsrc reason)
  | some fault =>
    obtain ⟨front, r, back, hfirst⟩ := hjudged.isFirst
    have hflaw : FlawAt tab src (Rune.encode front).length r fault.reason :=
      ⟨front, back, hfirst.split, rfl, hfirst.flaw⟩
    refine ⟨⟨fun _ => ⟨_, r, fault.reason, hflaw⟩, fun _ => ⟨fault, htok⟩⟩, fun e he => ?_⟩
    obtain rfl : fault = e := Except.error.inj (htok.symm.trans he)
    obtain ⟨read, unread, before, opened, closing, hstops⟩ := hc.stops rfl
    have hexact : fault.pos.IsExact src := hfirst.pos_eq ▸ Position.isExact_afterAll hfirst.split
    have hcut := hstops.tokenize
    rw [hfirst.offset_eq, Int.toNat_natCast] at hcut
    exact ⟨_, r, hflaw, hfirst.offset_eq, hexact, hfirst.code_eq, fun _ _ _ h => hfirst.leftmost h,
      before, opened, closing, by rw [htrace, hstops.found], hcut, hstops.markers,
      fun t ht => (hstops.within t ht).2⟩

/-- A line that returns to no indentation and begins with a stray exclamation mark. -/
def slantedSource : String := "if a:\n    b\n  ! 99999999999999999999"

/-- Its fault. -/
def slantedFault : LexicalError := ⟨33, ⟨14, 3, 3⟩, .inconsistentDedent⟩

theorem tokenize_slanted :
    tokenize .standard (Text.ofString slantedSource) = .error slantedFault := by
  rw [tokenize_eq, ofSource_ofString, ← stop_steps 20, stop_of_inactive (by decide +kernel)]
  have hm : (steps 20 (ofRunes .standard (slantedSource.toList.map .char))).mode =
      .failed slantedFault := by
    decide +kernel
  rw [outcome, hm]

/-- Of the three flaws of that source, two at one place, the fault is the one of the indentation. -/
theorem tokenize_first_flaw_slanted :
    tokenize .standard (Text.ofString slantedSource) = .error slantedFault ∧
      (∃ r, FlawAt .standard (Text.ofString slantedSource) 14 r .inconsistentDedent ∧ r.code = 33) ∧
      FlawAt .standard (Text.ofString slantedSource) 14 (.char '!') .loneBang ∧
      ∀ offset r reason, FlawAt .standard (Text.ofString slantedSource) offset r reason →
        14 ≤ offset := by
  have hbang : FlawAt .standard (Text.ofString slantedSource) 14 (.char '!') .loneBang := by
    refine ⟨(slantedSource.toList.take 14).map .char, (slantedSource.toList.drop 15).map .char,
      ?_, by decide +kernel, .bang (by decide +kernel) rfl (by decide +kernel)⟩
    rw [Rune.ofString_eq, Rune.decode_ofChars]
    decide +kernel
  obtain ⟨offset, r, hflaw, hoffset, -, hcode, hfirst, -⟩ :=
    (tokenize_first_flaw .standard (Text.ofString slantedSource)).2 _ tokenize_slanted
  obtain rfl : 14 = offset := Int.ofNat.inj hoffset
  exact ⟨tokenize_slanted, ⟨r, hflaw, hcode.symm⟩, hbang,
    fun offset r reason h => (hfirst _ _ _ h).1⟩

end Offside
