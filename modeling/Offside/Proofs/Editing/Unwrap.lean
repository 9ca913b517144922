import Offside.Proofs.Grammar.Likeness
import Offside.Proofs.Text.Lines

/-!
# Line breaks inside parentheses

The specification says that newlines inside parentheses are plain whitespace (4.1.1). So a call that
is spread over several lines can be written on one.

Inside parentheses a gap runs over line ends, so a call or a long term may be spread over several
lines. Writing a blank for every line feed that is read there joins these lines. The tokens are the
same and stand at the same offsets, but everything behind is on another line.

The parser compares lines to find the end of a suite that stands on the line of its header. It does
so outside parentheses only, and there both sources have the same line feeds between one token and
the next. So two streams are compared token by token (`Abreast`), with the number of open
parentheses and the lines of the tokens in front.

* `Lexer.unwrap` is what is left to read, with a blank for every line feed that is read inside
  parentheses. Which ones these are is known only as the source is read, so it is defined along the
  steps of a lexer.
* `Lexer.Clear` says that no comment sign is read inside parentheses. A comment would go on over the
  blank in place of its line end.
* `Loose` is a rune that is kept, or a line feed with a blank in its place; `Joined` are two lexers,
  one of which reads what the other has joined.

Results:
* `Rune.decode_encode_loose`: blanks for line feeds do not change how a text is cut into runes.
* `Lexer.readLexeme_loose`: they do not change a lexeme in front of them.
* `Lexer.Course.abreast`: what a lexer finds in both sources, by induction on the course in the
  first.
* `likeness_flanked`: streams that go side by side cannot be told apart by the parser.
* `parse_unwrapped`: tokens, programs and faults of a source whose lines are joined.
-/

namespace Offside

/-! ## Blanks for line feeds -/

namespace Rune

/-- A blank for a line feed. -/
def unbroken (r : Rune) : Rune :=
  if r.isNewline then .char ' ' else r

/-- A rune is kept, or it is a line feed and there is a blank in its place. -/
def Loose (r r' : Rune) : Prop :=
  r' = r ∨ (r.isNewline = true ∧ r' = .char ' ')

theorem loose_unbroken (r : Rune) : Loose r r.unbroken := by
  unfold unbroken
  split
  · next h => exact Or.inr ⟨h, rfl⟩
  · exact Or.inl rfl

theorem Loose.eq_of_not_newline {r r' : Rune} (h : Loose r r') (hr : r.isNewline = false) :
    r' = r := by
  rcases h with h | ⟨hn, -⟩
  · exact h
  · rw [hr] at hn
    cases hn

/-- Without line feeds all runes are kept. -/
theorem eq_of_loose {rs rs' : List Rune} (h : List.Forall₂ Loose rs rs')
    (hrs : ∀ r ∈ rs, r.isNewline = false) : rs' = rs := by
  induction h with
  | nil => rfl
  | cons hr _ ih =>
    obtain ⟨hn, hrs⟩ := List.forall_mem_cons.mp hrs
    rw [hr.eq_of_not_newline hn, ih hrs]

theorem loose_refl (rs : List Rune) : List.Forall₂ Loose rs rs :=
  List.forall₂_same.mpr fun _ _ => Or.inl rfl

theorem loose_map_unbroken (rs : List Rune) : List.Forall₂ Loose rs (rs.map unbroken) :=
  List.forall₂_map_right_iff.mpr (List.forall₂_same.mpr fun r _ => loose_unbroken r)

theorem map_unbroken {rs : List Rune} (h : ∀ r ∈ rs, r.isNewline = false) :
    rs.map unbroken = rs :=
  eq_of_loose (loose_map_unbroken rs) h

theorem length_encode_loose {rs rs' : List Rune} (h : List.Forall₂ Loose rs rs') :
    (encode rs').length = (encode rs).length := by
  induction h with
  | nil => rfl
  | @cons r r' rs rs' hr _ ih =>
    have hwidth : r'.width = r.width := by
      rcases hr with rfl | ⟨hn, rfl⟩
      · rfl
      · rw [isNewline, is, beq_iff_eq] at hn
        rw [hn]
        rfl
    simp only [encode_cons, List.length_append, length_bytes, hwidth, ih]

/-- What is in the place of some runes and of those behind them. -/
theorem loose_append {rs ss rs' : List Rune} (h : List.Forall₂ Loose (rs ++ ss) rs') :
    ∃ front back, rs' = front ++ back ∧ List.Forall₂ Loose rs front ∧
      List.Forall₂ Loose ss back := by
  induction rs generalizing rs' with
  | nil => exact ⟨[], rs', rfl, .nil, h⟩
  | cons r rs ih =>
    cases h with
    | cons hr h =>
      obtain ⟨front, back, rfl, hfront, hback⟩ := ih h
      exact ⟨_ :: front, back, rfl, .cons hr hfront, hback⟩

/-- **Blanks for line feeds do not change how a text is cut into runes.** -/
theorem decode_encode_loose (t : Text) {rs : List Rune} (h : List.Forall₂ Loose (decode t) rs) :
    decode (encode rs) = rs := by
  induction t using Text.lineInduction generalizing rs with
  | last l hl => rw [eq_of_loose h (not_newline_of_line hl), encode_decode]
  | more l rest hl ih =>
    rw [decode_append_newline] at h
    obtain ⟨front, back, rfl, hfront, hback⟩ := loose_append h
    obtain rfl := eq_of_loose hfront (not_newline_of_line hl)
    cases hback with
    | @cons _ r _ rs hr hrest =>
      -- a line feed and a blank are both a byte that no other character has in it
      have hbyte : ∃ (c : Char) (b : UInt8), r = .char c ∧ String.utf8EncodeChar c = [b] ∧
          b < 0x80 := by
        rcases hr with rfl | ⟨-, rfl⟩
        · exact ⟨'\n', Text.newline, rfl, rfl, by decide⟩
        · exact ⟨' ', 0x20, rfl, rfl, by decide⟩
      obtain ⟨c, b, rfl, hc, hb⟩ := hbyte
      have hcons : encode (.char c :: rs) = b :: encode rs := by
        rw [encode_cons, bytes, hc]
        rfl
      have hfeed : decode (b :: encode rs) = .char c :: decode (encode rs) := by
        have hchar := decode_char_append c (encode rs)
        rwa [hc] at hchar
      rw [encode_append, encode_decode, hcons, decode_append_ascii l hb, hfeed, ih hrest]

end Rune

namespace Lexer

open Rune (Loose unbroken)

/-! ## The source with its lines joined -/

/-- The runes that the next step reads. -/
def read (l : Lexer) : List Rune :=
  l.input.take (l.input.length - l.step.input.length)

/-- The runes that the next step reads, with blanks for line feeds inside parentheses. -/
def readUnbroken (l : Lexer) : List Rune :=
  if 0 < l.depth then l.read.map unbroken else l.read

/-- **What is left to read, with a blank for every line feed that is read inside parentheses.** -/
def unwrap (l : Lexer) : List Rune :=
  if l.mode.isActive = true then l.readUnbroken ++ l.step.unwrap else l.input
termination_by l.work
decreasing_by
  rename_i h
  exact l.step_work_lt h

/-- No comment sign is read inside parentheses. -/
def Clear (l : Lexer) : Prop :=
  ∀ n, 0 < (steps n l).depth → .char '#' ∉ (steps n l).read

theorem Clear.step {l : Lexer} (h : Clear l) : Clear l.step :=
  fun n => h (n + 1)

theorem splitGap_suffix (acrossLines inComment : Bool) (rs : List Rune) :
    (splitGap acrossLines inComment rs).2 <:+ rs :=
  ⟨_, splitGap_append acrossLines inComment rs⟩

/-- A step reads from the front. -/
theorem step_input_suffix (l : Lexer) : l.step.input <:+ l.input := by
  cases hm : l.mode with
  | lineStart =>
    have hgap := splitGap_suffix true false l.input
    rw [step, hm]
    simp only [startLine]
    generalize splitGap true false l.input = cut at hgap
    obtain ⟨gap, rest⟩ := cut
    cases rest with
    | nil => exact hgap
    | cons r rest =>
      simp only [settle_input]
      exact hgap
  | between =>
    have hgap := splitGap_suffix (decide (0 < l.depth)) false l.input
    rw [step, hm]
    simp only [startLexeme]
    generalize splitGap (decide (0 < l.depth)) false l.input = cut at hgap
    obtain ⟨gap, rest⟩ := cut
    cases rest with
    | nil => exact hgap
    | cons r rest => exact (List.suffix_cons r rest).trans hgap
  | lexeme cls first start =>
    rw [step, hm]
    cases cls with
    | number =>
      simp only [readNumber]
      split <;> exact List.dropWhile_suffix _
    | word => exact List.dropWhile_suffix _
    | operator =>
      simp only [readSymbol]
      split
      · next kind lexeme rest hread =>
        exact List.suffix_of_suffix_length_le ⟨lexeme, readOperator_append hread⟩
          (List.suffix_cons first l.input) (readOperator_length_le hread)
      · exact List.suffix_rfl
  | finish =>
    rw [step, hm]
    exact List.suffix_rfl
  | done | failed e =>
    simp only [step_of_inactive (l := l) (by rw [hm]; rfl), List.suffix_rfl]

theorem read_append (l : Lexer) : l.read ++ l.step.input = l.input :=
  List.suffix_iff_eq_append.mp l.step_input_suffix

theorem read_eq {l : Lexer} {piece after : List Rune} (h : l.input = piece ++ after)
    (hs : l.step.input = after) : l.read = piece := by
  have happ := l.read_append
  rw [hs, h] at happ
  exact List.append_cancel_right happ

theorem unwrap_of_active {l : Lexer} (h : l.mode.isActive = true) :
    l.unwrap = l.readUnbroken ++ l.step.unwrap := by
  rw [unwrap, if_pos h]

/-- Apart from the line feeds, the source is kept. -/
theorem loose_unwrap (l : Lexer) : List.Forall₂ Loose l.input l.unwrap := by
  fun_induction unwrap l with
  | case1 l _ ih =>
    rw [← l.read_append]
    refine List.rel_append ?_ ih
    unfold readUnbroken
    split
    · exact Rune.loose_map_unbroken _
    · exact Rune.loose_refl _
  | case2 l _ => exact Rune.loose_refl _

/-- A lexer that has stopped reads nothing more. -/
theorem steps_of_inactive {l : Lexer} (h : l.mode.isActive = false) (n : Nat) :
    steps n l = l ∧ l.read = [] := by
  have hstep := step_of_inactive h
  refine ⟨?_, read_eq rfl (congrArg Lexer.input hstep)⟩
  induction n with
  | zero => rfl
  | succ n ih => rw [steps, hstep, ih]

/-- The joined source is known once enough steps are taken. -/
theorem unwrap_of_steps (n : Nat) {l : Lexer} (h : (steps n l).mode.isActive = false) :
    l.unwrap = ((List.range n).flatMap fun i => (steps i l).readUnbroken) ++ (steps n l).input := by
  induction n generalizing l with
  | zero =>
    rw [steps] at h
    rw [unwrap, if_neg (by simp [h])]
    rfl
  | succ n ih =>
    have hmore := ih (l := l.step) h
    have hread : l.unwrap = l.readUnbroken ++ l.step.unwrap := by
      cases ha : l.mode.isActive with
      | true => exact unwrap_of_active ha
      | false =>
        rw [readUnbroken, (steps_of_inactive ha 0).2, step_of_inactive ha, List.map_nil, ite_self,
          List.nil_append]
    rw [hread, hmore, List.range_succ_eq_map, List.flatMap_cons, List.flatMap_map,
      List.append_assoc]
    rfl

/-- Whether a comment sign is read inside parentheses is known once enough steps are taken. -/
theorem clear_of_steps (n : Nat) {l : Lexer} (h : (steps n l).mode.isActive = false)
    (hread : ∀ m < n, 0 < (steps m l).depth → .char '#' ∉ (steps m l).read) : l.Clear := by
  induction n generalizing l with
  | zero =>
    intro m
    obtain ⟨hsteps, hnil⟩ := steps_of_inactive (l := l) h m
    rw [hsteps, hnil]
    exact fun _ => List.not_mem_nil
  | succ n ih =>
    intro m
    cases m with
    | zero => exact hread 0 (Nat.succ_pos n)
    | succ m => exact ih h (fun m hm => hread (m + 1) (Nat.succ_lt_succ hm)) m

/-! ## Gaps and lexemes in front of other line ends -/

/-- A gap without comments is made of space characters. -/
theorem IsGap.isSpace {gap after : List Rune} (h : IsGap gap after) (hc : .char '#' ∉ gap) :
    ∀ r ∈ gap, r.isSpace = true := by
  induction h with
  | nil => exact List.forall_mem_nil _
  | space hs _ ih =>
    exact List.forall_mem_cons.mpr ⟨hs, ih fun hm => hc (List.mem_cons_of_mem _ hm)⟩
  | comment _ _ _ _ => exact absurd List.mem_cons_self hc

theorem isSpace_unbroken {r : Rune} (h : r.isSpace = true) : r.unbroken.isSpace = true := by
  unfold unbroken
  split
  · decide
  · exact h

theorem Apart.loose {rs rs' : List Rune} (h : Apart rs) (hl : List.Forall₂ Loose rs rs') :
    Apart rs' := by
  cases hl with
  | nil => exact h
  | @cons r r' rs rs' hr _ =>
    intro a ha
    obtain rfl := Option.some.inj ha
    rcases hr with rfl | ⟨-, rfl⟩
    · exact h _ rfl
    · exact fun hsolid => absurd hsolid.2.2 (by decide)

/-- **Blanks for line feeds do not change a lexeme in front of them**, nor what is wrong with it. -/
theorem readLexeme_loose (first : Rune) {rest rest' : List Rune} (p q : Position)
    (h : List.Forall₂ Loose rest rest') :
    match readLexeme first rest p with
    | .ok (t, lexeme, _) =>
      ∃ after', readLexeme first rest' q = .ok ({ t with pos := q }, lexeme, after')
    | .error e => readLexeme first rest' q = .error { e with pos := q } := by
  obtain ⟨word, behind, rfl, hword, hbehind⟩ := exists_apart rest
  obtain ⟨front, back, rfl, hfront, hback⟩ := Rune.loose_append h
  obtain rfl := Rune.eq_of_loose hfront fun r hr => (hword r hr).1
  rw [readLexeme_append_apart hbehind, readLexeme_append_apart (hbehind.loose hback),
    readLexeme_moved first _ p q]
  cases readLexeme first front p with
  | ok x => exact ⟨_, rfl⟩
  | error e => rfl

/-! ## Two streams side by side -/

/-- Two positions that differ in their lines and columns only. -/
def SameOffset (p q : Position) : Prop :=
  q.offset = p.offset

/-- Outside parentheses, two places are as many lines behind those of the tokens in front of
them. -/
def InStep (depth : Nat) (p q pos pos' : Position) : Prop :=
  depth = 0 → pos'.line - q.line = pos.line - p.line

/-- **Two streams side by side**, given the number of open parentheses and the positions of the
tokens in front. The tokens are the same and stand at the same offsets. Outside parentheses, a token
is on the line of the token in front for both streams or for neither. -/
inductive Abreast : Nat → Position → Position → List Token → List Token → Prop where
  | nil {depth : Nat} {p q : Position} : Abreast depth p q [] []
  | cons {depth : Nat} {p q : Position} {t u : Token} {ts us : List Token}
      (alike : t.Alike SameOffset u)
      (line : depth = 0 → (u.pos.line = q.line ↔ t.pos.line = p.line))
      (more : Abreast (depthAfter depth t.kind) t.pos u.pos ts us) :
      Abreast depth p q (t :: ts) (u :: us)

section Abreast

variable {depth : Nat} {p q pos pos' : Position} {ts us : List Token} {t u : Token}

theorem InStep.refl (depth : Nat) (pos pos' : Position) : InStep depth pos pos' pos pos' := by
  intro _
  rw [Int.sub_self, Int.sub_self]

theorem InStep.line_iff (h : InStep depth p q pos pos') (hd : depth = 0) :
    pos'.line = q.line ↔ pos.line = p.line := by
  have hline := h hd
  omega

/-- Reading the same number of line feeds. -/
theorem InStep.afterAll (h : InStep depth p q pos pos') {rs rs' : List Rune}
    (hrs : depth = 0 → rs' = rs) : InStep depth p q (pos.afterAll rs) (pos'.afterAll rs') := by
  intro hd
  have hline := h hd
  rw [hrs hd, afterAll_line, afterAll_line]
  omega

theorem SameOffset.afterAll (h : SameOffset pos pos') {rs rs' : List Rune}
    (hrs : (Rune.encode rs').length = (Rune.encode rs).length) :
    SameOffset (pos.afterAll rs) (pos'.afterAll rs') := by
  rw [SameOffset, Position.afterAll_offset, Position.afterAll_offset, hrs, h]

/-- Markers in front of two streams. -/
theorem Abreast.markers {kinds : List Kind} (hkinds : ∀ k ∈ kinds, k.isMarker = true)
    (hpos : SameOffset pos pos') (hstep : InStep depth p q pos pos')
    (more : ∀ p q, InStep depth p q pos pos' → Abreast depth p q ts us) :
    Abreast depth p q (markersAt pos kinds ++ ts) (markersAt pos' kinds ++ us) := by
  induction kinds generalizing p q with
  | nil => exact more p q hstep
  | cons k kinds ih =>
    obtain ⟨hk, hkinds⟩ := List.forall_mem_cons.mp hkinds
    have hdepth : depthAfter depth k = depth := by
      cases k <;> first | rfl | cases hk
    refine .cons ⟨rfl, rfl, rfl, hpos⟩ hstep.line_iff ?_
    have hrest := ih hkinds (.refl depth pos pos')
    rwa [← hdepth] at hrest

theorem Abreast.forall₂ (h : Abreast depth p q ts us) :
    List.Forall₂ (Token.Alike SameOffset) ts us := by
  induction h with
  | nil => exact .nil
  | cons alike _ _ ih => exact .cons alike ih

end Abreast

/-! ## The lexer on both sources -/

/-- The gap in front of the next lexeme, with blanks for line feeds inside parentheses. -/
def Scan.unbrokenGap (s : Scan) : List Rune :=
  if 0 < s.depth then s.gap.map unbroken else s.gap

/-- **Two lexers, one of which reads what the other has joined.** The positions of the tokens in
front of them are `p` and `q`. -/
structure Joined (tab : TabWidth) (p q : Position) (l : Lexer) (s s' : Scan) : Prop where
  tabs : l.tab = tab
  mode : l.mode = if s.fresh then .lineStart else .between
  scan : l.scanOf s.fresh = s
  outside : s.fresh = true → s.depth = 0
  clear : l.Clear
  fresh : s'.fresh = s.fresh
  input : s'.input = l.unwrap
  levels : s'.levels = s.levels
  depth : s'.depth = s.depth
  offset : SameOffset s.pos s'.pos
  line : InStep s.depth p q s.pos s'.pos

theorem joined_ofSource {tab : TabWidth} {src src' : Text}
    (hsrc : Rune.decode src' = (Lexer.ofSource tab src).unwrap)
    (hclear : (Lexer.ofSource tab src).Clear) :
    Joined tab .unset .unset (Lexer.ofSource tab src) (.ofSource src) (.ofSource src') :=
  ⟨rfl, rfl, rfl, fun _ => rfl, hclear, rfl, hsrc, rfl, rfl, rfl, fun _ => rfl⟩

section Joined

variable {tab : TabWidth} {p q : Position} {l : Lexer} {s s' : Scan} {r : Rune} {rest : List Rune}

theorem Scan.loose_unbrokenGap (s : Scan) : List.Forall₂ Loose s.gap s.unbrokenGap := by
  unfold Scan.unbrokenGap
  split
  · exact Rune.loose_map_unbroken _
  · exact Rune.loose_refl _

/-- **The gap with blanks for line feeds is a gap**, and ends where it did. -/
theorem Scan.split_unbroken (hf : s'.fresh = s.fresh) (hd : s'.depth = s.depth)
    (hspace : 0 < s.depth → ∀ r ∈ s.gap, r.isSpace = true) {tail : List Rune}
    (hin : s'.input = s.unbrokenGap ++ tail) (htail : tail.head? = s.rest.head?) :
    s'.gap = s.unbrokenGap ∧ s'.rest = tail := by
  suffices hsplit : splitGap (s.fresh || decide (0 < s.depth)) false (s.unbrokenGap ++ tail) =
      (s.unbrokenGap, tail) by
    rw [Scan.gap, Scan.rest, hf, hd, hin, hsplit]
    exact ⟨rfl, rfl⟩
  have hsame : splitGap (s.fresh || decide (0 < s.depth)) false s.input = (s.gap, s.rest) := rfl
  by_cases hdepth : 0 < s.depth
  · have hblank : ∀ r ∈ s.gap.map unbroken, r.isSpace = true :=
      List.forall_mem_map.mpr fun r hr => isSpace_unbroken (hspace hdepth r hr)
    rw [decide_eq_true hdepth, Bool.or_true] at hsame ⊢
    rw [Scan.unbrokenGap, if_pos hdepth, splitGap_spaces_append hblank]
    cases tail with
    | nil => rw [splitGap, List.append_nil]
    | cons r tail =>
      obtain ⟨rest, hr⟩ := List.head?_eq_some_iff.mp htail.symm
      rw [splitGap_solid (solid_of_splitGap (congrArg Prod.snd hsame |>.trans hr)), List.append_nil]
  · rw [Scan.unbrokenGap, if_neg hdepth]
    cases tail with
    | nil =>
      have hr : s.rest = [] := List.head?_eq_none_iff.mp htail.symm
      have hgap := s.gap_append_rest
      rw [hr] at hgap
      rw [hgap, hsame, hr]
    | cons r tail =>
      obtain ⟨rest, hr⟩ := List.head?_eq_some_iff.mp htail.symm
      rw [hr] at hsame
      exact splitGap_swap_rest hsame tail

theorem unwrap_nil (h : l.input = []) : l.unwrap = [] := by
  have hloose := l.loose_unwrap
  rw [h] at hloose
  exact List.forall₂_nil_left_iff.mp hloose

theorem unwrap_cons (h : l.input = r :: rest) (hn : r.isNewline = false) :
    ∃ rest', l.unwrap = r :: rest' := by
  have hloose := l.loose_unwrap
  rw [h] at hloose
  obtain ⟨r', rest', hr, -, hu⟩ := List.forall₂_cons_left_iff.mp hloose
  exact ⟨rest', by rw [hu, hr.eq_of_not_newline hn]⟩

/-- **A lexeme is read in the joined source as in the source**, and the step behind it joins the
rest. -/
theorem readLexeme_unwrap {start : Position} (hm : l.mode = .lexeme (classOf r) r start)
    (hpos : l.pos = start.after r) {t : Token} {lexeme after : List Rune}
    (hread : readLexeme r l.input start = .ok (t, lexeme, after)) (q : Position) :
    readLexeme r l.unwrap q = .ok ({ t with pos := q }, lexeme, l.step.unwrap) := by
  have hstep := step_lexeme hm hpos
  have hboth := readLexeme_loose r start q l.loose_unwrap
  simp only [hread] at hstep hboth
  obtain ⟨after', hread'⟩ := hboth
  suffices hafter : after' = l.step.unwrap by rw [hread', hafter]
  -- the lexeme has no line feeds, so what the step reads of it is kept
  obtain ⟨happ, hvalue, -, hlexeme⟩ := readLexeme_spec hread
  obtain ⟨a, more, rfl⟩ := List.exists_cons_of_ne_nil (hlexeme.ne_nil hvalue)
  obtain ⟨rfl, hmore⟩ := List.cons.inj happ
  have hplain : ∀ b ∈ more, b.isNewline = false := fun b hb =>
    hlexeme.isNewline_eq_false hvalue b (List.mem_cons_of_mem _ hb)
  have hpiece : l.read = more := read_eq hmore.symm (by rw [hstep])
  have hunwrap : l.unwrap = more ++ l.step.unwrap := by
    rw [unwrap_of_active (by rw [hm]; rfl), readUnbroken, hpiece, Rune.map_unbroken hplain,
      ite_self]
  have happ' := (readLexeme_spec hread').1
  rw [hunwrap] at happ'
  exact List.append_cancel_left (List.cons.inj happ').2

/-! ### What the source lexer does -/

theorem Joined.input_eq (h : Joined tab p q l s s') : l.input = s.input :=
  congrArg Scan.input h.scan

theorem Joined.levels_eq (h : Joined tab p q l s s') : l.levels = s.levels :=
  congrArg Scan.levels h.scan

theorem Joined.depth_eq (h : Joined tab p q l s s') : l.depth = s.depth :=
  congrArg Scan.depth h.scan

theorem Joined.isActive (h : Joined tab p q l s s') : l.mode.isActive = true := by
  rw [h.mode]
  split <;> rfl

theorem Joined.step_fresh (h : Joined tab p q l s s') (hf : s.fresh = true) : l.step =
    match s.rest with
    | [] => { l with input := [], pos := s.next, mode := .finish }
    | r :: rest => { l with input := r :: rest, pos := s.next }.settle (widthOf tab s.gap) r := by
  have hscan := h.scan
  rw [hf] at hscan
  have hstep := step_lineStart (l := l) (by rw [h.mode, if_pos hf])
  rw [hscan] at hstep
  rw [← h.tabs]
  exact hstep

theorem Joined.step_within (h : Joined tab p q l s s') (hf : s.fresh = false) : l.step =
    match s.rest with
    | [] => { l with input := [], pos := s.next, mode := .finish }
    | r :: rest =>
      { l with
        input := rest
        pos := s.next.after r
        mode := if r.isNewline then .lineStart else .lexeme (classOf r) r s.next } := by
  have hscan := h.scan
  rw [hf] at hscan
  have hstep := step_between (l := l) (by rw [h.mode, hf]; rfl)
  rw [hscan] at hstep
  exact hstep

/-! ### What both lexers find -/

/-- **Behind the gap both lexers see the same runes**, up to the line feeds that come later. The
next step reads the gap, and perhaps a rune behind it. -/
theorem Joined.next (h : Joined tab p q l s s') (head : List Rune)
    (hr : s.rest = head ++ l.step.input) (hhead : ∀ r ∈ head, r.isNewline = true → s.depth = 0)
    (hsame : (head ++ l.step.unwrap).head? = s.rest.head?) :
    s'.rest = head ++ l.step.unwrap ∧ (s.depth = 0 → s'.gap = s.gap) ∧
      SameOffset s.next s'.next ∧ InStep s.depth p q s.next s'.next := by
  have hread : l.read = s.gap ++ head := by
    refine read_eq ?_ rfl
    rw [h.input_eq, ← s.gap_append_rest, hr, List.append_assoc]
  have hunwrap : l.unwrap = s.unbrokenGap ++ (head ++ l.step.unwrap) := by
    rw [unwrap_of_active h.isActive, readUnbroken, Scan.unbrokenGap, h.depth_eq, hread,
      ← List.append_assoc]
    split
    · next hd =>
      -- inside parentheses the gap takes all line feeds
      have hplain : ∀ r ∈ head, r.isNewline = false := by
        intro r hm
        rw [Bool.eq_false_iff]
        exact fun hn => absurd (hhead r hm hn) (Nat.ne_of_gt hd)
      rw [List.map_append, Rune.map_unbroken hplain]
    · rfl
  have hspace : 0 < s.depth → ∀ r ∈ s.gap, r.isSpace = true := by
    intro hd
    refine s.isGap_gap.isSpace fun hm => h.clear 0 (h.depth_eq ▸ hd) ?_
    rw [steps, hread]
    exact List.mem_append_left _ hm
  obtain ⟨hgap, hrest⟩ := Scan.split_unbroken h.fresh h.depth hspace (h.input.trans hunwrap) hsame
  have houter : s.depth = 0 → s'.gap = s.gap := by
    intro hd
    rw [hgap, Scan.unbrokenGap, if_neg (by omega)]
  refine ⟨hrest, houter, ?_, h.line.afterAll houter⟩
  rw [Scan.next, Scan.next, hgap]
  exact h.offset.afterAll (Rune.length_encode_loose s.loose_unbrokenGap)

/-- The end of the source, in front of which a gap is left. -/
theorem Joined.finish (h : Joined tab p q l s s') (hr : s.rest = []) :
    s'.rest = [] ∧ SameOffset s.next s'.next ∧ InStep s.depth p q s.next s'.next := by
  have hin : l.step.input = [] := by
    cases hf : s.fresh with
    | true => rw [h.step_fresh hf, hr]
    | false => rw [h.step_within hf, hr]
  have hnil := unwrap_nil hin
  obtain ⟨hrest, -, hpos⟩ := h.next [] (by rw [hr, hin]; rfl) (List.forall_mem_nil _)
    (by rw [hr, hnil]; rfl)
  exact ⟨hrest.trans hnil, hpos⟩

/-- The start of a line, the indentation of which is adjusted. -/
theorem Joined.line_start (h : Joined tab p q l s s') (hf : s.fresh = true)
    (hr : s.rest = r :: rest) :
    (∃ rest', s'.rest = r :: rest') ∧ s'.gap = s.gap ∧ SameOffset s.next s'.next ∧
      InStep s.depth p q s.next s'.next ∧
      ∀ kinds levels, adjust s.levels (widthOf tab s.gap) = some (kinds, levels) →
        ∀ p q, InStep s.depth p q s.next s'.next →
          Joined tab p q l.step ⟨false, r :: rest, s.next, levels, s.depth⟩
            ⟨false, s'.rest, s'.next, levels, s'.depth⟩ := by
  have hstep := h.step_fresh hf
  simp only [hr] at hstep
  have hin : l.step.input = r :: rest := by rw [hstep, settle_input]
  obtain ⟨rest', hr'⟩ := unwrap_cons hin (Scan.solid_of_fresh hf hr).1
  obtain ⟨hrest, hgap, hoff, hline⟩ := h.next [] (by rw [hr, hin]; rfl)
    (List.forall_mem_nil _) (by rw [hr, List.nil_append, hr']; rfl)
  rw [List.nil_append] at hrest
  refine ⟨⟨rest', hrest.trans hr'⟩, hgap (h.outside hf), hoff, hline, ?_⟩
  intro kinds levels ha p q hstay
  rw [settle_eq] at hstep
  simp only [h.levels_eq, ha] at hstep
  refine ⟨by rw [hstep]; exact h.tabs, by rw [hstep]; rfl, ?_, nofun, h.clear.step, rfl, hrest, rfl,
    h.depth, hoff, hstay⟩
  rw [hstep, scanOf, h.depth_eq]

/-- The end of a line. -/
theorem Joined.newline (h : Joined tab p q l s s') (hf : s.fresh = false) (hr : s.rest = r :: rest)
    (hn : r.isNewline = true) : ∃ rest', s'.rest = r :: rest' ∧
      Joined tab p q l.step ⟨true, rest, s.next.after r, s.levels, s.depth⟩
        ⟨true, rest', s'.next.after r, s'.levels, s'.depth⟩ := by
  have hstep := h.step_within hf
  simp only [hr, hn, if_true] at hstep
  have hdepth := Scan.depth_of_newline hf hr hn
  obtain ⟨hrest, -, hoff, hline⟩ := h.next [r] (by rw [hr, hstep]; rfl)
    (fun _ _ _ => hdepth) (by rw [hr]; rfl)
  have hoff' : SameOffset (s.next.afterAll [r]) (s'.next.afterAll [r]) := hoff.afterAll rfl
  have hline' : InStep s.depth p q (s.next.afterAll [r]) (s'.next.afterAll [r]) :=
    hline.afterAll fun _ => rfl
  refine ⟨l.step.unwrap, hrest, by rw [hstep]; exact h.tabs, by rw [hstep]; rfl, ?_,
    fun _ => hdepth, h.clear.step, rfl, rfl, h.levels, h.depth, hoff', hline'⟩
  rw [hstep, scanOf, h.levels_eq, h.depth_eq]

/-- The first rune of a lexeme. -/
theorem Joined.front (h : Joined tab p q l s s') (hf : s.fresh = false) (hr : s.rest = r :: rest)
    (hn : r.isNewline = false) : s'.rest = r :: l.step.unwrap ∧ SameOffset s.next s'.next ∧
      InStep s.depth p q s.next s'.next ∧
      l.step = { l with
        input := rest
        pos := s.next.after r
        mode := .lexeme (classOf r) r s.next } := by
  have hstep := h.step_within hf
  simp only [hr, hn, Bool.false_eq_true, if_false] at hstep
  obtain ⟨hrest, -, hoff, hline⟩ := h.next [r] (by rw [hr, hstep]; rfl)
    (by simp [hn]) (by rw [hr]; rfl)
  exact ⟨hrest, hoff, hline, hstep⟩

/-- A lexeme. -/
theorem Joined.lexeme (h : Joined tab p q l s s') (hf : s.fresh = false) (hr : s.rest = r :: rest)
    (hn : r.isNewline = false) {t : Token} {lexeme after : List Rune}
    (hread : readLexeme r rest s.next = .ok (t, lexeme, after)) :
    ∃ rest' after', s'.rest = r :: rest' ∧
      readLexeme r rest' s'.next = .ok ({ t with pos := s'.next }, lexeme, after') ∧
      SameOffset s.next s'.next ∧ InStep s.depth p q s.next s'.next ∧
      Joined tab s.next s'.next l.step.step
        ⟨false, after, s.next.afterAll lexeme, s.levels, depthAfter s.depth t.kind⟩
        ⟨false, after', s'.next.afterAll lexeme, s'.levels, depthAfter s'.depth t.kind⟩ := by
  obtain ⟨hrest, hoff, hline, hstep⟩ := h.front hf hr hn
  have hm : l.step.mode = .lexeme (classOf r) r s.next := by rw [hstep]
  have hpos : l.step.pos = s.next.after r := by rw [hstep]
  have hread' : readLexeme r l.step.input s.next = .ok (t, lexeme, after) := by rw [hstep, hread]
  have hstep' := step_lexeme hm hpos
  simp only [hread'] at hstep'
  refine ⟨_, _, hrest, readLexeme_unwrap hm hpos hread' s'.next, hoff, hline, ?_,
    by rw [hstep']; rfl, ?_, nofun, h.clear.step.step, rfl, rfl, h.levels, by rw [h.depth],
    hoff.afterAll rfl, (InStep.refl _ _ _).afterAll fun _ => rfl⟩
  · rw [hstep', hstep]
    exact h.tabs
  · rw [hstep', scanOf, hstep, h.levels_eq, h.depth_eq]

/-- A faulty lexeme. -/
theorem Joined.fault (h : Joined tab p q l s s') (hf : s.fresh = false) (hr : s.rest = r :: rest)
    (hn : r.isNewline = false) {e : LexicalError} (hread : readLexeme r rest s.next = .error e) :
    ∃ rest', s'.rest = r :: rest' ∧
      readLexeme r rest' s'.next = .error { e with pos := s'.next } ∧
      SameOffset s.next s'.next := by
  obtain ⟨hrest, hoff, -, hstep⟩ := h.front hf hr hn
  have hloose := l.step.loose_unwrap
  rw [show l.step.input = rest by rw [hstep]] at hloose
  have hboth := readLexeme_loose r s.next s'.next hloose
  rw [hread] at hboth
  exact ⟨_, hrest, hboth, hoff⟩

/-- **What a lexer finds in both sources**: streams that go side by side, and faults that are
alike. -/
theorem Course.abreast {ts : List Token} {e : Option LexicalError} (h : Course tab s ts e)
    {ts' : List Token} {e' : Option LexicalError} (hj : Joined tab p q l s s')
    (h' : Course tab s' ts' e') : Abreast s.depth p q ts ts' ∧
      Option.Rel (LexicalError.Alike SameOffset) e e' := by
  induction h generalizing p q l s' ts' e' with
  | @finish s hr =>
    obtain ⟨hr', hoff, hline⟩ := hj.finish hr
    obtain ⟨rfl, rfl⟩ := h'.behind_end hr'
    rw [hj.levels]
    exact ⟨.markers (isMarker_dedents _) hoff hline fun p q hline =>
      .cons ⟨rfl, rfl, rfl, hoff⟩ hline.line_iff .nil, .none⟩
  | newline hf hr hn _ ih =>
    obtain ⟨rest', hr', hmore⟩ := hj.newline hf hr hn
    exact ih hmore (h'.behind_newline (hj.fresh.trans hf) hr' hn)
  | @line s r rest kinds levels ts e hf hr ha _ ih =>
    obtain ⟨⟨rest', hr'⟩, hgap, hoff, hline, hmore⟩ := hj.line_start hf hr
    obtain ⟨us, rfl, hu⟩ := h'.behind_indentation (hj.fresh.trans hf) hr'
      (by rw [hj.levels, hgap, ha])
    rw [← hr'] at hu
    have hrest (p q : Position) (hline : InStep s.depth p q s.next s'.next) :=
      ih (hmore kinds levels ha p q hline) hu
    exact ⟨.markers (isMarker_of_adjust ha) hoff hline fun p q hline => (hrest p q hline).1,
      (hrest p q hline).2⟩
  | lost hf hr ha =>
    obtain ⟨⟨rest', hr'⟩, hgap, hoff, -, -⟩ := hj.line_start hf hr
    obtain ⟨rfl, rfl⟩ := h'.behind_lost (hj.fresh.trans hf) hr' (by rw [hj.levels, hgap, ha])
    exact ⟨.nil, .some ⟨rfl, rfl, hoff⟩⟩
  | @lexeme s r rest lexeme after t ts e hf hr hn hread _ ih =>
    obtain ⟨rest', after', hr', hread', hoff, hline, hmore⟩ := hj.lexeme hf hr hn hread
    obtain ⟨us, rfl, hu⟩ := h'.behind_lexeme (hj.fresh.trans hf) hr' hn hread'
    have hpos : t.pos = s.next := (readLexeme_spec hread).2.2.1
    obtain ⟨habreast, hfault⟩ := ih hmore hu
    rw [← hpos] at hoff hline habreast
    exact ⟨.cons ⟨rfl, rfl, rfl, hoff⟩ hline.line_iff habreast, hfault⟩
  | fault hf hr hn hread =>
    obtain ⟨rest', hr', hread', hoff⟩ := hj.fault hf hr hn hread
    obtain ⟨rfl, rfl⟩ := h'.behind_fault (hj.fresh.trans hf) hr' hn hread'
    refine ⟨.nil, .some ⟨rfl, rfl, ?_⟩⟩
    rw [readLexeme_error hread]
    exact hoff

end Joined

/-! ## The parser on both sources -/

/-- Two cursors in front of streams that go side by side. -/
structure Flanked (depth : Nat) (c c' : Cursor) : Prop where
  last : SameOffset c.last c'.last
  ahead : Abreast depth c.last c'.last c.ahead c'.ahead

theorem Flanked.cur {depth : Nat} {c c' : Cursor} (h : Flanked depth c c') :
    c.cur.Alike SameOffset c'.cur ∧
      (depth = 0 → (c'.cur.pos.line = c'.last.line ↔ c.cur.pos.line = c.last.line)) := by
  obtain ⟨last, ahead⟩ := c
  obtain ⟨last', ahead'⟩ := c'
  obtain ⟨hlast, hahead⟩ := h
  cases hahead with
  | nil => exact ⟨⟨rfl, rfl, rfl, hlast⟩, fun _ => ⟨fun _ => rfl, fun _ => rfl⟩⟩
  | cons alike line _ => exact ⟨alike, line⟩

theorem Flanked.advance {depth : Nat} {c c' : Cursor} (h : Flanked depth c c') :
    Flanked (depthAfter depth c.cur.kind) c.advance c'.advance := by
  obtain ⟨last, ahead⟩ := c
  obtain ⟨last', ahead'⟩ := c'
  obtain ⟨hlast, hahead⟩ := h
  cases hahead with
  | nil => exact ⟨hlast, .nil⟩
  | cons alike _ more => exact ⟨alike.pos, more⟩

/-- **Streams that go side by side cannot be told apart.** -/
theorem likeness_flanked {f : Position → Position} (hf : ∀ p q, SameOffset p q → f q = f p) :
    Likeness f Flanked where
  cur h := h.cur.1.relocate_eq hf
  advance h := h.advance
  line h := h.cur.2 rfl

end Lexer

open Lexer

/-- The position without its line and its column. -/
def Position.unlined (p : Position) : Position :=
  ⟨p.offset, 0, 0⟩

theorem unlined_eq {p q : Position} (h : SameOffset p q) : q.unlined = p.unlined := by
  rw [Position.unlined, Position.unlined, show q.offset = p.offset from h]

/-- **The source with a blank for every line feed that is read inside parentheses.** -/
def Text.unwrapped (tab : TabWidth) (src : Text) : Text :=
  Rune.encode (ofSource tab src).unwrap

theorem decode_unwrapped (tab : TabWidth) (src : Text) :
    Rune.decode (src.unwrapped tab) = (ofSource tab src).unwrap :=
  Rune.decode_encode_loose src (ofSource tab src).loose_unwrap

/-- The parser on streams that go side by side. -/
theorem parseTokens_abreast {ts us : List Token} (h : Abreast 0 .unset .unset ts us) :
    SameOutcome (Program.relocate .unlined) (SyntaxError.relocate .unlined) (parseTokens ts)
      (parseTokens us) := by
  have L : Likeness .unlined Flanked := likeness_flanked fun _ _ => unlined_eq
  have hstart : Flanked 0 (.ofTokens ts) (.ofTokens us) := ⟨rfl, h⟩
  exact (Cursor.sequence_paired L (.ofTokens ts) .program hstart).sameOutcome

/-- **Line breaks inside parentheses are blanks.** A source without comments inside parentheses,
with a blank for every line feed that is read there, has the same tokens or the same lexical fault,
at the same offsets. It spells the same program, or it has the same fault. -/
theorem parse_unwrapped (tab : TabWidth) (src : Text) (hclear : (ofSource tab src).Clear) :
    ((tokenize tab (src.unwrapped tab)).map (List.map (Token.relocate .unlined))).mapError
          (LexicalError.relocate .unlined) =
        ((tokenize tab src).map (List.map (Token.relocate .unlined))).mapError
          (LexicalError.relocate .unlined) ∧
      match parse tab (src.unwrapped tab), parse tab src with
      | .ok p', .ok p => p'.relocate .unlined = p.relocate .unlined
      | .error e', .error e => e'.relocate .unlined = e.relocate .unlined
      | _, _ => False := by
  obtain ⟨ts, e, hc, -, htok⟩ := course_source tab src
  obtain ⟨us, e', hc', -, htok'⟩ := course_source tab (src.unwrapped tab)
  obtain ⟨habreast, hfault⟩ :=
    hc.abreast (joined_ofSource (decode_unwrapped tab src) hclear) hc'
  unfold parse
  rw [htok, htok']
  cases hfault with
  | none =>
    refine ⟨congrArg Except.ok (map_relocate_eq habreast.forall₂ fun _ _ => unlined_eq), ?_⟩
    have hparse := parseTokens_abreast habreast
    simp only [Option.elim_none]
    generalize parseTokens ts = x, parseTokens us = y at hparse
    cases hparse with
    | ok value => exact value
    | error fault => exact congrArg SourceError.grammar fault
  | some alike =>
    have hsame := alike.relocate_eq fun _ _ => unlined_eq
    exact ⟨congrArg Except.error hsame, congrArg SourceError.lexical hsame⟩

/-- A suite on the line of its header. Its first call runs over a line, and the second statement
belongs to the suite as it stands on the line of the closing parenthesis. -/
def spreadSource : String := "if a: f(1,\n2) b = 3 # more\nc = b"

/-- The source with the call on one line. -/
def joinedSource : String := "if a: f(1, 2) b = 3 # more\nc = b"

/-- The program of both sources, but for the lines of the tokens. -/
def spreadProgram : Program :=
  [.ifThen (.leaf (.plain .identifier "a" ⟨3, 1, 4⟩))
    [.call (.plain .identifier "f" ⟨6, 1, 7⟩)
      [.leaf ⟨.number, "1", 1, ⟨8, 1, 9⟩⟩, .leaf ⟨.number, "2", 2, ⟨11, 2, 1⟩⟩],
     .assign (.plain .identifier "b" ⟨14, 2, 4⟩) (.leaf ⟨.number, "3", 3, ⟨18, 2, 8⟩⟩)],
   .assign (.plain .identifier "c" ⟨27, 3, 1⟩) (.leaf (.plain .identifier "b" ⟨31, 3, 5⟩))]

theorem parse_spread : parse .standard (Text.ofString spreadSource) = .ok spreadProgram := by
  have htokens : tokenize .standard (Text.ofString spreadSource) = .ok
      [.plain .ifWord "if" ⟨0, 1, 1⟩, .plain .identifier "a" ⟨3, 1, 4⟩, .plain .colon ":" ⟨4, 1, 5⟩,
       .plain .identifier "f" ⟨6, 1, 7⟩, .plain .openParen "(" ⟨7, 1, 8⟩,
       ⟨.number, "1", 1, ⟨8, 1, 9⟩⟩, .plain .comma "," ⟨9, 1, 10⟩, ⟨.number, "2", 2, ⟨11, 2, 1⟩⟩,
       .plain .closeParen ")" ⟨12, 2, 2⟩, .plain .identifier "b" ⟨14, 2, 4⟩,
       .plain .assign "=" ⟨16, 2, 6⟩, ⟨.number, "3", 3, ⟨18, 2, 8⟩⟩,
       .plain .identifier "c" ⟨27, 3, 1⟩, .plain .assign "=" ⟨29, 3, 3⟩,
       .plain .identifier "b" ⟨31, 3, 5⟩, .eofAt ⟨32, 3, 6⟩] :=
    tokenize_of_steps 40 (by decide +kernel) (by decide +kernel)
  exact parse_eq_ok.mpr ⟨_, htokens, by decide +kernel⟩

theorem clear_spread : (ofSource .standard (Text.ofString spreadSource)).Clear := by
  rw [ofSource_ofString]
  exact clear_of_steps 40 (by decide +kernel) (by decide +kernel)

theorem unwrapped_spread :
    (Text.ofString spreadSource).unwrapped .standard = Text.ofString joinedSource := by
  have hflat : (ofSource .standard (Text.ofString spreadSource)).unwrap =
      joinedSource.toList.map .char := by
    rw [ofSource_ofString, unwrap_of_steps 40 (by decide +kernel)]
    decide +kernel
  rw [Text.unwrapped, hflat, Rune.encode_chars, Rune.ofString_eq]

/-- The statement that follows the call belongs to the suite in both sources. -/
theorem parse_unwrapped_spread :
    (ofSource .standard (Text.ofString spreadSource)).Clear ∧
      (Text.ofString spreadSource).unwrapped .standard = Text.ofString joinedSource ∧
      ∃ p, parse .standard (Text.ofString joinedSource) = .ok p ∧
        p.relocate .unlined = spreadProgram.relocate .unlined := by
  refine ⟨clear_spread, unwrapped_spread, ?_⟩
  have hparse := (parse_unwrapped .standard _ clear_spread).2
  rw [unwrapped_spread, parse_spread] at hparse
  cases hp : parse .standard (Text.ofString joinedSource) with
  | ok p =>
    rw [hp] at hparse
    exact ⟨p, rfl, hparse⟩
  | error e =>
    rw [hp] at hparse
    exact hparse.elim

end Offside
