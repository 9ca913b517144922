import Offside.Proofs.Lexer.Levels
import Offside.Proofs.Render.Legible
import Offside.Proofs.Text.Space

/-!
# A source that goes on

What `tokenize` makes of a source and of the same source with more text behind it. A session reads
what it has so far and then the same with a further line; two sources are also put one behind the
other.

A source without a lexical fault is continued by a line feed and more text. Every lexeme is read as
before, since a line feed ends it as the end of the source did. What is different comes last: the
levels that were open at the end of the source are not closed there.

* `Apart` are the runes that end every lexeme, as the end of the source does: a gap begins with
  them.
* `Scan.goingOn` is the place of a lexer in a source with more behind it, and `Scan.beyond` the
  position on the line behind a source.
* `Scan.Opens` is the start of that line, with the levels and parentheses that are still open.

Results:
* `readLexeme_append_apart`: what is apart ends a lexeme as the end of the source does.
* `Course.continues`: a course in a source is the beginning of a course in every continuation, up to
  the markers that close the levels. The induction is on the course.
* `tokenize_continue`: the tokens of a source in front of its closing markers are the first tokens
  of every continuation, and the course of the rest begins where the source ended.
-/

namespace Offside

namespace Lexer

/-! ## Gaps -/

/-- A gap does not depend on what follows its end. -/
theorem splitGap_swap_rest {acrossLines inComment : Bool} {rs gap rest : List Rune} {r : Rune}
    (h : splitGap acrossLines inComment rs = (gap, r :: rest)) (rest' : List Rune) :
    splitGap acrossLines inComment (gap ++ r :: rest') = (gap, r :: rest') := by
  induction rs generalizing inComment gap with
  | nil => cases h
  | cons a rs ih =>
    unfold splitGap at h
    split at h
    · next hn =>
      cases acrossLines with
      | true =>
        obtain ⟨rfl, hr⟩ := Prod.mk.inj h
        rw [List.cons_append, splitGap]
        simp only [hn, if_true, ih (Prod.ext rfl hr)]
      | false =>
        cases h
        simp [splitGap, hn]
    · next hn =>
      split at h
      · next hc =>
        obtain ⟨rfl, hr⟩ := Prod.mk.inj h
        rw [List.cons_append, splitGap]
        simp only [hn, hc, if_true, Bool.false_eq_true, if_false, ih (Prod.ext rfl hr)]
      · next hc =>
        split at h
        · next hs =>
          obtain ⟨rfl, hr⟩ := Prod.mk.inj h
          rw [List.cons_append, splitGap]
          simp only [hn, hc, hs, if_true, Bool.false_eq_true, if_false, ih (Prod.ext rfl hr)]
        · next hs =>
          cases h
          simp only [List.nil_append, splitGap, hn, hc, hs, Bool.false_eq_true, if_false]

/-- A gap in front of something is not changed by what comes later. -/
theorem splitGap_append_rest {acrossLines inComment : Bool} {rs gap rest : List Rune} {r : Rune}
    (h : splitGap acrossLines inComment rs = (gap, r :: rest)) (more : List Rune) :
    splitGap acrossLines inComment (rs ++ more) = (gap, r :: (rest ++ more)) := by
  have happ := splitGap_append acrossLines inComment rs
  rw [h] at happ
  rw [← happ, List.append_assoc, List.cons_append]
  exact splitGap_swap_rest h (rest ++ more)

/-- Behind a gap that reaches to the end, a line feed is part of the gap or ends it. -/
theorem splitGap_append_newline {acrossLines inComment : Bool} {rs : List Rune}
    (h : (splitGap acrossLines inComment rs).2 = []) (more : List Rune) :
    splitGap acrossLines inComment (rs ++ .char '\n' :: more) =
      if acrossLines then
        (rs ++ .char '\n' :: (splitGap true false more).1, (splitGap true false more).2)
      else (rs, .char '\n' :: more) := by
  induction rs generalizing inComment with
  | nil => cases acrossLines <;> rfl
  | cons a rs ih =>
    unfold splitGap at h
    rw [List.cons_append, splitGap]
    split at h
    · next hn =>
      cases acrossLines with
      | true =>
        simp only [hn, if_true, ih h]
        rfl
      | false => cases h
    · next hn =>
      split at h
      · next hc =>
        simp only [hn, hc, if_true, Bool.false_eq_true, if_false, ih h]
        split <;> rfl
      · next hc =>
        split at h
        · next hs =>
          simp only [hn, hc, hs, if_true, Bool.false_eq_true, if_false, ih h]
          split <;> rfl
        · cases h

/-! ## Lexemes -/

/-- Some runes with which no lexeme goes on: a gap begins with them, or there are none. -/
def Apart (rs : List Rune) : Prop :=
  ∀ r ∈ rs.head?, ¬ Solid r

theorem takeWhile_append_apart {p : Rune → Bool} (hp : ∀ r, p r = true → Solid r)
    {more : List Rune} (h : Apart more) (rs : List Rune) :
    (rs ++ more).takeWhile p = rs.takeWhile p ∧
      (rs ++ more).dropWhile p = rs.dropWhile p ++ more := by
  induction rs with
  | nil =>
    cases more with
    | nil => exact ⟨rfl, rfl⟩
    | cons r more =>
      have hr : ¬ p r = true := fun hr => h r rfl (hp r hr)
      simp [hr]
  | cons r rs ih =>
    cases hr : p r with
    | false => simp [hr]
    | true =>
      rw [List.cons_append, List.takeWhile_cons_of_pos hr, List.dropWhile_cons_of_pos hr,
        ih.1, ih.2,
        List.takeWhile_cons_of_pos hr, List.dropWhile_cons_of_pos hr]
      exact ⟨rfl, rfl⟩

theorem readOperator_pair {first : Rune} {kind : Kind} (h : pairKind? first = some kind)
    (rest : List Rune) (pos : Position) : readOperator first (.char '=' :: rest) pos =
      .ok (kind, [first, .char '='], rest) := by
  simp only [readOperator, h]

/-- Whether an operator of one character is read does not depend on what follows, unless it is an
equals sign. -/
theorem readOperator_single {first : Rune} {rest : List Rune} (pos : Position)
    (h : ∀ kind, pairKind? first = some kind → ∀ more, rest ≠ .char '=' :: more) :
    readOperator first rest pos =
      if first.is '!' then .error ⟨first.code, pos, .loneBang⟩
      else match operatorKind? first with
        | some kind => .ok (kind, [first], rest)
        | none => .error ⟨first.code, pos, .illegal first⟩ := by
  unfold readOperator
  split
  · next kind more hk => exact absurd rfl (h kind hk more)
  · rfl

theorem readOperator_append_apart {more : List Rune} (h : Apart more) (first : Rune)
    (rest : List Rune) (pos : Position) : readOperator first (rest ++ more) pos =
      (readOperator first rest pos).map
        fun (kind, lexeme, after) => (kind, lexeme, after ++ more) := by
  by_cases hpair : ∃ k, pairKind? first = some k ∧ ∃ rest', rest = .char '=' :: rest'
  · obtain ⟨k, hk, rest', rfl⟩ := hpair
    rw [List.cons_append, readOperator_pair hk, readOperator_pair hk]
    rfl
  · have hsingle : ∀ k, pairKind? first = some k → ∀ rest', rest ≠ .char '=' :: rest' :=
      fun k hk rest' hr => hpair ⟨k, hk, rest', hr⟩
    have hsingle' : ∀ k, pairKind? first = some k → ∀ rest', rest ++ more ≠ .char '=' :: rest' := by
      intro k hk rest' hr
      -- the equals sign would have been there before, as it is solid
      cases rest with
      | nil => exact h (.char '=') (by rw [show more = _ from hr]; rfl) (by decide)
      | cons r rs => exact hsingle k hk rs (by rw [(List.cons.inj hr).1])
    rw [readOperator_single pos hsingle, readOperator_single pos hsingle']
    split
    · rfl
    · cases operatorKind? first <;> rfl

/-- **What is apart ends a lexeme** as the end of the source does. -/
theorem readLexeme_append_apart {more : List Rune} (h : Apart more) (first : Rune)
    (rest : List Rune) (pos : Position) : readLexeme first (rest ++ more) pos =
      (readLexeme first rest pos).map fun (t, lexeme, after) => (t, lexeme, after ++ more) := by
  have hdigit := takeWhile_append_apart (fun r => solid_of_isDigit (r := r)) h rest
  have hname := takeWhile_append_apart (fun r => solid_of_isNamePart (r := r)) h rest
  unfold readLexeme
  cases classOf first with
  | number =>
    simp only [hdigit.1, hdigit.2]
    cases numberToken first (Rune.encode (first :: rest.takeWhile Rune.isDigit)) pos <;> rfl
  | word =>
    simp only [hname.1, hname.2]
    rfl
  | operator =>
    simp only [readOperator_append_apart h]
    cases readOperator first rest pos <;> rfl

theorem apart_newline (more : List Rune) : Apart (.char '\n' :: more) := by
  intro r hr hsolid
  obtain rfl := Option.some.inj hr
  exact absurd hsolid.1 (by decide)

/-! ## Courses -/

/-- The same place in a source that goes on. -/
def Scan.goingOn (s : Scan) (more : List Rune) : Scan :=
  { s with input := s.input ++ .char '\n' :: more }

section Continue

variable {tab : TabWidth} {s s' : Scan} {r : Rune} {rest : List Rune} {ts : List Token}
  {e : Option LexicalError}

theorem Scan.goingOn_eq (hr : s.rest = r :: rest) (more : List Rune) :
    (s.goingOn more).gap = s.gap ∧ (s.goingOn more).rest = r :: (rest ++ .char '\n' :: more) := by
  have hs : splitGap (s.fresh || decide (0 < s.depth)) false s.input = (s.gap, r :: rest) :=
    Prod.ext rfl hr
  have h : splitGap ((s.goingOn more).fresh || decide (0 < (s.goingOn more).depth)) false
      (s.goingOn more).input = _ := splitGap_append_rest hs (.char '\n' :: more)
  rw [Scan.gap, Scan.rest, h]
  exact ⟨rfl, rfl⟩

theorem Scan.goingOn_next (hr : s.rest = r :: rest) (more : List Rune) :
    (s.goingOn more).next = s.next := by
  rw [Scan.next, (Scan.goingOn_eq hr more).1]
  rfl

/-- Courses from places that differ in the gap in front of the next lexeme only. -/
theorem Course.same (h : Course tab s ts e) (hf : s'.fresh = s.fresh) (hr : s'.rest = s.rest)
    (hn : s'.next = s.next) (hl : s'.levels = s.levels) (hd : s'.depth = s.depth)
    (hw : widthOf tab s'.gap = widthOf tab s.gap) : Course tab s' ts e := by
  cases h with
  | finish he =>
    rw [← hn, ← hl]
    exact .finish (hr.trans he)
  | newline hw' he hnl hm =>
    rw [← hn, ← hl, ← hd] at hm
    exact .newline (hf.trans hw') (hr.trans he) hnl hm
  | line hf' he ha hm =>
    rw [← hn, ← hd] at hm
    rw [← hn]
    exact .line (hf.trans hf') (hr.trans he) (by rw [hl, hw, ha]) hm
  | lost hf' he ha =>
    rw [← hn]
    exact .lost (hf.trans hf') (hr.trans he) (by rw [hl, hw, ha])
  | lexeme hw' he hs hread hm =>
    rw [← hn] at hread
    rw [← hn, ← hl, ← hd] at hm
    exact .lexeme (hf.trans hw') (hr.trans he) hs hread hm
  | fault hw' he hs hread =>
    rw [← hn] at hread
    exact .fault (hf.trans hw') (hr.trans he) hs hread

/-- A place where a gap may run over line ends: a line begins, or a parenthesis is open. -/
def Scan.Wide (s : Scan) : Prop :=
  (s.fresh || decide (0 < s.depth)) = true

/-- The position on the line behind the source. -/
def Scan.beyond (s : Scan) : Position :=
  s.pos.afterAll (s.input ++ [.char '\n'])

/-- A place further on in a source has the same line behind it. -/
theorem Scan.beyond_eq {piece : List Rune} (hin : s.rest = piece ++ s'.input)
    (hp : s'.pos = s.next.afterAll piece) : s'.beyond = s.beyond := by
  rw [Scan.beyond, Scan.beyond, hp, Scan.next, ← Position.afterAll_append,
    ← Position.afterAll_append, ← s.gap_append_rest, hin]
  simp only [List.append_assoc]

/-- Behind the end of a line the same line is behind the source. -/
theorem Scan.beyond_newline (hr : s.rest = r :: rest) :
    Scan.beyond ⟨true, rest, s.next.after r, s.levels, s.depth⟩ = s.beyond := by
  have hpos : s.next.after r = s.next.afterAll [r] := rfl
  exact beyond_eq hr hpos

/-- So it is behind an indentation. -/
theorem Scan.beyond_line (hr : s.rest = r :: rest) (levels : List Int64) :
    Scan.beyond ⟨false, r :: rest, s.next, levels, s.depth⟩ = s.beyond := by
  have hpos : s.next = s.next.afterAll [] := rfl
  exact beyond_eq hr hpos

/-- So it is behind a lexeme. -/
theorem Scan.beyond_lexeme (hr : s.rest = r :: rest) {t : Token} {lexeme after : List Rune}
    (hread : readLexeme r rest s.next = .ok (t, lexeme, after))
    (levels : List Int64) (depth : Nat) :
    Scan.beyond ⟨false, after, s.next.afterAll lexeme, levels, depth⟩ = s.beyond :=
  beyond_eq (hr.trans (readLexeme_spec hread).1.symm) rfl

/-- **The start of the line behind a source** that goes on with some runes, where some levels and
parentheses are still open. -/
structure Scan.Opens (s : Scan) (more : List Rune) (pos : Position) (levels : List Int64)
    (depth : Nat) : Prop where
  input_eq : s.input = more
  pos_eq : s.pos = pos
  levels_eq : s.levels = levels
  depth_eq : s.depth = depth
  wide : s.Wide

/-- Where the source ended, the rest of a continuation is read from the next line on. -/
theorem Course.resume (hr : s.rest = []) {more : List Rune} (h : Course tab (s.goingOn more) ts e) :
    ∃ s' : Scan, s'.Opens more s.beyond s.levels s.depth ∧ Course tab s' ts e := by
  have hsplit : splitGap ((s.goingOn more).fresh || decide (0 < (s.goingOn more).depth)) false
      (s.goingOn more).input = _ := splitGap_append_newline hr more
  by_cases hw : s.Wide
  · -- the line feed is part of the gap, and the width of an indentation is counted behind it
    have hwide : (s.fresh || decide (0 < s.depth)) = true := hw
    rw [if_pos hwide] at hsplit
    have hgap : (s.goingOn more).gap = s.input ++ .char '\n' :: (splitGap true false more).1 := by
      rw [Scan.gap, hsplit]
    have hrest : (s.goingOn more).rest = (splitGap true false more).2 := by
      rw [Scan.rest, hsplit]
    let s' : Scan := ⟨s.fresh, more, s.beyond, s.levels, s.depth⟩
    have hgap' : s'.gap = (splitGap true false more).1 := by rw [Scan.gap, hwide]
    have hrest' : s'.rest = (splitGap true false more).2 := by rw [Scan.rest, hwide]
    refine ⟨s', ⟨rfl, rfl, rfl, rfl, hw⟩, h.same rfl (hrest'.trans hrest.symm) ?_ rfl rfl ?_⟩
    · rw [Scan.next, Scan.next, hgap, hgap', show s'.pos = s.beyond from rfl, Scan.beyond,
        ← Position.afterAll_append, List.append_assoc]
      rfl
    · rw [hgap, hgap', widthOf, widthOf, List.foldl_append, List.foldl_cons]
      rfl
  · have hnarrow : ¬ (s.fresh || decide (0 < s.depth)) = true := hw
    rw [if_neg hnarrow] at hsplit
    have hgap : (s.goingOn more).gap = s.input := by rw [Scan.gap, hsplit]
    have hrest : (s.goingOn more).rest = .char '\n' :: more := by rw [Scan.rest, hsplit]
    have hf : s.fresh = false := (Bool.or_eq_false_iff.mp (Bool.eq_false_iff.mpr hnarrow)).1
    have hpos : (s.goingOn more).next.after (.char '\n') = s.beyond := by
      rw [Scan.next, hgap, Scan.beyond, Position.afterAll_append]
      rfl
    have hcourse := h.behind_newline hf hrest rfl
    rw [hpos] at hcourse
    exact ⟨⟨true, more, s.beyond, s.levels, s.depth⟩, ⟨rfl, rfl, rfl, rfl, rfl⟩, hcourse⟩

/-- **What a source is cut into is the same in every continuation**, up to the markers that close
the levels at its end. -/
theorem Course.continues (h : Course tab s ts none) :
    ∃ front pos levels,
      ts = front ++ (markersAt pos (levels.map fun _ => .dedent) ++ [.eofAt pos]) ∧
      ∀ more ts' e', Course tab (s.goingOn more) ts' e' →
        ∃ behind, ts' = front ++ behind ∧ ∃ s' : Scan,
          s'.Opens more s.beyond levels (depthOver s.depth front) ∧ Course tab s' behind e' := by
  generalize he : (none : Option LexicalError) = e at h
  induction h with
  | @finish s hr =>
    exact ⟨[], s.next, s.levels, rfl, fun more ts' e' h' => ⟨ts', rfl, h'.resume hr⟩⟩
  | @newline s r rest ts e hf hr hn _ ih =>
    obtain ⟨front, pos, levels, rfl, hmore⟩ := ih he
    refine ⟨front, pos, levels, rfl, fun more ts' e' h' => ?_⟩
    have h'' := h'.behind_newline hf (Scan.goingOn_eq hr more).2 hn
    rw [Scan.goingOn_next hr] at h''
    exact Scan.beyond_newline hr ▸ hmore more ts' e' h''
  | @line s r rest kinds levels ts e hf hr ha _ ih =>
    obtain ⟨front, pos, levels', rfl, hmore⟩ := ih he
    refine ⟨markersAt s.next kinds ++ front, pos, levels', by rw [List.append_assoc], ?_⟩
    intro more ts' e' h'
    obtain ⟨us, rfl, hu⟩ := h'.behind_indentation hf (Scan.goingOn_eq hr more).2
      (by rw [(Scan.goingOn_eq hr more).1]; exact ha)
    rw [Scan.goingOn_next hr] at hu ⊢
    obtain ⟨behind, rfl, hresume⟩ := hmore more us e' hu
    have hdepth : depthOver s.depth (markersAt s.next kinds ++ front) =
        depthOver s.depth front := by
      rw [depthOver, List.foldl_append]
      exact congrArg (List.foldl _ · front)
        (depthOver_markers (isMarker_of_adjust ha) s.next s.depth)
    rw [hdepth, ← Scan.beyond_line hr levels]
    exact ⟨behind, by rw [List.append_assoc], hresume⟩
  | lost _ _ _ => cases he
  | @lexeme s r rest lexeme after t ts e hf hr hn hread _ ih =>
    obtain ⟨front, pos, levels, rfl, hmore⟩ := ih he
    refine ⟨t :: front, pos, levels, rfl, fun more ts' e' h' => ?_⟩
    obtain ⟨us, rfl, hu⟩ := h'.behind_lexeme hf (Scan.goingOn_eq hr more).2 hn
      (by rw [Scan.goingOn_next hr, readLexeme_append_apart (apart_newline more), hread]; rfl)
    rw [Scan.goingOn_next hr] at hu
    obtain ⟨behind, rfl, hresume⟩ := hmore more us e' hu
    exact ⟨behind, rfl, Scan.beyond_lexeme hr hread _ _ ▸ hresume⟩
  | fault _ _ _ _ => cases he

end Continue

end Lexer

open Lexer

/-- **The tokens of a source that goes on.** In front of the markers at its end, the tokens of a
source are the first ones of every continuation. The rest is read from the line behind the source
on, with the levels and the parentheses that were open at its end. -/
theorem tokenize_continue {tab : TabWidth} {src : Text} {ts : List Token}
    (h : tokenize tab src = .ok ts) :
    ∃ front pos levels,
      ts = front ++ (markersAt pos (levels.map fun _ => .dedent) ++ [.eofAt pos]) ∧
      ∀ more, ∃ behind e, tokenize tab (src ++ Text.newline :: more) =
          e.elim (.ok (front ++ behind)) .error ∧
        ∃ s : Scan, s.Opens (Rune.decode more) (Scan.ofSource src).beyond levels
          (depthOver 0 front) ∧ Course tab s behind e := by
  obtain ⟨front, pos, levels, rfl, hmore⟩ := (course_of_tokenize h).continues
  refine ⟨front, pos, levels, rfl, fun more => ?_⟩
  obtain ⟨ts', e', hc', -, htok'⟩ := course_source tab (src ++ Text.newline :: more)
  rw [Scan.ofSource, Rune.decode_append_newline] at hc'
  obtain ⟨behind, rfl, hresume⟩ := hmore _ _ _ hc'
  exact ⟨behind, e', htok', hresume⟩

end Offside
