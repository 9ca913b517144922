import Offside.Program.SExpr
import Offside.Proofs.Grammar.Likeness
import Offside.Proofs.Text.Lines

/-!
# Comments carry no meaning

The specification says that a comment is skipped like white space (4.1). Here a source is compared
with the source whose comments are deleted.

A comment lies in a gap and reaches up to the end of its line. What is left of a line without its
comment begins at the same place, so every lexeme keeps its line and its column, and every line that
has a lexeme keeps its width. Only the end of the source may be further on the left, and the markers
that close the open levels there.

* `Text.withoutComments` deletes the comments of a text line by line, from the first number sign on.
  No lexeme holds a number sign, so nothing else is deleted.
* `uncomment` is the same on runes, from inside or outside of a comment.
* `bodyOf` are the tokens in front of the closing markers and the end of the source, which keep
  their columns.

Results:
* `Rune.decode_withoutComments`: the runes of a text whose comments are deleted.
* `Lexer.rewriting_uncomment`: this is a rewriting of the gaps.
* `Program.sexpr_relocate`: a program is written the same wherever its tokens stand.
* `parse_withoutComments`: tokens, faults and programs of a source without its comments.
-/

namespace Offside

/-! ## Texts without comments -/

/-- The number sign, with which a comment begins. -/
def Text.numberSign : UInt8 := 0x23

/-- The text without its comments: of every line what stands in front of the first number sign. -/
def Text.withoutComments (t : Text) : Text :=
  join [newline] (t.lines.map fun line => line.takeWhile (· != numberSign))

theorem Text.withoutComments_of_not_mem {l : Text} (h : newline ∉ l) :
    l.withoutComments = l.takeWhile (· != numberSign) :=
  join_map_lines_of_not_mem _ h

theorem Text.withoutComments_append {l : Text} (h : newline ∉ l) (rest : Text) :
    (l ++ newline :: rest).withoutComments =
      l.takeWhile (· != numberSign) ++ newline :: rest.withoutComments :=
  join_map_lines_append _ h rest

namespace Rune

/-- Some runes without comments, of which the first ones may belong to a comment. -/
def uncomment (inComment : Bool) : List Rune → List Rune
  | [] => []
  | r :: rs =>
    if r.isNewline then r :: uncomment false rs
    else if inComment || r.is '#' then uncomment true rs
    else r :: uncomment false rs

theorem uncomment_newline {r : Rune} (h : r.isNewline = true) (inComment : Bool) (rs : List Rune) :
    uncomment inComment (r :: rs) = r :: uncomment false rs := by
  rw [uncomment, if_pos h]

theorem uncomment_skip {inComment : Bool} {r : Rune} (h : r.isNewline = false)
    (hc : (inComment || r.is '#') = true) (rs : List Rune) :
    uncomment inComment (r :: rs) = uncomment true rs := by
  rw [uncomment, if_neg (by simp [h]), if_pos hc]

theorem uncomment_keep {r : Rune} (h : r.isNewline = false) (hc : r.is '#' = false)
    (rs : List Rune) : uncomment false (r :: rs) = r :: uncomment false rs := by
  rw [uncomment, if_neg (by simp [h]), if_neg (by simp [hc])]

/-- A line feed ends a comment. -/
theorem uncomment_append_newline (inComment : Bool) (rs ss : List Rune) :
    uncomment inComment (rs ++ .char '\n' :: ss) =
      uncomment inComment rs ++ .char '\n' :: uncomment false ss := by
  induction rs generalizing inComment with
  | nil => exact uncomment_newline rfl inComment ss
  | cons r rs ih =>
    rw [List.cons_append]
    cases hn : r.isNewline with
    | true => rw [uncomment_newline hn, uncomment_newline hn, ih, List.cons_append]
    | false =>
      cases hc : inComment || r.is '#' with
      | true => rw [uncomment_skip hn hc, uncomment_skip hn hc, ih]
      | false =>
        obtain ⟨rfl, hsign⟩ := Bool.or_eq_false_iff.mp hc
        rw [uncomment_keep hn hsign, uncomment_keep hn hsign, ih, List.cons_append]

/-- On a line a comment reaches to the end. -/
theorem uncomment_true_of_forall {rs : List Rune} (h : ∀ r ∈ rs, r.isNewline = false) :
    uncomment true rs = [] := by
  induction rs with
  | nil => rfl
  | cons r rs ih =>
    obtain ⟨hr, hrs⟩ := List.forall_mem_cons.mp h
    rw [uncomment_skip hr (Bool.true_or _), ih hrs]

/-- Runes in front of a comment on its line are kept. -/
theorem uncomment_append_of_forall {rs : List Rune}
    (h : ∀ r ∈ rs, r.isNewline = false ∧ r.is '#' = false) (ss : List Rune) :
    uncomment false (rs ++ ss) = rs ++ uncomment false ss := by
  induction rs with
  | nil => rfl
  | cons r rs ih =>
    obtain ⟨⟨hn, hc⟩, hrs⟩ := List.forall_mem_cons.mp h
    rw [List.cons_append, uncomment_keep hn hc, ih hrs, List.cons_append]

/-- The runes of a line whose comment is deleted. -/
theorem decode_takeWhile_line {l : Text} (h : Text.newline ∉ l) :
    decode (l.takeWhile (· != Text.numberSign)) = uncomment false (decode l) := by
  have hplain : ∀ pre : Text, pre ⊆ l → Text.numberSign ∉ pre →
      ∀ r ∈ decode pre, r.isNewline = false ∧ r.is '#' = false := by
    intro pre hsub hpre r hr
    refine ⟨not_newline_of_line (fun hn => h (hsub hn)) r hr, ?_⟩
    rw [Bool.eq_false_iff]
    intro hc
    rw [is, beq_iff_eq] at hc
    exact hpre (mem_of_decode (c := '#') rfl (hc ▸ hr))
  by_cases hsign : Text.numberSign ∈ l
  · obtain ⟨pre, comment, rfl, hpre⟩ := List.eq_append_cons_of_mem hsign
    have htake : (pre ++ Text.numberSign :: comment).takeWhile (· != Text.numberSign) = pre := by
      rw [List.takeWhile_append_of_pos, List.takeWhile_cons_of_neg (by simp), List.append_nil]
      intro b hb
      rw [bne_iff_ne]
      exact fun he => hpre (he ▸ hb)
    have hline : Text.newline ∉ comment := fun hn => h (by simp [hn])
    rw [htake, decode_append_ascii pre (by decide),
      show decode (Text.numberSign :: comment) = .char '#' :: decode comment from
        decode_char_append '#' comment,
      uncomment_append_of_forall (hplain pre (List.subset_append_left _ _) hpre),
      uncomment_skip rfl rfl, uncomment_true_of_forall (not_newline_of_line hline), List.append_nil]
  · have htake : l.takeWhile (· != Text.numberSign) = l := by
      rw [List.takeWhile_eq_self_iff]
      intro b hb
      rw [bne_iff_ne]
      exact fun he => hsign (he ▸ hb)
    have hkeep := uncomment_append_of_forall (hplain l (List.Subset.refl l) hsign) []
    rw [List.append_nil] at hkeep
    rw [htake, hkeep]
    exact (List.append_nil _).symm

/-- **The runes of a text whose comments are deleted.** -/
theorem decode_withoutComments (t : Text) :
    decode t.withoutComments = uncomment false (decode t) := by
  induction t using Text.lineInduction with
  | last l hl => rw [Text.withoutComments_of_not_mem hl, decode_takeWhile_line hl]
  | more l rest hl ih =>
    rw [Text.withoutComments_append hl, decode_append_newline, decode_append_newline,
      uncomment_append_newline, decode_takeWhile_line hl, ih]

end Rune

namespace Lexer

open Rune (uncomment uncomment_newline uncomment_skip uncomment_keep)

/-! ## Gaps without comments -/

/-- **The comments of a gap are deleted on their own.** -/
theorem splitGap_uncomment (acrossLines inComment : Bool) (rs : List Rune) :
    splitGap acrossLines false (uncomment inComment rs) =
      (uncomment inComment (splitGap acrossLines inComment rs).1,
        uncomment false (splitGap acrossLines inComment rs).2) := by
  induction rs generalizing inComment with
  | nil => rfl
  | cons r rs ih =>
    cases hn : r.isNewline with
    | true =>
      rw [uncomment_newline hn, splitGap, splitGap, if_pos hn, if_pos hn]
      cases acrossLines with
      | true =>
        simp only [if_true, ih]
        rw [uncomment_newline hn]
      | false =>
        simp only [Bool.false_eq_true, if_false]
        rw [uncomment_newline hn]
        rfl
    | false =>
      have hn' : ¬ r.isNewline = true := by simp [hn]
      cases hc : inComment || r.is '#' with
      | true =>
        rw [uncomment_skip hn hc, splitGap.eq_2 acrossLines inComment, if_neg hn', if_pos hc]
        rw [ih, uncomment_skip hn hc]
      | false =>
        obtain ⟨rfl, hsign⟩ := Bool.or_eq_false_iff.mp hc
        rw [uncomment_keep hn hsign, splitGap, splitGap]
        simp only [hn, hsign, Bool.or_self, Bool.false_eq_true, if_false]
        split
        · rw [ih, uncomment_keep hn hsign]
        · rw [uncomment_keep hn hsign]
          rfl

/-- **A count over a gap whose comments are deleted.** The two counts are related by `E` outside of
comments. Within a comment they are related by the weaker `L`, which is enough to be related by `E`
again behind the line feed that ends it. -/
theorem foldl_uncomment {α : Type} {count : α → Rune → α} {E L : α → α → Prop}
    (weaken : ∀ {a b}, E a b → L a b)
    (newline : ∀ {a b r}, r.isNewline = true → L a b → E (count a r) (count b r))
    (skip : ∀ {a b r}, r.isNewline = false → L a b → L (count a r) b)
    (keep : ∀ {a b r}, r.isNewline = false → E a b → E (count a r) (count b r))
    {acrossLines inComment : Bool} {rs gap rest : List Rune}
    (h : splitGap acrossLines inComment rs = (gap, rest)) {a b : α} (hL : L a b)
    (hE : inComment = false → E a b) :
    L (gap.foldl count a) ((uncomment inComment gap).foldl count b) ∧
      ∀ r ∈ rest.head?, Solid r →
        E (gap.foldl count a) ((uncomment inComment gap).foldl count b) := by
  induction rs generalizing inComment gap a b with
  | nil =>
    obtain ⟨rfl, rfl⟩ := Prod.mk.inj h
    exact ⟨hL, fun r hr => absurd hr (Option.not_mem_none r)⟩
  | cons x rs ih =>
    rw [splitGap] at h
    cases hn : x.isNewline with
    | true =>
      cases acrossLines with
      | true =>
        simp only [hn, if_true] at h
        obtain ⟨rfl, hrest⟩ := Prod.mk.inj h
        rw [uncomment_newline hn]
        exact ih (Prod.ext rfl hrest) (weaken (newline hn hL)) fun _ => newline hn hL
      | false =>
        simp only [hn, if_true, Bool.false_eq_true, if_false] at h
        obtain ⟨rfl, rfl⟩ := Prod.mk.inj h
        refine ⟨hL, fun r hr hsolid => ?_⟩
        rw [← Option.some.inj hr, Solid, hn] at hsolid
        exact absurd hsolid.1 (by simp)
    | false =>
      simp only [hn, Bool.false_eq_true, if_false] at h
      cases hc : inComment || x.is '#' with
      | true =>
        simp only [hc, if_true] at h
        obtain ⟨rfl, hrest⟩ := Prod.mk.inj h
        rw [uncomment_skip hn hc]
        exact ih (Prod.ext rfl hrest) (skip hn hL) fun hout => absurd hout (by decide)
      | false =>
        obtain ⟨rfl, hsign⟩ := Bool.or_eq_false_iff.mp hc
        simp only [hc, Bool.false_eq_true, if_false] at h
        have hkept := keep hn (hE rfl)
        split at h
        · obtain ⟨rfl, hrest⟩ := Prod.mk.inj h
          rw [uncomment_keep hn hsign]
          exact ih (Prod.ext rfl hrest) (weaken hkept) fun _ => hkept
        · obtain ⟨rfl, rfl⟩ := Prod.mk.inj h
          exact ⟨hL, fun _ _ _ => hE rfl⟩

/-- Two positions on the same line. -/
def SameLine (p q : Position) : Prop :=
  q.line = p.line

theorem after_line {p : Position} {r : Rune} (h : r.isNewline = false) :
    (p.after r).line = p.line := by
  rw [Position.after, if_neg (by simp [h])]

variable {p q : Position} {acrossLines : Bool} {rs gap rest : List Rune}

/-- The position behind a gap whose comments are deleted. -/
theorem afterAll_uncomment (h : splitGap acrossLines false rs = (gap, rest)) (hp : p.SameColumn q) :
    SameLine (p.afterAll gap) (q.afterAll (uncomment false gap)) ∧
      ∀ r ∈ rest.head?, Solid r →
        (p.afterAll gap).SameColumn (q.afterAll (uncomment false gap)) := by
  have hskip : ∀ {p q : Position} {r : Rune}, r.isNewline = false → SameLine p q →
      SameLine (p.after r) q := fun hr hline => Eq.trans hline (after_line hr).symm
  have hkeep : ∀ {p q : Position} {r : Rune}, r.isNewline = false → p.SameColumn q →
      (p.after r).SameColumn (q.after r) := fun _ hp => hp.after _
  unfold Position.afterAll
  exact foldl_uncomment (L := SameLine) Position.SameColumn.line_eq
    Position.SameColumn.after_newline hskip hkeep h hp.line_eq fun _ => hp

/-- The width behind a gap whose comments are deleted. -/
theorem widthOf_uncomment (tab : TabWidth) (h : splitGap acrossLines false rs = (gap, rest)) :
    ∀ r ∈ rest.head?, Solid r → widthOf tab (uncomment false gap) = widthOf tab gap := by
  have hnewline : ∀ {a b : Int64} {r : Rune}, r.isNewline = true → True →
      widen tab b r = widen tab a r := by
    intro a b r hr _
    obtain rfl : r = .char '\n' := by simpa [Rune.isNewline, Rune.is] using hr
    rfl
  have hkeep : ∀ {a b : Int64} {r : Rune}, r.isNewline = false → b = a →
      widen tab b r = widen tab a r := fun _ h => h ▸ rfl
  exact (foldl_uncomment (E := fun a b => b = a) (L := fun _ _ => True) (fun _ => trivial) hnewline
    (fun _ h => h) hkeep h trivial fun _ => rfl).2

/-- What is left behind the beginning of a comment begins with a line feed. -/
theorem apart_uncomment_true (rs : List Rune) : Apart (uncomment true rs) := by
  induction rs with
  | nil => exact fun r hr => absurd hr (Option.not_mem_none r)
  | cons r rs ih =>
    cases hn : r.isNewline with
    | true =>
      rw [uncomment_newline hn]
      intro a ha hsolid
      rw [← Option.some.inj ha, Solid, hn] at hsolid
      exact absurd hsolid.1 (by simp)
    | false =>
      rw [uncomment_skip hn (Bool.true_or _)]
      exact ih

/-- **Deleting comments is a rewriting of the gaps.** -/
theorem rewriting_uncomment (tab : TabWidth) :
    Rewriting tab Position.SameColumn SameLine (uncomment false) where
  solid h := uncomment_keep h.1 h.2.1 _
  apart := by
    intro rs h
    cases rs with
    | nil => exact h
    | cons r rs =>
      have hr : ∀ us : List Rune, Apart (r :: us) := fun us a ha => Option.some.inj ha ▸ h r rfl
      cases hn : r.isNewline with
      | true =>
        rw [uncomment_newline hn]
        exact hr _
      | false =>
        cases hc : r.is '#' with
        | true =>
          have hsign : (false || r.is '#') = true := hc
          rw [uncomment_skip hn hsign]
          exact apart_uncomment_true rs
        | false =>
          rw [uncomment_keep hn hc]
          exact hr _
  after _ h := h.after _
  gap := by
    intro p q acrossLines rs gap rest r h hsplit hsolid
    refine ⟨uncomment false gap, ?_, (afterAll_uncomment hsplit h).2 r rfl hsolid,
      widthOf_uncomment tab hsplit r rfl hsolid⟩
    simp only [splitGap_uncomment, hsplit, uncomment_keep hsolid.1 hsolid.2.1]
  newline := by
    intro p q rs gap rest r h hsplit hn
    refine ⟨uncomment false gap, ?_, .after_newline hn (afterAll_uncomment hsplit h).1⟩
    simp only [splitGap_uncomment, hsplit, uncomment_newline hn]
  finish := by
    intro p q acrossLines rs gap h hsplit
    refine ⟨uncomment false gap, ?_, (afterAll_uncomment hsplit h).1⟩
    rw [splitGap_uncomment, hsplit]
    rfl

end Lexer

/-! ## Tokens in front of the closing markers -/

/-- The kinds of the markers that close the levels at the end of a source, and of the end. -/
def Kind.closes : Kind → Bool
  | dedent | eof => true
  | _ => false

/-- The tokens in front of the dedent markers and the end of source that come last. -/
def bodyOf (ts : List Token) : List Token :=
  (ts.reverse.dropWhile fun t => t.kind.closes).reverse

theorem bodyOf_append {closing : List Token} (h : ∀ t ∈ closing, t.kind.closes = true)
    (front : List Token) : bodyOf (front ++ closing) = bodyOf front := by
  unfold bodyOf
  rw [List.reverse_append, List.dropWhile_append_of_pos fun t ht => h t (List.mem_reverse.mp ht)]

/-- Tokens that are alike are so in front of the closing ones. -/
theorem forall₂_bodyOf {P : Position → Position → Prop} {ts us : List Token}
    (h : List.Forall₂ (Token.Alike P) ts us) :
    List.Forall₂ (Token.Alike P) (bodyOf ts) (bodyOf us) := by
  have hdrop {vs ws : List Token} (hvw : List.Forall₂ (Token.Alike P) vs ws) :
      List.Forall₂ (Token.Alike P) (vs.dropWhile fun t => t.kind.closes)
        (ws.dropWhile fun t => t.kind.closes) := by
    induction hvw with
    | nil => exact .nil
    | @cons v w vs ws hv hvs ih =>
      rw [List.dropWhile_cons, List.dropWhile_cons, hv.kind]
      split
      · exact ih
      · exact .cons hv hvs
  exact List.forall₂_reverse_iff.mpr (hdrop (List.forall₂_reverse_iff.mpr h))

/-- The tokens that come last are closing ones. -/
theorem Lexer.closes_ending (pos : Position) (levels : List Int64) :
    ∀ t ∈ markersAt pos (levels.map fun _ => .dedent) ++ [.eofAt pos], t.kind.closes = true := by
  intro t ht
  rcases List.mem_append.mp ht with ht | ht
  · obtain ⟨k, hk, rfl⟩ := List.mem_map.mp ht
    obtain ⟨_, -, rfl⟩ := List.mem_map.mp hk
    rfl
  · rw [List.mem_singleton.mp ht]
    rfl

/-- What two runs find is alike in front of the closing tokens, with the stronger relation. -/
theorem Lexer.Matches.bodies {P Q : Position → Position → Prop} {ts us : List Token}
    (h : Matches P Q ts none us none) : List.Forall₂ (Token.Alike P) (bodyOf ts) (bodyOf us) := by
  obtain ⟨front, front', p, q, levels, hfront, rfl, rfl⟩ := h.split rfl
  rw [bodyOf_append (closes_ending p levels), bodyOf_append (closes_ending q levels)]
  exact forall₂_bodyOf hfront

/-! ## Programs as they are written -/

theorem Expr.sexpr_relocate (f : Position → Position) (e : Expr) :
    (e.mapTokens (Token.relocate f)).sexpr = e.sexpr := by
  induction e with
  | leaf token => rfl
  | arith left op right ihl ihr =>
    rw [Expr.mapTokens, Expr.sexpr, Expr.sexpr, ihl, ihr]
    rfl
  | compare left op right ihl ihr =>
    rw [Expr.mapTokens, Expr.sexpr, Expr.sexpr, ihl, ihr]
    rfl
  | missing => rfl

mutual

theorem Stmt.sexpr_relocate (f : Position → Position) : ∀ s : Stmt,
    (s.mapTokens (Token.relocate f)).sexpr = s.sexpr
  | .assign target value => by
    rw [Stmt.mapTokens, Stmt.sexpr, Stmt.sexpr, Expr.sexpr_relocate]
    rfl
  | .call name args => by
    have hargs : (args.map (Expr.mapTokens (Token.relocate f))).map Expr.sexpr =
        args.map Expr.sexpr := by
      rw [List.map_map]
      exact List.map_congr_left fun e _ => Expr.sexpr_relocate f e
    rw [Stmt.mapTokens, Stmt.sexpr, Stmt.sexpr, hargs]
    rfl
  | .ifThen cond body => by
    rw [Stmt.mapTokens, Stmt.sexpr, Stmt.sexpr, Expr.sexpr_relocate, Stmt.sexprs_relocate f body]
  | .ifElse cond body alt => by
    rw [Stmt.mapTokens, Stmt.sexpr, Stmt.sexpr, Expr.sexpr_relocate, Stmt.sexprs_relocate f body,
      Stmt.sexprs_relocate f alt]
  | .loop cond body => by
    rw [Stmt.mapTokens, Stmt.sexpr, Stmt.sexpr, Expr.sexpr_relocate, Stmt.sexprs_relocate f body]
  | .missing => rfl

theorem Stmt.sexprs_relocate (f : Position → Position) : ∀ ss : List Stmt,
    Stmt.sexprs (Stmt.mapAll (Token.relocate f) ss) = Stmt.sexprs ss
  | [] => rfl
  | s :: ss => by
    rw [Stmt.mapAll, Stmt.sexprs, Stmt.sexprs, Stmt.sexpr_relocate f s, Stmt.sexprs_relocate f ss]

end

/-- **A program is written the same wherever its tokens stand.** -/
theorem Program.sexpr_relocate (f : Position → Position) (p : Program) :
    (p.relocate f).sexpr = p.sexpr := by
  rw [Program.sexpr, Program.relocate, Stmt.sexprs_relocate]
  rfl

/-- The position with its line only. -/
def Position.onLine (p : Position) : Position :=
  ⟨0, p.line, 0⟩

open Lexer

/-- **Comments carry no meaning.** A source without its comments is cut into the same tokens on the
same lines, and at the same columns in front of the markers and the end of source that come last; or
it has the same lexical fault on the same line and column. It spells a program if the source does,
and the two programs are written the same. -/
theorem parse_withoutComments (tab : TabWidth) (src : Text) :
    (match tokenize tab src.withoutComments, tokenize tab src with
      | .ok us, .ok ts =>
        us.map (Token.relocate .onLine) = ts.map (Token.relocate .onLine) ∧
          (bodyOf us).map (Token.relocate .unoffset) = (bodyOf ts).map (Token.relocate .unoffset)
      | .error e', .error e => e'.relocate .unoffset = e.relocate .unoffset
      | _, _ => False) ∧
      (parse tab src.withoutComments).toOption.map Program.sexpr =
        (parse tab src).toOption.map Program.sexpr := by
  have htokens := (rewriting_uncomment tab).tokenize (Rune.decode_withoutComments src) rfl
  have hline : ∀ p q, SameLine p q → q.onLine = p.onLine := by
    intro p q h
    rw [Position.onLine, Position.onLine, show q.line = p.line from h]
  have hparse := parse_alike (f := .onLine) htokens (fun _ _ h => h.line_eq)
    rfl hline fun _ _ h => h
  constructor
  · generalize tokenize tab src = x, tokenize tab src.withoutComments = y at htokens
    cases htokens with
    | ok tokens =>
      exact ⟨map_relocate_eq (tokens.forall₂ fun _ _ h => h.line_eq) hline,
        map_relocate_eq tokens.bodies fun _ _ h => h⟩
    | error alike => exact alike.relocate_eq fun _ _ h => h
  · generalize parse tab src = x, parse tab src.withoutComments = y at hparse
    cases hparse with
    | @ok p p' value =>
      show some p'.sexpr = some p.sexpr
      rw [← p'.sexpr_relocate .onLine, value, p.sexpr_relocate]
    | error fault => rfl

end Offside
