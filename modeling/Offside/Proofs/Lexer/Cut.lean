import Mathlib.Data.List.TakeWhile
import Mathlib.Data.Nat.Digits.Defs
import Offside.Proofs.Lexer.Course

/-!
# The cut of a source

That the tokens of a source are its lexemes, no more and no less: the maximal munch of the
specification (4.1) with its tables of keywords and operators, said of any bytes.

A source is cut into gaps and lexemes in turn, a gap first and a gap last. Nothing of it is lost, as
the pieces make it up again, and nothing is made up, as the tokens are the lexemes with their texts,
kinds and places. Every lexeme is as long as its kind allows. A source with a fault is cut up to the
place of the fault.

The words used are not those of the lexer:
* `IsGap` is a gap as what it consists of, space characters and whole comments, where the lexer has
  a loop.
* `IsLexeme` is a lexeme as a token, with the tables `keywordTable` and `operatorTable` written down
  as lists, the value of a number by its decimal digits, and the condition on the next rune that
  makes it maximal.
* `Cut` has gaps and lexemes in turn, from one offset to another.

Results:
* `isGap_splitGap`: what the lexer skips is made of space characters and whole comments.
* `readLexeme_spec`: what it reads is a lexeme.
* `Cut.length`: a cut leaves out nothing.
* `Course.cut`: the course of a lexer cuts what it reads, by induction on the course.
* `delivered_cut`: the tokens that are delivered for a source cut it, up to its end or to the fault.

Out of scope: the markers of indentation, which have no runes of their own (`Proofs/Lexer/Levels`).
-/

namespace Offside

namespace Lexer

/-! ## Gaps -/

/-- Nothing more stands on the line. -/
def EndsLine (rs : List Rune) : Prop :=
  ∀ r ∈ rs.head?, r.isNewline = true

/-- **A gap in front of some runes**: space characters, and comments from a `#` up to the end of the
line or of the source. -/
inductive IsGap : List Rune → List Rune → Prop where
  | nil {after : List Rune} : IsGap [] after
  | space {r : Rune} {gap after : List Rune} (space : r.isSpace = true) (more : IsGap gap after) :
      IsGap (r :: gap) after
  | comment {body gap after : List Rune} (inside : ∀ r ∈ body, r.isNewline = false)
      (ends : EndsLine (gap ++ after)) (more : IsGap gap after) :
      IsGap (.char '#' :: (body ++ gap)) after

/-- Two gaps one after the other are one gap. -/
theorem IsGap.append {gap gap' after : List Rune} (h : IsGap gap (gap' ++ after))
    (h' : IsGap gap' after) : IsGap (gap ++ gap') after := by
  generalize hb : gap' ++ after = behind at h
  induction h with
  | nil => exact h'
  | space hs _ ih => exact .space hs (ih hb)
  | comment hin he _ ih =>
    subst hb
    rw [List.cons_append, List.append_assoc]
    exact .comment hin (by rwa [List.append_assoc]) (ih rfl)

theorem isSpace_of_isNewline {r : Rune} (h : r.isNewline = true) : r.isSpace = true := by
  rw [Rune.isNewline, Rune.is, beq_iff_eq] at h
  rw [h]
  decide

/-- The rest of a comment, and the gap behind it. -/
def EndsComment (gap after : List Rune) : Prop :=
  ∃ body more, gap = body ++ more ∧ (∀ r ∈ body, r.isNewline = false) ∧
    EndsLine (more ++ after) ∧ IsGap more after

/-- **What is skipped is a gap.** -/
theorem isGap_splitGap (acrossLines : Bool) (rs : List Rune) :
    IsGap (splitGap acrossLines false rs).1 (splitGap acrossLines false rs).2 ∧
      EndsComment (splitGap acrossLines true rs).1 (splitGap acrossLines true rs).2 := by
  induction rs with
  | nil => exact ⟨.nil, [], [], rfl, by simp, by simp [EndsLine, splitGap], .nil⟩
  | cons r rs ih =>
    obtain ⟨hgap, body, more, hmore, hin, hends, hrest⟩ := ih
    unfold splitGap
    cases hn : r.isNewline with
    | true =>
      have hline : ∀ rs, EndsLine (r :: rs) := by
        intro rs a ha
        rwa [← Option.some.inj ha]
      cases acrossLines with
      | true =>
        have hr := IsGap.space (isSpace_of_isNewline hn) hgap
        exact ⟨hr, [], _, rfl, by simp, hline _, hr⟩
      | false => exact ⟨.nil, [], [], rfl, by simp, hline rs, .nil⟩
    | false =>
      simp only [Bool.false_eq_true, if_false, Bool.false_or, Bool.true_or, if_true]
      refine ⟨?_, r :: body, more, by rw [hmore]; rfl,
        List.forall_mem_cons.mpr ⟨hn, hin⟩, hends, hrest⟩
      cases hc : r.is '#' with
      | true =>
        rw [Rune.is, beq_iff_eq] at hc
        subst hc
        simp only [if_true, hmore]
        exact .comment hin hends hrest
      | false =>
        simp only [Bool.false_eq_true, if_false]
        cases hs : r.isSpace with
        | true => exact .space hs hgap
        | false => exact .nil

theorem Scan.isGap_gap (s : Scan) : IsGap s.gap s.rest :=
  (isGap_splitGap _ s.input).1

/-! ## Lexemes -/

/-- The keywords. -/
def keywordTable : List (Text × Kind) :=
  [("if", .ifWord), ("else", .elseWord), ("while", .whileWord)]

/-- The operators. -/
def operatorTable : List (Text × Kind) :=
  [("+", .plus), ("-", .minus), ("*", .times), ("/", .divide), ("=", .assign), ("==", .equal),
   ("!=", .unequal), ("<", .less), (">", .greater), ("(", .openParen), (")", .closeParen),
   (",", .comma), (":", .colon)]

/-- The number that decimal digits stand for. -/
def decimal (digits : Text) : Nat :=
  Nat.ofDigits 10 (digits.map fun d => d.toNat - 0x30).reverse

/-- **A lexeme in front of some runes, as a token.** A word or a number ends where no further rune
could belong to it, and an equals sign is not followed by another. -/
inductive IsLexeme (lexeme after : List Rune) (t : Token) : Prop where
  | word {first : Rune} {more : List Rune} (runes : lexeme = first :: more)
      (starts : first.isNameStart = true) (parts : ∀ r ∈ more, r.isNamePart = true)
      (kind : t.kind = (keywordTable.lookup t.value).getD .identifier)
      (ends : ∀ r ∈ after.head?, r.isNamePart = false)
  | number (runes : lexeme ≠ []) (digits : ∀ r ∈ lexeme, r.isDigit = true)
      (kind : t.kind = .number) (value : t.num.toInt = decimal t.value)
      (ends : ∀ r ∈ after.head?, r.isDigit = false)
  | operator (kind : operatorTable.lookup t.value = some t.kind)
      (ends : t.kind = .assign → ∀ r ∈ after.head?, r ≠ .char '=')

theorem wordKind_eq (word : Text) :
    wordKind word = (keywordTable.lookup word).getD .identifier := by
  unfold wordKind keywordTable
  by_cases h₁ : word = "if"
  · subst h₁
    rfl
  · by_cases h₂ : word = "else"
    · subst h₂
      rfl
    · by_cases h₃ : word = "while"
      · subst h₃
        rfl
      · simp only [List.lookup_cons, List.lookup_nil, beq_false_of_ne h₁, beq_false_of_ne h₂,
          beq_false_of_ne h₃, h₁, h₂, h₃, if_false, Option.getD_none]

theorem digitsValue_eq (digits : Text) : Text.digitsValue digits = decimal digits := by
  unfold Text.digitsValue decimal
  rw [Nat.ofDigits_eq_foldr, List.foldr_reverse, List.foldl_map]
  congr 1
  funext n d
  simp [Nat.add_comm]

theorem numberToken_spec {first : Rune} {digits : Text} {pos : Position} {t : Token}
    (h : numberToken first digits pos = .ok t) :
    t.value = digits ∧ t.num.toInt = decimal digits := by
  unfold numberToken at h
  split at h
  · next hle =>
    obtain rfl := Except.ok.inj h
    refine ⟨rfl, ?_⟩
    unfold Word.greatest at hle
    rw [← digitsValue_eq]
    exact Int64.toInt_ofNat_of_lt (by omega)
  · cases h

theorem head?_dropWhile {p : Rune → Bool} {rs : List Rune} :
    ∀ r ∈ (rs.dropWhile p).head?, p r = false := by
  intro r hr
  have h := List.head?_dropWhile_not p rs
  rw [Option.mem_def.mp hr] at h
  exact h

theorem readOperator_spec {first : Rune} {rest after lexeme : List Rune} {pos : Position}
    {kind : Kind} (h : readOperator first rest pos = .ok (kind, lexeme, after)) :
    operatorTable.lookup (Rune.encode lexeme) = some kind ∧
      (kind = .assign → ∀ r ∈ after.head?, r ≠ .char '=') := by
  unfold readOperator at h
  split at h
  · next k rest' hk =>
    cases h
    unfold pairKind? at hk
    split at hk <;> cases hk <;> exact ⟨by decide, by simp⟩
  · next hpair =>
    split at h
    · cases h
    · split at h
      · next k hk =>
        cases h
        refine ⟨?_, ?_⟩
        · unfold operatorKind? at hk
          split at hk <;> cases hk <;> decide
        · -- a single equals sign is not the first half of a double one
          rintro rfl r hr rfl
          obtain ⟨rest', rfl⟩ := List.head?_eq_some_iff.mp hr
          have hfirst : first = .char '=' := by
            unfold operatorKind? at hk
            split at hk <;> cases hk
            rfl
          exact hpair .equal rest' (by rw [hfirst]; rfl) rfl
      · cases h

theorem classOf_eq_number {r : Rune} (h : classOf r = .number) : r.isDigit = true := by
  unfold classOf at h
  split at h
  · assumption
  · split at h <;> cases h

theorem classOf_eq_word {r : Rune} (h : classOf r = .word) : r.isNameStart = true := by
  unfold classOf at h
  split at h
  · cases h
  · split at h
    · assumption
    · cases h

/-- **What is read is a lexeme.** -/
theorem readLexeme_spec {first : Rune} {rest after lexeme : List Rune} {pos : Position} {t : Token}
    (h : readLexeme first rest pos = .ok (t, lexeme, after)) :
    lexeme ++ after = first :: rest ∧ t.value = Rune.encode lexeme ∧ t.pos = pos ∧
      IsLexeme lexeme after t := by
  unfold readLexeme at h
  cases hc : classOf first with
  | number =>
    rw [hc] at h
    dsimp only at h
    cases hn : numberToken first (Rune.encode (first :: rest.takeWhile Rune.isDigit)) pos with
    | error e => rw [hn] at h; cases h
    | ok u =>
      rw [hn] at h
      cases h
      obtain ⟨hkind, hpos⟩ := numberToken_ok hn
      obtain ⟨hvalue, hnum⟩ := numberToken_spec hn
      refine ⟨?_, hvalue, hpos, .number (by simp) ?_ hkind (by rw [hnum, hvalue]) head?_dropWhile⟩
      · rw [List.cons_append, List.takeWhile_append_dropWhile]
      · exact List.forall_mem_cons.mpr
          ⟨classOf_eq_number hc, fun r hr => List.mem_takeWhile_imp hr⟩
  | word =>
    rw [hc] at h
    dsimp only at h
    cases h
    refine ⟨?_, rfl, rfl, .word rfl (classOf_eq_word hc) (fun r hr => List.mem_takeWhile_imp hr)
      (wordKind_eq _) head?_dropWhile⟩
    rw [List.cons_append, List.takeWhile_append_dropWhile]
  | operator =>
    rw [hc] at h
    dsimp only at h
    cases ho : readOperator first rest pos with
    | error e => rw [ho] at h; cases h
    | ok x =>
      rw [ho] at h
      cases h
      obtain ⟨hkind, hends⟩ := readOperator_spec ho
      exact ⟨readOperator_append ho, rfl, rfl, .operator hkind hends⟩

theorem IsLexeme.ne_nil {lexeme after : List Rune} {t : Token} (h : IsLexeme lexeme after t)
    (hv : t.value = Rune.encode lexeme) : lexeme ≠ [] := by
  rintro rfl
  cases h with
  | word runes _ _ _ _ => cases runes
  | number runes _ _ _ _ => exact runes rfl
  | operator kind _ =>
    rw [hv] at kind
    cases kind

/-- A fault in a lexeme has the place of the lexeme. -/
theorem readLexeme_error {first : Rune} {rest : List Rune} {pos : Position} {e : LexicalError}
    (h : readLexeme first rest pos = .error e) : e.pos = pos := by
  unfold readLexeme at h
  cases hc : classOf first with
  | number =>
    rw [hc] at h
    dsimp only at h
    unfold numberToken at h
    split at h <;> cases h
    rfl
  | word =>
    rw [hc] at h
    cases h
  | operator =>
    rw [hc] at h
    dsimp only at h
    unfold readOperator at h
    split at h
    · cases h
    · split at h
      · cases h
        rfl
      · split at h <;> cases h
        rfl

/-! ## Cuts -/

/-- **A cut**: from a given offset on, some runes are gaps and the lexemes of some tokens in turn,
up to an offset where only the runes `unread` are left. -/
inductive Cut : Int → List Rune → List Token → Int → List Rune → Prop where
  | stop {offset : Int} {gap unread : List Rune} (isGap : IsGap gap unread) :
      Cut offset (gap ++ unread) [] (offset + (Rune.encode gap).length) unread
  | lexeme {offset stop : Int} {gap lexeme after unread : List Rune} {t : Token} {ts : List Token}
      (isGap : IsGap gap (lexeme ++ after)) (isLexeme : IsLexeme lexeme after t)
      (value : t.value = Rune.encode lexeme)
      (place : t.pos.offset = offset + (Rune.encode gap).length)
      (more : Cut (t.pos.offset + t.value.length) after ts stop unread) :
      Cut offset (gap ++ (lexeme ++ after)) (t :: ts) stop unread

/-- A gap in front of a cut. -/
theorem Cut.skip {offset offset' stop : Int} {gap rs unread : List Rune} {ts : List Token}
    (hg : IsGap gap rs) (ho : offset' = offset + (Rune.encode gap).length)
    (h : Cut offset' rs ts stop unread) : Cut offset (gap ++ rs) ts stop unread := by
  have hlen (gap' : List Rune) : offset + ((Rune.encode (gap ++ gap')).length : Int) =
      offset' + (Rune.encode gap').length := by
    rw [Rune.encode_append, List.length_append, ho]
    omega
  cases h with
  | stop hg' =>
    rw [← List.append_assoc, ← hlen]
    exact .stop (hg.append hg')
  | lexeme hg' hl hv hp hm =>
    rw [← List.append_assoc]
    exact .lexeme (hg.append hg') hl hv (by rw [hlen, hp]) hm

/-- A cut leaves out nothing. -/
theorem Cut.length {offset stop : Int} {rs unread : List Rune} {ts : List Token}
    (h : Cut offset rs ts stop unread) :
    stop + (Rune.encode unread).length = offset + (Rune.encode rs).length := by
  induction h with
  | stop _ =>
    rw [Rune.encode_append, List.length_append]
    omega
  | lexeme _ _ hv hp _ ih =>
    rw [ih, hp, hv, Rune.encode_append, Rune.encode_append, List.length_append, List.length_append]
    omega

/-! ## The course of a lexer is a cut -/

/-- The tokens of a stream that are no markers. -/
def lexemesOf (ts : List Token) : List Token :=
  (streamOf ts).filter fun t => !t.kind.isMarker

theorem lexemesOf_markers {kinds : List Kind} (h : ∀ k ∈ kinds, k.isMarker = true) (pos : Position)
    (ts : List Token) : lexemesOf (markersAt pos kinds ++ ts) = lexemesOf ts := by
  induction kinds with
  | nil => rfl
  | cons k kinds ih =>
    rw [List.forall_mem_cons] at h
    have hk : k ≠ .eof := by
      rintro rfl
      exact absurd h.1 (by decide)
    rw [← ih h.2]
    simp [lexemesOf, streamOf, markersAt, Token.plain, hk, h.1]

theorem lexemesOf_cons {t : Token} (h : t.kind ∈ spelled) (ts : List Token) :
    lexemesOf (t :: ts) = t :: lexemesOf ts := by
  have hk : t.kind ≠ .eof := by
    intro hk
    rw [hk] at h
    exact absurd h (by decide)
  simp [lexemesOf, streamOf, hk, isMarker_of_spelled h]

theorem IsLexeme.spelled {lexeme after : List Rune} {t : Token} (h : IsLexeme lexeme after t) :
    t.kind ∈ Lexer.spelled := by
  cases h with
  | word _ _ _ hk _ =>
    rw [hk, ← wordKind_eq]
    exact List.mem_cons_of_mem _ (List.mem_append_left _ (wordKind_mem _))
  | number _ _ hk _ _ =>
    rw [hk]
    decide
  | operator hk _ =>
    have hall : ∀ e ∈ operatorTable, e.2 ∈ Lexer.spelled := by decide
    obtain ⟨before, behind, htable, -⟩ := List.lookup_eq_some_iff.mp hk
    exact hall (t.value, t.kind) (htable ▸ List.mem_append_right _ List.mem_cons_self)

theorem Scan.next_offset (s : Scan) :
    s.next.offset = s.pos.offset + (Rune.encode s.gap).length :=
  Position.afterAll_offset _ _

/-- **The course of a lexer cuts what it reads.** -/
theorem Course.cut {tab : TabWidth} {s : Scan} {ts : List Token} {e : Option LexicalError}
    (h : Course tab s ts e) :
    ∃ stop unread, Cut s.pos.offset s.input (lexemesOf ts) stop unread ∧
      (e = none → unread = []) ∧ ∀ e' ∈ e, e'.pos.offset = stop := by
  induction h with
  | @finish s hr =>
    have hl : lexemesOf (markersAt s.next (s.levels.map fun _ => .dedent) ++
        [.eofAt s.next]) = [] :=
      lexemesOf_markers (by simp [Kind.isMarker]) _ _
    rw [hl, ← s.gap_append_rest, hr]
    exact ⟨_, [], .stop (hr ▸ s.isGap_gap), fun _ => rfl, by simp⟩
  | @newline s r rest ts e _ hr hn _ ih =>
    obtain ⟨stop, unread, hc, hend⟩ := ih
    refine ⟨stop, unread, ?_, hend⟩
    have hgap : IsGap s.gap ([r] ++ rest) := by
      rw [List.singleton_append, ← hr]
      exact s.isGap_gap
    have hline : IsGap (s.gap ++ [r]) rest := hgap.append (.space (isSpace_of_isNewline hn) .nil)
    have hin : s.input = (s.gap ++ [r]) ++ rest := by
      rw [← s.gap_append_rest, hr, List.append_assoc]
      rfl
    rw [hin]
    refine hc.skip hline ?_
    simp [Scan.next_offset, Rune.encode_append, Rune.length_bytes]
    omega
  | @line s r rest kinds levels ts e _ hr ha _ ih =>
    obtain ⟨stop, unread, hc, hend⟩ := ih
    refine ⟨stop, unread, ?_, hend⟩
    rw [lexemesOf_markers (isMarker_of_adjust ha), ← s.gap_append_rest, hr]
    exact hc.skip (hr ▸ s.isGap_gap) s.next_offset
  | @lost s r rest _ hr _ =>
    refine ⟨s.next.offset, r :: rest, ?_, by simp, fun e' he => by cases he; rfl⟩
    rw [← s.gap_append_rest, hr, s.next_offset]
    exact .stop (hr ▸ s.isGap_gap)
  | @lexeme s r rest lexeme after t ts e _ hr _ hread _ ih =>
    obtain ⟨stop, unread, hc, hend⟩ := ih
    obtain ⟨happ, hv, hp, hl⟩ := readLexeme_spec hread
    refine ⟨stop, unread, ?_, hend⟩
    rw [lexemesOf_cons hl.spelled, ← s.gap_append_rest, hr, ← happ]
    refine .lexeme (by rw [happ, ← hr]; exact s.isGap_gap) hl hv (by rw [hp, s.next_offset]) ?_
    rw [hp, hv, ← Position.afterAll_offset]
    exact hc
  | @fault s r rest e _ hr _ hread =>
    refine ⟨s.next.offset, r :: rest, ?_, by simp, fun e' he => ?_⟩
    · rw [← s.gap_append_rest, hr, s.next_offset]
      exact .stop (hr ▸ s.isGap_gap)
    · rw [← Option.some.inj he, readLexeme_error hread]

end Lexer

open Lexer

/-- **The tokens that are delivered for a source cut it.** Up to the end of the source, or up to the
fault that ends the delivery, the source is gaps and lexemes in turn. -/
theorem delivered_cut (tab : TabWidth) (src : Text) :
    ∃ stop unread,
      Cut 0 (Rune.decode src)
        ((ofSource tab src).delivered.1.filter fun t => !t.kind.isMarker) stop unread ∧
      match (ofSource tab src).delivered.2 with
      | none => unread = [] ∧ stop = src.length
      | some e => e.pos.offset = stop := by
  obtain ⟨ts, e, hc, hd, -⟩ := course_source tab src
  obtain ⟨stop, unread, hcut, hend, hfault⟩ := hc.cut
  rw [hd]
  refine ⟨stop, unread, hcut, ?_⟩
  cases e with
  | none =>
    obtain rfl := hend rfl
    refine ⟨rfl, ?_⟩
    have hlen := hcut.length
    rw [show (Scan.ofSource src).input = Rune.decode src from rfl, Rune.encode_decode] at hlen
    simpa [Scan.ofSource, Position.start] using hlen
  | some e => exact hfault e rfl

end Offside
