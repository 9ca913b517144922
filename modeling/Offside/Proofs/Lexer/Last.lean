import Offside.Proofs.Editing.Comment
import Offside.Proofs.Lexer.Leftmost

/-!
# The last lexeme of a source

A session looks at the last character of a line and the parser at its last token. To compare the
two, the last lexeme of a source is found again in the source without its comments.

A source ends with its last lexeme and a gap. A gap without its comments is made of space
characters, and in front of a lexeme no comment is open, so the source without its comments ends
with the same lexeme and space characters. The same holds of its last line, if the lexeme is on it.

* `ClosesComments` says that no comment is open behind some runes, so that what follows them is read
  on its own.
* `Last` is the last lexeme of some runes, with what stands in front of it and behind it.

Results:
* `IsGap.blank`, `IsGap.closesComments`: a gap without its comments is white space, and in front of
  a lexeme it closes its comments.
* `colon_iff_of_readLexeme`: a colon is a lexeme of its own, and no other lexeme ends with it.
* `Course.last`: a source ends with its last lexeme, if it has one, and with a gap. The induction is
  on the course.
* `Last.uncomment_line`: the end of the last line without its comment.
-/

namespace Offside

/-! ## Comments and gaps -/

namespace Rune

/-- No comment is open behind some runes: what follows them is read on its own. -/
def ClosesComments (rs : List Rune) : Prop :=
  ∀ more, uncomment false (rs ++ more) = uncomment false rs ++ uncomment false more

namespace ClosesComments

variable {rs ss : List Rune}

theorem nil : ClosesComments [] := fun _ => rfl

theorem append (h : ClosesComments rs) (h' : ClosesComments ss) : ClosesComments (rs ++ ss) := by
  intro more
  rw [List.append_assoc, h, h', h, List.append_assoc]

/-- The second of two parts closes its comments if both together do and the first one does. -/
theorem of_append (h : ClosesComments rs) (h' : ClosesComments (rs ++ ss)) : ClosesComments ss := by
  intro more
  have hall := h' more
  rw [List.append_assoc, h, h, List.append_assoc] at hall
  exact List.append_cancel_left hall

/-- A line feed closes a comment. -/
theorem newline (rs : List Rune) : ClosesComments (rs ++ [.char '\n']) := by
  intro more
  rw [List.append_assoc, List.singleton_append, uncomment_append_newline, uncomment_append_newline,
    List.append_assoc]
  rfl

/-- Runes without line feeds and number signs open no comment. -/
theorem of_forall (h : ∀ r ∈ rs, r.isNewline = false ∧ r.is '#' = false) : ClosesComments rs := by
  intro more
  have hall := uncomment_append_of_forall h []
  rw [List.append_nil] at hall
  rw [uncomment_append_of_forall h, hall]
  exact congrArg (· ++ uncomment false more) (List.append_nil rs).symm

end ClosesComments

end Rune

/-! ## Tokens in front of others -/

theorem bodyOf_append_of_ne_nil {ts : List Token} (h : bodyOf ts ≠ []) (us : List Token) :
    bodyOf (us ++ ts) = us ++ bodyOf ts := by
  unfold bodyOf at h ⊢
  rw [List.reverse_append, List.dropWhile_append, if_neg, List.reverse_append, List.reverse_reverse]
  rw [List.isEmpty_iff]
  exact fun hnil => h (by rw [hnil, List.reverse_nil])

theorem bodyOf_cons_of_nil {ts : List Token} (h : bodyOf ts = []) {t : Token}
    (ht : t.kind.closes = false) : bodyOf (t :: ts) = [t] := by
  have hcloses : ∀ u ∈ ts, u.kind.closes = true := by
    rw [bodyOf, List.reverse_eq_nil_iff, List.dropWhile_eq_nil_iff] at h
    exact fun u hu => h u (List.mem_reverse.mpr hu)
  rw [← List.singleton_append, bodyOf_append hcloses, bodyOf]
  simp [ht]

namespace Lexer

open Rune (uncomment uncomment_newline uncomment_skip uncomment_keep ClosesComments)

/-- A comment is deleted up to the end of its line. -/
theorem uncomment_comment {body rs : List Rune} (hin : ∀ r ∈ body, r.isNewline = false)
    (hends : EndsLine rs) : uncomment false (.char '#' :: (body ++ rs)) = uncomment false rs := by
  rw [uncomment_skip rfl rfl]
  induction body with
  | nil =>
    cases rs with
    | nil => rfl
    | cons r rs =>
      rw [List.nil_append, uncomment_newline (hends r rfl),
        uncomment_newline (hends r rfl)]
  | cons r body ih =>
    obtain ⟨hr, hbody⟩ := List.forall_mem_cons.mp hin
    rw [List.cons_append, uncomment_skip hr rfl, ih hbody]

theorem uncomment_space {r : Rune} (h : r.isSpace = true) (rs : List Rune) :
    uncomment false (r :: rs) = r :: uncomment false rs := by
  cases hn : r.isNewline with
  | true => exact uncomment_newline hn false rs
  | false =>
    refine uncomment_keep hn ?_ rs
    rw [Rune.is, beq_eq_false_iff_ne]
    rintro rfl
    exact absurd h (by decide)

theorem EndsLine.left {rs ss : List Rune} (h : EndsLine (rs ++ ss)) : EndsLine rs := by
  intro r hr
  refine h r ?_
  rw [List.head?_append, Option.mem_def.mp hr]
  rfl

/-- **Without its comments a gap is made of space characters.** -/
theorem IsGap.blank {gap after : List Rune} (h : IsGap gap after) :
    ∀ r ∈ uncomment false gap, r.isSpace = true := by
  induction h with
  | nil => exact List.forall_mem_nil _
  | space hs _ ih =>
    rw [uncomment_space hs]
    exact List.forall_mem_cons.mpr ⟨hs, ih⟩
  | comment hin hends _ ih => rwa [uncomment_comment hin hends.left]

/-- In front of a lexeme a gap closes its comments. -/
theorem IsGap.closesComments {gap after : List Rune} (h : IsGap gap after)
    (hafter : ∃ r ∈ after.head?, r.isNewline = false) : ClosesComments gap := by
  induction h with
  | nil => exact .nil
  | space hs _ ih =>
    intro more
    rw [List.cons_append, uncomment_space hs, uncomment_space hs, ih hafter, List.cons_append]
  | @comment body gap after hin hends _ ih =>
    intro more
    have hline : EndsLine (gap ++ more) := by
      cases gap with
      | nil =>
        -- the comment would reach up to the lexeme, which is on its line
        obtain ⟨r, hr, hn⟩ := hafter
        exact absurd ((hends r hr).symm.trans hn) nofun
      | cons a gap => exact fun r hr => hends r hr
    rw [List.cons_append, List.append_assoc, uncomment_comment hin hline,
      uncomment_comment hin hends.left, ih hafter]

/-! ## The last lexeme -/

section ReadLexeme

variable {r : Rune} {rest lexeme after : List Rune} {pos : Position} {t : Token}

theorem solid_of_operatorKind? {kind : Kind} (h : operatorKind? r = some kind) : Solid r := by
  have hall : ∀ c ∈ signs, decide (Solid (.char c)) = true := List.all_eq_true.mp (by decide)
  obtain ⟨c, hc, rfl⟩ := (operatorKind?_isSome_iff r).mp (by rw [h]; rfl)
  exact of_decide_eq_true (hall c hc)

/-- The runes of a lexeme belong to no gap. -/
theorem solid_of_readLexeme (h : readLexeme r rest pos = .ok (t, lexeme, after)) :
    ∀ a ∈ lexeme, Solid a := by
  have hreads := readsAs r rest pos
  rw [h] at hreads
  cases hreads with
  | word starts =>
    refine List.forall_mem_cons.mpr ⟨solid_of_isNameStart starts, fun a ha => ?_⟩
    exact solid_of_isNamePart (List.mem_takeWhile_imp ha)
  | number digit _ _ =>
    refine List.forall_mem_cons.mpr ⟨solid_of_isDigit digit, fun a ha => ?_⟩
    exact solid_of_isDigit (List.mem_takeWhile_imp ha)
  | pair pairs _ =>
    rcases pairKind?_cases pairs with ⟨rfl, -⟩ | ⟨rfl, -⟩ <;> decide
  | single _ known => exact List.forall_mem_singleton.mpr (solid_of_operatorKind? known)

/-- A colon is a lexeme of its own, and no other lexeme ends with it. -/
theorem colon_iff_of_readLexeme (h : readLexeme r rest pos = .ok (t, lexeme, after)) :
    t.kind = .colon ↔ lexeme.getLast? = some (.char ':') := by
  have hparts {p : Rune → Bool} (hr : Rune.isNamePart r = true)
      (hp : ∀ a, p a = true → a.isNamePart = true) :
      (r :: rest.takeWhile p).getLast? ≠ some (.char ':') := by
    intro hlast
    have hpart : Rune.isNamePart (.char ':') = true := by
      rcases List.mem_cons.mp (List.mem_of_getLast? hlast) with he | hm
      · exact he ▸ hr
      · exact hp _ (List.mem_takeWhile_imp hm)
    exact absurd hpart (by decide)
  have hreads := readsAs r rest pos
  rw [h] at hreads
  cases hreads with
  | word starts =>
    have hkind : wordKind (Rune.encode (r :: rest.takeWhile Rune.isNamePart)) ≠ .colon := by
      intro he
      exact absurd (he ▸ wordKind_mem _) (by decide)
    exact iff_of_false hkind (hparts (by simp [Rune.isNamePart, starts]) fun _ ha => ha)
  | number digit kind _ =>
    refine iff_of_false (fun he => absurd (kind.symm.trans he) (by decide)) ?_
    exact hparts (Rune.isNamePart_of_isDigit digit) fun _ => Rune.isNamePart_of_isDigit
  | pair pairs _ =>
    rcases pairKind?_cases pairs with ⟨rfl, rfl⟩ | ⟨rfl, rfl⟩
    · exact iff_of_false Kind.noConfusion (by decide)
    · exact iff_of_false Kind.noConfusion (by decide)
  | @single kind _ known =>
    show kind = .colon ↔ some r = some (.char ':')
    rw [Option.some.injEq]
    constructor
    · rintro rfl
      unfold operatorKind? at known
      split at known <;> cases known
      rfl
    · rintro rfl
      exact (Option.some.inj known).symm

end ReadLexeme

/-- **The last lexeme of some runes** from a position on, which is the last of their tokens in front
of the closing ones. -/
structure Last (pos : Position) (input : List Rune) (ts : List Token) (t : Token)
    (front lexeme back : List Rune) : Prop where
  isLast : (bodyOf ts).getLast? = some t
  input_eq : input = front ++ (lexeme ++ back)
  place : t.pos.offset = pos.offset + (Rune.encode front).length
  closes : ClosesComments front
  ne_nil : lexeme ≠ []
  solid : ∀ a ∈ lexeme, Solid a
  colon_iff : t.kind = .colon ↔ lexeme.getLast? = some (.char ':')
  /-- Only a gap follows it. -/
  blank : ∀ r ∈ uncomment false back, r.isSpace = true

/-- More runes in front of the last lexeme. -/
theorem Last.behind {pos pos' : Position} {input pre front lexeme back : List Rune}
    {ts : List Token}
    {t : Token} (h : Last pos' input ts t front lexeme back)
    (us : List Token) (hpre : ClosesComments pre)
    (hpos : pos'.offset = pos.offset + (Rune.encode pre).length) :
    Last pos (pre ++ input) (us ++ ts) t (pre ++ front) lexeme back where
  isLast := by
    have hne : bodyOf ts ≠ [] := by
      intro hnil
      exact absurd (hnil ▸ h.isLast) nofun
    rw [bodyOf_append_of_ne_nil hne, List.getLast?_append, h.isLast, Option.some_or]
  input_eq := by rw [h.input_eq, List.append_assoc]
  place := by
    rw [h.place, hpos, Rune.encode_append, List.length_append]
    omega
  closes := hpre.append h.closes
  ne_nil := h.ne_nil
  solid := h.solid
  colon_iff := h.colon_iff
  blank := h.blank

/-- **A source ends with its last lexeme**, if it has one, and with a gap. -/
theorem Course.last {tab : TabWidth} {s : Scan} {ts : List Token} {e : Option LexicalError}
    (h : Course tab s ts e) (he : e = none) :
    (bodyOf ts = [] ∧ ∀ r ∈ uncomment false s.input, r.isSpace = true) ∨
      ∃ t front lexeme back, Last s.pos s.input ts t front lexeme back := by
  induction h with
  | @finish s hr =>
    refine Or.inl ⟨?_, ?_⟩
    · exact bodyOf_append (closes_ending s.next s.levels) []
    · have hgap := s.isGap_gap.blank
      rwa [← s.gap_append_rest, hr, List.append_nil]
  | @newline s r rest ts e _ hr hn _ ih =>
    obtain rfl : r = .char '\n' := by simpa [Rune.isNewline, Rune.is] using hn
    have hin : s.input = (s.gap ++ [.char '\n']) ++ rest := by
      rw [← s.gap_append_rest, hr, List.append_assoc, List.singleton_append]
    have hgap : IsGap s.gap ([.char '\n'] ++ rest) := by
      rw [List.singleton_append, ← hr]
      exact s.isGap_gap
    have hline : IsGap (s.gap ++ [.char '\n']) rest := hgap.append (.space rfl .nil)
    have hcloses := ClosesComments.newline s.gap
    rw [hin]
    rcases ih he with ⟨hbody, hblank⟩ | ⟨t, front, lexeme, back, hlast⟩
    · refine Or.inl ⟨hbody, ?_⟩
      rw [hcloses, List.forall_mem_append]
      exact ⟨hline.blank, hblank⟩
    · refine Or.inr ⟨t, _, lexeme, back, hlast.behind [] hcloses ?_⟩
      have hnext : s.next.after (.char '\n') = s.pos.afterAll (s.gap ++ [.char '\n']) := by
        rw [Position.afterAll_append]
        rfl
      rw [hnext, Position.afterAll_offset]
  | @line s r rest kinds levels ts e hf hr _ _ ih =>
    have hsolid : Solid r := Scan.solid_of_fresh hf hr
    have hcloses := s.isGap_gap.closesComments ⟨r, by rw [hr]; rfl, hsolid.1⟩
    rw [← s.gap_append_rest, hr]
    rcases ih he with ⟨-, hblank⟩ | ⟨t, front, lexeme, back, hlast⟩
    · -- an indentation is only settled in front of a lexeme
      rw [uncomment_keep hsolid.1 hsolid.2.1] at hblank
      have hspace := hblank r List.mem_cons_self
      rw [hsolid.2.2] at hspace
      cases hspace
    · exact Or.inr ⟨t, _, lexeme, back, hlast.behind _ hcloses s.next_offset⟩
  | lost _ _ _ => cases he
  | @lexeme s r rest lexeme after t ts e _ hr hn hread _ ih =>
    obtain ⟨hruns, hvalue, hpos, hlexeme⟩ := readLexeme_spec hread
    have hsolid : Solid r := solid_behind_gap hr (Or.inr hn)
    have hgap := s.isGap_gap.closesComments ⟨r, by rw [hr]; rfl, hn⟩
    have hall := solid_of_readLexeme hread
    have hclose : t.kind.closes = false := by
      have hspelled : ∀ k ∈ spelled, k.closes = false := by decide
      exact hspelled _ hlexeme.spelled
    rw [← s.gap_append_rest, hr, ← hruns]
    rcases ih he with ⟨hbody, hblank⟩ | ⟨u, front, lexeme', back, hlast⟩
    · refine Or.inr ⟨t, s.gap, lexeme, after, ?_, rfl, ?_, hgap, hlexeme.ne_nil hvalue, hall,
        colon_iff_of_readLexeme hread, hblank⟩
      · rw [bodyOf_cons_of_nil hbody hclose]
        rfl
      · rw [hpos, s.next_offset]
    · have hcloses := hgap.append (.of_forall fun a ha => ⟨(hall a ha).1, (hall a ha).2.1⟩)
      rw [← List.append_assoc]
      refine Or.inr ⟨u, _, lexeme', back, hlast.behind [t] hcloses ?_⟩
      rw [Scan.next, ← Position.afterAll_append, Position.afterAll_offset]
  | fault _ _ _ _ => cases he

/-- The last lexeme stands on the line that it is not in front of. -/
theorem Last.uncomment_line {pos : Position} {pre line front lexeme back : List Rune}
    {ts : List Token} {t : Token} (h : Last pos (pre ++ line) ts t front lexeme back)
    (hpre : ClosesComments pre) (hplace : pos.offset + (Rune.encode pre).length ≤ t.pos.offset) :
    ∃ before, uncomment false line = before ++ (lexeme ++ uncomment false back) := by
  obtain ⟨before, rfl, rfl⟩ :
      ∃ before, front = pre ++ before ∧ line = before ++ (lexeme ++ back) := by
    rcases List.append_eq_append_iff.mp h.input_eq with
        ⟨before, hfront, hline⟩ | ⟨more, hmore, hline⟩
    · exact ⟨before, hfront, hline⟩
    · rw [h.place, hmore, Rune.encode_append, List.length_append] at hplace
      cases more with
      | nil => exact ⟨[], by simpa using hmore.symm, by simpa using hline.symm⟩
      | cons r more =>
        have hwidth := r.width_pos
        rw [Rune.encode_cons, List.length_append, r.length_bytes] at hplace
        omega
  refine ⟨uncomment false before, ?_⟩
  rw [hpre.of_append h.closes, Rune.uncomment_append_of_forall]
  exact fun a ha => ⟨(h.solid a ha).1, (h.solid a ha).2.1⟩

/-- Offsets do not decrease up to the last token in front of the closing ones. -/
theorem offset_le_last {tab : TabWidth} {src : Text} {ts : List Token} {t : Token}
    (h : tokenize tab src = .ok ts) (ht : (bodyOf ts).getLast? = some t) :
    ∀ u ∈ bodyOf ts, u.pos.offset ≤ t.pos.offset := by
  obtain ⟨front, hfront⟩ := List.getLast?_eq_some_iff.mp ht
  have hsorted := ((course_of_tokenize h).sited (Scan.stands_ofSource src)).sorted
  rw [resultsOf] at hsorted
  have htokens := List.pairwise_map.mp (List.pairwise_append.mp hsorted).1
  have hbody : (bodyOf ts).Pairwise fun u v => Result.Precedes (.ok u) (.ok v) := by
    refine htokens.sublist ?_
    unfold bodyOf
    exact List.reverse_sublist.mp (by rw [List.reverse_reverse]; exact List.dropWhile_sublist _)
  intro u hu
  rw [hfront] at hu hbody
  rcases List.mem_append.mp hu with hu | hu
  · exact ((List.pairwise_append.mp hbody).2.2 u hu t (List.mem_singleton_self t)).1
  · rw [List.mem_singleton.mp hu]

end Lexer

end Offside
