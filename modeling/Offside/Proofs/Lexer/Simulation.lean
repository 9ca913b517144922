import Offside.Proofs.Lexer.Continue

/-!
# Two sources that are read alike

What `tokenize` makes of two sources that differ only between their lexemes. The changes of a source
that a reader would call harmless (other line ends, no comments, wider tabs, a call on one line) are
all instances of this.

A change of what stands between the lexemes of a source, such as its comments, its line ends or its
place in a longer source, changes the positions of the tokens and little else. To say so, two lexers
are run side by side. A relation between their states is a `Simulation` if both are in front of the
same thing whenever they are related, and stay related behind it. Then both find the same tokens, at
positions that are related as the states say, and stop at the same fault if there is one.

Most changes are a `Rewriting`: the runes of a source are rewritten from the left to the right, and
solid runes are kept.

* `Token.Alike` and `LexicalError.Alike` are tokens and faults that differ in their positions only,
  and `Matches` lists of tokens with a fault. The last tokens may be related more weakly than the
  others, since the end of a source is where the changes show.
* `Position.SameColumn` is the relation of positions that differ in their offsets only.
* `Outcomes` is what two sources are cut into.

Results:
* `readLexeme_moved`: a lexeme is the same at another place, and so is what is wrong with it.
* `Simulation.course`: two runs that begin in related states find the same tokens. The induction is
  on the course of the first.
* `Simulation.tokenize`: two sources whose beginnings are related have the same tokens.
* `Rewriting.simulation`: a rewriting is a simulation.
* `Rewriting.tokenize`: the tokens of a source and those of the rewritten source.
-/

namespace Offside

/-! ## Tokens that are alike -/

/-- Two tokens that differ in their positions, which are related. -/
structure Token.Alike (P : Position → Position → Prop) (t u : Token) : Prop where
  kind : u.kind = t.kind
  value : u.value = t.value
  num : u.num = t.num
  pos : P t.pos u.pos

/-- Two faults that differ in their positions, which are related. -/
structure LexicalError.Alike (P : Position → Position → Prop) (e e' : LexicalError) : Prop where
  code : e'.code = e.code
  reason : e'.reason = e.reason
  pos : P e.pos e'.pos

/-- The token at the place where a map moves it. -/
def Token.relocate (f : Position → Position) (t : Token) : Token :=
  { t with pos := f t.pos }

/-- The fault at the place where a map moves it. -/
def LexicalError.relocate (f : Position → Position) (e : LexicalError) : LexicalError :=
  { e with pos := f e.pos }

section Alike

variable {P Q : Position → Position → Prop} {f : Position → Position}

/-- Tokens that are alike are the same for a map that does not tell their positions apart. -/
theorem Token.Alike.relocate_eq {t u : Token} (h : t.Alike P u)
    (hf : ∀ p q, P p q → f q = f p) : u.relocate f = t.relocate f := by
  rw [Token.relocate, Token.relocate, h.kind, h.value, h.num, hf _ _ h.pos]

theorem LexicalError.Alike.relocate_eq {e e' : LexicalError} (h : e.Alike P e')
    (hf : ∀ p q, P p q → f q = f p) : e'.relocate f = e.relocate f := by
  rw [LexicalError.relocate, LexicalError.relocate, h.code, h.reason, hf _ _ h.pos]

theorem Token.Alike.mono {t u : Token} (h : t.Alike P u) (hPQ : ∀ p q, P p q → Q p q) :
    t.Alike Q u :=
  ⟨h.kind, h.value, h.num, hPQ _ _ h.pos⟩

theorem map_relocate_eq {ts us : List Token} (h : List.Forall₂ (Token.Alike P) ts us)
    (hf : ∀ p q, P p q → f q = f p) :
    us.map (Token.relocate f) = ts.map (Token.relocate f) := by
  induction h with
  | nil => rfl
  | cons ht _ ih => rw [List.map_cons, List.map_cons, ht.relocate_eq hf, ih]

end Alike

/-! ## Positions up to their offsets -/

namespace Position

/-- The position without its offset. -/
def unoffset (p : Position) : Position :=
  { p with offset := 0 }

/-- Two positions that differ in their offsets only. -/
def SameColumn (p q : Position) : Prop :=
  q.unoffset = p.unoffset

namespace SameColumn

variable {p q : Position}

theorem line_eq (h : p.SameColumn q) : q.line = p.line := by
  have hline := congrArg Position.line h
  exact hline

theorem column_eq (h : p.SameColumn q) : q.column = p.column := by
  have hcolumn := congrArg Position.column h
  exact hcolumn

theorem after (h : p.SameColumn q) (r : Rune) : (p.after r).SameColumn (q.after r) := by
  simp only [SameColumn, unoffset, Position.after, h.line_eq, h.column_eq]
  split <;> rfl

/-- A line feed begins the next line, wherever it stands on its line. -/
theorem after_newline {r : Rune} (hr : r.isNewline = true) (h : q.line = p.line) :
    (p.after r).SameColumn (q.after r) := by
  simp only [SameColumn, unoffset, Position.after, hr, if_true, h]

end SameColumn

end Position

namespace Lexer

variable {P Q : Position → Position → Prop}

/-- **What two runs find**: the same tokens, and the same fault if there is one. The positions are
related by `P`, but those of the markers and the end of source that come last by `Q`. -/
inductive Matches (P Q : Position → Position → Prop) :
    List Token → Option LexicalError → List Token → Option LexicalError → Prop where
  | finish {p q : Position} (levels : List Int64) (pos : Q p q) :
      Matches P Q (markersAt p (levels.map fun _ => .dedent) ++ [.eofAt p]) none
        (markersAt q (levels.map fun _ => .dedent) ++ [.eofAt q]) none
  | fault {e e' : LexicalError} (alike : e.Alike P e') : Matches P Q [] (some e) [] (some e')
  | cons {t u : Token} {ts us : List Token} {e e' : Option LexicalError} (alike : t.Alike P u)
      (more : Matches P Q ts e us e') : Matches P Q (t :: ts) e (u :: us) e'

namespace Matches

variable {ts us : List Token} {e e' : Option LexicalError}

/-- Markers in front of what two runs find. -/
theorem markers (h : Matches P Q ts e us e') {p q : Position} (hp : P p q) (kinds : List Kind) :
    Matches P Q (markersAt p kinds ++ ts) e (markersAt q kinds ++ us) e' := by
  induction kinds with
  | nil => exact h
  | cons k kinds ih => exact .cons ⟨rfl, rfl, rfl, hp⟩ ih

theorem eq_none (h : Matches P Q ts none us e') : e' = none := by
  generalize he : (none : Option LexicalError) = e at h
  induction h with
  | finish _ _ => rfl
  | fault _ => cases he
  | cons _ _ ih => exact ih he

theorem eq_some {e : LexicalError} (h : Matches P Q ts (some e) us e') :
    ∃ f, e' = some f ∧ e.Alike P f := by
  generalize he : some e = e₀ at h
  induction h with
  | finish _ _ => cases he
  | fault alike =>
    cases he
    exact ⟨_, rfl, alike⟩
  | cons _ _ ih => exact ih he

/-- All tokens are alike if the positions of the last ones are. -/
theorem forall₂ (h : Matches P Q ts e us e') (hPQ : ∀ p q, P p q → Q p q) :
    List.Forall₂ (Token.Alike Q) ts us := by
  induction h with
  | @finish p q levels pos =>
    induction levels with
    | nil => exact .cons ⟨rfl, rfl, rfl, pos⟩ .nil
    | cons level levels ih => exact .cons ⟨rfl, rfl, rfl, pos⟩ ih
  | fault _ => exact .nil
  | cons alike _ ih => exact .cons (alike.mono hPQ) ih

/-- The tokens that come last, apart from the others. -/
theorem split (h : Matches P Q ts e us e') (he : e = none) :
    ∃ front front' p q, ∃ levels : List Int64, List.Forall₂ (Token.Alike P) front front' ∧
      ts = front ++ (markersAt p (levels.map fun _ => .dedent) ++ [.eofAt p]) ∧
      us = front' ++ (markersAt q (levels.map fun _ => .dedent) ++ [.eofAt q]) := by
  induction h with
  | @finish p q levels _ => exact ⟨[], [], p, q, levels, .nil, rfl, rfl⟩
  | fault _ => cases he
  | @cons t u ts us e e' alike _ ih =>
    obtain ⟨front, front', p, q, levels, hfront, rfl, rfl⟩ := ih he
    exact ⟨t :: front, u :: front', p, q, levels, .cons alike hfront, rfl, rfl⟩

end Matches

/-! ## Simulations -/

/-- **A relation between the states of two lexers that keeps them in step.** Where a line begins,
its width is the same for both. In front of a lexeme, both have the same solid runes ahead of them,
and they are related again behind whatever part of them is read. -/
structure Simulation (tab tab' : TabWidth) (P Q : Position → Position → Prop)
    (R : Scan → Scan → Prop) : Prop where
  fresh : ∀ {s s' : Scan}, R s s' → s'.fresh = s.fresh
  levels : ∀ {s s' : Scan}, R s s' → s'.levels = s.levels
  finish : ∀ {s s' : Scan}, R s s' → s.rest = [] → s'.rest = [] ∧ Q s.next s'.next
  newline : ∀ {s s' : Scan} {r : Rune} {rest : List Rune}, R s s' → s.fresh = false →
    s.rest = r :: rest → r.isNewline = true → ∃ rest', s'.rest = r :: rest' ∧
      R ⟨true, rest, s.next.after r, s.levels, s.depth⟩
        ⟨true, rest', s'.next.after r, s'.levels, s'.depth⟩
  line : ∀ {s s' : Scan} {r : Rune} {rest : List Rune}, R s s' → s.fresh = true →
    s.rest = r :: rest → widthOf tab' s'.gap = widthOf tab s.gap ∧ P s.next s'.next ∧
      ∃ rest', s'.rest = r :: rest' ∧ ∀ levels,
        R ⟨false, r :: rest, s.next, levels, s.depth⟩ ⟨false, r :: rest', s'.next, levels, s'.depth⟩
  lexeme : ∀ {s s' : Scan} {r : Rune} {rest : List Rune}, R s s' → s.fresh = false →
    s.rest = r :: rest → r.isNewline = false → P s.next s'.next ∧
      ∃ word behind behind', rest = word ++ behind ∧ s'.rest = r :: (word ++ behind') ∧
        Apart behind ∧ Apart behind' ∧
        ∀ t lexeme left, readLexeme r word s.next = .ok (t, lexeme, left) →
          R ⟨false, left ++ behind, s.next.afterAll lexeme, s.levels, depthAfter s.depth t.kind⟩
            ⟨false, left ++ behind', s'.next.afterAll lexeme, s'.levels,
              depthAfter s'.depth t.kind⟩

/-- The operator at another place. -/
theorem readOperator_moved (first : Rune) (rest : List Rune) (p q : Position) :
    readOperator first rest q =
      (readOperator first rest p).mapError fun e => { e with pos := q } := by
  unfold readOperator
  split
  · rfl
  · by_cases hbang : first.is '!' = true
    · rw [if_pos hbang, if_pos hbang]
      rfl
    · rw [if_neg hbang, if_neg hbang]
      cases operatorKind? first <;> rfl

/-- **A lexeme is the same at another place**, and so is what is wrong with it. -/
theorem readLexeme_moved (first : Rune) (rest : List Rune) (p q : Position) :
    readLexeme first rest q =
      ((readLexeme first rest p).map fun (t, read) => ({ t with pos := q }, read)).mapError
        fun e => { e with pos := q } := by
  unfold readLexeme
  cases classOf first with
  | number =>
    simp only [numberToken]
    split <;> rfl
  | word => rfl
  | operator =>
    simp only [readOperator_moved first rest p q]
    cases readOperator first rest p <;> rfl

/-- **Two runs that begin in related states find the same.** -/
theorem Simulation.course {tab tab' : TabWidth} {R : Scan → Scan → Prop}
    (sim : Simulation tab tab' P Q R) {s : Scan} {ts : List Token} {e : Option LexicalError}
    (h : Course tab s ts e) : ∀ {s' : Scan} {ts' : List Token} {e' : Option LexicalError},
      R s s' → Course tab' s' ts' e' → Matches P Q ts e ts' e' := by
  induction h with
  | finish hr =>
    intro s' ts' e' hR h'
    obtain ⟨hr', hq⟩ := sim.finish hR hr
    obtain ⟨rfl, rfl⟩ := h'.behind_end hr'
    rw [sim.levels hR]
    exact .finish _ hq
  | newline hf hr hn _ ih =>
    intro s' ts' e' hR h'
    obtain ⟨rest', hr', hmore⟩ := sim.newline hR hf hr hn
    exact ih hmore (h'.behind_newline ((sim.fresh hR).trans hf) hr' hn)
  | @line s r rest kinds levels ts e hf hr ha _ ih =>
    intro s' ts' e' hR h'
    obtain ⟨hw, hp, rest', hr', hmore⟩ := sim.line hR hf hr
    obtain ⟨us, rfl, hu⟩ := h'.behind_indentation ((sim.fresh hR).trans hf) hr'
      (by rw [sim.levels hR, hw, ha])
    exact (ih (hmore levels) hu).markers hp kinds
  | lost hf hr ha =>
    intro s' ts' e' hR h'
    obtain ⟨hw, hp, rest', hr', -⟩ := sim.line hR hf hr
    obtain ⟨rfl, rfl⟩ := h'.behind_lost ((sim.fresh hR).trans hf) hr'
      (by rw [sim.levels hR, hw, ha])
    exact .fault ⟨rfl, rfl, hp⟩
  | @lexeme s r rest lexeme after t ts e hf hr hn hread _ ih =>
    intro s' ts' e' hR h'
    obtain ⟨hp, word, behind, behind', rfl, hr', hapart, hapart', hmore⟩ := sim.lexeme hR hf hr hn
    -- both read the lexeme off the runes that they share
    rw [readLexeme_append_apart hapart] at hread
    cases hword : readLexeme r word s.next with
    | error f => rw [hword] at hread; cases hread
    | ok x =>
      obtain ⟨t', lexeme', left⟩ := x
      rw [hword] at hread
      obtain ⟨rfl, hrest⟩ := Prod.mk.inj (Except.ok.inj hread)
      obtain ⟨rfl, rfl⟩ := Prod.mk.inj hrest
      have hread' : readLexeme r (word ++ behind') s'.next =
          .ok ({ t' with pos := s'.next }, lexeme', left ++ behind') := by
        rw [readLexeme_append_apart hapart', readLexeme_moved r word s.next, hword]
        rfl
      obtain ⟨us, rfl, hu⟩ := h'.behind_lexeme ((sim.fresh hR).trans hf) hr' hn hread'
      refine .cons ⟨rfl, rfl, rfl, ?_⟩ (ih (hmore t' lexeme' left hword) hu)
      rw [(readLexeme_spec hword).2.2.1]
      exact hp
  | @fault s r rest e hf hr hn hread =>
    intro s' ts' e' hR h'
    obtain ⟨hp, word, behind, behind', rfl, hr', hapart, hapart', -⟩ := sim.lexeme hR hf hr hn
    rw [readLexeme_append_apart hapart] at hread
    cases hword : readLexeme r word s.next with
    | ok x => rw [hword] at hread; cases hread
    | error f =>
      rw [hword] at hread
      cases hread
      have hread' : readLexeme r (word ++ behind') s'.next = .error { e with pos := s'.next } := by
        rw [readLexeme_append_apart hapart', readLexeme_moved r word s.next, hword]
        rfl
      obtain ⟨rfl, rfl⟩ := h'.behind_fault ((sim.fresh hR).trans hf) hr' hn hread'
      refine .fault ⟨rfl, rfl, ?_⟩
      rw [readLexeme_error hword]
      exact hp

/-- What two sources are cut into: tokens that match, or faults that are alike. -/
inductive Outcomes (P Q : Position → Position → Prop) :
    Except LexicalError (List Token) → Except LexicalError (List Token) → Prop where
  | ok {ts us : List Token} (tokens : Matches P Q ts none us none) : Outcomes P Q (.ok ts) (.ok us)
  | error {e e' : LexicalError} (alike : e.Alike P e') : Outcomes P Q (.error e) (.error e')

/-- What two sources are cut into is the same for a map that does not tell their positions apart. -/
theorem Outcomes.relocate_eq {f : Position → Position}
    {x y : Except LexicalError (List Token)} (h : Outcomes P Q x y) (hPQ : ∀ p q, P p q → Q p q)
    (hf : ∀ p q, Q p q → f q = f p) :
    (y.map (List.map (Token.relocate f))).mapError (LexicalError.relocate f) =
      (x.map (List.map (Token.relocate f))).mapError (LexicalError.relocate f) := by
  cases h with
  | ok tokens => exact congrArg Except.ok (map_relocate_eq (tokens.forall₂ hPQ) hf)
  | error alike =>
    exact congrArg Except.error (alike.relocate_eq fun p q hp => hf p q (hPQ p q hp))

/-- **Two sources whose beginnings are related have the same tokens.** -/
theorem Simulation.tokenize {tab tab' : TabWidth} {R : Scan → Scan → Prop}
    (sim : Simulation tab tab' P Q R) {src src' : Text}
    (h : R (.ofSource src) (.ofSource src')) :
    Outcomes P Q (tokenize tab src) (tokenize tab' src') := by
  obtain ⟨ts, e, hc, -, htok⟩ := course_source tab src
  obtain ⟨us, e', hc', -, htok'⟩ := course_source tab' src'
  have hmatch := sim.course hc h hc'
  rw [htok, htok']
  cases e with
  | none =>
    obtain rfl := hmatch.eq_none
    exact .ok hmatch
  | some e =>
    obtain ⟨f, rfl, halike⟩ := hmatch.eq_some
    exact .error halike

/-! ## Rewritings -/

/-- **A rewriting of what stands between lexemes.** Solid runes are kept, and behind a gap that is
rewritten the same runes come. Positions in front of lexemes are related by `E`, which reading on
keeps; at the end of the source the weaker `Q` is enough. -/
structure Rewriting (tab : TabWidth) (E Q : Position → Position → Prop)
    (f : List Rune → List Rune) : Prop where
  solid : ∀ {r : Rune} {rs : List Rune}, Solid r → f (r :: rs) = r :: f rs
  apart : ∀ {rs : List Rune}, Apart rs → Apart (f rs)
  after : ∀ {p q : Position} {r : Rune}, Solid r → E p q → E (p.after r) (q.after r)
  gap : ∀ {p q : Position} {acrossLines : Bool} {rs gap rest : List Rune} {r : Rune}, E p q →
    splitGap acrossLines false rs = (gap, r :: rest) → Solid r →
    ∃ gap', splitGap acrossLines false (f rs) = (gap', r :: f rest) ∧
      E (p.afterAll gap) (q.afterAll gap') ∧ widthOf tab gap' = widthOf tab gap
  newline : ∀ {p q : Position} {rs gap rest : List Rune} {r : Rune}, E p q →
    splitGap false false rs = (gap, r :: rest) → r.isNewline = true →
    ∃ gap', splitGap false false (f rs) = (gap', r :: f rest) ∧
      E ((p.afterAll gap).after r) ((q.afterAll gap').after r)
  finish : ∀ {p q : Position} {acrossLines : Bool} {rs gap : List Rune}, E p q →
    splitGap acrossLines false rs = (gap, []) →
    ∃ gap', splitGap acrossLines false (f rs) = (gap', []) ∧ Q (p.afterAll gap) (q.afterAll gap')

/-- Two lexers, the input of one of which is rewritten. -/
structure Rewritten (E : Position → Position → Prop) (f : List Rune → List Rune)
    (s s' : Scan) : Prop where
  fresh : s'.fresh = s.fresh
  input : s'.input = f s.input
  pos : E s.pos s'.pos
  levels : s'.levels = s.levels
  depth : s'.depth = s.depth

/-- The solid runes in front of some runes. -/
theorem exists_apart (rs : List Rune) :
    ∃ word behind, rs = word ++ behind ∧ (∀ r ∈ word, Solid r) ∧ Apart behind := by
  induction rs with
  | nil => exact ⟨[], [], rfl, List.forall_mem_nil _, fun r hr => absurd hr (Option.not_mem_none r)⟩
  | cons r rs ih =>
    by_cases hr : Solid r
    · obtain ⟨word, behind, rfl, hword, hbehind⟩ := ih
      exact ⟨r :: word, behind, rfl, List.forall_mem_cons.mpr ⟨hr, hword⟩, hbehind⟩
    · refine ⟨[], r :: rs, rfl, List.forall_mem_nil _, fun a ha => ?_⟩
      rwa [← Option.some.inj ha]

namespace Rewriting

variable {tab : TabWidth} {E : Position → Position → Prop} {f : List Rune → List Rune}

theorem append (h : Rewriting tab E Q f) {word : List Rune} (hword : ∀ r ∈ word, Solid r)
    (rs : List Rune) : f (word ++ rs) = word ++ f rs := by
  induction word with
  | nil => rfl
  | cons r word ih =>
    obtain ⟨hr, hword⟩ := List.forall_mem_cons.mp hword
    rw [List.cons_append, h.solid hr, ih hword, List.cons_append]

theorem afterAll (h : Rewriting tab E Q f) {word : List Rune} (hword : ∀ r ∈ word, Solid r)
    {p q : Position} (hp : E p q) : E (p.afterAll word) (q.afterAll word) := by
  induction word generalizing p q with
  | nil => exact hp
  | cons r word ih =>
    obtain ⟨hr, hword⟩ := List.forall_mem_cons.mp hword
    exact ih hword (h.after hr hp)

variable {s s' : Scan} {r : Rune} {rest : List Rune}

/-- Behind a gap both lexers see the same solid rune. -/
theorem next (h : Rewriting tab E Q f) (hs : Rewritten E f s s') (hr : s.rest = r :: rest)
    (hsolid : Solid r) : s'.rest = r :: f rest ∧ E s.next s'.next ∧
      widthOf tab s'.gap = widthOf tab s.gap := by
  have hsplit : splitGap (s.fresh || decide (0 < s.depth)) false s.input = (s.gap, r :: rest) :=
    Prod.ext rfl hr
  obtain ⟨gap', hsplit', hp, hw⟩ := h.gap hs.pos hsplit hsolid
  rw [← hs.input, ← hs.fresh, ← hs.depth] at hsplit'
  have hgap : s'.gap = gap' := congrArg Prod.fst hsplit'
  have hrest : s'.rest = r :: f rest := congrArg Prod.snd hsplit'
  exact ⟨hrest, by rw [Scan.next, Scan.next, hgap]; exact hp, by rw [hgap]; exact hw⟩

/-- **A rewriting is a simulation.** -/
theorem simulation (h : Rewriting tab E Q f) : Simulation tab tab E Q (Rewritten E f) where
  fresh := Rewritten.fresh
  levels := Rewritten.levels
  finish := by
    intro s s' hs hr
    have hsplit : splitGap (s.fresh || decide (0 < s.depth)) false s.input = (s.gap, []) :=
      Prod.ext rfl hr
    obtain ⟨gap', hsplit', hq⟩ := h.finish hs.pos hsplit
    rw [← hs.input, ← hs.fresh, ← hs.depth] at hsplit'
    have hgap : s'.gap = gap' := congrArg Prod.fst hsplit'
    exact ⟨congrArg Prod.snd hsplit', by rw [Scan.next, Scan.next, hgap]; exact hq⟩
  newline := by
    intro s s' r rest hs hf hr hn
    have hnarrow : (s.fresh || decide (0 < s.depth)) = false := by
      rw [hf, Scan.depth_of_newline hf hr hn]
      rfl
    have hnarrow' : (s'.fresh || decide (0 < s'.depth)) = false := by
      rw [hs.fresh, hs.depth, hnarrow]
    have hsplit : splitGap false false s.input = (s.gap, r :: rest) := by
      rw [← hr, Scan.gap, Scan.rest, hnarrow]
    obtain ⟨gap', hsplit', hp⟩ := h.newline hs.pos hsplit hn
    have hgap : s'.gap = gap' := by rw [Scan.gap, hnarrow', hs.input, hsplit']
    have hrest : s'.rest = r :: f rest := by rw [Scan.rest, hnarrow', hs.input, hsplit']
    refine ⟨f rest, hrest, rfl, rfl, ?_, hs.levels, hs.depth⟩
    rw [Scan.next, Scan.next, hgap]
    exact hp
  line := by
    intro s s' r rest hs hf hr
    have hsolid := Scan.solid_of_fresh hf hr
    obtain ⟨hr', hp, hw⟩ := h.next hs hr hsolid
    exact ⟨hw, hp, f rest, hr', fun levels => ⟨rfl, (h.solid hsolid).symm, hp, rfl, hs.depth⟩⟩
  lexeme := by
    intro s s' r rest hs hf hr hn
    have hsolid : Solid r := solid_behind_gap hr (Or.inr hn)
    obtain ⟨hr', hp, -⟩ := h.next hs hr hsolid
    obtain ⟨word, behind, rfl, hword, hbehind⟩ := exists_apart rest
    rw [h.append hword] at hr'
    refine ⟨hp, word, behind, f behind, rfl, hr', hbehind, h.apart hbehind, ?_⟩
    intro t lexeme left hread
    -- what is read and what is left of the word are solid runes
    have hall : ∀ a ∈ lexeme ++ left, Solid a := by
      rw [(readLexeme_spec hread).1]
      exact List.forall_mem_cons.mpr ⟨hsolid, hword⟩
    obtain ⟨hlexeme, hleft⟩ := List.forall_mem_append.mp hall
    exact ⟨rfl, (h.append hleft behind).symm, h.afterAll hlexeme hp, hs.levels, by rw [hs.depth]⟩

/-- **The tokens of a source and those of the rewritten source** are the same up to positions. -/
theorem tokenize (h : Rewriting tab E Q f) {src src' : Text}
    (hsrc : Rune.decode src' = f (Rune.decode src)) (hstart : E .start .start) :
    Outcomes E Q (tokenize tab src) (tokenize tab src') :=
  h.simulation.tokenize ⟨rfl, hsrc, hstart, rfl, rfl⟩

end Rewriting

end Lexer

end Offside
