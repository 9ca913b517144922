import Offside.Proofs.Render.Legible

/-!
# Reading lines

`tokenize` on a source that is made of lines of legible tokens, each some blanks from the margin.

The lexer reads lines of legible tokens as they are written. What it finds is told by `layout`: the
markers that the distance of a line from the margin calls for, then the tokens of the line, and in
the end the markers that close what is open. Of the position of a token only its line is told.

The invariant of the run is `Stands`. It fixes all of a lexer but its tab width, which does not
matter as there are no tabs, and the places of what it has found within their lines.

* `openLevels` are the levels that are open on a line, one for each blank in front of it: the lines
  of a program are one blank further in than the header of their block.
* `Line.Sound` is a line that can be read, and `Nested` lines that can be read one after the other:
  none is more than one blank further in than the line before it.

Results:
* `Stands.token`, `Stands.row`: a token and the tokens of a line are read.
* `Stands.indentation`: the indentation of a line is read.
* `Stands.lines`: lines are read one after the other, and the end of the source behind the last. The
  induction is on the lines.
* `tokenize_lines`: the tokens of a source that is made of such lines.
-/

namespace Offside

open Lexer

/-! ## Tokens and their lines -/

/-- The position that stands for a line. -/
def Position.ofLine (line : Int) : Position :=
  ⟨0, line, 0⟩

namespace Token

/-- The token with only the line of its position. -/
def rowed (t : Token) : Token :=
  { t with pos := .ofLine t.pos.line }

/-- The token as it is found on a line. -/
def onLine (line : Int) (t : Token) : Token :=
  t.foundAt (.ofLine line)

/-- A marker on a line. -/
def marker (kind : Kind) (line : Int) : Token :=
  .plain kind [] (.ofLine line)

theorem rowed_foundAt (t : Token) (pos : Position) :
    (t.foundAt pos).rowed = t.onLine pos.line := rfl

theorem rowed_plain (kind : Kind) (pos : Position) :
    (Token.plain kind [] pos).rowed = marker kind pos.line := rfl

end Token

theorem Position.afterAll_line (p : Position) {rs : List Rune}
    (h : ∀ r ∈ rs, r.isNewline = false) : (p.afterAll rs).line = p.line := by
  induction rs generalizing p with
  | nil => rfl
  | cons r rs ih =>
    rw [List.forall_mem_cons] at h
    rw [Position.afterAll_cons, ih _ h.2, Position.after, if_neg (by simp [h.1])]

namespace Lexer

/-! ## Where a lexer stands -/

/-- Where a lexer stands: what it is about to do with which text, on which line, with which levels
and how many parentheses open, and what it has found. -/
structure Stands (l : Lexer) (mode : Mode) (src : Text) (line : Int) (levels : List Int64)
    (depth : Nat) (found : List Token) : Prop where
  mode : l.mode = mode
  input : l.input = Rune.decode src
  line : l.pos.line = line
  levels : l.levels = levels
  depth : l.depth = depth
  found : l.pending.map Token.rowed = found

theorem decode_blank (t : Text) : Rune.decode (Text.blank :: t) = .char ' ' :: Rune.decode t :=
  Rune.decode_char_append ' ' t

theorem decode_newline (t : Text) : Rune.decode (Text.newline :: t) = .char '\n' :: Rune.decode t :=
  Rune.decode_char_append '\n' t

theorem decode_blanks (n : Nat) (t : Text) :
    Rune.decode (List.replicate n Text.blank ++ t) =
      List.replicate n (.char ' ') ++ Rune.decode t := by
  induction n with
  | zero => rfl
  | succ n ih => rw [List.replicate_succ, List.cons_append, decode_blank, ih, List.replicate_succ,
      List.cons_append]

/-- Blanks in front of a lexeme are a gap. -/
theorem splitGap_blanks (acrossLines : Bool) (n : Nat) {r : Rune} (hr : Solid r) (rs : List Rune) :
    splitGap acrossLines false (List.replicate n (.char ' ') ++ r :: rs) =
      (List.replicate n (.char ' '), r :: rs) := by
  induction n with
  | zero => exact splitGap_solid hr acrossLines rs
  | succ n ih =>
    rw [List.replicate_succ, List.cons_append, splitGap, ih]
    rfl

section Run

variable {l : Lexer} {src rest : Text} {line : Int} {levels : List Int64} {depth : Nat}
  {found : List Token}

/-- **A legible token is read.** -/
theorem Stands.token {t : Token} {n : Nat} (ht : Legible t) (hb : Bounds rest)
    (h : Stands l .between (List.replicate n Text.blank ++ (t.value ++ rest))
      line levels depth found) :
    ∃ l' : Lexer, l'.stop = l.stop ∧
      Stands l' .between rest line levels (depthAfter depth t.kind) (found ++ [t.onLine line]) := by
  obtain ⟨first, more, hs⟩ := ht
  have hin : l.input = List.replicate n (.char ' ') ++
      .char first :: (more.map .char ++ Rune.decode rest) := by
    rw [h.input, decode_blanks, hs.value, Rune.decode_ofChars_append]
    rfl
  have hsolid : Solid (.char first) := hs.solid first List.mem_cons_self
  generalize hl : l.step = l'
  have hstart : l' = { l with
      input := more.map .char ++ Rune.decode rest
      pos := (l.pos.afterAll (List.replicate n (.char ' '))).after (.char first)
      mode := .lexeme (classOf (.char first)) (.char first)
        (l.pos.afterAll (List.replicate n (.char ' '))) } := by
    rw [← hl, Lexer.step, h.mode]
    simp only [startLexeme, hin, splitGap_blanks _ n hsolid, hsolid.1]
    rfl
  have hread := hs.step (l := l') hb (by rw [hstart]) (by rw [hstart]) (by rw [hstart])
  refine ⟨l'.step, ?_, ?_⟩
  · rw [← stop_of_active (l := l') (by rw [hstart]; rfl), ← hl,
      ← stop_of_active (by rw [h.mode]; rfl)]
  · -- neither the blanks nor the token lead to another line
    have hline : (l.pos.afterAll (List.replicate n (.char ' '))).line = line := by
      rw [Position.afterAll_line _ fun r hr => by rw [List.eq_of_mem_replicate hr]; rfl, h.line]
    have hline' : ((l.pos.afterAll (List.replicate n (.char ' '))).afterAll
        ((first :: more).map .char)).line = line := by
      rw [Position.afterAll_line _ fun r hr => ?_, hline]
      obtain ⟨c, hc, rfl⟩ := List.mem_map.mp hr
      exact (hs.solid c hc).1
    rw [hread, hstart]
    refine ⟨rfl, rfl, hline', h.levels, by rw [← h.depth], ?_⟩
    simp only [List.map_append, h.found, List.map_cons, List.map_nil, Token.rowed_foundAt, hline]

/-- Two tokens may be neighbours on a line: `else` is written together with a colon. -/
def Together (t u : Token) : Prop :=
  t.kind = .elseWord → u.value = Kind.colon.spelling

theorem spaced_cons (t : Token) (ts : List Token) :
    ∃ x, Line.spaced (t :: ts) = t.value ++ x := by
  cases ts with
  | nil => exact ⟨[], (List.append_nil _).symm⟩
  | cons u ts => exact ⟨_, rfl⟩

theorem gap_eq (t : Token) : ∃ n, t.gap = List.replicate n Text.blank := by
  unfold Token.gap
  split
  · exact ⟨0, rfl⟩
  · exact ⟨1, rfl⟩

/-- What stands behind a token ends it. -/
theorem bounds_gap {t u : Token} (h : Together t u) (ts : List Token) (x : Text) :
    Bounds (t.gap ++ (Line.spaced (u :: ts) ++ x)) := by
  unfold Token.gap
  split
  · next hk =>
    obtain ⟨y, hy⟩ := spaced_cons u ts
    refine ⟨':', by decide, y ++ x, ?_⟩
    rw [List.nil_append, hy, h hk, List.append_assoc]
    rfl
  · exact ⟨' ', by decide, _, rfl⟩

/-- **The tokens of a line are read** up to the end of the line. -/
theorem Stands.row : ∀ {ts : List Token} {l : Lexer} {n depth : Nat} {found : List Token},
    ts ≠ [] → (∀ t ∈ ts, Legible t) → ts.IsChain Together →
    Stands l .between (List.replicate n Text.blank ++ (Line.spaced ts ++ Text.newline :: rest)) line
      levels depth found →
    ∃ l' : Lexer, l'.stop = l.stop ∧ Stands l' .between (Text.newline :: rest) line levels
      (depthOver depth ts) (found ++ ts.map (Token.onLine line))
  | [], _, _, _, _, hne, _, _, _ => absurd rfl hne
  | [t], _, _, _, _, _, ht, _, h =>
    h.token (ht t List.mem_cons_self) ⟨'\n', by decide, rest, rfl⟩
  | t :: u :: ts, l, n, depth, found, _, ht, hc, h => by
    rw [List.forall_mem_cons] at ht
    rw [List.isChain_cons_cons] at hc
    rw [Line.spaced, List.append_assoc, List.append_assoc] at h
    obtain ⟨l₁, hs₁, h₁⟩ := h.token ht.1 (bounds_gap hc.1 ts _)
    obtain ⟨m, hm⟩ := gap_eq t
    rw [hm] at h₁
    obtain ⟨l₂, hs₂, h₂⟩ := h₁.row (by simp) ht.2 hc.2
    refine ⟨l₂, hs₂.trans hs₁, ?_⟩
    rwa [List.append_assoc] at h₂

/-- The end of a line is read. -/
theorem Stands.newline (h : Stands l .between (Text.newline :: rest) line levels 0 found) :
    ∃ l' : Lexer, l'.stop = l.stop ∧ Stands l' .lineStart rest (line + 1) levels 0 found := by
  refine ⟨l.step, (stop_of_active (by rw [h.mode]; rfl)).symm, ?_⟩
  have hstep : l.step =
      { l with
        input := Rune.decode rest
        pos := l.pos.after (.char '\n')
        mode := .lineStart } := by
    rw [Lexer.step, h.mode]
    simp only [startLexeme, h.input, decode_newline, h.depth]
    rfl
  rw [hstep]
  exact ⟨rfl, rfl, by rw [← h.line]; rfl, h.levels, h.depth, h.found⟩

end Run

/-! ## The start of a line -/

/-- The levels that are open on a line, one for each blank in front of it. -/
def openLevels : Nat → List Int64
  | 0 => []
  | n + 1 => Int64.ofNat (n + 1) :: openLevels n

theorem length_openLevels (n : Nat) : (openLevels n).length = n := by
  induction n with
  | zero => rfl
  | succ n ih => rw [openLevels, List.length_cons, ih]

theorem headD_openLevels (n : Nat) : (openLevels n).headD 0 = Int64.ofNat n := by
  cases n <;> rfl

theorem widthOf_blanks (tab : TabWidth) (n : Nat) :
    widthOf tab (List.replicate n (.char ' ')) = Int64.ofNat n := by
  induction n with
  | zero => rfl
  | succ n ih =>
    rw [widthOf, List.replicate_succ', List.foldl_append, ← widthOf, ih, Int64.ofNat_add]
    rfl

theorem kept_openLevels {d n : Nat} (hd : d ≤ n) (hn : n ≤ Word.greatest) :
    kept (openLevels n) (Int64.ofNat d) = openLevels d := by
  unfold Word.greatest at hn
  induction n with
  | zero =>
    obtain rfl := Nat.le_zero.mp hd
    rfl
  | succ n ih =>
    have hiff : Int64.ofNat d < Int64.ofNat (n + 1) ↔ d < n + 1 :=
      Int64.ofNat_lt_iff_lt (by omega) (by omega)
    by_cases h : d < n + 1
    · rw [kept, openLevels, List.dropWhile_cons_of_pos (by simpa using hiff.mpr h)]
      exact ih (by omega) (by omega)
    · obtain rfl : d = n + 1 := by omega
      rw [kept, openLevels, List.dropWhile_cons_of_neg (by simp)]

/-- The markers in front of a line, by the distances of the line before and its own. -/
def markers (before depth : Nat) (pos : Position) : List Token :=
  if before < depth then [.plain .indent [] pos]
  else List.replicate (before - depth) (.plain .dedent [] pos)

theorem map_rowed_markers (before depth : Nat) (pos : Position) :
    (markers before depth pos).map Token.rowed = markers before depth (.ofLine pos.line) := by
  unfold markers
  split
  · rfl
  · rw [List.map_replicate]
    rfl

/-- One level more is opened, or levels are closed. -/
theorem settle_openLevels {l : Lexer} {before depth : Nat} (hb : before ≤ Word.greatest)
    (hd : depth ≤ Word.greatest) (hle : depth ≤ before + 1) (hl : l.levels = openLevels before)
    (r : Rune) : l.settle (Int64.ofNat depth) r =
      { l with
        pending := l.pending ++ markers before depth l.pos
        levels := openLevels depth
        mode := .between } := by
  have htop : l.levels.headD 0 = Int64.ofNat before := by rw [hl, headD_openLevels]
  have hlt : ∀ {m n : Nat}, m ≤ Word.greatest → n ≤ Word.greatest →
      (Int64.ofNat m < Int64.ofNat n ↔ m < n) := by
    intro m n hm hn
    unfold Word.greatest at hm hn
    exact Int64.ofNat_lt_iff_lt (by omega) (by omega)
  rcases Nat.lt_trichotomy before depth with hc | rfl | hc
  · obtain rfl : depth = before + 1 := by omega
    rw [settle_deeper r (by rw [htop]; exact (hlt hb hd).mpr hc), markers, if_pos hc, hl]
    rfl
  · rw [settle_same r htop.symm, markers, if_neg (Nat.lt_irrefl _), Nat.sub_self,
      List.replicate_zero, List.append_nil, ← hl]
  · have hkept : kept l.levels (Int64.ofNat depth) = openLevels depth := by
      rw [hl, kept_openLevels hc.le hb]
    have hne : Int64.ofNat depth ≠ Int64.ofNat before := by
      intro he
      have hgt := (hlt hd hb).mpr hc
      rw [he] at hgt
      exact Int64.lt_irrefl hgt
    rw [settle_shallower r (by rw [htop, hlt hb hd]; omega) (by rw [htop]; exact hne)
      (by rw [hkept, headD_openLevels]), hkept, markers, if_neg (Nat.lt_asymm hc), hl,
      length_openLevels, length_openLevels]

/-- **The indentation of a line is read.** -/
theorem Stands.indentation {l : Lexer} {src : Text} {line : Int} {found : List Token}
    {before depth : Nat} {r : Rune} {rs : List Rune}
    (hb : before ≤ Word.greatest) (hd : depth ≤ Word.greatest) (hle : depth ≤ before + 1)
    (hr : Solid r) (hsrc : Rune.decode src = r :: rs)
    (h : Stands l .lineStart (List.replicate depth Text.blank ++ src) line (openLevels before) 0
      found) :
    ∃ l' : Lexer, l'.stop = l.stop ∧ Stands l' .between src line (openLevels depth) 0
      (found ++ markers before depth (.ofLine line)) := by
  refine ⟨l.step, (stop_of_active (by rw [h.mode]; rfl)).symm, ?_⟩
  have hin : l.input = List.replicate depth (.char ' ') ++ r :: rs := by
    rw [h.input, decode_blanks, hsrc]
  generalize hl : ({ l with
    input := r :: rs, pos := l.pos.afterAll (List.replicate depth (.char ' ')) } : Lexer) = l'
  have hstep : l.step = l'.settle (Int64.ofNat depth) r := by
    rw [Lexer.step, h.mode]
    simp only [startLine, hin, splitGap_blanks true depth hr, widthOf_blanks, hl]
  have hline : l'.pos.line = line := by
    rw [← hl, ← h.line]
    exact Position.afterAll_line _ fun r hr => by rw [List.eq_of_mem_replicate hr]; rfl
  rw [hstep, settle_openLevels hb hd hle (by rw [← hl]; exact h.levels)]
  refine ⟨rfl, by rw [← hl, hsrc], hline, rfl, by rw [← hl]; exact h.depth, ?_⟩
  rw [List.map_append, map_rowed_markers, hline, ← hl, h.found]

end Lexer

/-! ## Lines -/

/-- What the lexer finds in some lines, by the distance of the line in front of them and the number
of the first. -/
def layout (before : Nat) (line : Int) : List Line → List Token
  | [] => List.replicate before (.marker .dedent line) ++ [.marker .eof line]
  | r :: rs =>
    markers before r.depth (.ofLine line) ++
      (r.tokens.map (Token.onLine line) ++ layout r.depth (line + 1) rs)

/-- A line that can be read. -/
structure Line.Sound (r : Line) : Prop where
  filled : r.tokens ≠ []
  legible : ∀ t ∈ r.tokens, Legible t
  together : r.tokens.IsChain Together
  balanced : depthOver 0 r.tokens = 0

/-- Lines that can be read one after the other. -/
def Nested (before : Nat) : List Line → Prop
  | [] => True
  | r :: rs => r.Sound ∧ r.depth ≤ before + 1 ∧ Nested r.depth rs

theorem Line.Sound.first {r : Line} (h : r.Sound) (x : Text) :
    ∃ a as, Rune.decode (Line.spaced r.tokens ++ x) = a :: as ∧ Solid a := by
  obtain ⟨t, ts, hts⟩ := List.exists_cons_of_ne_nil h.filled
  obtain ⟨first, more, hs⟩ := h.legible t (by rw [hts]; exact List.mem_cons_self)
  obtain ⟨y, hy⟩ := Lexer.spaced_cons t ts
  refine ⟨.char first, more.map .char ++ Rune.decode (y ++ x), ?_,
    hs.solid first List.mem_cons_self⟩
  rw [hts, hy, hs.value, List.append_assoc, Rune.decode_ofChars_append]
  rfl

/-- One line is read. -/
theorem Lexer.Stands.line_text {l : Lexer} {rest : Text} {line : Int} {before : Nat}
    {found : List Token} {r : Line} (hr : r.Sound) (hb : before ≤ Word.greatest)
    (hle : r.depth ≤ before + 1) (hd : r.depth ≤ Word.greatest)
    (h : Stands l .lineStart (r.text ++ rest) line (openLevels before) 0 found) :
    ∃ l' : Lexer, l'.stop = l.stop ∧ Stands l' .lineStart rest (line + 1) (openLevels r.depth) 0
      (found ++ (markers before r.depth (.ofLine line) ++ r.tokens.map (Token.onLine line))) := by
  rw [Line.text, List.append_assoc, List.append_assoc] at h
  obtain ⟨a, as, ha, hsolid⟩ := hr.first ([Text.newline] ++ rest)
  obtain ⟨l₁, hs₁, h₁⟩ := h.indentation hb hd hle hsolid ha
  obtain ⟨l₂, hs₂, h₂⟩ := Stands.row (n := 0) hr.filled hr.legible hr.together h₁
  rw [hr.balanced] at h₂
  obtain ⟨l₃, hs₃, h₃⟩ := h₂.newline
  refine ⟨l₃, hs₃.trans (hs₂.trans hs₁), ?_⟩
  rwa [List.append_assoc] at h₃

/-- **Lines are read one after the other**, and the end of the source behind the last. -/
theorem Lexer.Stands.lines : ∀ {rs : List Line} {l : Lexer} {line : Int} {before : Nat}
    {found : List Token}, Nested before rs → before ≤ Word.greatest →
    (∀ r ∈ rs, r.depth ≤ Word.greatest) →
    Stands l .lineStart (rs.flatMap Line.text) line (openLevels before) 0 found →
    l.stop.mode = .done ∧ l.stop.pending.map Token.rowed = found ++ layout before line rs
  | [], l, line, before, found, _, _, _, h => by
    have hin : l.input = [] := by rw [h.input, List.flatMap_nil, Rune.decode]
    have h₁ : l.step = { l with mode := .finish } := by
      rw [Lexer.step, h.mode]
      simp only [startLine, hin, splitGap]
      rfl
    have h₂ : l.step.step = { l with mode := .finish }.close := by rw [h₁]; rfl
    rw [stop_of_active (by rw [h.mode]; rfl), stop_of_active (by rw [h₁]; rfl), h₂,
      stop_of_inactive rfl]
    refine ⟨rfl, ?_⟩
    simp only [close, layout, List.map_append, h.found, List.map_replicate, h.levels,
      length_openLevels, List.append_assoc, List.map_cons, List.map_nil, Token.eofAt,
      Token.rowed_plain, h.line]
  | r :: rs, l, line, before, found, ⟨hr, hle, hrs⟩, hb, hd, h => by
    rw [List.flatMap_cons] at h
    rw [List.forall_mem_cons] at hd
    obtain ⟨l', hs, h'⟩ := h.line_text hr hb hle hd.1
    have hrest := h'.lines hrs hd.1 hd.2
    rw [hs, List.append_assoc, List.append_assoc] at hrest
    exact hrest

/-- **The tokens of a source that is made of lines.** -/
theorem tokenize_lines (tab : TabWidth) {rs : List Line} (h : Nested 0 rs)
    (hd : ∀ r ∈ rs, r.depth ≤ Word.greatest) :
    ∃ ts, tokenize tab (rs.flatMap Line.text) = .ok ts ∧ ts.map Token.rowed = layout 0 1 rs := by
  have hs : Stands (ofSource tab (rs.flatMap Line.text)) .lineStart (rs.flatMap Line.text) 1
      (openLevels 0) 0 [] := ⟨rfl, rfl, rfl, rfl, rfl, rfl⟩
  obtain ⟨hm, hp⟩ := hs.lines h (Nat.zero_le _) hd
  exact ⟨_, tokenize_eq_ok.mpr ⟨hm, rfl⟩, hp⟩

end Offside
