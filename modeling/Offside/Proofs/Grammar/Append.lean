import Offside.Proofs.Fault.Earliest
import Offside.Proofs.Grammar.Likeness
import Offside.Proofs.Lexer.Levels

/-!
# Programs one behind the other

What `parseTokens` makes of two streams one behind the other. Two sources are read one behind the
other when a file grows, and when a session adds a line to what it has.

The items of a program can be put behind those of another. At its end the first program met the end
of the stream, where the grammar asks for little: a suite may end, a conditional may have no `else`,
and an indented suite may go without a dedent marker. In front of another program the same is
granted only if no indented suite was left open and the other program stands further down.

* `Counted` compares a cursor with itself, together with the parentheses that are open; with it the
  lemmas on streams that are read alike say that a reading leaves as many parentheses open as it
  finds.
* `Below` are tokens that begin below a line and not with `else`, and `Finished` tokens that end on
  a line or above it and close as many levels as they open.
* `Items.append` puts items behind others, and `Position.Shift` is the relation of positions some
  lines apart.

Results:
* `depthOver_of_parseTokens`: a program closes the parentheses that it opens.
* `Items.dedents_le`: items close no more levels than they open, by induction on the derivation.
* `Suite.Fits.below`, `Items.Fits.below`: what fits at the end of the stream and is finished fits in
  front of tokens below it.
* `Items.Fits.append`: items that are finished fit in front of others that stand further down.
* `parseTokens_append`: the program of two streams one behind the other.
* `parseTokens_shift`: a program that stands further down is the same.
-/

namespace Offside

open Grammar Lexer

/-! ## Parentheses -/

/-- A cursor that is compared with itself, at a number of open parentheses from which what is ahead
leads to `final` ones. -/
def Counted (final depth : Nat) (c c' : Cursor) : Prop :=
  c' = c ∧ depthOver depth c.ahead = final ∧ ∀ t ∈ c.ahead, t.kind ≠ .eof

theorem likeness_counted (final : Nat) : Likeness id (Counted final) where
  cur h := congrArg (fun c => c.cur.relocate id) h.1
  advance := by
    rintro depth ⟨last, ahead⟩ c' ⟨rfl, hdepth, hne⟩
    cases ahead with
    | nil => exact ⟨rfl, hdepth, hne⟩
    | cons t ts => exact ⟨rfl, hdepth, fun u hu => hne u (List.mem_cons_of_mem t hu)⟩
  line := by
    rintro c c' ⟨rfl, -⟩
    exact Iff.rfl

/-- **A program closes the parentheses that it opens**, since every reading leaves as many open as
it finds. -/
theorem depthOver_of_parseTokens {ts : List Token} {program : Program}
    (hts : ∀ t ∈ ts, t.kind ≠ .eof) (h : parseTokens ts = .ok program) : depthOver 0 ts = 0 := by
  obtain ⟨c, hc⟩ := parseTokens_eq_ok.mp h
  obtain ⟨t, -, -, hfit⟩ := Cursor.sequence_sound _ .program hc
  have hend := t.rest_of_fits_program hfit
  obtain ⟨hlt, hreads⟩ := hc
  have hpaired := Cursor.sequence_paired (likeness_counted (depthOver 0 ts)) (.ofTokens ts) .program
    ⟨rfl, rfl, hts⟩
  rw [hreads] at hpaired
  cases hpaired with
  | ok _ rest =>
    obtain ⟨-, hdepth, hne⟩ := rest
    have hahead : c.ahead = [] := (streamOf_eq_self hne).symm.trans hend
    rw [← hdepth, hahead]
    rfl

/-! ## Levels -/

namespace Grammar

/-- No marker is in the header of a suite. -/
theorem kindCount_header {k : Kind} (word : Terminal k) (cond : Chain .comparison)
    (colon : Terminal .colon) (hk : k.isMarker = false) {kind : Kind} (h : kind.isMarker = true)
    (ts : List Token) :
    kindCount kind (word.token :: (cond.tokens ++ colon.token :: ts)) = kindCount kind ts := by
  rw [header_append, kindCount_append, kindCount_plain (header_plain word cond colon hk) h,
    Nat.zero_add]

/-- No marker is between the suites of a conditional. -/
theorem kindCount_else (body alt : Suite) (other : Terminal .elseWord) (colon : Terminal .colon)
    {kind : Kind} (h : kind.isMarker = true) :
    kindCount kind (body.tokens ++ other.token :: colon.token :: alt.tokens) =
      kindCount kind body.tokens + kindCount kind alt.tokens := by
  have hplain : ∀ t ∈ [other.token, colon.token], t.kind.isMarker = false :=
    List.forall_mem_cons.mpr ⟨other.plain rfl, List.forall_mem_singleton.mpr (colon.plain rfl)⟩
  have htwo := kindCount_append kind [other.token, colon.token] alt.tokens
  rw [kindCount_plain hplain h, Nat.zero_add] at htwo
  rw [kindCount_append, ← htwo]
  rfl

theorem kindCount_colon (colon : Terminal .colon) {kind : Kind} (h : kind.isMarker = true)
    (ts : List Token) : kindCount kind (colon.token :: ts) = kindCount kind ts := by
  rw [kindCount_cons, if_neg, Nat.add_zero]
  rintro rfl
  rw [colon.plain rfl] at h
  cases h

mutual

/-- **A statement closes no more levels than it opens.** -/
theorem Statement.dedents_le : ∀ t : Statement,
    kindCount .dedent t.tokens ≤ kindCount .indent t.tokens
  | .assign target sign value => by
    rw [kindCount_plain (Cursor.plain_of_name (t := .assign target sign value) target.kind_eq) rfl]
    exact Nat.zero_le _
  | .call name opening args closing => by
    rw [kindCount_plain (Cursor.plain_of_name (t := .call name opening args closing)
      name.kind_eq) rfl]
    exact Nat.zero_le _
  | .ifThen word cond colon body => by
    rw [Statement.tokens, kindCount_header word cond colon rfl rfl,
      kindCount_header word cond colon rfl rfl]
    exact body.dedents_le
  | .ifElse word cond colon body other colon' alt => by
    rw [Statement.tokens, kindCount_header word cond colon rfl rfl,
      kindCount_header word cond colon rfl rfl,
      kindCount_else _ _ _ _ rfl, kindCount_else _ _ _ _ rfl]
    exact Nat.add_le_add body.dedents_le alt.dedents_le
  | .loop word cond colon body => by
    rw [Statement.tokens, kindCount_header word cond colon rfl rfl,
      kindCount_header word cond colon rfl rfl]
    exact body.dedents_le

theorem Suite.dedents_le : ∀ t : Suite, kindCount .dedent t.tokens ≤ kindCount .indent t.tokens
  | .inline items => items.dedents_le
  | .indented indent items dedent => by
    have hitems := items.dedents_le
    have hclosing : kindCount .dedent (closing dedent) ≤ 1 := by
      cases dedent with
      | none => exact Nat.zero_le _
      | some d => exact List.countP_le_length
    rw [Suite.tokens, kindCount_cons, kindCount_cons, if_neg (by simp [indent.kind_eq]),
      if_pos indent.kind_eq, kindCount_append, kindCount_append]
    omega

/-- **Items close no more levels than they open.** -/
theorem Items.dedents_le : ∀ t : Items, kindCount .dedent t.tokens ≤ kindCount .indent t.tokens
  | .nil => Nat.le_refl 0
  | .colon token more => by
    rw [Items.tokens, kindCount_colon token rfl, kindCount_colon token rfl]
    exact more.dedents_le
  | .stmt s more => by
    rw [Items.tokens, kindCount_append, kindCount_append]
    exact Nat.add_le_add s.dedents_le more.dedents_le

end

end Grammar

/-! ## In front of another program -/

/-- Tokens that begin below a line, and not with `else`. -/
structure Below (line : Int) (ts : List Token) : Prop where
  ne_else : nextKind ts ≠ .elseWord
  line_lt : ∀ t ∈ ts.head?, line < t.pos.line

/-- An inline suite ends in front of tokens that begin below it. -/
theorem Below.ends {bottom line : Int} {ts : List Token} (h : Below bottom ts)
    (hline : line ≤ bottom) : Extent.inline.Ends line ts := by
  cases ts with
  | nil => trivial
  | cons t ts =>
    have hlt := h.line_lt t rfl
    exact Or.inr (by omega)

/-- Tokens that end on a line or above it, and close as many levels as they open. -/
structure Finished (bottom : Int) (ts : List Token) : Prop where
  line_le : ∀ t ∈ ts, t.pos.line ≤ bottom
  closes : kindCount .indent ts ≤ kindCount .dedent ts

theorem Finished.lineAfter_le {bottom line : Int} {ts : List Token} (h : Finished bottom ts)
    (hline : line ≤ bottom) : lineAfter line ts ≤ bottom := by
  cases hlast : ts.getLast? with
  | none =>
    rw [List.getLast?_eq_none_iff.mp hlast]
    exact hline
  | some t =>
    rw [lineAfter_getLast hlast]
    exact h.line_le t (List.mem_of_getLast? hlast)

namespace Grammar

/-- In front of items the same token comes next, whatever is behind them. -/
theorem Items.shortens {t : Items} (h : t ≠ .nil) (rest rest' : List Token) :
    Shortens (t.tokens ++ rest) (t.tokens ++ rest') := by
  cases t with
  | nil => exact absurd rfl h
  | colon token more => exact .same token.token _ _
  | stmt s more =>
    obtain ⟨ts, hts⟩ := s.tokens_eq
    rw [Items.tokens, hts]
    exact .same s.first _ _

section Below

variable {bottom : Int} {behind : List Token}

/-- What is behind a header is finished if all is. -/
theorem finished_header {k : Kind} {word : Terminal k} {cond : Chain .comparison}
    {colon : Terminal .colon} {ts : List Token} (hk : k.isMarker = false)
    (h : Finished bottom (word.token :: (cond.tokens ++ colon.token :: ts))) :
    colon.token.pos.line ≤ bottom ∧ Finished bottom ts := by
  have hcloses := h.closes
  rw [kindCount_header word cond colon hk rfl, kindCount_header word cond colon hk rfl] at hcloses
  have hlines := h.line_le
  rw [header_append] at hlines
  obtain ⟨hhead, hbody⟩ := List.forall_mem_append.mp hlines
  exact ⟨hhead _ (by simp [header]), hbody, hcloses⟩

/-- The second suite of a conditional is finished if both are. -/
theorem finished_else {body alt : Suite} {other : Terminal .elseWord} {colon : Terminal .colon}
    (h : Finished bottom (body.tokens ++ other.token :: colon.token :: alt.tokens)) :
    colon.token.pos.line ≤ bottom ∧ Finished bottom alt.tokens := by
  have hcloses := h.closes
  rw [kindCount_else _ _ _ _ rfl, kindCount_else _ _ _ _ rfl] at hcloses
  have hle := body.dedents_le
  obtain ⟨-, helse⟩ := List.forall_mem_append.mp h.line_le
  obtain ⟨-, hcolon⟩ := List.forall_mem_cons.mp helse
  obtain ⟨hline, halt⟩ := List.forall_mem_cons.mp hcolon
  exact ⟨hline, halt, by omega⟩

theorem finished_colon {token : Terminal .colon} {more : Items}
    (h : Finished bottom (Items.colon token more).tokens) :
    token.token.pos.line ≤ bottom ∧ Finished bottom more.tokens := by
  have hcloses := h.closes
  rw [Items.tokens, kindCount_colon token rfl, kindCount_colon token rfl] at hcloses
  obtain ⟨hline, hmore⟩ := List.forall_mem_cons.mp h.line_le
  exact ⟨hline, hmore, hcloses⟩

/-- A statement and the items behind it are finished if both together are, as neither closes more
levels than it opens. -/
theorem finished_stmt {s : Statement} {more : Items}
    (h : Finished bottom (Items.stmt s more).tokens) :
    Finished bottom s.tokens ∧ Finished bottom more.tokens := by
  have hcloses := h.closes
  rw [Items.tokens, kindCount_append, kindCount_append] at hcloses
  have hle := s.dedents_le
  have hle' := more.dedents_le
  obtain ⟨hs, hmore⟩ := List.forall_mem_append.mp h.line_le
  exact ⟨⟨hs, by omega⟩, hmore, by omega⟩

mutual

theorem Statement.Fits.below (hb : Below bottom behind) : ∀ (t : Statement), t.Fits [] →
    Finished bottom t.tokens → t.Fits behind
  | .assign _ _ _, _, _ => trivial
  | .call _ _ _ _, _, _ => trivial
  | .ifThen _ _ _ body, h, hend => by
    obtain ⟨hline, hbody⟩ := finished_header rfl hend
    exact ⟨Suite.Fits.below hb body h.1 hline hbody, hb.ne_else⟩
  | .ifElse _ _ _ body _ _ alt, h, hend => by
    obtain ⟨-, hbodies⟩ := finished_header rfl hend
    obtain ⟨hline, halt⟩ := finished_else hbodies
    exact ⟨Suite.Fits.shorten body h.1 (.same _ _ _), Suite.Fits.below hb alt h.2 hline halt⟩
  | .loop _ _ _ body, h, hend => by
    obtain ⟨hline, hbody⟩ := finished_header rfl hend
    exact Suite.Fits.below hb body h hline hbody

/-- **A suite that is finished at the end of the stream fits in front of tokens below it.** -/
theorem Suite.Fits.below (hb : Below bottom behind) : ∀ (t : Suite) {line : Int}, t.Fits line [] →
    line ≤ bottom → Finished bottom t.tokens → t.Fits line behind
  | .inline items, _, h, hline, hend => Items.Fits.below hb items h hline hend
  | .indented indent items none, _, _, _, hend => by
    -- the level of the suite itself would not be closed
    have hcloses := hend.closes
    have hle := items.dedents_le
    rw [Suite.tokens, closing, List.append_nil, kindCount_cons, kindCount_cons,
      if_pos indent.kind_eq, if_neg (by simp [indent.kind_eq])] at hcloses
    omega
  | .indented _ items (some _), _, h, _, _ =>
    ⟨Items.Fits.shorten items h.1 (.same _ _ _), nofun⟩

theorem Items.Fits.below (hb : Below bottom behind) : ∀ (t : Items) {line : Int},
    t.Fits .inline line [] → line ≤ bottom → Finished bottom t.tokens → t.Fits .inline line behind
  | .nil, _, _, hline, _ => hb.ends hline
  | .colon _ more, _, h, _, hend => by
    obtain ⟨hline, hmore⟩ := finished_colon hend
    exact ⟨h.1, Items.Fits.below hb more h.2 hline hmore⟩
  | .stmt s more, _, h, hline, hend => by
    obtain ⟨hs, hmore⟩ := finished_stmt hend
    refine ⟨h.1, ?_, Items.Fits.below hb more h.2.2 (hs.lineAfter_le hline) hmore⟩
    by_cases hnil : more = .nil
    · subst hnil
      exact Statement.Fits.below hb s h.2.1 hs
    · exact Statement.Fits.shorten s h.2.1 (Items.shortens hnil _ _)

end

end Below

/-! ## Items one behind the other -/

/-- The items, with others behind them. -/
def Items.append : Items → Items → Items
  | .nil, u => u
  | .colon token more, u => .colon token (more.append u)
  | .stmt s more, u => .stmt s (more.append u)

theorem Items.append_tokens : ∀ t u : Items, (t.append u).tokens = t.tokens ++ u.tokens
  | .nil, _ => rfl
  | .colon token more, u => congrArg (token.token :: ·) (more.append_tokens u)
  | .stmt s more, u => by
    rw [Items.append, Items.tokens, more.append_tokens u, Items.tokens, List.append_assoc]

theorem Items.append_stmts : ∀ t u : Items, (t.append u).stmts = t.stmts ++ u.stmts
  | .nil, _ => rfl
  | .colon _ more, u => more.append_stmts u
  | .stmt s more, u => congrArg (s.stmt :: ·) (more.append_stmts u)

/-- A program admits items on any line. -/
theorem admits_program (line : Int) (t : Token) : Extent.program.Admits line t := by
  intro h
  cases h

/-- The line in front of a program does not matter. -/
theorem Items.Fits.program_line (t : Items) {line line' : Int} {rest : List Token}
    (h : t.Fits .program line rest) : t.Fits .program line' rest := by
  cases t with
  | nil =>
    cases rest with
    | nil => trivial
    | cons t ts => exact h
  | colon token more => exact ⟨admits_program line' token.token, h.2⟩
  | stmt s more =>
    exact ⟨admits_program line' s.first, h.2.1, Items.Fits.program_line more h.2.2⟩

/-- A program begins with no `else`. -/
theorem Items.ne_else (t : Items) : nextKind t.tokens ≠ .elseWord := by
  cases t with
  | nil => decide
  | colon token more =>
    show token.token.kind ≠ .elseWord
    rw [token.kind_eq]
    decide
  | stmt s more =>
    obtain ⟨ts, hts⟩ := s.tokens_eq
    have hall : ∀ k ∈ Cursor.starters, k ≠ .elseWord := by decide
    rw [Items.tokens, hts]
    exact hall _ s.starts

/-- **Items that are finished fit in front of others that stand below them.** -/
theorem Items.Fits.append {bottom : Int} {u : Items} {line' : Int} (hu : u.Fits .program line' [])
    (hb : Below bottom u.tokens) (t : Items) {line : Int} (h : t.Fits .program line [])
    (hend : Finished bottom t.tokens) : (t.append u).Fits .program line [] := by
  cases t with
  | nil => exact Items.Fits.program_line u hu
  | colon token more =>
    exact ⟨admits_program line token.token,
      Items.Fits.append hu hb more h.2 (finished_colon hend).2⟩
  | stmt s more =>
    obtain ⟨hs, hmore⟩ := finished_stmt hend
    refine ⟨admits_program line s.first, ?_, Items.Fits.append hu hb more h.2.2 hmore⟩
    have hfit := h.2.1
    rw [List.append_nil] at hfit ⊢
    rw [Items.append_tokens]
    by_cases hnil : more = .nil
    · subst hnil
      exact Statement.Fits.below hb s hfit hs
    · have hshort := Items.shortens hnil [] u.tokens
      rw [List.append_nil] at hshort
      exact Statement.Fits.shorten s hfit hshort

end Grammar

/-! ## Streams one behind the other -/

/-- **The program of two streams one behind the other**, if the first is finished and the second
stands below it. -/
theorem parseTokens_append {ts us : List Token} {p q : Program} {bottom : Int}
    (hts : ∀ t ∈ ts, t.kind ≠ .eof) (hp : parseTokens ts = .ok p) (hq : parseTokens us = .ok q)
    (hend : Finished bottom ts) (hb : ∀ u ∈ us, bottom < u.pos.line) :
    parseTokens (ts ++ us) = .ok (p ++ q) := by
  obtain ⟨⟨items, htokens, hfit⟩, rfl⟩ := derivation_of_parseTokens hp
  obtain ⟨⟨items', htokens', hfit'⟩, rfl⟩ := derivation_of_parseTokens hq
  rw [streamOf_eq_self hts] at htokens
  have hbelow : Below bottom items'.tokens := by
    refine ⟨items'.ne_else, fun u hu => hb u ?_⟩
    exact (List.takeWhile_sublist _).subset (htokens' ▸ List.mem_of_mem_head? hu)
  have hfits := Items.Fits.append hfit' hbelow items hfit (htokens ▸ hend)
  have hstream : (items.append items').tokens = streamOf (ts ++ us) := by
    rw [Items.append_tokens, htokens, htokens', streamOf_append hts]
  rw [← Items.append_stmts]
  exact parseTokens_of_derivation ⟨_, hstream, hfits⟩

/-- The two positions are `n` lines apart. -/
def Position.Shift (n : Int) (p q : Position) : Prop :=
  q.line = p.line + n

/-- **A program that stands further down is the same** up to positions. -/
theorem parseTokens_shift {n : Int} {ts us : List Token} {p : Program}
    (h : List.Forall₂ (Token.Alike (Position.Shift n)) ts us) (hp : parseTokens ts = .ok p) :
    ∃ q, parseTokens us = .ok q ∧ Program.unplaced q = Program.unplaced p := by
  obtain ⟨c, hlt, hreads⟩ := parseTokens_eq_ok.mp hp
  have L : Likeness (fun _ => .unset) fun _ => Cursor.Beside (Position.Shift n) :=
    Cursor.likeness_beside (fun _ _ _ => rfl) fun _ _ h => h
  -- the first tokens are read from the line zero, so the others from the line `n`
  have hstart : Cursor.Beside (Position.Shift n) (.ofTokens ts) ⟨⟨0, n, 0⟩, us⟩ :=
    ⟨(Int.zero_add n).symm, h⟩
  have hpaired := Cursor.sequence_paired L (.ofTokens ts) .program hstart
  rw [hreads] at hpaired
  generalize hr : Cursor.sequence _ _ = r at hpaired
  cases hpaired with
  | @ok _ q _ c' _ hlt' value _ =>
    obtain ⟨items, rfl, hpass, hfit⟩ := Cursor.sequence_sound _ .program ⟨hlt', hr⟩
    have hend := items.rest_of_fits_program hfit
    have htokens := hpass.stream_eq
    rw [hend, List.append_nil] at htokens
    rw [hend] at hfit
    exact ⟨_, parseTokens_of_derivation ⟨items, htokens.symm,
      Items.Fits.program_line items hfit⟩, value⟩

end Offside
