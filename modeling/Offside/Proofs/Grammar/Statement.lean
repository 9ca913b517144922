import Offside.Proofs.Grammar.Expression

/-!
# Statements that are read fit the grammar

`Cursor.statement`, `Cursor.block` and `Cursor.sequence` against the rules for statements and blocks
of the specification (4.2). This is the direction from what is read to the grammar; the other one is
in `Proofs/Grammar/Derivation`.

The reading functions are restated first, one lemma for each alternative of a rule
(`reads_statement_if`, `reads_block_inline` and so on). A phrase is then built as the reading goes
on, and the proof of each function is a case for each of these lemmas. The recursion is that of the
functions, on the tokens that are left.

* `Heads` is the end of a header, a condition and a colon, which a conditional and a loop share.
* `endsAt_iff` and `admits_of_not_endsAt` compare the test at the end of a sequence with what the
  grammar asks of the line and the tokens there.

Results:
* `statement_sound`, `block_sound`, `sequence_sound`: what is read as a statement, a block or a
  sequence is a phrase that fits.
-/

namespace Offside

namespace Cursor

/-! ## The reading functions restated -/

variable {c c' c₁ : Cursor} {s : Stmt} {ss : List Stmt} {extent : Extent}

/-- The end of a header: a condition and a colon behind the current keyword. -/
def Heads (c : Cursor) (test : Expr) (c' : Cursor) : Prop :=
  ∃ c₁, Reads (c.advance.chain .comparison) test c₁ ∧ c₁.cur.kind = .colon ∧ c₁.advance = c'

theorem reads_header {test : Expr} (h : c.cur.kind ≠ .eof) :
    Reads (c.header h) test c' ↔ c.Heads test c' := by
  unfold header Heads
  simp only [Reads.andThen_iff, Reads.relax_iff, Reads.map_iff, Reads.expect_iff]
  constructor
  · rintro ⟨e, c₁, _, he, t, ⟨hk, _, ha⟩, rfl⟩
    exact ⟨c₁, he, hk, ha⟩
  · rintro ⟨c₁, he, hk, ha⟩
    exact ⟨test, c₁, Nat.lt_trans he.size_lt (c.advance_size_lt h), he, _, ⟨hk, rfl, ha⟩, rfl⟩

theorem Heads.size_lt {test : Expr} (h : c.Heads test c') : c'.size < c.size := by
  obtain ⟨c₁, he, -, rfl⟩ := h
  exact Nat.lt_of_le_of_lt c₁.advance_size_le (Nat.lt_of_lt_of_le he.size_lt c.advance_size_le)

theorem next?_eq (h : c.advance.cur.kind ≠ .eof) : c.next? = some c.advance.cur := by
  obtain ⟨last, ahead⟩ := c
  cases ahead with
  | nil => exact absurd rfl h
  | cons a as =>
    cases as with
    | nil => exact absurd rfl h
    | cons b bs => rfl

theorem reads_assignment (hk : c.cur.kind ≠ .eof) : Reads (c.assignment hk) s c' ↔
    c.advance.cur.kind = .assign ∧
      ∃ e, Reads (c.advance.advance.chain .sum) e c' ∧ .assign c.cur e = s := by
  unfold assignment
  simp only [Reads.andThen_iff, Reads.relax_iff, Reads.map_iff, Reads.expect_iff]
  constructor
  · rintro ⟨t, c₁, _, ⟨hk, _, rfl⟩, he⟩
    exact ⟨hk, he⟩
  · rintro ⟨ha, he⟩
    have hlt := c.advance.advance_size_le
    have hlt' := c.advance_size_lt hk
    exact ⟨_, _, by omega, ⟨ha, rfl, rfl⟩, he⟩

theorem reads_call (hk : c.cur.kind ≠ .eof) : Reads (c.call hk) s c' ↔
    c.advance.cur.kind = .openParen ∧ ∃ args c₁, Reads c.advance.advance.argumentList args c₁ ∧
      c₁.cur.kind = .closeParen ∧ c₁.advance = c' ∧ .call c.cur args = s := by
  unfold call
  simp only [Reads.andThen_iff, Reads.relax_iff, Reads.map_iff, Reads.expect_iff]
  constructor
  · rintro ⟨t, c₁, _, ⟨hk, _, rfl⟩, args, c₂, _, ha, u, ⟨hc, _, rfl⟩, rfl⟩
    exact ⟨hk, args, c₂, ha, hc, rfl, rfl⟩
  · rintro ⟨ho, args, c₂, ha, hc, rfl, rfl⟩
    have hlt := c.advance.advance_size_le
    have hlt' := c.advance_size_lt hk
    have hlt'' := ha.size_lt
    exact ⟨_, _, by omega, ⟨ho, rfl, rfl⟩, args, c₂, by omega, ha, _, ⟨hc, rfl, rfl⟩, rfl⟩

/-- The kinds that a statement begins with. -/
def starters : List Kind := [.identifier, .ifWord, .whileWord]

theorem starter_of_reads (h : Reads c.statement s c') : c.cur.kind ∈ starters := by
  rw [statement] at h
  split at h
  · next hk => rw [hk]; decide
  · split at h
    · next hk => rw [hk]; decide
    · split at h
      · next hk => rw [hk]; decide
      · exact absurd h Reads.error_iff

theorem reads_statement_name (hk : c.cur.kind = .identifier) : Reads c.statement s c' ↔
    Reads (c.assignment (by simp [hk])) s c' ∨ Reads (c.call (by simp [hk])) s c' := by
  rw [statement, dif_pos hk]
  constructor
  · intro h
    split at h
    · exact absurd h Reads.error_iff
    · split at h
      · exact Or.inl h
      · split at h
        · exact Or.inr h
        · exact absurd h Reads.error_iff
  · intro h
    rcases h with h | h
    · have ha := ((reads_assignment (by simp [hk])).mp h).1
      rw [next?_eq (by simp [ha])]
      simp only [ha, if_true]
      exact h
    · have ho := ((reads_call (by simp [hk])).mp h).1
      rw [next?_eq (by simp [ho])]
      simp only [ho, reduceCtorEq, if_false, if_true]
      exact h

theorem reads_statement_if (hk : c.cur.kind = .ifWord) : Reads c.statement s c' ↔
    ∃ test c₁ body c₂, c.Heads test c₁ ∧ Reads c₁.block body c₂ ∧
      ((c₂.cur.kind = .elseWord ∧ c₂.advance.cur.kind = .colon ∧
          ∃ alt, Reads c₂.advance.advance.block alt c' ∧ .ifElse test body alt = s) ∨
        (c₂.cur.kind ≠ .elseWord ∧ .ifThen test body = s ∧ c₂ = c')) := by
  rw [statement, dif_neg (by simp [hk]), dif_pos hk]
  simp only [Reads.andThen_iff, Reads.relax_iff, reads_header]
  constructor
  · rintro ⟨test, c₁, _, h₁, body, c₂, _, h₂, h₃⟩
    refine ⟨test, c₁, body, c₂, h₁, h₂, ?_⟩
    split at h₃
    · next he =>
      simp only [Reads.andThen_iff, Reads.relax_iff, Reads.map_iff, Reads.expect_iff] at h₃
      obtain ⟨t, c₃, _, ⟨hc, _, rfl⟩, h₃⟩ := h₃
      exact Or.inl ⟨he, hc, h₃⟩
    · next he => exact Or.inr ⟨he, Reads.ok_iff.mp h₃⟩
  · rintro ⟨test, c₁, body, c₂, h₁, h₂, h₃⟩
    have hlt₁ := h₁.size_lt
    have hlt₂ := h₂.size_lt
    refine ⟨test, c₁, hlt₁, h₁, body, c₂, by omega, h₂, ?_⟩
    rcases h₃ with ⟨he, hc, h₃⟩ | ⟨he, h₃⟩
    · rw [if_pos he]
      simp only [Reads.andThen_iff, Reads.relax_iff, Reads.map_iff, Reads.expect_iff]
      have hlt₃ := c₂.advance_size_le
      have hlt₄ := c₂.advance.advance_size_le
      exact ⟨_, _, by omega, ⟨hc, rfl, rfl⟩, h₃⟩
    · rw [if_neg he]
      exact Reads.ok_iff.mpr h₃

theorem reads_statement_while (hk : c.cur.kind = .whileWord) : Reads c.statement s c' ↔
    ∃ test c₁ body, c.Heads test c₁ ∧ Reads c₁.block body c' ∧ .loop test body = s := by
  rw [statement, dif_neg (by simp [hk]), dif_neg (by simp [hk]), dif_pos hk]
  simp only [Reads.andThen_iff, Reads.relax_iff, Reads.map_iff, reads_header]
  constructor
  · rintro ⟨test, c₁, _, h₁, body, h₂⟩
    exact ⟨test, c₁, body, h₁, h₂⟩
  · rintro ⟨test, c₁, body, h₁, h₂⟩
    exact ⟨test, c₁, h₁.size_lt, h₁, body, h₂⟩

theorem reads_block_indented (hk : c.cur.kind = .indent) : Reads c.block ss c' ↔
    ∃ c₁, Reads (c.advance.sequence .indented) ss c₁ ∧
      ((c₁.cur.kind = .eof ∧ c₁ = c') ∨ (c₁.cur.kind = .dedent ∧ c₁.advance = c')) := by
  rw [block, dif_pos hk]
  simp only [Reads.andThen_iff, Reads.relax_iff]
  constructor
  · rintro ⟨body, c₁, _, h₁, h₂⟩
    split at h₂
    · next he =>
      obtain ⟨rfl, rfl⟩ := Reads.ok_iff.mp h₂
      exact ⟨c₁, h₁, Or.inl ⟨he, rfl⟩⟩
    · simp only [Reads.relax_iff, Reads.map_iff, Reads.expect_iff] at h₂
      obtain ⟨t, ⟨hd, _, ha⟩, rfl⟩ := h₂
      exact ⟨c₁, h₁, Or.inr ⟨hd, ha⟩⟩
  · rintro ⟨c₁, h₁, h₂⟩
    refine ⟨ss, c₁, h₁.size_lt, h₁, ?_⟩
    rcases h₂ with ⟨he, rfl⟩ | ⟨hd, ha⟩
    · rw [if_pos he, Reads.ok_iff]
      exact ⟨rfl, rfl⟩
    · rw [if_neg (by simp [hd])]
      simp only [Reads.relax_iff, Reads.map_iff, Reads.expect_iff]
      exact ⟨_, ⟨hd, rfl, ha⟩, trivial⟩

theorem reads_block_inline (hk : c.cur.kind ≠ .indent) :
    Reads c.block ss c' ↔ Reads (c.sequence .inline) ss c' := by
  rw [block, dif_neg hk]

theorem reads_sequence_end (h : extent.endsAt c = true) :
    Reads (c.sequence extent) ss c' ↔ [] = ss ∧ c = c' := by
  rw [sequence, if_pos h, Reads.ok_iff]

theorem reads_sequence_colon (h : extent.endsAt c = false) (hk : c.cur.kind = .colon) :
    Reads (c.sequence extent) ss c' ↔ Reads (c.advance.sequence extent) ss c' := by
  rw [sequence, if_neg (by simp [h]), dif_pos hk]
  simp only [Reads.relax_iff]

theorem reads_sequence_stmt (h : extent.endsAt c = false) (hk : c.cur.kind ≠ .colon) :
    Reads (c.sequence extent) ss c' ↔ ∃ s c₁ more, Reads c.statement s c₁ ∧
      Reads (c₁.sequence extent) more c' ∧ s :: more = ss := by
  rw [sequence, if_neg (by simp [h]), dif_neg hk]
  simp only [Reads.andThen_iff, Reads.relax_iff, Reads.map_iff]
  constructor
  · rintro ⟨s, c₁, _, h₁, more, h₂⟩
    exact ⟨s, c₁, more, h₁, h₂⟩
  · rintro ⟨s, c₁, more, h₁, h₂⟩
    exact ⟨s, c₁, h₁.size_lt, h₁, more, h₂⟩

/-- A sequence ends in front of a token if the grammar says so. -/
theorem endsAt_iff : extent.endsAt c = true ↔ extent.Ends c.last.line c.stream := by
  cases hs : c.stream with
  | nil =>
    have hk := c.stream_eq_nil.mp hs
    cases extent <;> simp [Extent.endsAt, Extent.Ends, hk, Kind.endsBlock]
  | cons t ts =>
    have hcur := cur_of_stream hs
    have hne := ne_eof_of_stream hs
    rw [hcur] at hne
    cases extent <;> simp [Extent.endsAt, Extent.Ends, hcur, hne]

theorem admits_of_not_endsAt (h : extent.endsAt c = false) : extent.Admits c.last.line c.cur := by
  rintro rfl
  simp only [Extent.endsAt, Bool.or_eq_false_iff, bne_eq_false_iff_eq] at h
  exact h.2

/-! ## What is read is a phrase that fits -/

open Grammar

theorem Heads.sound {test : Expr} (hk : c.cur.kind ≠ .eof) (h : c.Heads test c') :
    ∃ (t : Chain .comparison) (colon : Terminal .colon), t.expr = test ∧
      c.Passes (c.cur :: (t.tokens ++ [colon.token])) c' ∧ c'.last.line = colon.token.pos.line := by
  obtain ⟨c₁, h₁, hc, rfl⟩ := h
  obtain ⟨t, rfl, ht⟩ := chain_sound c.advance .comparison h₁
  have htoken := Passes.token (c := c₁) (by simp [hc])
  exact ⟨t, ⟨c₁.cur, hc⟩, rfl, .cons hk (ht.trans htoken), htoken.line_eq⟩

mutual

/-- **What is read as a statement is one that fits.** -/
theorem statement_sound (c : Cursor) {s : Stmt} {c' : Cursor} (h : Reads c.statement s c') :
    ∃ t : Statement, t.stmt = s ∧ t.first = c.cur ∧ c.Passes t.tokens c' ∧ t.Fits c'.stream := by
  have hstart := starter_of_reads h
  simp only [starters, List.mem_cons, List.not_mem_nil, or_false] at hstart
  rcases hstart with hk | hk | hk
  · have hne : c.cur.kind ≠ .eof := by simp [hk]
    rcases (reads_statement_name hk).mp h with h | h
    · obtain ⟨ha, e, h₁, rfl⟩ := (reads_assignment hne).mp h
      obtain ⟨t, rfl, ht⟩ := chain_sound _ .sum h₁
      exact ⟨.assign ⟨c.cur, hk⟩ ⟨_, ha⟩ t, rfl, rfl, .cons hne (.cons (by simp [ha]) ht), trivial⟩
    · obtain ⟨ho, args, c₁, h₁, hc, rfl, rfl⟩ := (reads_call hne).mp h
      obtain ⟨t, rfl, ht⟩ := argumentList_sound h₁
      exact ⟨.call ⟨c.cur, hk⟩ ⟨_, ho⟩ t ⟨_, hc⟩, rfl, rfl,
        .cons hne (.cons (by simp [ho]) (ht.trans (.token (by simp [hc])))), trivial⟩
  · have hne : c.cur.kind ≠ .eof := by simp [hk]
    obtain ⟨test, c₁, body, c₂, h₁, h₂, h₃⟩ := (reads_statement_if hk).mp h
    have hlt₁ := h₁.size_lt
    have hlt₂ := h₂.size_lt
    obtain ⟨cond, colon, rfl, hp₁, hline⟩ := h₁.sound hne
    obtain ⟨t, rfl, hp₂, hfit⟩ := block_sound c₁ h₂
    rw [hline] at hfit
    have hp := hp₁.trans hp₂
    rcases h₃ with ⟨he, hc, alt, h₃, rfl⟩ | ⟨he, rfl, rfl⟩
    · have hp₃ := (Passes.token (c := c₂) (by simp [he])).trans
        (Passes.token (c := c₂.advance) (by simp [hc]))
      have hlt₃ := c₂.advance_size_le
      have hlt₄ := c₂.advance.advance_size_le
      obtain ⟨u, rfl, hp₄, hfit'⟩ := block_sound c₂.advance.advance h₃
      rw [(Passes.token (c := c₂.advance) (by simp [hc])).line_eq] at hfit'
      refine ⟨.ifElse ⟨c.cur, hk⟩ cond colon t ⟨c₂.cur, he⟩ ⟨_, hc⟩ u, rfl, rfl, ?_, ?_, hfit'⟩
      · have hall := hp.trans (hp₃.trans hp₄)
        simpa [Statement.tokens, List.append_assoc] using hall
      · have hs := (hp₃.trans hp₄).stream_eq
        rw [hs] at hfit
        exact hfit
    · refine ⟨.ifThen ⟨c.cur, hk⟩ cond colon t, rfl, rfl, ?_, hfit, ?_⟩
      · simpa [Statement.tokens, List.append_assoc] using hp
      · rw [c₂.nextKind_stream]
        exact he
  · have hne : c.cur.kind ≠ .eof := by simp [hk]
    obtain ⟨test, c₁, body, h₁, h₂, rfl⟩ := (reads_statement_while hk).mp h
    have hlt₁ := h₁.size_lt
    obtain ⟨cond, colon, rfl, hp₁, hline⟩ := h₁.sound hne
    obtain ⟨t, rfl, hp₂, hfit⟩ := block_sound c₁ h₂
    rw [hline] at hfit
    refine ⟨.loop ⟨c.cur, hk⟩ cond colon t, rfl, rfl, ?_, hfit⟩
    simpa [Statement.tokens, List.append_assoc] using hp₁.trans hp₂
termination_by 3 * c.size

/-- **What is read as a block is a suite that fits.** -/
theorem block_sound (c : Cursor) {ss : List Stmt} {c' : Cursor} (h : Reads c.block ss c') :
    ∃ t : Suite, t.stmts = ss ∧ c.Passes t.tokens c' ∧ t.Fits c.last.line c'.stream := by
  by_cases hk : c.cur.kind = .indent
  · have hne : c.cur.kind ≠ .eof := by simp [hk]
    have hlt := c.advance_size_lt hne
    have hp := Passes.token hne
    obtain ⟨c₁, h₁, h₂⟩ := (reads_block_indented hk).mp h
    obtain ⟨t, rfl, hp₁, hfit⟩ := sequence_sound c.advance .indented h₁
    rw [hp.line_eq] at hfit
    rcases h₂ with ⟨he, rfl⟩ | ⟨hd, rfl⟩
    · refine ⟨.indented ⟨c.cur, hk⟩ t none, rfl, ?_, hfit, fun _ => c₁.stream_eq_nil.mpr he⟩
      simpa [Suite.tokens, closing] using hp.trans hp₁
    · have hp₂ := Passes.token (c := c₁) (by simp [hd])
      refine ⟨.indented ⟨c.cur, hk⟩ t (some ⟨c₁.cur, hd⟩), rfl, hp.trans (hp₁.trans hp₂), ?_, nofun⟩
      rw [hp₂.stream_eq] at hfit
      exact hfit
  · obtain ⟨t, rfl, hp, hfit⟩ := sequence_sound c .inline ((reads_block_inline hk).mp h)
    exact ⟨.inline t, rfl, hp, hfit⟩
termination_by 3 * c.size + 2

/-- **What is read as a sequence are items that fit.** -/
theorem sequence_sound (c : Cursor) (extent : Extent) {ss : List Stmt} {c' : Cursor}
    (h : Reads (c.sequence extent) ss c') :
    ∃ t : Items, t.stmts = ss ∧ c.Passes t.tokens c' ∧ t.Fits extent c.last.line c'.stream := by
  cases hend : extent.endsAt c with
  | true =>
    obtain ⟨rfl, rfl⟩ := (reads_sequence_end hend).mp h
    exact ⟨.nil, rfl, .refl c, endsAt_iff.mp hend⟩
  | false =>
    have hadmits := admits_of_not_endsAt hend
    by_cases hk : c.cur.kind = .colon
    · have hne : c.cur.kind ≠ .eof := by simp [hk]
      have hlt := c.advance_size_lt hne
      have hp := Passes.token hne
      obtain ⟨t, rfl, hp₁, hfit⟩ := sequence_sound c.advance extent
        ((reads_sequence_colon hend hk).mp h)
      rw [hp.line_eq] at hfit
      exact ⟨.colon ⟨c.cur, hk⟩ t, rfl, hp.trans hp₁, hadmits, hfit⟩
    · obtain ⟨s, c₁, more, h₁, h₂, rfl⟩ := (reads_sequence_stmt hend hk).mp h
      have hlt := h₁.size_lt
      obtain ⟨t, rfl, hfirst, hp₁, hfit⟩ := statement_sound c h₁
      obtain ⟨u, rfl, hp₂, hfit'⟩ := sequence_sound c₁ extent h₂
      rw [hp₂.stream_eq] at hfit
      rw [hp₁.line_eq] at hfit'
      exact ⟨.stmt t u, rfl, hp₁.trans hp₂, hfirst ▸ hadmits, hfit, hfit'⟩
termination_by 3 * c.size + 1

end

end Cursor

end Offside
