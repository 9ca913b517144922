import Offside.Proofs.Grammar.Derivation

/-!
# Readings that fail

The functions of the parser again, as in `Proofs/Grammar/Reads` and `Proofs/Grammar/Statement`, this
time for what they do when they return an error.

`Fails r e stop` says that the reading `r` met the fault `e` and stopped at the cursor `stop`. The
reading functions are restated with it one by one: a reading in several parts fails in its first
part, or the first part is there and the rest fails.

* `HeadFails` is the failure of a header, in its condition or at the colon behind, which a
  conditional and a loop share.

Results:
* `Fails.andThen_iff`: a reading in two parts fails in the first part or in the second.
* `Fails.expect_iff`: a token is missed where one of another kind stands.
* `fails_chain`, `fails_chainTail`, `fails_arguments` and the lemmas beside them: how reading an
  expression or arguments can fail.
* `fails_statement_name`, `fails_statement_if`, `fails_statement_while`, `fails_statement_start`:
  how reading a statement can fail, by its first token.
* `fails_block_indented`, `fails_block_inline`, `fails_sequence_end`, `fails_sequence_colon`,
  `fails_sequence_stmt`: the same for blocks and sequences.
-/

namespace Offside

/-- A reading met the fault `e` and stopped at a cursor. -/
def Fails {α : Type} {n : Nat} (r : Reading α n) (e : SyntaxError) (stop : Cursor) : Prop :=
  r = .error e stop

namespace Fails

variable {α β : Type} {m n : Nat} {e e' : SyntaxError} {c stop stop' : Cursor}

@[simp] theorem ok_iff {v : α} {h : c.size < n} : ¬ Fails (.ok v c h) e stop :=
  nofun

@[simp] theorem error_iff :
    Fails (.error e' stop' : Reading α n) e stop ↔ e' = e ∧ stop' = stop := by
  constructor
  · rintro ⟨⟩
    exact ⟨rfl, rfl⟩
  · rintro ⟨rfl, rfl⟩
    rfl

@[simp] theorem relax_iff {h : m ≤ n} {r : Reading α m} :
    Fails (r.relax h) e stop ↔ Fails r e stop := by
  cases r with
  | ok value rest shorter => simp [Reading.relax]
  | error e' stop' => simp [Reading.relax]

@[simp] theorem map_iff {f : α → β} {r : Reading α n} :
    Fails (r.map f) e stop ↔ Fails r e stop := by
  cases r with
  | ok value rest shorter => simp [Reading.map]
  | error e' stop' => simp [Reading.map]

/-- **A reading in two parts fails in the first part or in the second.** -/
theorem andThen_iff {r : Reading α n}
    {f : (value : α) → (rest : Cursor) → rest.size < n → Reading β n} :
    Fails (r.andThen f) e stop ↔
      Fails r e stop ∨ ∃ v c h, Reads r v c ∧ Fails (f v c h) e stop := by
  cases r with
  | ok value rest shorter =>
    constructor
    · intro h
      exact Or.inr ⟨value, rest, shorter, ⟨shorter, rfl⟩, h⟩
    · rintro (h | ⟨v, c, h, ⟨_, hr⟩, hf⟩)
      · exact absurd h ok_iff
      · cases hr
        exact hf
  | error e' stop' =>
    constructor
    · intro h
      exact Or.inl (error_iff.mpr (error_iff.mp h))
    · rintro (h | ⟨v, c, h, hr, hf⟩)
      · exact error_iff.mpr (error_iff.mp h)
      · exact absurd hr Reads.error_iff

/-- A token is missed where one of another kind stands. -/
theorem expect_iff {kind : Kind} : Fails (c.expect kind) e stop ↔
    c.cur.kind ≠ kind ∧ .wrongKind c.cur [kind] = e ∧ c = stop := by
  unfold Cursor.expect
  split
  · next h => simp [h]
  · next h => simp [h]

end Fails

/-- What is read leaves fewer tokens than the bound says. -/
theorem Reads.size_and {α : Type} {n : Nat} {r : Reading α n} {v : α} {c : Cursor} {p : Prop} :
    c.size < n ∧ Reads r v c ∧ p ↔ Reads r v c ∧ p :=
  ⟨And.right, fun h => ⟨h.1.size_lt, h⟩⟩

namespace Cursor

variable {c stop : Cursor} {level : Level} {left : Expr} {e : SyntaxError} {extent : Extent}

/-! ## Expressions -/

theorem fails_chain : Fails (c.chain level) e stop ↔
    Fails (c.operand level) e stop ∨ ∃ first c₁, Reads (c.operand level) first c₁ ∧
      Fails (c₁.chainTail level first) e stop := by
  rw [chain, Fails.andThen_iff]
  simp only [Fails.relax_iff, exists_prop, Reads.size_and]

theorem fails_operand_comparison :
    Fails (c.operand .comparison) e stop ↔ Fails (c.chain .sum) e stop := by
  rw [operand]

theorem fails_operand_sum : Fails (c.operand .sum) e stop ↔ Fails (c.chain .product) e stop := by
  rw [operand]

theorem fails_operand_product : Fails (c.operand .product) e stop ↔
    (c.cur.kind = .openParen ∧ (Fails (c.advance.chain .sum) e stop ∨
        ∃ inner c₁, Reads (c.advance.chain .sum) inner c₁ ∧ Fails (c₁.expect .closeParen) e stop)) ∨
      (c.cur.kind ∉ Grammar.openers ∧ .wrongStart c.cur "factor" = e ∧ c = stop) := by
  rw [operand, factor]
  split
  · next h =>
    have hopen : c.cur.kind ≠ .openParen ∧ c.cur.kind ∈ Grammar.openers := by
      rcases h with h | h <;> rw [h] <;> decide
    simp [hopen]
  · next h =>
    split
    · next hp =>
      have hopen : Kind.openParen ∈ Grammar.openers := by decide
      simp only [hp, hopen, Fails.relax_iff, Fails.map_iff, Fails.andThen_iff, exists_prop,
        Reads.size_and, true_and, not_true_eq_false, false_and, or_false]
    · next hp =>
      have hopen : c.cur.kind ∉ Grammar.openers := by
        simp only [Grammar.openers, List.mem_cons, List.not_mem_nil, or_false]
        exact fun h' => h'.elim (h ∘ Or.inl) fun h' => h'.elim (h ∘ Or.inr) hp
      simp only [hp, hopen, Fails.error_iff, false_and, false_or, not_false_eq_true, true_and]

theorem fails_chainTail : Fails (c.chainTail level left) e stop ↔
    level.accepts c.cur.kind = true ∧ (Fails (c.advance.operand level) e stop ∨
      ∃ right c₁, Reads (c.advance.operand level) right c₁ ∧
        Fails (c₁.chainTail level (level.combine left c.cur right)) e stop) := by
  rw [chainTail]
  split
  · next h =>
    simp only [h, Fails.relax_iff, Fails.andThen_iff, exists_prop,
      Reads.size_and, true_and]
  · next h => simp [h]

theorem fails_arguments : Fails c.arguments e stop ↔
    Fails (c.chain .sum) e stop ∨ ∃ arg c₁, Reads (c.chain .sum) arg c₁ ∧
      c₁.cur.kind = .comma ∧ Fails c₁.advance.arguments e stop := by
  rw [arguments, Fails.andThen_iff]
  refine or_congr_right ⟨?_, ?_⟩
  · rintro ⟨arg, c₁, _, h₁, h₂⟩
    split at h₂
    · next hk => exact ⟨arg, c₁, h₁, hk, by simpa only [Fails.relax_iff, Fails.map_iff] using h₂⟩
    · exact absurd h₂ Fails.ok_iff
  · rintro ⟨arg, c₁, h₁, hk, h₂⟩
    refine ⟨arg, c₁, h₁.size_lt, h₁, ?_⟩
    rw [dif_pos hk]
    simpa only [Fails.relax_iff, Fails.map_iff] using h₂

theorem fails_argumentList : Fails c.argumentList e stop ↔
    c.cur.kind ≠ .closeParen ∧ Fails c.arguments e stop := by
  rw [argumentList]
  split
  · next h => simp [h]
  · next h => simp [h]

/-! ## Statements -/

/-- The condition of a header is at fault, or the colon behind it is missed. -/
def HeadFails (c : Cursor) (e : SyntaxError) (stop : Cursor) : Prop :=
  Fails (c.advance.chain .comparison) e stop ∨
    ∃ test c₁, Reads (c.advance.chain .comparison) test c₁ ∧ Fails (c₁.expect .colon) e stop

theorem fails_header (h : c.cur.kind ≠ .eof) :
    Fails (c.header h) e stop ↔ c.HeadFails e stop := by
  unfold header HeadFails
  rw [Fails.andThen_iff, Fails.relax_iff]
  simp only [Reads.relax_iff, Fails.relax_iff, Fails.map_iff]
  refine or_congr_right ⟨?_, ?_⟩
  · rintro ⟨test, c₁, _, hr, hf⟩
    exact ⟨test, c₁, hr, hf⟩
  · rintro ⟨test, c₁, hr, hf⟩
    exact ⟨test, c₁, Nat.lt_trans hr.size_lt (c.advance_size_lt h), hr, hf⟩

theorem fails_assignment (hk : c.cur.kind ≠ .eof) : Fails (c.assignment hk) e stop ↔
    Fails (c.advance.expect .assign) e stop ∨
      c.advance.cur.kind = .assign ∧ Fails (c.advance.advance.chain .sum) e stop := by
  unfold assignment
  rw [Fails.andThen_iff, Fails.relax_iff]
  simp only [Reads.relax_iff, Reads.expect_iff, Fails.relax_iff, Fails.map_iff]
  refine or_congr_right ⟨?_, ?_⟩
  · rintro ⟨_, _, _, ⟨ha, rfl, rfl⟩, hf⟩
    exact ⟨ha, hf⟩
  · rintro ⟨ha, hf⟩
    exact ⟨_, _, Nat.lt_of_le_of_lt (advance_size_le _) (c.advance_size_lt hk), ⟨ha, rfl, rfl⟩, hf⟩

theorem fails_call (hk : c.cur.kind ≠ .eof) : Fails (c.call hk) e stop ↔
    Fails (c.advance.expect .openParen) e stop ∨
      c.advance.cur.kind = .openParen ∧ (Fails c.advance.advance.argumentList e stop ∨
        ∃ args c₁, Reads c.advance.advance.argumentList args c₁ ∧
          Fails (c₁.expect .closeParen) e stop) := by
  unfold call
  rw [Fails.andThen_iff, Fails.relax_iff]
  simp only [Reads.relax_iff, Reads.expect_iff, Fails.andThen_iff, Fails.relax_iff, Fails.map_iff]
  refine or_congr_right ⟨?_, ?_⟩
  · rintro ⟨_, _, _, ⟨ho, rfl, rfl⟩, hf⟩
    refine ⟨ho, hf.imp_right ?_⟩
    rintro ⟨args, c₁, _, hr, hf⟩
    exact ⟨args, c₁, hr, hf⟩
  · rintro ⟨ho, hf⟩
    have hlt := Nat.lt_of_le_of_lt (advance_size_le _) (c.advance_size_lt hk)
    refine ⟨_, _, hlt, ⟨ho, rfl, rfl⟩, hf.imp_right ?_⟩
    rintro ⟨args, c₁, hr, hf⟩
    exact ⟨args, c₁, Nat.lt_of_lt_of_le hr.size_lt hlt, hr, hf⟩

/-- The token that is looked at behind a name. -/
theorem advance_cur (h : c.cur.kind ≠ .eof) :
    c.advance.cur = c.next?.getD (.eofAt c.cur.pos) := by
  obtain ⟨last, ahead⟩ := c
  cases ahead with
  | nil => exact absurd rfl h
  | cons a as =>
    cases as with
    | nil => rfl
    | cons b bs => rfl

/-- The token behind a name is at fault if it makes no statement of the name. -/
theorem fails_statement_name (hk : c.cur.kind = .identifier) : Fails c.statement e stop ↔
    (c.advance.cur.kind ≠ .assign ∧ c.advance.cur.kind ≠ .openParen ∧
        .wrongKind c.advance.cur [.assign, .openParen] = e ∧ c = stop) ∨
      (c.advance.cur.kind = .assign ∧ Fails (c.advance.advance.chain .sum) e stop) ∨
      (c.advance.cur.kind = .openParen ∧ (Fails c.advance.advance.argumentList e stop ∨
        ∃ args c₁, Reads c.advance.advance.argumentList args c₁ ∧
          Fails (c₁.expect .closeParen) e stop)) := by
  have hne : c.cur.kind ≠ .eof := by simp [hk]
  have hcur := advance_cur hne
  rw [statement, dif_pos hk]
  split
  · next h =>
    rw [h, Option.getD_none] at hcur
    simp [hcur, Token.eofAt, Token.plain]
  · next t h =>
    rw [h, Option.getD_some] at hcur
    subst hcur
    split
    · next ha =>
      rw [fails_assignment hne, Fails.expect_iff]
      simp [ha]
    · next ha =>
      split
      · next ho =>
        rw [fails_call hne, Fails.expect_iff]
        simp [ho]
      · next ho => simp [ha, ho]

/-- The rest of a conditional behind its first block: the colon behind `else` is missed, or the
second block is at fault. -/
theorem fails_statement_if (hk : c.cur.kind = .ifWord) : Fails c.statement e stop ↔
    c.HeadFails e stop ∨ ∃ test c₁, c.Heads test c₁ ∧ (Fails c₁.block e stop ∨
      ∃ body c₂, Reads c₁.block body c₂ ∧ c₂.cur.kind = .elseWord ∧
        (Fails (c₂.advance.expect .colon) e stop ∨
          c₂.advance.cur.kind = .colon ∧ Fails c₂.advance.advance.block e stop)) := by
  rw [statement, dif_neg (by simp [hk]), dif_pos hk]
  simp only [Fails.andThen_iff, Fails.relax_iff, Reads.relax_iff, fails_header, reads_header]
  refine or_congr_right ⟨?_, ?_⟩
  · rintro ⟨test, c₁, _, h₁, h₂⟩
    refine ⟨test, c₁, h₁, h₂.imp_right ?_⟩
    rintro ⟨body, c₂, _, h₂, h₃⟩
    split at h₃
    · next he =>
      simp only [Fails.andThen_iff, Fails.relax_iff, Fails.map_iff, Reads.relax_iff,
        Reads.expect_iff] at h₃
      refine ⟨body, c₂, h₂, he, h₃.imp_right ?_⟩
      rintro ⟨_, _, _, ⟨hc, rfl, rfl⟩, h₃⟩
      exact ⟨hc, h₃⟩
    · exact absurd h₃ Fails.ok_iff
  · rintro ⟨test, c₁, h₁, h₂⟩
    refine ⟨test, c₁, h₁.size_lt, h₁, h₂.imp_right ?_⟩
    rintro ⟨body, c₂, h₂, he, h₃⟩
    have hlt : c₂.size < c.size :=
      Nat.lt_of_le_of_lt (Nat.le_of_lt_succ h₂.size_lt) h₁.size_lt
    refine ⟨body, c₂, hlt, h₂, ?_⟩
    rw [if_pos he]
    simp only [Fails.andThen_iff, Fails.relax_iff, Fails.map_iff, Reads.relax_iff, Reads.expect_iff]
    refine h₃.imp_right ?_
    rintro ⟨hc, h₃⟩
    have hle := Nat.le_trans (advance_size_le _) c₂.advance_size_le
    exact ⟨_, _, Nat.lt_of_le_of_lt hle hlt, ⟨hc, rfl, rfl⟩, h₃⟩

theorem fails_statement_while (hk : c.cur.kind = .whileWord) : Fails c.statement e stop ↔
    c.HeadFails e stop ∨ ∃ test c₁, c.Heads test c₁ ∧ Fails c₁.block e stop := by
  rw [statement, dif_neg (by simp [hk]), dif_neg (by simp [hk]), dif_pos hk]
  simp only [Fails.andThen_iff, Fails.relax_iff, Fails.map_iff, fails_header, reads_header]
  refine or_congr_right ⟨?_, ?_⟩
  · rintro ⟨test, c₁, _, h₁, h₂⟩
    exact ⟨test, c₁, h₁, h₂⟩
  · rintro ⟨test, c₁, h₁, h₂⟩
    exact ⟨test, c₁, h₁.size_lt, h₁, h₂⟩

/-- A token that begins no statement is at fault. -/
theorem fails_statement_start (hk : c.cur.kind ∉ starters) : Fails c.statement e stop ↔
    .wrongStart c.cur "statement" = e ∧ c = stop := by
  simp only [starters, List.mem_cons, List.not_mem_nil, or_false, not_or] at hk
  rw [statement, dif_neg hk.1, dif_neg hk.2.1, dif_neg hk.2.2, Fails.error_iff]

theorem fails_block_indented (hk : c.cur.kind = .indent) : Fails c.block e stop ↔
    Fails (c.advance.sequence .indented) e stop ∨
      ∃ body c₁, Reads (c.advance.sequence .indented) body c₁ ∧ c₁.cur.kind ≠ .eof ∧
        Fails (c₁.expect .dedent) e stop := by
  rw [block, dif_pos hk]
  simp only [Fails.andThen_iff, Fails.relax_iff]
  refine or_congr_right ⟨?_, ?_⟩
  · rintro ⟨body, c₁, _, h₁, h₂⟩
    split at h₂
    · exact absurd h₂ Fails.ok_iff
    · next he => exact ⟨body, c₁, h₁, he, by simpa only [Fails.relax_iff, Fails.map_iff] using h₂⟩
  · rintro ⟨body, c₁, h₁, he, h₂⟩
    refine ⟨body, c₁, h₁.size_lt, h₁, ?_⟩
    rw [if_neg he]
    simpa only [Fails.relax_iff, Fails.map_iff] using h₂

theorem fails_block_inline (hk : c.cur.kind ≠ .indent) :
    Fails c.block e stop ↔ Fails (c.sequence .inline) e stop := by
  rw [block, dif_neg hk]

/-- Reading does not fail at the end of a sequence. -/
theorem fails_sequence_end (h : extent.endsAt c = true) : ¬ Fails (c.sequence extent) e stop := by
  rw [sequence, if_pos h]
  exact Fails.ok_iff

theorem fails_sequence_colon (h : extent.endsAt c = false) (hk : c.cur.kind = .colon) :
    Fails (c.sequence extent) e stop ↔ Fails (c.advance.sequence extent) e stop := by
  rw [sequence, if_neg (by simp [h]), dif_pos hk, Fails.relax_iff]

theorem fails_sequence_stmt (h : extent.endsAt c = false) (hk : c.cur.kind ≠ .colon) :
    Fails (c.sequence extent) e stop ↔ Fails c.statement e stop ∨
      ∃ s c₁, Reads c.statement s c₁ ∧ Fails (c₁.sequence extent) e stop := by
  rw [sequence, if_neg (by simp [h]), dif_neg hk]
  simp only [Fails.andThen_iff, Fails.relax_iff, Fails.map_iff, exists_prop, Reads.size_and]

end Cursor

end Offside
