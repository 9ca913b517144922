import Offside.Proofs.Fault.Completion

/-!
# Reading does not look behind the token at fault

The second half of the statement that `Proofs/Fault/Completion` begins: the parser has one token of
lookahead, and two behind a name, so an error does not depend on what comes later.

Two streams may differ behind a certain token. As long as reading stands in front of the end of what
they have in common, it does the same on both: it finds the same phrases, and if it stops at a token
that they have in common it shows the same fault.

* `Twins rest rest' c c'` says that two cursors stand in front of the same tokens, one at least,
  behind which their streams go on with `rest` and `rest'`.
* `Alike rest rest' r r'` compares two readings as far as they do not get to `rest`.
* `if_alike` and `while_alike` take as a hypothesis that blocks are read alike, so that the
  recursion is in one place.

Results:
* `Twins.advance`: twins move on together as long as the common tokens are not used up.
* `chain_alike`, `argumentList_alike`: expressions and arguments are read alike by twins.
* `statement_alike`, `block_alike`, `sequence_alike`: so are statements, blocks and sequences.
-/

namespace Offside

/-- A cursor stands in front of more tokens than `rest`. -/
def Ahead (rest : List Token) (c : Cursor) : Prop :=
  rest.length < c.stream.length

theorem Cursor.Passes.ahead {c c' : Cursor} {ts rest : List Token} (h : c.Passes ts c')
    (ha : Ahead rest c') : Ahead rest c := by
  unfold Ahead at *
  rw [h.stream_eq, List.length_append]
  omega

/-- Two cursors stand in front of the same tokens, behind which `rest` and `rest'` follow. -/
structure Twins (rest rest' : List Token) (c c' : Cursor) : Prop where
  streams : ∃ t ts, c.stream = t :: (ts ++ rest) ∧ c'.stream = t :: (ts ++ rest')
  line_eq : c'.last.line = c.last.line

namespace Twins

variable {rest rest' : List Token} {c c' : Cursor}

theorem cur_eq (h : Twins rest rest' c c') : c'.cur = c.cur := by
  obtain ⟨t, ts, hs, hs'⟩ := h.streams
  rw [Cursor.cur_of_stream hs, Cursor.cur_of_stream hs']

/-- Twins move on together as long as the common tokens are not used up. -/
theorem advance (h : Twins rest rest' c c') (ha : Ahead rest c.advance) :
    Twins rest rest' c.advance c'.advance := by
  obtain ⟨t, ts, hs, hs'⟩ := h.streams
  have hp := Cursor.Passes.token (Cursor.ne_eof_of_stream hs)
  have hp' := Cursor.Passes.token (Cursor.ne_eof_of_stream hs')
  refine ⟨?_, by rw [hp.line_eq, hp'.line_eq, h.cur_eq]; rfl⟩
  rw [Cursor.advance_stream hs, Cursor.advance_stream hs']
  unfold Ahead at ha
  rw [Cursor.advance_stream hs] at ha
  cases ts with
  | nil => exact absurd ha (by simp)
  | cons u us => exact ⟨u, us, rfl, rfl⟩

/-- A sequence ends in front of one of the two if it ends in front of the other. -/
theorem endsAt_eq (h : Twins rest rest' c c') (extent : Extent) :
    extent.endsAt c' = extent.endsAt c := by
  cases extent <;> simp [Extent.endsAt, h.cur_eq, h.line_eq]

end Twins

/-- Two readings find the same and meet the same fault as long as they do not get to `rest`. -/
structure Alike {α : Type} {m n : Nat} (rest rest' : List Token) (r : Reading α m)
    (r' : Reading α n) : Prop where
  reads : ∀ {v : α} {c : Cursor}, Reads r v c → Ahead rest c →
    ∃ c', Reads r' v c' ∧ Twins rest rest' c c'
  fails : ∀ {e : SyntaxError} {stop : Cursor}, Fails r e stop → Ahead rest (e.place stop) →
    ∃ stop', Fails r' e stop'

theorem Alike.relax {α : Type} {k m n l : Nat} {rest rest' : List Token} {r : Reading α m}
    {r' : Reading α n} (h : Alike rest rest' r r') (hk : m ≤ k) (hl : n ≤ l) :
    Alike rest rest' (r.relax hk) (r'.relax hl) := by
  refine ⟨fun {v c} hr ha => ?_, fun {e stop} hf ha => ?_⟩
  · obtain ⟨c', hr', ht⟩ := h.reads (Reads.relax_iff.mp hr) ha
    exact ⟨c', Reads.relax_iff.mpr hr', ht⟩
  · obtain ⟨stop', hf'⟩ := h.fails (Fails.relax_iff.mp hf) ha
    exact ⟨stop', Fails.relax_iff.mpr hf'⟩

namespace Cursor

variable {rest rest' : List Token} {c c' : Cursor} {level : Level}

theorem expect_alike (h : Twins rest rest' c c') (kind : Kind) :
    Alike rest rest' (c.expect kind) (c'.expect kind) where
  reads hr ha := by
    obtain ⟨hk, rfl, rfl⟩ := Reads.expect_iff.mp hr
    exact ⟨c'.advance, Reads.expect_iff.mpr ⟨by rw [h.cur_eq, hk], h.cur_eq, rfl⟩, h.advance ha⟩
  fails hf _ := by
    obtain ⟨hk, rfl, rfl⟩ := Fails.expect_iff.mp hf
    exact ⟨c', Fails.expect_iff.mpr ⟨by rwa [h.cur_eq], by rw [h.cur_eq], rfl⟩⟩

/-! ## Expressions -/

mutual

/-- **Twins read chains alike.** -/
theorem chain_alike (c c' : Cursor) (level : Level) (h : Twins rest rest' c c') :
    Alike rest rest' (c.chain level) (c'.chain level) := by
  refine ⟨fun {v c₂} hr ha => ?_, fun {e stop} hf ha => ?_⟩
  · obtain ⟨first, c₁, h₁, h₂⟩ := reads_chain.mp hr
    have hlt := h₁.size_lt
    obtain ⟨_, -, hp⟩ := chainTail_sound c₁ level h₂
    obtain ⟨c₁', h₁', ht⟩ := (operand_alike c c' level h).reads h₁ (hp.ahead ha)
    obtain ⟨c₂', h₂', ht'⟩ := (chainTail_alike c₁ c₁' level first ht).reads h₂ ha
    exact ⟨c₂', reads_chain.mpr ⟨first, c₁', h₁', h₂'⟩, ht'⟩
  · rcases fails_chain.mp hf with h₁ | ⟨first, c₁, h₁, h₂⟩
    · obtain ⟨stop', h₁'⟩ := (operand_alike c c' level h).fails h₁ ha
      exact ⟨stop', fails_chain.mpr (Or.inl h₁')⟩
    · have hlt := h₁.size_lt
      obtain ⟨_, hs⟩ := chainTail_stops c₁ level h₂
      obtain ⟨c₁', h₁', ht⟩ := (operand_alike c c' level h).reads h₁ (hs.blames.passes.ahead ha)
      obtain ⟨stop', h₂'⟩ := (chainTail_alike c₁ c₁' level first ht).fails h₂ ha
      exact ⟨stop', fails_chain.mpr (Or.inr ⟨first, c₁', h₁', h₂'⟩)⟩
termination_by 8 * c.size + level.rank + 1
decreasing_by
  · omega
  · have : level.rank ≤ 5 := by cases level <;> simp [Level.rank]
    omega
  · omega
  · omega
  · have : level.rank ≤ 5 := by cases level <;> simp [Level.rank]
    omega

theorem operand_alike (c c' : Cursor) (level : Level) (h : Twins rest rest' c c') :
    Alike rest rest' (c.operand level) (c'.operand level) := by
  match level with
  | .comparison =>
    rw [operand, operand]
    exact chain_alike c c' .sum h
  | .sum =>
    rw [operand, operand]
    exact chain_alike c c' .product h
  | .product =>
    refine ⟨fun {v c₂} hr ha => ?_, fun {e stop} hf ha => ?_⟩
    · rcases reads_operand_product.mp hr with ⟨hk, rfl, rfl⟩ | ⟨hk, c₁, h₁, hk₁, rfl⟩
      · exact ⟨c'.advance, reads_operand_product.mpr (Or.inl ⟨by rwa [h.cur_eq], by rw [h.cur_eq],
          rfl⟩), h.advance ha⟩
      · have hlt := c.advance_size_lt (by simp [hk])
        have ha₁ := (Passes.token (c := c₁) (by simp [hk₁])).ahead ha
        obtain ⟨_, -, hp⟩ := chain_sound c.advance .sum h₁
        obtain ⟨c₁', h₁', ht⟩ :=
          (chain_alike c.advance c'.advance .sum (h.advance (hp.ahead ha₁))).reads h₁ ha₁
        exact ⟨c₁'.advance, reads_operand_product.mpr (Or.inr ⟨by rwa [h.cur_eq], c₁', h₁',
          by rwa [ht.cur_eq], rfl⟩), ht.advance ha⟩
    · rcases fails_operand_product.mp hf with ⟨hk, h₁ | ⟨inner, c₁, h₁, h₂⟩⟩ | ⟨hk, rfl, rfl⟩
      · have hlt := c.advance_size_lt (by simp [hk])
        obtain ⟨_, hs⟩ := chain_stops c.advance .sum h₁
        obtain ⟨stop', h₁'⟩ := (chain_alike c.advance c'.advance .sum
          (h.advance (hs.blames.passes.ahead ha))).fails h₁ ha
        exact ⟨stop', fails_operand_product.mpr (Or.inl ⟨by rwa [h.cur_eq], Or.inl h₁'⟩)⟩
      · have hlt := c.advance_size_lt (by simp [hk])
        have ha₁ := (Blames.expect h₂).passes.ahead ha
        obtain ⟨_, -, hp⟩ := chain_sound c.advance .sum h₁
        obtain ⟨c₁', h₁', ht⟩ :=
          (chain_alike c.advance c'.advance .sum (h.advance (hp.ahead ha₁))).reads h₁ ha₁
        obtain ⟨stop', h₂'⟩ := (expect_alike ht .closeParen).fails h₂ ha
        exact ⟨stop', fails_operand_product.mpr
          (Or.inl ⟨by rwa [h.cur_eq], Or.inr ⟨inner, c₁', h₁', h₂'⟩⟩)⟩
      · exact ⟨c', fails_operand_product.mpr (Or.inr ⟨by rwa [h.cur_eq], by rw [h.cur_eq], rfl⟩)⟩
termination_by 8 * c.size + level.rank
decreasing_by
  all_goals simp only [Level.rank]
  all_goals omega

theorem chainTail_alike (c c' : Cursor) (level : Level) (left : Expr) (h : Twins rest rest' c c') :
    Alike rest rest' (c.chainTail level left) (c'.chainTail level left) := by
  refine ⟨fun {v c₂} hr ha => ?_, fun {e stop} hf ha => ?_⟩
  · cases hk : level.accepts c.cur.kind with
    | false =>
      obtain ⟨rfl, rfl⟩ := (reads_chainTail_of_not hk).mp hr
      exact ⟨c', (reads_chainTail_of_not (by rwa [h.cur_eq])).mpr ⟨rfl, rfl⟩, h⟩
    | true =>
      obtain ⟨right, c₁, h₁, h₂⟩ := (reads_chainTail_of_accepts hk).mp hr
      have hlt := c.advance_size_lt (Level.ne_eof_of_accepts hk)
      have hlt₁ := h₁.size_lt
      obtain ⟨_, -, hp⟩ := operand_sound c.advance level h₁
      obtain ⟨_, -, hp₁⟩ := chainTail_sound c₁ level h₂
      obtain ⟨c₁', h₁', ht⟩ := (operand_alike c.advance c'.advance level
        (h.advance (hp.ahead (hp₁.ahead ha)))).reads h₁ (hp₁.ahead ha)
      obtain ⟨c₂', h₂', ht'⟩ := (chainTail_alike c₁ c₁' level _ ht).reads h₂ ha
      refine ⟨c₂', (reads_chainTail_of_accepts (by rwa [h.cur_eq])).mpr ⟨right, c₁', h₁', ?_⟩, ht'⟩
      rwa [h.cur_eq]
  · obtain ⟨hk, hf⟩ := fails_chainTail.mp hf
    have hlt := c.advance_size_lt (Level.ne_eof_of_accepts hk)
    rcases hf with h₁ | ⟨right, c₁, h₁, h₂⟩
    · obtain ⟨_, hs⟩ := operand_stops c.advance level h₁
      obtain ⟨stop', h₁'⟩ := (operand_alike c.advance c'.advance level
        (h.advance (hs.blames.passes.ahead ha))).fails h₁ ha
      exact ⟨stop', fails_chainTail.mpr ⟨by rwa [h.cur_eq], Or.inl h₁'⟩⟩
    · have hlt₁ := h₁.size_lt
      obtain ⟨_, -, hp⟩ := operand_sound c.advance level h₁
      obtain ⟨_, hs⟩ := chainTail_stops c₁ level h₂
      have ha₁ := hs.blames.passes.ahead ha
      obtain ⟨c₁', h₁', ht⟩ := (operand_alike c.advance c'.advance level
        (h.advance (hp.ahead ha₁))).reads h₁ ha₁
      obtain ⟨stop', h₂'⟩ := (chainTail_alike c₁ c₁' level _ ht).fails h₂ ha
      refine ⟨stop', fails_chainTail.mpr ⟨by rwa [h.cur_eq], Or.inr ⟨right, c₁', h₁', ?_⟩⟩⟩
      rwa [h.cur_eq]
termination_by 8 * c.size + 7
decreasing_by
  · have : level.rank ≤ 5 := by cases level <;> simp [Level.rank]
    omega
  · omega
  · have : level.rank ≤ 5 := by cases level <;> simp [Level.rank]
    omega
  · have : level.rank ≤ 5 := by cases level <;> simp [Level.rank]
    omega
  · omega

end

theorem arguments_alike (c c' : Cursor) (h : Twins rest rest' c c') :
    Alike rest rest' c.arguments c'.arguments := by
  refine ⟨fun {v c₂} hr ha => ?_, fun {e stop} hf ha => ?_⟩
  · obtain ⟨arg, c₁, h₁, ⟨hk, args, h₂, hv⟩ | ⟨hk, hv, rfl⟩⟩ := reads_arguments.mp hr
    · have hlt := h₁.size_lt
      have hlt₁ := c₁.advance_size_lt (by simp [hk])
      have hp₁ := Passes.token (c := c₁) (by simp [hk])
      obtain ⟨_, _, -, hp⟩ := arguments_sound c₁.advance h₂
      have ha₁ := hp.ahead ha
      obtain ⟨c₁', h₁', ht⟩ := (chain_alike c c' .sum h).reads h₁ (hp₁.ahead ha₁)
      obtain ⟨c₂', h₂', ht'⟩ :=
        (arguments_alike c₁.advance c₁'.advance (ht.advance ha₁)).reads h₂ ha
      exact ⟨c₂', reads_arguments.mpr ⟨arg, c₁', h₁',
        Or.inl ⟨by rwa [ht.cur_eq], args, h₂', hv⟩⟩, ht'⟩
    · obtain ⟨c₁', h₁', ht⟩ := (chain_alike c c' .sum h).reads h₁ ha
      exact ⟨c₁', reads_arguments.mpr ⟨arg, c₁', h₁', Or.inr ⟨by rwa [ht.cur_eq], hv, rfl⟩⟩, ht⟩
  · rcases fails_arguments.mp hf with h₁ | ⟨arg, c₁, h₁, hk, h₂⟩
    · obtain ⟨stop', h₁'⟩ := (chain_alike c c' .sum h).fails h₁ ha
      exact ⟨stop', fails_arguments.mpr (Or.inl h₁')⟩
    · have hlt := h₁.size_lt
      have hlt₁ := c₁.advance_size_lt (by simp [hk])
      have hp₁ := Passes.token (c := c₁) (by simp [hk])
      obtain ⟨_, hs⟩ := arguments_stops c₁.advance h₂
      have ha₁ := hs.blames.passes.ahead ha
      obtain ⟨c₁', h₁', ht⟩ := (chain_alike c c' .sum h).reads h₁ (hp₁.ahead ha₁)
      obtain ⟨stop', h₂'⟩ := (arguments_alike c₁.advance c₁'.advance (ht.advance ha₁)).fails h₂ ha
      exact ⟨stop', fails_arguments.mpr (Or.inr ⟨arg, c₁', h₁', by rwa [ht.cur_eq], h₂'⟩)⟩
termination_by c.size

/-- **Twins read arguments alike.** -/
theorem argumentList_alike (h : Twins rest rest' c c') :
    Alike rest rest' c.argumentList c'.argumentList := by
  by_cases hk : c.cur.kind = .closeParen
  · rw [argumentList, argumentList, if_pos hk, if_pos (by rwa [h.cur_eq])]
    refine ⟨fun {v c₂} hr _ => ?_, fun {e stop} hf _ => absurd hf Fails.ok_iff⟩
    obtain ⟨rfl, rfl⟩ := Reads.ok_iff.mp hr
    exact ⟨c', Reads.ok_iff.mpr ⟨rfl, rfl⟩, h⟩
  · have harguments := arguments_alike c c' h
    rw [argumentList, argumentList, if_neg hk, if_neg (by rwa [h.cur_eq])]
    exact harguments.relax _ _

/-! ## Statements -/

theorem heads_alike {test : Expr} {c₁ : Cursor} (h : Twins rest rest' c c')
    (hr : c.Heads test c₁) (ha : Ahead rest c₁) :
    ∃ c₁', c'.Heads test c₁' ∧ Twins rest rest' c₁ c₁' := by
  obtain ⟨c₂, h₂, hk, rfl⟩ := hr
  have ha₂ := (Passes.token (c := c₂) (by simp [hk])).ahead ha
  obtain ⟨_, -, hp⟩ := chain_sound c.advance .comparison h₂
  obtain ⟨c₂', h₂', ht⟩ := (chain_alike _ _ .comparison (h.advance (hp.ahead ha₂))).reads h₂ ha₂
  exact ⟨c₂'.advance, ⟨c₂', h₂', by rwa [ht.cur_eq], rfl⟩, ht.advance ha⟩

theorem headFails_alike {e : SyntaxError} {stop : Cursor} (h : Twins rest rest' c c')
    (hf : c.HeadFails e stop) (ha : Ahead rest (e.place stop)) :
    ∃ stop', c'.HeadFails e stop' := by
  rcases hf with h₁ | ⟨test, c₁, h₁, h₂⟩
  · obtain ⟨_, hs⟩ := chain_stops c.advance .comparison h₁
    obtain ⟨stop', h₁'⟩ :=
      (chain_alike _ _ .comparison (h.advance (hs.blames.passes.ahead ha))).fails h₁ ha
    exact ⟨stop', Or.inl h₁'⟩
  · have ha₁ := (Blames.expect h₂).passes.ahead ha
    obtain ⟨_, -, hp⟩ := chain_sound c.advance .comparison h₁
    obtain ⟨c₁', h₁', ht⟩ := (chain_alike _ _ .comparison (h.advance (hp.ahead ha₁))).reads h₁ ha₁
    obtain ⟨stop', h₂'⟩ := (expect_alike ht .colon).fails h₂ ha
    exact ⟨stop', Or.inr ⟨test, c₁', h₁', h₂'⟩⟩

theorem name_alike (h : Twins rest rest' c c') (hk : c.cur.kind = .identifier) :
    Alike rest rest' c.statement c'.statement := by
  have hne : c.cur.kind ≠ .eof := by simp [hk]
  have hk' : c'.cur.kind = .identifier := by rwa [h.cur_eq]
  have hne' : c'.cur.kind ≠ .eof := by simp [hk']
  refine ⟨fun {v c₂} hr ha => ?_, fun {e stop} hf ha => ?_⟩
  · rcases (reads_statement_name hk).mp hr with hr | hr
    · obtain ⟨hs, value, h₁, hv⟩ := (reads_assignment hne).mp hr
      obtain ⟨_, -, hp⟩ := chain_sound _ .sum h₁
      have ha₁ := hp.ahead ha
      have ht := h.advance ((Passes.token (c := c.advance) (by simp [hs])).ahead ha₁)
      obtain ⟨c₂', h₁', ht'⟩ := (chain_alike _ _ .sum (ht.advance ha₁)).reads h₁ ha
      exact ⟨c₂', (reads_statement_name hk').mpr (Or.inl ((reads_assignment hne').mpr
        ⟨by rwa [ht.cur_eq], value, h₁', by rwa [h.cur_eq]⟩)), ht'⟩
    · obtain ⟨ho, args, c₁, h₁, hc, rfl, hv⟩ := (reads_call hne).mp hr
      have ha₁ := (Passes.token (c := c₁) (by simp [hc])).ahead ha
      obtain ⟨_, -, hp⟩ := argumentList_sound h₁
      have ha₂ := hp.ahead ha₁
      have ht := h.advance ((Passes.token (c := c.advance) (by simp [ho])).ahead ha₂)
      obtain ⟨c₁', h₁', ht'⟩ := (argumentList_alike (ht.advance ha₂)).reads h₁ ha₁
      exact ⟨c₁'.advance, (reads_statement_name hk').mpr (Or.inr ((reads_call hne').mpr
        ⟨by rwa [ht.cur_eq], args, c₁', h₁', by rwa [ht'.cur_eq], rfl, by rwa [h.cur_eq]⟩)),
        ht'.advance ha⟩
  · rcases (fails_statement_name hk).mp hf with ⟨hs, ho, rfl, rfl⟩ | ⟨hs, h₁⟩ | ⟨ho, h₁⟩
    · have ht := h.advance ha
      exact ⟨c', (fails_statement_name hk').mpr (Or.inl ⟨by rwa [ht.cur_eq], by rwa [ht.cur_eq],
        by rw [ht.cur_eq], rfl⟩)⟩
    · obtain ⟨_, hstops⟩ := chain_stops _ .sum h₁
      have ha₁ := hstops.blames.passes.ahead ha
      have ht := h.advance ((Passes.token (c := c.advance) (by simp [hs])).ahead ha₁)
      obtain ⟨stop', h₁'⟩ := (chain_alike _ _ .sum (ht.advance ha₁)).fails h₁ ha
      exact ⟨stop', (fails_statement_name hk').mpr (Or.inr (Or.inl ⟨by rwa [ht.cur_eq], h₁'⟩))⟩
    · have hp := Passes.token (c := c.advance) (by simp [ho])
      rcases h₁ with h₁ | ⟨args, c₁, h₁, h₂⟩
      · obtain ⟨_, hstops⟩ := argumentList_stops h₁
        have ha₁ := hstops.blames.passes.ahead ha
        have ht := h.advance (hp.ahead ha₁)
        obtain ⟨stop', h₁'⟩ := (argumentList_alike (ht.advance ha₁)).fails h₁ ha
        exact ⟨stop', (fails_statement_name hk').mpr
          (Or.inr (Or.inr ⟨by rwa [ht.cur_eq], Or.inl h₁'⟩))⟩
      · have ha₁ := (Blames.expect h₂).passes.ahead ha
        obtain ⟨_, -, hp₁⟩ := argumentList_sound h₁
        have ha₂ := hp₁.ahead ha₁
        have ht := h.advance (hp.ahead ha₂)
        obtain ⟨c₁', h₁', ht'⟩ := (argumentList_alike (ht.advance ha₂)).reads h₁ ha₁
        obtain ⟨stop', h₂'⟩ := (expect_alike ht' .closeParen).fails h₂ ha
        exact ⟨stop', (fails_statement_name hk').mpr
          (Or.inr (Or.inr ⟨by rwa [ht.cur_eq], Or.inr ⟨args, c₁', h₁', h₂'⟩⟩))⟩

/-! A conditional and a loop are read alike if the blocks in them are. -/

section Headed

variable (ih : ∀ d d' : Cursor, d.size < c.size → Twins rest rest' d d' →
  Alike rest rest' d.block d'.block)
include ih

theorem if_alike (h : Twins rest rest' c c') (hif : c.cur.kind = .ifWord) :
    Alike rest rest' c.statement c'.statement := by
  have hif' : c'.cur.kind = .ifWord := by rwa [h.cur_eq]
  refine ⟨fun {v c₃} hr ha => ?_, fun {e stop} hf ha => ?_⟩
  · obtain ⟨test, c₁, body, c₂, h₁, h₂, h₃⟩ := (reads_statement_if hif).mp hr
    have hlt₁ := h₁.size_lt
    have hlt₂ := h₂.size_lt
    obtain ⟨_, -, hp, -⟩ := block_sound c₁ h₂
    rcases h₃ with ⟨he, hc, alt, h₃, hv⟩ | ⟨he, hv, rfl⟩
    · have hlt₃ := Nat.le_trans c₂.advance.advance_size_le c₂.advance_size_le
      have hp₁ := Passes.token (c := c₂) (by simp [he])
      have hp₂ := Passes.token (c := c₂.advance) (by simp [hc])
      obtain ⟨_, -, hp₃, -⟩ := block_sound _ h₃
      have ha₃ := hp₃.ahead ha
      have ha₂ := hp₁.ahead (hp₂.ahead ha₃)
      obtain ⟨c₁', h₁', ht₁⟩ := heads_alike h h₁ (hp.ahead ha₂)
      obtain ⟨c₂', h₂', ht₂⟩ := (ih c₁ c₁' hlt₁ ht₁).reads h₂ ha₂
      have ht₃ := ht₂.advance (hp₂.ahead ha₃)
      obtain ⟨c₃', h₃', ht⟩ := (ih c₂.advance.advance _ (by omega) (ht₃.advance ha₃)).reads h₃ ha
      exact ⟨c₃', (reads_statement_if hif').mpr ⟨test, c₁', body, c₂', h₁', h₂',
        Or.inl ⟨by rwa [ht₂.cur_eq], by rwa [ht₃.cur_eq], alt, h₃', hv⟩⟩, ht⟩
    · obtain ⟨c₁', h₁', ht₁⟩ := heads_alike h h₁ (hp.ahead ha)
      obtain ⟨c₂', h₂', ht₂⟩ := (ih c₁ c₁' hlt₁ ht₁).reads h₂ ha
      exact ⟨c₂', (reads_statement_if hif').mpr ⟨test, c₁', body, c₂', h₁', h₂',
        Or.inr ⟨by rwa [ht₂.cur_eq], hv, rfl⟩⟩, ht₂⟩
  · rcases (fails_statement_if hif).mp hf with h₁ | ⟨test, c₁, h₁, h₂⟩
    · obtain ⟨stop', h₁'⟩ := headFails_alike h h₁ ha
      exact ⟨stop', (fails_statement_if hif').mpr (Or.inl h₁')⟩
    have hlt₁ := h₁.size_lt
    rcases h₂ with h₂ | ⟨body, c₂, h₂, he, h₃⟩
    · obtain ⟨_, hs, -⟩ := block_stops c₁ h₂
      obtain ⟨c₁', h₁', ht₁⟩ := heads_alike h h₁ (hs.blames.passes.ahead ha)
      obtain ⟨stop', h₂'⟩ := (ih c₁ c₁' hlt₁ ht₁).fails h₂ ha
      exact ⟨stop', (fails_statement_if hif').mpr (Or.inr ⟨test, c₁', h₁', Or.inl h₂'⟩)⟩
    have hlt₂ := h₂.size_lt
    have hp₁ := Passes.token (c := c₂) (by simp [he])
    obtain ⟨_, -, hp, -⟩ := block_sound c₁ h₂
    rcases h₃ with h₃ | ⟨hc, h₃⟩
    · have ha₃ := (Blames.expect h₃).passes.ahead ha
      have ha₂ := hp₁.ahead ha₃
      obtain ⟨c₁', h₁', ht₁⟩ := heads_alike h h₁ (hp.ahead ha₂)
      obtain ⟨c₂', h₂', ht₂⟩ := (ih c₁ c₁' hlt₁ ht₁).reads h₂ ha₂
      obtain ⟨stop', h₃'⟩ := (expect_alike (ht₂.advance ha₃) .colon).fails h₃ ha
      exact ⟨stop', (fails_statement_if hif').mpr (Or.inr ⟨test, c₁', h₁',
        Or.inr ⟨body, c₂', h₂', by rwa [ht₂.cur_eq], Or.inl h₃'⟩⟩)⟩
    · have hlt₃ := Nat.le_trans c₂.advance.advance_size_le c₂.advance_size_le
      have hp₂ := Passes.token (c := c₂.advance) (by simp [hc])
      obtain ⟨_, hs, -⟩ := block_stops _ h₃
      have ha₃ := hs.blames.passes.ahead ha
      have ha₂ := hp₁.ahead (hp₂.ahead ha₃)
      obtain ⟨c₁', h₁', ht₁⟩ := heads_alike h h₁ (hp.ahead ha₂)
      obtain ⟨c₂', h₂', ht₂⟩ := (ih c₁ c₁' hlt₁ ht₁).reads h₂ ha₂
      have ht₃ := ht₂.advance (hp₂.ahead ha₃)
      obtain ⟨stop', h₃'⟩ := (ih c₂.advance.advance _ (by omega) (ht₃.advance ha₃)).fails h₃ ha
      exact ⟨stop', (fails_statement_if hif').mpr (Or.inr ⟨test, c₁', h₁',
        Or.inr ⟨body, c₂', h₂', by rwa [ht₂.cur_eq], Or.inr ⟨by rwa [ht₃.cur_eq], h₃'⟩⟩⟩)⟩

theorem while_alike (h : Twins rest rest' c c') (hwhile : c.cur.kind = .whileWord) :
    Alike rest rest' c.statement c'.statement := by
  have hwhile' : c'.cur.kind = .whileWord := by rwa [h.cur_eq]
  refine ⟨fun {v c₂} hr ha => ?_, fun {e stop} hf ha => ?_⟩
  · obtain ⟨test, c₁, body, h₁, h₂, hv⟩ := (reads_statement_while hwhile).mp hr
    have hlt₁ := h₁.size_lt
    obtain ⟨_, -, hp, -⟩ := block_sound c₁ h₂
    obtain ⟨c₁', h₁', ht₁⟩ := heads_alike h h₁ (hp.ahead ha)
    obtain ⟨c₂', h₂', ht₂⟩ := (ih c₁ c₁' hlt₁ ht₁).reads h₂ ha
    exact ⟨c₂', (reads_statement_while hwhile').mpr ⟨test, c₁', body, h₁', h₂', hv⟩, ht₂⟩
  · rcases (fails_statement_while hwhile).mp hf with h₁ | ⟨test, c₁, h₁, h₂⟩
    · obtain ⟨stop', h₁'⟩ := headFails_alike h h₁ ha
      exact ⟨stop', (fails_statement_while hwhile').mpr (Or.inl h₁')⟩
    · have hlt₁ := h₁.size_lt
      obtain ⟨_, hs, -⟩ := block_stops c₁ h₂
      obtain ⟨c₁', h₁', ht₁⟩ := heads_alike h h₁ (hs.blames.passes.ahead ha)
      obtain ⟨stop', h₂'⟩ := (ih c₁ c₁' hlt₁ ht₁).fails h₂ ha
      exact ⟨stop', (fails_statement_while hwhile').mpr (Or.inr ⟨test, c₁', h₁', h₂'⟩)⟩

end Headed

mutual

/-- **Twins read statements alike.** -/
theorem statement_alike (c c' : Cursor) (h : Twins rest rest' c c') :
    Alike rest rest' c.statement c'.statement := by
  by_cases hname : c.cur.kind = .identifier
  · exact name_alike h hname
  by_cases hif : c.cur.kind = .ifWord
  · exact if_alike (fun d d' hlt ht => block_alike d d' ht) h hif
  by_cases hwhile : c.cur.kind = .whileWord
  · exact while_alike (fun d d' hlt ht => block_alike d d' ht) h hwhile
  · have hstart : c.cur.kind ∉ starters := by simp [starters, hname, hif, hwhile]
    refine ⟨fun {v c₂} hr ha => absurd (starter_of_reads hr) hstart, fun {e stop} hf ha => ?_⟩
    obtain ⟨rfl, rfl⟩ := (fails_statement_start hstart).mp hf
    exact ⟨c', (fails_statement_start (by rwa [h.cur_eq])).mpr ⟨by rw [h.cur_eq], rfl⟩⟩
termination_by 3 * c.size

/-- **Twins read blocks alike.** -/
theorem block_alike (c c' : Cursor) (h : Twins rest rest' c c') :
    Alike rest rest' c.block c'.block := by
  by_cases hk : c.cur.kind = .indent
  · have hlt := c.advance_size_lt (by simp [hk])
    have hk' : c'.cur.kind = .indent := by rwa [h.cur_eq]
    refine ⟨fun {v c₂} hr ha => ?_, fun {e stop} hf ha => ?_⟩
    · obtain ⟨c₁, h₁, h₂⟩ := (reads_block_indented hk).mp hr
      obtain ⟨_, -, hp, -⟩ := sequence_sound c.advance .indented h₁
      rcases h₂ with ⟨he, rfl⟩ | ⟨hd, rfl⟩
      · obtain ⟨c₁', h₁', ht⟩ :=
          (sequence_alike _ _ .indented (h.advance (hp.ahead ha))).reads h₁ ha
        exact ⟨c₁', (reads_block_indented hk').mpr
          ⟨c₁', h₁', Or.inl ⟨by rwa [ht.cur_eq], rfl⟩⟩, ht⟩
      · have ha₁ := (Passes.token (c := c₁) (by simp [hd])).ahead ha
        obtain ⟨c₁', h₁', ht⟩ :=
          (sequence_alike _ _ .indented (h.advance (hp.ahead ha₁))).reads h₁ ha₁
        exact ⟨c₁'.advance, (reads_block_indented hk').mpr
          ⟨c₁', h₁', Or.inr ⟨by rwa [ht.cur_eq], rfl⟩⟩, ht.advance ha⟩
    · rcases (fails_block_indented hk).mp hf with h₁ | ⟨body, c₁, h₁, he, h₂⟩
      · obtain ⟨_, hs, -⟩ := sequence_stops c.advance .indented h₁
        obtain ⟨stop', h₁'⟩ := (sequence_alike _ _ .indented
          (h.advance (hs.blames.passes.ahead ha))).fails h₁ ha
        exact ⟨stop', (fails_block_indented hk').mpr (Or.inl h₁')⟩
      · have ha₁ := (Blames.expect h₂).passes.ahead ha
        obtain ⟨_, -, hp, -⟩ := sequence_sound c.advance .indented h₁
        obtain ⟨c₁', h₁', ht⟩ :=
          (sequence_alike _ _ .indented (h.advance (hp.ahead ha₁))).reads h₁ ha₁
        obtain ⟨stop', h₂'⟩ := (expect_alike ht .dedent).fails h₂ ha
        exact ⟨stop', (fails_block_indented hk').mpr
          (Or.inr ⟨body, c₁', h₁', by rwa [ht.cur_eq], h₂'⟩)⟩
  · have hsequence := sequence_alike c c' .inline h
    rw [block, block, dif_neg hk, dif_neg (by rwa [h.cur_eq])]
    exact hsequence
termination_by 3 * c.size + 2

/-- **Twins read sequences alike.** -/
theorem sequence_alike (c c' : Cursor) (extent : Extent) (h : Twins rest rest' c c') :
    Alike rest rest' (c.sequence extent) (c'.sequence extent) := by
  cases hend : extent.endsAt c with
  | true =>
    refine ⟨fun {v c₂} hr ha => ?_, fun {e stop} hf ha => absurd hf (fails_sequence_end hend)⟩
    obtain ⟨rfl, rfl⟩ := (reads_sequence_end hend).mp hr
    exact ⟨c', (reads_sequence_end (by rwa [h.endsAt_eq])).mpr ⟨rfl, rfl⟩, h⟩
  | false =>
    have hend' : extent.endsAt c' = false := by rwa [h.endsAt_eq]
    by_cases hk : c.cur.kind = .colon
    · have hlt := c.advance_size_lt (by simp [hk])
      have hk' : c'.cur.kind = .colon := by rwa [h.cur_eq]
      refine ⟨fun {v c₂} hr ha => ?_, fun {e stop} hf ha => ?_⟩
      · have h₁ := (reads_sequence_colon hend hk).mp hr
        obtain ⟨_, -, hp, -⟩ := sequence_sound c.advance extent h₁
        obtain ⟨c₁', h₁', ht⟩ := (sequence_alike _ _ extent (h.advance (hp.ahead ha))).reads h₁ ha
        exact ⟨c₁', (reads_sequence_colon hend' hk').mpr h₁', ht⟩
      · have h₁ := (fails_sequence_colon hend hk).mp hf
        obtain ⟨_, hs, -⟩ := sequence_stops c.advance extent h₁
        obtain ⟨stop', h₁'⟩ :=
          (sequence_alike _ _ extent (h.advance (hs.blames.passes.ahead ha))).fails h₁ ha
        exact ⟨stop', (fails_sequence_colon hend' hk').mpr h₁'⟩
    · have hk' : c'.cur.kind ≠ .colon := by rwa [h.cur_eq]
      refine ⟨fun {v c₂} hr ha => ?_, fun {e stop} hf ha => ?_⟩
      · obtain ⟨s, c₁, more, h₁, h₂, hv⟩ := (reads_sequence_stmt hend hk).mp hr
        have hlt := h₁.size_lt
        obtain ⟨_, -, hp, -⟩ := sequence_sound c₁ extent h₂
        obtain ⟨c₁', h₁', ht⟩ := (statement_alike c c' h).reads h₁ (hp.ahead ha)
        obtain ⟨c₂', h₂', ht'⟩ := (sequence_alike c₁ c₁' extent ht).reads h₂ ha
        exact ⟨c₂', (reads_sequence_stmt hend' hk').mpr ⟨s, c₁', more, h₁', h₂', hv⟩, ht'⟩
      · rcases (fails_sequence_stmt hend hk).mp hf with h₁ | ⟨s, c₁, h₁, h₂⟩
        · obtain ⟨stop', h₁'⟩ := (statement_alike c c' h).fails h₁ ha
          exact ⟨stop', (fails_sequence_stmt hend' hk').mpr (Or.inl h₁')⟩
        · have hlt := h₁.size_lt
          obtain ⟨_, hs, -⟩ := sequence_stops c₁ extent h₂
          obtain ⟨c₁', h₁', ht⟩ := (statement_alike c c' h).reads h₁ (hs.blames.passes.ahead ha)
          obtain ⟨stop', h₂'⟩ := (sequence_alike c₁ c₁' extent ht).fails h₂ ha
          exact ⟨stop', (fails_sequence_stmt hend' hk').mpr (Or.inr ⟨s, c₁', h₁', h₂'⟩)⟩
termination_by 3 * c.size + 1

end

end Cursor

end Offside
