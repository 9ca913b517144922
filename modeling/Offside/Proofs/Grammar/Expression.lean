import Offside.Proofs.Grammar.Reads

/-!
# Expressions are read by the grammar

`Cursor.chain`, which is `boolean_expression`, `expression` and `term` of the specification (4.2),
`Cursor.factor` and `Cursor.argumentList` (`arg_list`) against the rules of `Proofs/Grammar/Tree`.

Three things are shown of each rule: what is read is a phrase of the rule, a phrase is read, and a
stream begins with one phrase at most. The first is by induction on the readings, the other two are
by induction on the phrases.

A phrase is read to its end only if nothing follows that would belong to it. `Level.Clear` says that
no operator of a level, or of one that binds tighter, follows; `Level.Inside` is the weaker
condition for an operand, behind which operators of its own level may stand.

Results:
* `chain_sound`, `argumentList_sound`: what is read as a chain of a level, or as arguments, is one.
* `Chain.complete`: a chain is read as such, unless an operator follows that belongs to it.
* `Args.complete`: arguments are read as such in front of a closing parenthesis.
* `Chain.unique`, `Args.unique`: a stream begins with one chain at most that is not followed by such
  an operator, and with one list of arguments at most.
-/

namespace Offside

/-! ## Levels -/

/-- No operator of this level or of a level that binds tighter. -/
def Level.Clear (level : Level) (kind : Kind) : Prop :=
  ∀ inner : Level, inner.rank ≤ level.rank → inner.accepts kind = false

/-- The operators of different levels are different. -/
theorem Level.eq_of_accepts {level other : Level} {kind : Kind} (h : level.accepts kind = true)
    (h' : other.accepts kind = true) : level = other := by
  cases level <;> cases other <;> first
    | rfl
    | cases kind <;> simp [Level.accepts] at h h'

/-- Nothing that binds tighter stands in front of an operator of a level. -/
theorem Level.clear_of_accepts {level inner : Level} {kind : Kind}
    (h : level.accepts kind = true) (hlt : inner.rank < level.rank) : inner.Clear kind := by
  intro other hle
  cases ho : other.accepts kind with
  | false => rfl
  | true =>
    obtain rfl := Level.eq_of_accepts h ho
    exact absurd hlt (by omega)

theorem Level.Clear.mono {level inner : Level} {kind : Kind} (h : level.Clear kind)
    (hle : inner.rank ≤ level.rank) : inner.Clear kind :=
  fun other ho => h other (Nat.le_trans ho hle)

/-- Behind an operand of a level no operator follows that binds tighter. -/
def Level.Inside (level : Level) (kind : Kind) : Prop :=
  ∀ inner : Level, inner.rank < level.rank → inner.Clear kind

namespace Cursor

/-! ## The reading functions restated -/

variable {c c' : Cursor} {level : Level} {e left : Expr}

theorem reads_chain : Reads (c.chain level) e c' ↔
    ∃ first c₁, Reads (c.operand level) first c₁ ∧ Reads (c₁.chainTail level first) e c' := by
  rw [chain, Reads.andThen_iff]
  simp only [Reads.relax_iff]
  constructor
  · rintro ⟨first, c₁, _, h⟩
    exact ⟨first, c₁, h⟩
  · rintro ⟨first, c₁, h⟩
    exact ⟨first, c₁, h.1.size_lt, h⟩

theorem reads_operand_comparison :
    Reads (c.operand .comparison) e c' ↔ Reads (c.chain .sum) e c' := by
  rw [operand]

theorem reads_operand_sum : Reads (c.operand .sum) e c' ↔ Reads (c.chain .product) e c' := by
  rw [operand]

theorem reads_operand_product : Reads (c.operand .product) e c' ↔
    ((c.cur.kind = .number ∨ c.cur.kind = .identifier) ∧ e = .leaf c.cur ∧ c' = c.advance) ∨
      (c.cur.kind = .openParen ∧ ∃ c₁, Reads (c.advance.chain .sum) e c₁ ∧
        c₁.cur.kind = .closeParen ∧ c' = c₁.advance) := by
  rw [operand, factor]
  split
  · next h =>
    have hne : c.cur.kind ≠ .openParen := by rcases h with h | h <;> simp [h]
    rw [Reads.ok_iff]
    constructor
    · rintro ⟨rfl, rfl⟩
      exact Or.inl ⟨h, rfl, rfl⟩
    · rintro (⟨_, rfl, rfl⟩ | ⟨hk, _⟩)
      · exact ⟨rfl, rfl⟩
      · exact absurd hk hne
  · next h =>
    split
    · next hp =>
      simp only [Reads.relax_iff, Reads.andThen_iff, Reads.map_iff, Reads.expect_iff]
      constructor
      · rintro ⟨v, c₁, _, hv, t, ⟨hk, _, ha⟩, rfl⟩
        exact Or.inr ⟨hp, c₁, hv, hk, ha.symm⟩
      · rintro (⟨hk, _⟩ | ⟨_, c₁, hv, hk, rfl⟩)
        · exact absurd hk h
        · exact ⟨e, c₁, hv.size_lt, hv, _, ⟨hk, rfl, rfl⟩, rfl⟩
    · next hp => simp [h, hp]

theorem reads_chainTail_of_accepts (h : level.accepts c.cur.kind = true) :
    Reads (c.chainTail level left) e c' ↔
      ∃ right c₁, Reads (c.advance.operand level) right c₁ ∧
        Reads (c₁.chainTail level (level.combine left c.cur right)) e c' := by
  rw [chainTail, dif_pos h]
  simp only [Reads.relax_iff, Reads.andThen_iff]
  constructor
  · rintro ⟨right, c₁, _, hr⟩
    exact ⟨right, c₁, hr⟩
  · rintro ⟨right, c₁, hr⟩
    exact ⟨right, c₁, hr.1.size_lt, hr⟩

theorem reads_chainTail_of_not (h : level.accepts c.cur.kind = false) :
    Reads (c.chainTail level left) e c' ↔ left = e ∧ c = c' := by
  rw [chainTail, dif_neg (by simp [h]), Reads.ok_iff]

/-! ## What is read is a phrase -/

open Grammar

mutual

/-- **What is read as a chain is a chain.** -/
theorem chain_sound (c : Cursor) (level : Level) {e : Expr} {c' : Cursor}
    (h : Reads (c.chain level) e c') :
    ∃ t : Chain level, t.expr = e ∧ c.Passes t.tokens c' := by
  obtain ⟨first, c₁, h₁, h₂⟩ := reads_chain.mp h
  have hlt := h₁.size_lt
  obtain ⟨t, rfl, ht⟩ := operand_sound c level h₁
  obtain ⟨u, rfl, hu⟩ := chainTail_sound c₁ level h₂
  exact ⟨.mk t u, rfl, ht.trans hu⟩
termination_by 8 * c.size + level.rank + 1
decreasing_by
  · omega
  · have : level.rank ≤ 5 := by cases level <;> simp [Level.rank]
    omega

theorem operand_sound (c : Cursor) (level : Level) {e : Expr} {c' : Cursor}
    (h : Reads (c.operand level) e c') :
    ∃ t : Operand level, t.expr = e ∧ c.Passes t.tokens c' := by
  match level, h with
  | .comparison, h =>
    obtain ⟨t, rfl, ht⟩ := chain_sound c .sum (reads_operand_comparison.mp h)
    exact ⟨.sum t, rfl, ht⟩
  | .sum, h =>
    obtain ⟨t, rfl, ht⟩ := chain_sound c .product (reads_operand_sum.mp h)
    exact ⟨.product t, rfl, ht⟩
  | .product, h =>
    rcases reads_operand_product.mp h with ⟨hk | hk, rfl, rfl⟩ | ⟨hk, c₁, h₁, hk₁, rfl⟩
    · exact ⟨.number ⟨c.cur, hk⟩, rfl, .token (by simp [hk])⟩
    · exact ⟨.name ⟨c.cur, hk⟩, rfl, .token (by simp [hk])⟩
    · have hne : c.cur.kind ≠ .eof := by simp [hk]
      have hlt := c.advance_size_lt hne
      obtain ⟨t, rfl, ht⟩ := chain_sound c.advance .sum h₁
      exact ⟨.group ⟨c.cur, hk⟩ t ⟨c₁.cur, hk₁⟩, rfl,
        .cons hne (ht.trans (.token (by simp [hk₁])))⟩
termination_by 8 * c.size + level.rank
decreasing_by
  all_goals simp only [Level.rank]
  all_goals omega

theorem chainTail_sound (c : Cursor) (level : Level) {left e : Expr} {c' : Cursor}
    (h : Reads (c.chainTail level left) e c') :
    ∃ t : Tail level, t.fold left = e ∧ c.Passes t.tokens c' := by
  cases ha : level.accepts c.cur.kind with
  | false =>
    obtain ⟨rfl, rfl⟩ := (reads_chainTail_of_not ha).mp h
    exact ⟨.nil, rfl, .refl c⟩
  | true =>
    obtain ⟨right, c₁, h₁, h₂⟩ := (reads_chainTail_of_accepts ha).mp h
    have hne := Level.ne_eof_of_accepts ha
    have hlt := c.advance_size_lt hne
    have hlt₁ := h₁.size_lt
    obtain ⟨t, rfl, ht⟩ := operand_sound c.advance level h₁
    obtain ⟨u, rfl, hu⟩ := chainTail_sound c₁ level h₂
    exact ⟨.cons ⟨c.cur, ha⟩ t u, rfl, .cons hne (ht.trans hu)⟩
termination_by 8 * c.size + 7
decreasing_by
  · have : level.rank ≤ 5 := by cases level <;> simp [Level.rank]
    omega
  · omega

end

/-! ### Arguments -/

theorem reads_arguments {es : List Expr} : Reads c.arguments es c' ↔
    ∃ arg c₁, Reads (c.chain .sum) arg c₁ ∧
      ((c₁.cur.kind = .comma ∧ ∃ args, Reads c₁.advance.arguments args c' ∧ arg :: args = es) ∨
        (c₁.cur.kind ≠ .comma ∧ [arg] = es ∧ c₁ = c')) := by
  rw [arguments, Reads.andThen_iff]
  constructor
  · rintro ⟨arg, c₁, _, h₁, h₂⟩
    refine ⟨arg, c₁, h₁, ?_⟩
    split at h₂
    · next hk =>
      simp only [Reads.relax_iff, Reads.map_iff] at h₂
      exact Or.inl ⟨hk, h₂⟩
    · next hk => exact Or.inr ⟨hk, Reads.ok_iff.mp h₂⟩
  · rintro ⟨arg, c₁, h₁, h₂⟩
    refine ⟨arg, c₁, h₁.size_lt, h₁, ?_⟩
    rcases h₂ with ⟨hk, args, h₂⟩ | ⟨hk, h₂⟩
    · rw [dif_pos hk]
      simp only [Reads.relax_iff, Reads.map_iff]
      exact ⟨args, h₂⟩
    · rw [dif_neg hk]
      exact Reads.ok_iff.mpr h₂

theorem arguments_sound (c : Cursor) {es : List Expr} {c' : Cursor} (h : Reads c.arguments es c') :
    ∃ first more, (Args.some first more).exprs = es ∧
      c.Passes (Args.some first more).tokens c' := by
  obtain ⟨arg, c₁, h₁, h₂⟩ := reads_arguments.mp h
  have hlt := h₁.size_lt
  obtain ⟨t, rfl, ht⟩ := chain_sound c .sum h₁
  rcases h₂ with ⟨hk, args, h₂, rfl⟩ | ⟨_, rfl, rfl⟩
  · have hne : c₁.cur.kind ≠ .eof := by simp [hk]
    have hlt₁ := c₁.advance_size_lt hne
    obtain ⟨u, more, rfl, hu⟩ := arguments_sound c₁.advance h₂
    exact ⟨t, (⟨c₁.cur, hk⟩, u) :: more, rfl, ht.trans (.cons hne hu)⟩
  · exact ⟨t, [], rfl, by simpa [Args.tokens, moreArgs] using ht⟩
termination_by c.size

/-- **What is read as arguments are arguments.** -/
theorem argumentList_sound {es : List Expr} (h : Reads c.argumentList es c') :
    ∃ t : Args, t.exprs = es ∧ c.Passes t.tokens c' := by
  unfold argumentList at h
  split at h
  · obtain ⟨rfl, rfl⟩ := Reads.ok_iff.mp h
    exact ⟨.none, rfl, .refl c⟩
  · obtain ⟨first, more, ht⟩ := arguments_sound c (Reads.relax_iff.mp h)
    exact ⟨_, ht⟩

end Cursor

/-! ## Phrases are read -/

namespace Grammar

theorem Terminal.token_ne {k k' : Kind} (t : Terminal k) (u : Terminal k') (h : k ≠ k') :
    t.token ≠ u.token := by
  intro e
  apply h
  rw [← t.kind_eq, ← u.kind_eq, e]

/-- The kinds that follow an expression inside a statement. -/
def closers : List Kind := [.closeParen, .comma, .colon]

theorem Terminal.clear {k : Kind} {level : Level} (t : Terminal k) (h : k ∈ closers)
    (rest : List Token) : level.Clear (nextKind (t.token :: rest)) := by
  intro other _
  show other.accepts t.token.kind = false
  rw [t.kind_eq]
  have hall : ∀ k ∈ closers, ∀ l : Level, l.accepts k = false := by
    intro k hk l
    simp only [closers, List.mem_cons, List.not_mem_nil, or_false] at hk
    rcases hk with rfl | rfl | rfl <;> cases l <;> rfl
  exact hall k h other

/-- Behind an operand stands the rest of its chain or what follows the chain. -/
theorem Tail.inside {level : Level} (t : Tail level) {rest : List Token}
    (h : level.Clear (nextKind rest)) : level.Inside (nextKind (t.tokens ++ rest)) := by
  intro inner hlt
  cases t with
  | nil => exact h.mono (Nat.le_of_lt hlt)
  | cons op right more => exact Level.clear_of_accepts op.accepted hlt

mutual

/-- **A chain is read as such.** -/
theorem Chain.complete : ∀ {level : Level} (t : Chain level) {c : Cursor} {rest : List Token},
    c.stream = t.tokens ++ rest → level.Clear (nextKind rest) →
    ∃ c', Reads (c.chain level) t.expr c' ∧ c.Passes t.tokens c'
  | _, .mk first more, c, rest, hs, hc => by
    rw [Chain.tokens, List.append_assoc] at hs
    obtain ⟨c₁, h₁, hp₁⟩ := first.complete hs (more.inside hc)
    obtain ⟨c₂, h₂, hp₂⟩ := more.complete first.expr (hp₁.stream_of_append hs) hc
    exact ⟨c₂, Cursor.reads_chain.mpr ⟨_, c₁, h₁, h₂⟩, hp₁.trans hp₂⟩

theorem Operand.complete : ∀ {level : Level} (t : Operand level) {c : Cursor} {rest : List Token},
    c.stream = t.tokens ++ rest → level.Inside (nextKind rest) →
    ∃ c', Reads (c.operand level) t.expr c' ∧ c.Passes t.tokens c'
  | _, .sum chain, c, rest, hs, hc => by
    obtain ⟨c₁, h₁, hp₁⟩ := chain.complete hs (hc .sum (by decide))
    exact ⟨c₁, Cursor.reads_operand_comparison.mpr h₁, hp₁⟩
  | _, .product chain, c, rest, hs, hc => by
    obtain ⟨c₁, h₁, hp₁⟩ := chain.complete hs (hc .product (by decide))
    exact ⟨c₁, Cursor.reads_operand_sum.mpr h₁, hp₁⟩
  | _, .number t, c, rest, hs, _ => by
    have hcur := Cursor.cur_of_stream hs
    refine ⟨c.advance, Cursor.reads_operand_product.mpr (Or.inl ⟨Or.inl ?_, ?_, rfl⟩), ?_⟩
    · rw [hcur, t.kind_eq]
    · rw [hcur, Operand.expr]
    · rw [Operand.tokens, ← hcur]
      exact .token (Cursor.ne_eof_of_stream hs)
  | _, .name t, c, rest, hs, _ => by
    have hcur := Cursor.cur_of_stream hs
    refine ⟨c.advance, Cursor.reads_operand_product.mpr (Or.inl ⟨Or.inr ?_, ?_, rfl⟩), ?_⟩
    · rw [hcur, t.kind_eq]
    · rw [hcur, Operand.expr]
    · rw [Operand.tokens, ← hcur]
      exact .token (Cursor.ne_eof_of_stream hs)
  | _, .group opening inner closing, c, rest, hs, _ => by
    rw [Operand.tokens, List.cons_append, List.append_assoc] at hs
    have hcur := Cursor.cur_of_stream hs
    obtain ⟨c₁, h₁, hp₁⟩ :=
      inner.complete (Cursor.advance_stream hs) (closing.clear (by decide) rest)
    have hs₁ := hp₁.stream_of_append (Cursor.advance_stream hs)
    have hcur₁ := Cursor.cur_of_stream hs₁
    refine ⟨c₁.advance, Cursor.reads_operand_product.mpr (Or.inr ⟨?_, c₁, h₁, ?_, rfl⟩), ?_⟩
    · rw [hcur, opening.kind_eq]
    · rw [hcur₁, closing.kind_eq]
    · rw [Operand.tokens, ← hcur, ← hcur₁]
      exact .cons (Cursor.ne_eof_of_stream hs) (hp₁.trans (.token (Cursor.ne_eof_of_stream hs₁)))

theorem Tail.complete : ∀ {level : Level} (t : Tail level) (left : Expr) {c : Cursor}
    {rest : List Token}, c.stream = t.tokens ++ rest → level.Clear (nextKind rest) →
    ∃ c', Reads (c.chainTail level left) (t.fold left) c' ∧ c.Passes t.tokens c'
  | level, .nil, left, c, rest, hs, hc => by
    refine ⟨c, (Cursor.reads_chainTail_of_not ?_).mpr ⟨rfl, rfl⟩, .refl c⟩
    rw [← c.nextKind_stream, hs]
    exact hc level (Nat.le_refl _)
  | level, .cons op right more, left, c, rest, hs, hc => by
    rw [Tail.tokens, List.cons_append, List.append_assoc] at hs
    have hcur := Cursor.cur_of_stream hs
    obtain ⟨c₁, h₁, hp₁⟩ := right.complete (Cursor.advance_stream hs) (more.inside hc)
    obtain ⟨c₂, h₂, hp₂⟩ := more.complete (level.combine left op.token right.expr)
      (hp₁.stream_of_append (Cursor.advance_stream hs)) hc
    rw [← hcur] at h₂
    refine ⟨c₂, (Cursor.reads_chainTail_of_accepts ?_).mpr ⟨_, c₁, h₁, ?_⟩, ?_⟩
    · rw [hcur]
      exact op.accepted
    · rw [Tail.fold, ← hcur]
      exact h₂
    · rw [Tail.tokens, ← hcur]
      exact .cons (Cursor.ne_eof_of_stream hs) (hp₁.trans hp₂)

end

/-! ### Arguments -/

/-- The kinds that an expression begins with. -/
def openers : List Kind := [.number, .identifier, .openParen]

mutual

theorem Chain.opens : ∀ {level : Level} (t : Chain level) (rest : List Token),
    nextKind (t.tokens ++ rest) ∈ openers
  | _, .mk first more, rest => by
    rw [Chain.tokens, List.append_assoc]
    exact first.opens (more.tokens ++ rest)

theorem Operand.opens : ∀ {level : Level} (t : Operand level) (rest : List Token),
    nextKind (t.tokens ++ rest) ∈ openers
  | _, .sum chain, rest => chain.opens rest
  | _, .product chain, rest => chain.opens rest
  | _, .number t, rest => by
    show t.token.kind ∈ openers
    rw [t.kind_eq]
    decide
  | _, .name t, rest => by
    show t.token.kind ∈ openers
    rw [t.kind_eq]
    decide
  | _, .group opening _ _, rest => by
    show opening.token.kind ∈ openers
    rw [opening.kind_eq]
    decide

end

theorem moreArgs_cons (comma : Terminal .comma) (arg : Chain .sum)
    (args : List (Terminal .comma × Chain .sum)) (rest : List Token) :
    moreArgs ((comma, arg) :: args) ++ rest =
      comma.token :: (arg.tokens ++ (moreArgs args ++ rest)) := by
  simp [moreArgs]

/-- Behind an argument stands a comma or a closing parenthesis. -/
theorem clear_moreArgs {level : Level} (args : List (Terminal .comma × Chain .sum))
    (closing : Terminal .closeParen) (rest : List Token) :
    level.Clear (nextKind (moreArgs args ++ closing.token :: rest)) := by
  cases args with
  | nil => exact closing.clear (by decide) rest
  | cons a args =>
    rw [moreArgs_cons]
    exact a.1.clear (by decide) _

theorem Args.complete_some (first : Chain .sum) :
    ∀ (more : List (Terminal .comma × Chain .sum)) {c : Cursor} {closing : Terminal .closeParen}
      {rest : List Token}, c.stream = (Args.some first more).tokens ++ closing.token :: rest →
      ∃ c', Reads c.arguments (Args.some first more).exprs c' ∧
        c.Passes (Args.some first more).tokens c'
  | more, c, closing, rest, hs => by
    rw [Args.tokens, List.append_assoc] at hs
    obtain ⟨c₁, h₁, hp₁⟩ := first.complete hs (clear_moreArgs more closing rest)
    have hs₁ := hp₁.stream_of_append hs
    cases more with
    | nil =>
      refine ⟨c₁, Cursor.reads_arguments.mpr ⟨_, c₁, h₁, Or.inr ⟨?_, rfl, rfl⟩⟩, ?_⟩
      · rw [Cursor.cur_of_stream hs₁, closing.kind_eq]
        simp
      · simpa [Args.tokens, moreArgs] using hp₁
    | cons a more =>
      obtain ⟨comma, arg⟩ := a
      rw [moreArgs_cons] at hs₁
      have hcur₁ := Cursor.cur_of_stream hs₁
      have hs₂ : c₁.advance.stream = (Args.some arg more).tokens ++ closing.token :: rest := by
        rw [Cursor.advance_stream hs₁, Args.tokens, List.append_assoc]
      obtain ⟨c₂, h₂, hp₂⟩ := Args.complete_some arg more hs₂
      refine ⟨c₂, Cursor.reads_arguments.mpr ⟨_, c₁, h₁, Or.inl ⟨?_, _, h₂, rfl⟩⟩, ?_⟩
      · rw [hcur₁, comma.kind_eq]
      · have hp := hp₁.trans (.cons (Cursor.ne_eof_of_stream hs₁) hp₂)
        rw [hcur₁] at hp
        exact hp

/-- **Arguments are read as such** in front of a closing parenthesis. -/
theorem Args.complete (t : Args) {c : Cursor} {closing : Terminal .closeParen} {rest : List Token}
    (hs : c.stream = t.tokens ++ closing.token :: rest) :
    ∃ c', Reads c.argumentList t.exprs c' ∧ c.Passes t.tokens c' := by
  unfold Cursor.argumentList
  cases t with
  | none =>
    have hk : c.cur.kind = .closeParen := by
      rw [Cursor.cur_of_stream hs]
      exact closing.kind_eq
    rw [if_pos hk]
    exact ⟨c, Reads.ok_iff.mpr ⟨rfl, rfl⟩, .refl c⟩
  | some first more =>
    have hk : c.cur.kind ≠ .closeParen := by
      have ho := first.opens (moreArgs more ++ closing.token :: rest)
      rw [← List.append_assoc] at ho
      change nextKind ((Args.some first more).tokens ++ closing.token :: rest) ∈ openers at ho
      rw [← hs, c.nextKind_stream] at ho
      intro hk
      rw [hk] at ho
      exact absurd ho (by decide)
    obtain ⟨c', h, hp⟩ := Args.complete_some first more hs
    rw [if_neg hk]
    exact ⟨c', Reads.relax_iff.mpr h, hp⟩

/-! ## Streams begin with one phrase at most -/

mutual

/-- **A stream begins with one chain at most.** -/
theorem Chain.unique : ∀ {level : Level} (t u : Chain level) {r s : List Token},
    t.tokens ++ r = u.tokens ++ s → level.Clear (nextKind r) → level.Clear (nextKind s) →
    t = u ∧ r = s
  | _, .mk first more, .mk first' more', r, s, h, hr, hs => by
    rw [Chain.tokens, Chain.tokens, List.append_assoc, List.append_assoc] at h
    obtain ⟨rfl, h₁⟩ := first.unique first' h (more.inside hr) (more'.inside hs)
    obtain ⟨rfl, h₂⟩ := more.unique more' h₁ hr hs
    exact ⟨rfl, h₂⟩

theorem Operand.unique : ∀ {level : Level} (t u : Operand level) {r s : List Token},
    t.tokens ++ r = u.tokens ++ s → level.Inside (nextKind r) → level.Inside (nextKind s) →
    t = u ∧ r = s
  | _, .sum t, .sum u, r, s, h, hr, hs => by
    obtain ⟨rfl, h₁⟩ := t.unique u h (hr .sum (by decide)) (hs .sum (by decide))
    exact ⟨rfl, h₁⟩
  | _, .product t, .product u, r, s, h, hr, hs => by
    obtain ⟨rfl, h₁⟩ := t.unique u h (hr .product (by decide)) (hs .product (by decide))
    exact ⟨rfl, h₁⟩
  | _, .number t, .number u, r, s, h, _, _ => by
    obtain ⟨ht, h⟩ := List.cons.inj h
    exact ⟨congrArg _ (Terminal.ext ht), h⟩
  | _, .name t, .name u, r, s, h, _, _ => by
    obtain ⟨ht, h⟩ := List.cons.inj h
    exact ⟨congrArg _ (Terminal.ext ht), h⟩
  | _, .group opening t closing, .group opening' u closing', r, s, h, _, _ => by
    rw [Operand.tokens, Operand.tokens, List.cons_append, List.cons_append, List.append_assoc,
      List.append_assoc] at h
    obtain ⟨ho, h⟩ := List.cons.inj h
    obtain ⟨rfl, h₁⟩ := t.unique u h (closing.clear (by decide) r)
      (closing'.clear (by decide) s)
    obtain ⟨hc, h₂⟩ := List.cons.inj h₁
    rw [Terminal.ext ho, Terminal.ext hc]
    exact ⟨rfl, h₂⟩
  | _, .number t, .name u, r, s, h, _, _ => absurd (List.cons.inj h).1 (t.token_ne u nofun)
  | _, .name t, .number u, r, s, h, _, _ => absurd (List.cons.inj h).1 (t.token_ne u nofun)
  | _, .number t, .group opening _ _, r, s, h, _, _ =>
    absurd (List.cons.inj h).1 (t.token_ne opening nofun)
  | _, .name t, .group opening _ _, r, s, h, _, _ =>
    absurd (List.cons.inj h).1 (t.token_ne opening nofun)
  | _, .group opening _ _, .number u, r, s, h, _, _ =>
    absurd (List.cons.inj h).1 (opening.token_ne u nofun)
  | _, .group opening _ _, .name u, r, s, h, _, _ =>
    absurd (List.cons.inj h).1 (opening.token_ne u nofun)

theorem Tail.unique : ∀ {level : Level} (t u : Tail level) {r s : List Token},
    t.tokens ++ r = u.tokens ++ s → level.Clear (nextKind r) → level.Clear (nextKind s) →
    t = u ∧ r = s
  | _, .nil, .nil, r, s, h, _, _ => ⟨rfl, h⟩
  | level, .nil, .cons op right more, r, s, h, hr, _ => by
    obtain rfl : r = _ := h
    have := hr level (Nat.le_refl _)
    rw [show nextKind _ = op.token.kind from rfl, op.accepted] at this
    exact absurd this (by simp)
  | level, .cons op right more, .nil, r, s, h, _, hs => by
    obtain rfl : _ = s := h
    have := hs level (Nat.le_refl _)
    rw [show nextKind _ = op.token.kind from rfl, op.accepted] at this
    exact absurd this (by simp)
  | _, .cons op right more, .cons op' right' more', r, s, h, hr, hs => by
    rw [Tail.tokens, Tail.tokens, List.cons_append, List.cons_append, List.append_assoc,
      List.append_assoc] at h
    obtain ⟨ho, h⟩ := List.cons.inj h
    obtain ⟨rfl, h₁⟩ := right.unique right' h (more.inside hr) (more'.inside hs)
    obtain ⟨rfl, h₂⟩ := more.unique more' h₁ hr hs
    rw [Operator.ext ho]
    exact ⟨rfl, h₂⟩

end

theorem moreArgs_unique : ∀ (args args' : List (Terminal .comma × Chain .sum))
    {closing closing' : Terminal .closeParen} {r s : List Token},
    moreArgs args ++ closing.token :: r = moreArgs args' ++ closing'.token :: s →
    args = args' ∧ closing.token :: r = closing'.token :: s
  | [], [], _, _, r, s, h => ⟨rfl, h⟩
  | [], (comma, _) :: _, closing, _, r, s, h => by
    rw [moreArgs_cons] at h
    exact absurd (List.cons.inj h).1 (closing.token_ne comma (by simp))
  | (comma, _) :: _, [], _, closing', r, s, h => by
    rw [moreArgs_cons] at h
    exact absurd (List.cons.inj h).1 (comma.token_ne closing' (by simp))
  | (comma, arg) :: args, (comma', arg') :: args', closing, closing', r, s, h => by
    rw [moreArgs_cons, moreArgs_cons] at h
    obtain ⟨hc, h⟩ := List.cons.inj h
    obtain ⟨rfl, h₁⟩ := arg.unique arg' h (clear_moreArgs args closing r)
      (clear_moreArgs args' closing' s)
    obtain ⟨rfl, h₂⟩ := moreArgs_unique args args' h₁
    rw [Terminal.ext hc]
    exact ⟨rfl, h₂⟩

/-- **A stream begins with one list of arguments at most.** -/
theorem Args.unique (t u : Args) {closing closing' : Terminal .closeParen} {r s : List Token}
    (h : t.tokens ++ closing.token :: r = u.tokens ++ closing'.token :: s) :
    t = u ∧ closing.token :: r = closing'.token :: s := by
  -- arguments do not begin with the closing parenthesis that ends an empty list
  have hne : ∀ (first : Chain .sum) more (closing : Terminal .closeParen) (r s : List Token),
      (Args.some first more).tokens ++ s ≠ closing.token :: r := by
    intro first more closing r s he
    have ho := first.opens (moreArgs more ++ s)
    rw [← List.append_assoc] at ho
    change nextKind ((Args.some first more).tokens ++ s) ∈ openers at ho
    rw [he] at ho
    change closing.token.kind ∈ openers at ho
    rw [closing.kind_eq] at ho
    exact absurd ho (by decide)
  cases t with
  | none =>
    cases u with
    | none => exact ⟨rfl, h⟩
    | some first more => exact absurd h.symm (hne first more closing r _)
  | some first more =>
    cases u with
    | none => exact absurd h (hne first more closing' s _)
    | some first' more' =>
      rw [Args.tokens, Args.tokens, List.append_assoc, List.append_assoc] at h
      obtain ⟨rfl, h₁⟩ := first.unique first' h (clear_moreArgs more closing r)
        (clear_moreArgs more' closing' s)
      obtain ⟨rfl, h₂⟩ := moreArgs_unique more more' h₁
      exact ⟨rfl, h₂⟩

end Grammar

end Offside
