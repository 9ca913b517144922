import Mathlib.Logic.Relation
import Offside.Proofs.Grammar.Likeness

/-!
# Reading gets on

That the recursive descent ends, and what it leaves: the functions of the parser never move past the
end of the source, each round of their loops takes a token, and a second `Parse` finds nothing more
(specification, 4.2: `advance` moves forward one token).

A cursor is moved in one way only: the current token is taken off the stream, and the end of source
is never taken (`Takes`). A statement and an expression of any level take at least one token, or
they are not there. So the loops of the parser end: a round of each takes a token.

Reading looks at the current token and at those behind it, but not at the token in front. Only the
end of an inline block is told by the line in front of it, and there a colon stands in front that
was read before.

* `Moves` and `MovesOn` are any number of tokens that are taken, and at least one. `Goes` says that
  a reading only takes tokens, also if it fails; `Advances` that it takes one if it finds something.
* `SequenceRound`, `TailRound` and `ArgumentRound` are the rounds of the three loops, and
  `SequenceEnds`, `TailEnds` and `ArgumentsEnd` the cursors at which these end.
* `Reading.Agree` compares the readings from two cursors that differ in the token in front only.

Results:
* `goes_chain`, `goes_statement`: reading only takes tokens off the stream, also if it fails.
* `Goes.advances`: what is read successfully takes a token.
* `loop_ends`: a loop ends if every round takes a token.
* `sequence_ends`, `chainTail_ends`, `arguments_ends`: the loops go round by round up to their end.
* `program_again`: behind a program nothing is left to read.
* `program_agree`: reading does not depend on the token in front.
* `parse_progress`: all of this for every stream of tokens.
-/

namespace Offside

open Relation (ReflTransGen TransGen)

namespace Cursor

/-- The current token, which is not the end of source, is taken off the stream. -/
def Takes (c c' : Cursor) : Prop :=
  c.cur.kind ≠ .eof ∧ c.advance = c'

/-- Tokens are taken off the stream one after another, perhaps none. -/
def Moves : Cursor → Cursor → Prop :=
  ReflTransGen Takes

/-- At least one token is taken off the stream. -/
def MovesOn : Cursor → Cursor → Prop :=
  TransGen Takes

section Moves

variable {c c' c'' : Cursor}

theorem Moves.trans (h : Moves c c') (h' : Moves c' c'') : Moves c c'' :=
  ReflTransGen.trans h h'

theorem Moves.advance (h : c.cur.kind ≠ .eof) : Moves c c.advance :=
  .single ⟨h, rfl⟩

theorem MovesOn.size_lt (h : MovesOn c c') : c'.size < c.size := by
  induction h with
  | single h =>
    obtain ⟨hne, rfl⟩ := h
    exact advance_size_lt _ hne
  | tail _ h ih =>
    obtain ⟨hne, rfl⟩ := h
    exact Nat.lt_trans (advance_size_lt _ hne) ih

/-- Fewer tokens are left only if one was taken. -/
theorem Moves.on (h : Moves c c') (hlt : c'.size < c.size) : MovesOn c c' := by
  rcases Relation.reflTransGen_iff_eq_or_transGen.mp h with rfl | h
  · exact absurd hlt (Nat.lt_irrefl _)
  · exact h

/-- What is taken stood in front, and the end of source is not in it. -/
theorem Moves.ahead_eq (h : Moves c c') :
    ∃ ts, c.ahead = ts ++ c'.ahead ∧ ∀ t ∈ ts, t.kind ≠ .eof := by
  induction h with
  | refl => exact ⟨[], rfl, List.forall_mem_nil _⟩
  | @tail d d' _ h ih =>
    obtain ⟨ts, hts, hne⟩ := ih
    obtain ⟨he, rfl⟩ := h
    obtain ⟨hahead, -, -⟩ := Passes.token he
    refine ⟨ts ++ [d.cur], by rw [hts, hahead, List.append_assoc], fun t ht => ?_⟩
    rcases List.mem_append.mp ht with ht | ht
    · exact hne t ht
    · exact List.mem_singleton.mp ht ▸ he

end Moves

end Cursor

open Cursor (Moves MovesOn)

/-! ## Readings that move a cursor -/

namespace Reading

variable {α β : Type} {m n : Nat} {c : Cursor} {r : Reading α m}

/-- Where reading stopped, from a cursor on. -/
def Goes (c : Cursor) (r : Reading α n) : Prop :=
  Moves c r.result.2

namespace Goes

theorem stay (e : SyntaxError) : Goes c (.error e c : Reading α n) :=
  .refl

theorem relax (h : Goes c r) (hle : m ≤ n) : Goes c (r.relax hle) := by
  cases r <;> exact h

theorem map (h : Goes c r) (f : α → β) : Goes c (r.map f) := by
  cases r <;> exact h

/-- What is read behind a construct moves on from there. -/
theorem andThen {f : (value : α) → (rest : Cursor) → rest.size < m → Reading β m} (h : Goes c r)
    (hf : ∀ v rest hlt, Goes rest (f v rest hlt)) : Goes c (r.andThen f) := by
  cases r with
  | ok value rest shorter => exact Moves.trans h (hf value rest shorter)
  | error e stop => exact h

/-- What is read behind the current token. -/
theorem behind (hne : c.cur.kind ≠ .eof) (h : Goes c.advance r) : Goes c r :=
  Moves.trans (.advance hne) h

end Goes

/-- **A reading that moves the cursor on if it finds something.** -/
structure Advances (c : Cursor) (r : Reading α n) : Prop where
  goes : Goes c r
  takes : ∀ v c', Reads r v c' → MovesOn c c'

/-- A reading that leaves fewer tokens than it began with. -/
theorem Goes.advances {r : Reading α c.size} (h : Goes c r) : Advances c r := by
  refine ⟨h, fun v c' hr => ?_⟩
  obtain ⟨hlt, rfl⟩ := hr
  exact Moves.on h hlt

end Reading

open Reading (Goes Advances)

namespace Cursor

/-! ## Expressions -/

theorem goes_expect {c : Cursor} {kind : Kind} (h : kind ≠ .eof) : Goes c (c.expect kind) := by
  unfold expect
  split
  · next hk => exact Moves.advance (hk ▸ h)
  · exact .stay _

mutual

theorem goes_chain (c : Cursor) (level : Level) : Goes c (c.chain level) := by
  rw [chain]
  exact (goes_operand c level).andThen fun left c' h => (goes_chainTail c' level left).relax _
termination_by 8 * c.size + level.rank + 1
decreasing_by
  · omega
  · have : level.rank ≤ 5 := by cases level <;> simp [Level.rank]
    omega

theorem goes_operand (c : Cursor) (level : Level) : Goes c (c.operand level) := by
  match level with
  | .comparison =>
    rw [operand]
    exact goes_chain c .sum
  | .sum =>
    rw [operand]
    exact goes_chain c .product
  | .product =>
    rw [operand]
    exact goes_factor c
termination_by 8 * c.size + level.rank
decreasing_by all_goals simp only [Level.rank]; omega

theorem goes_factor (c : Cursor) : Goes c c.factor := by
  rw [factor]
  split
  · next hleaf => exact Moves.advance (by rcases hleaf with h | h <;> simp [h])
  · split
    · next hopen =>
      have hne : c.cur.kind ≠ .eof := by simp [hopen]
      have hlt := c.advance_size_lt hne
      refine .behind hne (((goes_chain c.advance .sum).andThen fun inner c' _ => ?_).relax _)
      exact ((goes_expect (by decide)).map _).relax _
    · exact .stay _
termination_by 8 * c.size
decreasing_by simp only [Level.rank]; omega

theorem goes_chainTail (c : Cursor) (level : Level) (left : Expr) :
    Goes c (c.chainTail level left) := by
  rw [chainTail]
  split
  · next hop =>
    have hne := Level.ne_eof_of_accepts hop
    have hlt := c.advance_size_lt hne
    refine .behind hne (((goes_operand c.advance level).andThen fun right c' _ => ?_).relax _)
    exact (goes_chainTail c' level _).relax _
  · exact ReflTransGen.refl
termination_by 8 * c.size + 7
decreasing_by
  · have : level.rank ≤ 5 := by cases level <;> simp [Level.rank]
    omega
  · omega

end

theorem goes_arguments (c : Cursor) : Goes c c.arguments := by
  rw [arguments]
  refine (goes_chain c .sum).andThen fun arg c' h => ?_
  split
  · next hcomma =>
    have hne : c'.cur.kind ≠ .eof := by simp [hcomma]
    have hlt := c'.advance_size_lt hne
    exact .behind hne (((goes_arguments c'.advance).map _).relax _)
  · exact ReflTransGen.refl
termination_by c.size

theorem goes_argumentList (c : Cursor) : Goes c c.argumentList := by
  rw [argumentList]
  split
  · exact ReflTransGen.refl
  · exact (goes_arguments c).relax _

/-! ## Statements -/

section Statements

variable {c : Cursor}

theorem goes_assignment (h : c.cur.kind ≠ .eof) : Goes c (c.assignment h) := by
  refine .behind h (((goes_expect (by decide)).relax _).andThen fun _ c' _ => ?_)
  exact ((goes_chain c' .sum).map _).relax _

theorem goes_call (h : c.cur.kind ≠ .eof) : Goes c (c.call h) := by
  refine .behind h (((goes_expect (by decide)).relax _).andThen fun _ c₁ _ => ?_)
  refine ((goes_argumentList c₁).relax _).andThen fun args c₂ _ => ?_
  exact ((goes_expect (by decide)).map _).relax _

theorem goes_header (h : c.cur.kind ≠ .eof) : Goes c (c.header h) := by
  refine .behind h (((goes_chain _ .comparison).relax _).andThen fun cond c' _ => ?_)
  exact ((goes_expect (by decide)).map _).relax _

end Statements

mutual

theorem goes_statement (c : Cursor) : Goes c c.statement := by
  rw [statement]
  split
  · next hk =>
    have hne : c.cur.kind ≠ .eof := by simp [hk]
    split
    · exact .stay _
    · split
      · exact goes_assignment hne
      · split
        · exact goes_call hne
        · exact .stay _
  · split
    · next hk =>
      refine (goes_header (by simp [hk])).andThen fun test c₁ h₁ => ?_
      refine ((goes_block c₁).relax _).andThen fun body c₂ h₂ => ?_
      split
      · next he =>
        have hlt := c₂.advance_size_le
        refine .behind (by simp [he]) (((goes_expect (by decide)).relax _).andThen
          fun _ c₃ h₃ => ?_)
        exact ((goes_block c₃).map _).relax _
      · exact ReflTransGen.refl
    · split
      · next hk =>
        refine (goes_header (by simp [hk])).andThen fun test c₁ h₁ => ?_
        exact ((goes_block c₁).map _).relax _
      · exact .stay _
termination_by 3 * c.size

theorem goes_block (c : Cursor) : Goes c c.block := by
  rw [block]
  split
  · next hk =>
    have hne : c.cur.kind ≠ .eof := by simp [hk]
    have hlt := c.advance_size_lt hne
    refine .behind hne (((goes_sequence c.advance .indented).andThen fun body c' _ => ?_).relax _)
    split
    · exact ReflTransGen.refl
    · exact ((goes_expect (by decide)).map _).relax _
  · exact goes_sequence c .inline
termination_by 3 * c.size + 2

theorem goes_sequence (c : Cursor) (extent : Extent) : Goes c (c.sequence extent) := by
  rw [sequence]
  split
  · exact ReflTransGen.refl
  · split
    · next hk =>
      have hne : c.cur.kind ≠ .eof := by simp [hk]
      have hlt := c.advance_size_lt hne
      exact .behind hne ((goes_sequence c.advance extent).relax _)
    · refine ((goes_statement c).andThen fun stmt c' h => ?_).relax _
      exact ((goes_sequence c' extent).map _).relax _
termination_by 3 * c.size + 1

end

/-! ## Loops -/

/-- **A loop ends** if every round takes a token: from everywhere it goes on round by round up to
its end. `Ends c d` says that the loop from `c` on ends at `d`. -/
theorem loop_ends {round Ends : Cursor → Cursor → Prop} (htakes : ∀ c c', round c c' → MovesOn c c')
    (hnext : ∀ c, Ends c c ∨ ∃ c', round c c' ∧ ∀ d, Ends c' d → Ends c d) (c : Cursor) :
    ∃ d, ReflTransGen round c d ∧ Ends c d := by
  induction hk : c.size using Nat.strongRecOn generalizing c with
  | _ k ih =>
    subst hk
    rcases hnext c with hend | ⟨c', hround, hback⟩
    · exact ⟨c, .refl, hend⟩
    · obtain ⟨d, hrounds, hend⟩ := ih _ (htakes c c' hround).size_lt c' rfl
      exact ⟨d, .head hround hrounds, hback d hend⟩

theorem reads_or_fails {α : Type} {n : Nat} (r : Reading α n) :
    (∃ v c, Reads r v c) ∨ ∃ e stop, Fails r e stop := by
  cases r with
  | ok value rest shorter => exact Or.inl ⟨value, rest, shorter, rfl⟩
  | error e stop => exact Or.inr ⟨e, stop, rfl⟩

/-- A round of the loop over a sequence: a colon that is skipped, or a statement. -/
inductive SequenceRound (extent : Extent) (c : Cursor) : Cursor → Prop where
  | colon (goes : extent.endsAt c = false) (colon : c.cur.kind = .colon) :
      SequenceRound extent c c.advance
  | statement {s : Stmt} {c' : Cursor} (goes : extent.endsAt c = false)
      (word : c.cur.kind ≠ .colon) (reads : Reads c.statement s c') : SequenceRound extent c c'

/-- The loop over a sequence ends where its extent does, or at a statement that fails. -/
def SequenceEnds (extent : Extent) (c d : Cursor) : Prop :=
  (extent.endsAt d = true ∧ ∃ ss, Reads (c.sequence extent) ss d) ∨
    ∃ e stop, Fails d.statement e stop ∧ Fails (c.sequence extent) e stop

/-- A round of the loop over the operators of a level: an operator and its right operand. -/
inductive TailRound (level : Level) (c : Cursor) : Cursor → Prop where
  | operator {right : Expr} {c' : Cursor} (accepts : level.accepts c.cur.kind = true)
      (reads : Reads (c.advance.operand level) right c') : TailRound level c c'

/-- The loop over operators ends in front of another token, or at a right operand that fails. -/
def TailEnds (level : Level) (c d : Cursor) : Prop :=
  ∀ left, (level.accepts d.cur.kind = false ∧ ∃ e, Reads (c.chainTail level left) e d) ∨
    (level.accepts d.cur.kind = true ∧
      ∃ e stop, Fails (d.advance.operand level) e stop ∧ Fails (c.chainTail level left) e stop)

/-- A round of the loop over arguments: an argument and the comma behind it. -/
inductive ArgumentRound (c : Cursor) : Cursor → Prop where
  | argument {arg : Expr} {c' : Cursor} (reads : Reads (c.chain .sum) arg c')
      (comma : c'.cur.kind = .comma) : ArgumentRound c c'.advance

/-- The loop over arguments ends with an argument that no comma follows, or with one that fails. -/
def ArgumentsEnd (c d : Cursor) : Prop :=
  (∃ arg c' es, Reads (d.chain .sum) arg c' ∧ c'.cur.kind ≠ .comma ∧ Reads c.arguments es c') ∨
    ∃ e stop, Fails (d.chain .sum) e stop ∧ Fails c.arguments e stop

section Rounds

variable {c c' : Cursor} {extent : Extent} {level : Level}

theorem SequenceRound.takes (h : SequenceRound extent c c') : MovesOn c c' := by
  cases h with
  | colon _ hk => exact .single ⟨by simp [hk], rfl⟩
  | statement _ _ hr => exact (goes_statement c).advances.takes _ _ hr

theorem TailRound.takes (h : TailRound level c c') : MovesOn c c' := by
  obtain ⟨hop, hr⟩ := h
  exact .head ⟨Level.ne_eof_of_accepts hop, rfl⟩ ((goes_operand _ level).advances.takes _ _ hr)

theorem ArgumentRound.takes (h : ArgumentRound c c') : MovesOn c c' := by
  obtain ⟨hr, hk⟩ := h
  exact .tail ((goes_chain c .sum).advances.takes _ _ hr) ⟨by simp [hk], rfl⟩

/-- **The loop over a sequence ends.** -/
theorem sequence_ends (extent : Extent) (c : Cursor) :
    ∃ d, ReflTransGen (SequenceRound extent) c d ∧ SequenceEnds extent c d := by
  refine loop_ends (fun _ _ => SequenceRound.takes) (fun c => ?_) c
  cases hend : extent.endsAt c with
  | true => exact Or.inl (Or.inl ⟨hend, [], (reads_sequence_end hend).mpr ⟨rfl, rfl⟩⟩)
  | false =>
    by_cases hk : c.cur.kind = .colon
    · refine Or.inr ⟨_, .colon hend hk, fun d hd => ?_⟩
      simpa only [SequenceEnds, reads_sequence_colon hend hk, fails_sequence_colon hend hk] using hd
    · rcases reads_or_fails c.statement with ⟨s, c', hs⟩ | ⟨e, stop, hf⟩
      · refine Or.inr ⟨c', .statement hend hk hs, ?_⟩
        rintro d (⟨hend', ss, hss⟩ | ⟨e, stop, hst, hf⟩)
        · exact Or.inl ⟨hend', s :: ss, (reads_sequence_stmt hend hk).mpr ⟨s, c', ss, hs, hss, rfl⟩⟩
        · exact Or.inr ⟨e, stop, hst, (fails_sequence_stmt hend hk).mpr (Or.inr ⟨s, c', hs, hf⟩)⟩
      · exact Or.inl (Or.inr ⟨e, stop, hf, (fails_sequence_stmt hend hk).mpr (Or.inl hf)⟩)

/-- **The loop over the operators of a level ends.** -/
theorem chainTail_ends (level : Level) (c : Cursor) :
    ∃ d, ReflTransGen (TailRound level) c d ∧ TailEnds level c d := by
  refine loop_ends (fun _ _ => TailRound.takes) (fun c => ?_) c
  cases hop : level.accepts c.cur.kind with
  | false =>
    exact Or.inl fun left => Or.inl ⟨hop, left, (reads_chainTail_of_not hop).mpr ⟨rfl, rfl⟩⟩
  | true =>
    rcases reads_or_fails (c.advance.operand level) with ⟨right, c', hr⟩ | ⟨e, stop, hf⟩
    · refine Or.inr ⟨c', .operator hop hr, fun d hd left => ?_⟩
      rcases hd (level.combine left c.cur right) with ⟨hop', e, he⟩ | ⟨hop', e, stop, hd, hf⟩
      · exact Or.inl ⟨hop', e, (reads_chainTail_of_accepts hop).mpr ⟨right, c', hr, he⟩⟩
      · exact Or.inr ⟨hop', e, stop, hd, fails_chainTail.mpr ⟨hop, Or.inr ⟨right, c', hr, hf⟩⟩⟩
    · exact Or.inl fun left => Or.inr ⟨hop, e, stop, hf, fails_chainTail.mpr ⟨hop, Or.inl hf⟩⟩

/-- **The loop over arguments ends.** -/
theorem arguments_ends (c : Cursor) : ∃ d, ReflTransGen ArgumentRound c d ∧ ArgumentsEnd c d := by
  refine loop_ends (fun _ _ => ArgumentRound.takes) (fun c => ?_) c
  rcases reads_or_fails (c.chain .sum) with ⟨arg, c', hr⟩ | ⟨e, stop, hf⟩
  · by_cases hk : c'.cur.kind = .comma
    · refine Or.inr ⟨_, .argument hr hk, ?_⟩
      rintro d (⟨last, c'', es, hlast, hk', hes⟩ | ⟨e, stop, hd, hf⟩)
      · exact Or.inl ⟨last, c'', arg :: es, hlast, hk',
          reads_arguments.mpr ⟨arg, c', hr, Or.inl ⟨hk, es, hes, rfl⟩⟩⟩
      · exact Or.inr ⟨e, stop, hd, fails_arguments.mpr (Or.inr ⟨arg, c', hr, hk, hf⟩)⟩
    · exact Or.inl (Or.inl ⟨arg, c', [arg], hr, hk,
        reads_arguments.mpr ⟨arg, c', hr, Or.inr ⟨hk, rfl, rfl⟩⟩⟩)
  · exact Or.inl (Or.inr ⟨e, stop, hf, fails_arguments.mpr (Or.inl hf)⟩)

end Rounds

/-! ## Behind a program -/

/-- At the end of the source there is an empty program. -/
theorem program_of_eof {c : Cursor} (h : c.cur.kind = .eof) : c.program = (.ok [], c) := by
  have hend : Extent.program.endsAt c = true := by simp [Extent.endsAt, h]
  rw [program, sequence, if_pos hend]
  rfl

/-- **Behind a program the source ends, and nothing is left to read.** -/
theorem program_again {c c' : Cursor} {p : Program} (h : c.program = (.ok p, c')) :
    c'.cur.kind = .eof ∧ c'.program = (.ok [], c') := by
  obtain ⟨d, -, hends⟩ := sequence_ends .program c
  suffices he : c'.cur.kind = .eof from ⟨he, program_of_eof he⟩
  rcases hends with ⟨hend, ss, _, hss⟩ | ⟨e, stop, -, hf⟩
  · rw [program, hss] at h
    obtain ⟨-, rfl⟩ := Prod.mk.inj h
    simpa [Extent.endsAt] using hend
  · rw [program, hf] at h
    cases (Prod.mk.inj h).1

/-! ## The token in front -/

/-- Two cursors in front of the same token with the same tokens behind it. -/
structure SamePlace (c c' : Cursor) : Prop where
  cur : c'.cur = c.cur
  behind : c'.ahead.tail = c.ahead.tail

theorem SamePlace.refl (c : Cursor) : SamePlace c c :=
  ⟨rfl, rfl⟩

/-- In front of a token other than the end of source, the tokens are the same, so there is no
difference but in what stands in front. -/
theorem SamePlace.exists_cons {c c' : Cursor} (h : SamePlace c c') (hne : c.cur.kind ≠ .eof) :
    ∃ p q t ts, c = ⟨p, t :: ts⟩ ∧ c' = ⟨q, t :: ts⟩ := by
  obtain ⟨last, ahead⟩ := c
  obtain ⟨last', ahead'⟩ := c'
  obtain ⟨hcur, hbehind⟩ := h
  cases ahead with
  | nil => exact absurd rfl hne
  | cons t ts =>
    cases ahead' with
    | nil => exact absurd (congrArg Token.kind hcur).symm hne
    | cons t' ts' =>
      obtain rfl : t' = t := hcur
      obtain rfl : ts' = ts := hbehind
      exact ⟨last, last', t', ts', rfl, rfl⟩

end Cursor

open Cursor (SamePlace)

/-- **Two readings agree**: they find the same and stop at the same cursor, or they meet the same
fault in the same place. -/
inductive Reading.Agree {α : Type} {m n : Nat} : Reading α m → Reading α n → Prop where
  | ok (value : α) (rest : Cursor) (h : rest.size < m) (h' : rest.size < n) :
      Agree (.ok value rest h) (.ok value rest h')
  | error (e : SyntaxError) {stop stop' : Cursor} (place : SamePlace stop stop') :
      Agree (.error e stop) (.error e stop')

namespace Reading.Agree

variable {α β : Type} {k l m n : Nat} {r : Reading α m} {r' : Reading α n}

theorem relax (h : Agree r r') (hk : m ≤ k) (hl : n ≤ l) : Agree (r.relax hk) (r'.relax hl) := by
  cases h with
  | ok value rest _ _ => exact .ok value rest _ _
  | error e place => exact .error e place

theorem andThen {f : (value : α) → (rest : Cursor) → rest.size < m → Reading β m}
    {f' : (value : α) → (rest : Cursor) → rest.size < n → Reading β n} (h : Agree r r')
    (hf : ∀ v c hm hn, Agree (f v c hm) (f' v c hn)) : Agree (r.andThen f) (r'.andThen f') := by
  cases h with
  | ok value rest hm hn => exact hf value rest hm hn
  | error e place => exact .error e place

theorem refl (r : Reading α n) : Agree r r := by
  cases r with
  | ok value rest h => exact .ok value rest h h
  | error e stop => exact .error e (SamePlace.refl stop)

/-- What is read agrees in both cases. -/
theorem dite {P : Prop} [Decidable P] {a : P → Reading α m} {b : ¬ P → Reading α m}
    {a' : P → Reading α n} {b' : ¬ P → Reading α n} (ha : ∀ h, Agree (a h) (a' h))
    (hb : ∀ h, Agree (b h) (b' h)) :
    Agree (if h : P then a h else b h) (if h : P then a' h else b' h) := by
  split
  · exact ha _
  · exact hb _

theorem result (h : Agree r r') :
    r'.result.1 = r.result.1 ∧ SamePlace r.result.2 r'.result.2 := by
  cases h with
  | ok value rest _ _ => exact ⟨rfl, .refl rest⟩
  | error e place => exact ⟨rfl, place⟩

end Reading.Agree

open Reading (Agree)

namespace Cursor

section Agree

variable {p q : Position} {t : Token} {ts : List Token}

/-- A statement moves on from its first token before it looks at the one in front. -/
theorem statement_agree : Agree (statement ⟨p, t :: ts⟩) (statement ⟨q, t :: ts⟩) := by
  by_cases hname : t.kind = .identifier
  · have hp : (cur ⟨p, t :: ts⟩).kind = .identifier := hname
    have hq : (cur ⟨q, t :: ts⟩).kind = .identifier := hname
    rw [statement_name hp (by simp [hp]), statement_name hq (by simp [hq])]
    exact .dite (fun _ => .refl _) fun _ => .dite (fun _ => .refl _) fun _ => .error _ ⟨rfl, rfl⟩
  · have hp : (cur ⟨p, t :: ts⟩).kind ≠ .identifier := hname
    have hq : (cur ⟨q, t :: ts⟩).kind ≠ .identifier := hname
    rw [statement.eq_1 ⟨p, t :: ts⟩, statement.eq_1 ⟨q, t :: ts⟩, dif_neg hp, dif_neg hq]
    exact .dite (fun _ => .refl _) fun _ => .dite (fun _ => .refl _) fun _ => .error _ ⟨rfl, rfl⟩

theorem sequence_agree (hne : t.kind ≠ .eof) :
    Agree (sequence ⟨p, t :: ts⟩ .program) (sequence ⟨q, t :: ts⟩ .program) := by
  have hend (r : Position) : ¬ Extent.program.endsAt ⟨r, t :: ts⟩ = true := by
    have hcur : (cur ⟨r, t :: ts⟩).kind ≠ .eof := hne
    simpa [Extent.endsAt] using hcur
  rw [sequence.eq_1 ⟨p, t :: ts⟩, sequence.eq_1 ⟨q, t :: ts⟩, if_neg (hend p), if_neg (hend q)]
  refine .dite (fun _ => .refl _) fun _ => .relax (statement_agree.andThen ?_) _ _
  exact fun _ _ _ _ => .refl _

end Agree

/-- **What is read as a program does not depend on the token in front.** -/
theorem program_agree {c c' : Cursor} (h : SamePlace c c') :
    c'.program.1 = c.program.1 ∧ SamePlace c.program.2 c'.program.2 := by
  by_cases he : c.cur.kind = .eof
  · rw [program_of_eof he, program_of_eof (h.cur ▸ he)]
    exact ⟨rfl, h⟩
  · obtain ⟨p, q, t, ts, rfl, rfl⟩ := h.exists_cons he
    exact Agree.result (sequence_agree he)

end Cursor

open Cursor

/-- **Reading gets on and never goes past the end of the source.** From every cursor, a statement, a
factor and an expression of any level take at least one token if they are there. Whatever is called
only takes tokens off the front, none of them an end of source. The loops over statements, operators
and arguments take a token in every round and come to their ends. Behind a program the source ends,
and reading again finds an empty program and stays. What is read as a program does not depend on the
token in front of the cursor. -/
theorem parse_progress :
    (∀ c : Cursor, Advances c c.statement ∧ Advances c c.factor ∧
      ∀ level, Advances c (c.chain level) ∧ Advances c (c.operand level)) ∧
    (∀ c : Cursor, Moves c c.program.2 ∧ Goes c c.block ∧ Goes c c.argumentList ∧
      (∀ extent, Goes c (c.sequence extent)) ∧ (∀ level left, Goes c (c.chainTail level left)) ∧
      (∀ h, Goes c (c.assignment h) ∧ Goes c (c.call h) ∧ Goes c (c.header h)) ∧
      ∀ kind ≠ .eof, Goes c (c.expect kind)) ∧
    (∀ c c' : Cursor, Moves c c' → ∃ ts, c.ahead = ts ++ c'.ahead ∧ ∀ t ∈ ts, t.kind ≠ .eof) ∧
    (∀ extent c, (∀ c', SequenceRound extent c c' → MovesOn c c') ∧
      ∃ d, ReflTransGen (SequenceRound extent) c d ∧ SequenceEnds extent c d) ∧
    (∀ level c, (∀ c', TailRound level c c' → MovesOn c c') ∧
      ∃ d, ReflTransGen (TailRound level) c d ∧ TailEnds level c d) ∧
    (∀ c, (∀ c', ArgumentRound c c' → MovesOn c c') ∧
      ∃ d, ReflTransGen ArgumentRound c d ∧ ArgumentsEnd c d) ∧
    (∀ (c c' : Cursor) (p : Program), c.program = (.ok p, c') →
      c'.cur.kind = .eof ∧ c'.program = (.ok [], c')) ∧
    ∀ c c' : Cursor, SamePlace c c' →
      c'.program.1 = c.program.1 ∧ SamePlace c.program.2 c'.program.2 := by
  refine ⟨fun c => ?_, fun c => ?_, fun _ _ => Moves.ahead_eq, fun extent c => ?_,
    fun level c => ?_, fun c => ?_, fun _ _ _ => program_again, fun _ _ => program_agree⟩
  · exact ⟨(goes_statement c).advances, (goes_factor c).advances,
      fun level => ⟨(goes_chain c level).advances, (goes_operand c level).advances⟩⟩
  · exact ⟨goes_sequence c .program, goes_block c, goes_argumentList c, goes_sequence c,
      goes_chainTail c, fun h => ⟨goes_assignment h, goes_call h, goes_header h⟩,
      fun _ => goes_expect⟩
  · exact ⟨fun _ => SequenceRound.takes, sequence_ends extent c⟩
  · exact ⟨fun _ => TailRound.takes, chainTail_ends level c⟩
  · exact ⟨fun _ => ArgumentRound.takes, arguments_ends c⟩

/-- A stream with an end of source in the middle. -/
def splitStream : List Token :=
  [.plain .identifier "x" ⟨0, 1, 1⟩, .plain .assign "=" ⟨2, 1, 3⟩, ⟨.number, "1", 1, ⟨4, 1, 5⟩⟩,
   .eofAt ⟨5, 1, 6⟩, .plain .identifier "y" ⟨6, 1, 7⟩]

/-- The cursor in front of the end of source in the middle. -/
def atSplit : Cursor :=
  ⟨⟨4, 1, 5⟩, splitStream.drop 3⟩

/-- What stands in front of an end of source is read once, and what stands behind it is not. -/
theorem parse_progress_split :
    (ofTokens splitStream).program = (.ok [.assign (.plain .identifier "x" ⟨0, 1, 1⟩)
      (.leaf ⟨.number, "1", 1, ⟨4, 1, 5⟩⟩)], atSplit) ∧
    atSplit.program = (.ok [], atSplit) ∧
    (∃ ts, splitStream = ts ++ atSplit.ahead ∧ ∀ t ∈ ts, t.kind ≠ .eof) ∧
    (⟨⟨9, 9, 9⟩, splitStream⟩ : Cursor).program.1 = (ofTokens splitStream).program.1 := by
  obtain ⟨-, hmoves, hahead, -, -, -, hagain, hplace⟩ := parse_progress
  have hread : (ofTokens splitStream).program = (.ok [.assign (.plain .identifier "x" ⟨0, 1, 1⟩)
      (.leaf ⟨.number, "1", 1, ⟨4, 1, 5⟩⟩)], atSplit) := by decide +kernel
  have hmove := (hmoves (ofTokens splitStream)).1
  rw [hread] at hmove
  exact ⟨hread, (hagain _ _ _ hread).2, hahead _ _ hmove,
    (hplace (ofTokens splitStream) ⟨⟨9, 9, 9⟩, splitStream⟩ ⟨rfl, rfl⟩).1⟩

end Offside
