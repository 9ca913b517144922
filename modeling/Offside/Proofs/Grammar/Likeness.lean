import Offside.Proofs.Fault.Fails
import Offside.Proofs.Lexer.Simulation
import Offside.Proofs.Render.Basic

/-!
# Streams that are read alike

`parseTokens` on two streams of tokens that differ in their positions only.

The parser looks at the kinds of tokens, and at their lines where an inline suite may end. It
compares two lines only, that of the next token and that of the token in front of it, and only
outside parentheses. So streams whose tokens are the same up to their positions are read alike, if
these comparisons come out the same.

A relation between cursors that allows for this is a `Likeness`. It is indexed by the number of open
parentheses, which readings leave as they found it. What is compared in the end are phrases and
faults with their positions seen through a map `f`, for which `Token.relocate` stands.

* `Reading.Paired` says that two readings have the same outcome; `Reading.Paired.andThen` and the
  lemmas beside it follow how readings are put together, so that each function of the parser is one
  short proof.
* `Beside` is the likeness of two streams whose lines differ by a constant.
* `SameOutcome` compares what comes out in the end.

Results:
* `chain_paired`, `argumentList_paired`: expressions and arguments are read alike.
* `statement_paired`, `block_paired`, `sequence_paired`: so are statements, blocks and sequences.
* `likeness_beside`: tokens that are alike cannot be told apart if their lines differ by a constant.
* `parseTokens_alike`: the programs or the faults of two streams of tokens on the same lines.
* `parse_alike`: so for two sources whose tokens stand on the same lines.
-/

namespace Offside

/-! ## Positions seen through a map -/

/-- The syntax error with its token moved. -/
def SyntaxError.relocate (f : Position → Position) (e : SyntaxError) : SyntaxError :=
  { e with got := e.got.relocate f }

/-- The fault with its place moved. -/
def SourceError.relocate (f : Position → Position) : SourceError → SourceError
  | .lexical e => .lexical (e.relocate f)
  | .grammar e => .grammar (e.relocate f)

/-- The program with all its tokens moved. -/
def Program.relocate (f : Position → Position) (p : Program) : Program :=
  Stmt.mapAll (Token.relocate f) p

/-! ## Pairs of cursors -/

/-- **A relation between cursors that parsing cannot tell apart.** They show the same tokens up to
positions, and outside parentheses the next token is on the line of the token in front of it for
both or for neither. -/
structure Likeness (f : Position → Position) (R : Nat → Cursor → Cursor → Prop) : Prop where
  cur : ∀ {depth : Nat} {c c' : Cursor}, R depth c c' → c'.cur.relocate f = c.cur.relocate f
  advance : ∀ {depth : Nat} {c c' : Cursor}, R depth c c' →
    R (Lexer.depthAfter depth c.cur.kind) c.advance c'.advance
  line : ∀ {c c' : Cursor}, R 0 c c' →
    (c'.cur.pos.line = c'.last.line ↔ c.cur.pos.line = c.last.line)

namespace Likeness

variable {f : Position → Position} {R : Nat → Cursor → Cursor → Prop} {depth : Nat} {c c' : Cursor}

theorem kind_eq (h : Likeness f R) (hc : R depth c c') : c'.cur.kind = c.cur.kind := by
  have hcur := congrArg Token.kind (h.cur hc)
  exact hcur

/-- Moving on from a token of a known kind. -/
theorem pass (h : Likeness f R) (hc : R depth c c') {kind : Kind} (hk : c.cur.kind = kind) :
    R (Lexer.depthAfter depth kind) c.advance c'.advance :=
  hk ▸ h.advance hc

/-- A sequence ends for both or for neither. -/
theorem endsAt_eq (h : Likeness f R) (hc : R 0 c c') (extent : Extent) :
    extent.endsAt c' = extent.endsAt c := by
  cases extent with
  | program => simp only [Extent.endsAt, h.kind_eq hc]
  | inline =>
    have hline : (c'.cur.pos.line != c'.last.line) = (c.cur.pos.line != c.last.line) := by
      rw [Bool.eq_iff_iff, bne_iff_ne, bne_iff_ne]
      exact not_congr (h.line hc)
    simp only [Extent.endsAt, h.kind_eq hc, hline]
  | indented => simp only [Extent.endsAt, h.kind_eq hc]

end Likeness

/-! ## Pairs of readings -/

/-- **Two readings with the same outcome**: what was found is the same as far as `g` shows, and the
cursors behind it are related by `S`; or the faults are the same up to positions. -/
inductive Reading.Paired {α β : Type} (g : α → β) (f : Position → Position)
    (S : Cursor → Cursor → Prop) {m n : Nat} : Reading α m → Reading α n → Prop where
  | ok {v w : α} {c c' : Cursor} {hc : c.size < m} {hc' : c'.size < n} (value : g w = g v)
      (rest : S c c') : Paired g f S (.ok v c hc) (.ok w c' hc')
  | error {e e' : SyntaxError} {stop stop' : Cursor} (fault : e'.relocate f = e.relocate f) :
      Paired g f S (.error e stop) (.error e' stop')

namespace Reading.Paired

variable {α β γ δ : Type} {g : α → β} {g' : γ → δ} {f : Position → Position}
  {S S' : Cursor → Cursor → Prop} {m n k l : Nat} {r : Reading α m} {r' : Reading α n}

theorem relax (h : Paired g f S r r') (hk : m ≤ k) (hl : n ≤ l) :
    Paired g f S (r.relax hk) (r'.relax hl) := by
  cases h with
  | ok value rest => exact .ok value rest
  | error fault => exact .error fault

theorem map {u u' : α → γ} (h : Paired g f S r r')
    (hu : ∀ v w, g w = g v → g' (u' w) = g' (u v)) : Paired g' f S (r.map u) (r'.map u') := by
  cases h with
  | ok value rest => exact .ok (hu _ _ value) rest
  | error fault => exact .error fault

/-- **Readings in two parts are paired part by part.** -/
theorem andThen {u : (value : α) → (rest : Cursor) → rest.size < m → Reading γ m}
    {u' : (value : α) → (rest : Cursor) → rest.size < n → Reading γ n} (h : Paired g f S r r')
    (hu : ∀ v w c c' (hc : c.size < m) (hc' : c'.size < n), g w = g v → S c c' →
      Paired g' f S' (u v c hc) (u' w c' hc')) :
    Paired g' f S' (r.andThen u) (r'.andThen u') := by
  cases h with
  | ok value rest => exact hu _ _ _ _ _ _ value rest
  | error fault => exact .error fault

end Reading.Paired

/-- Operators are no parentheses. -/
theorem Level.depthAfter_of_accepts {level : Level} {kind : Kind} (h : level.accepts kind = true)
    (depth : Nat) : Lexer.depthAfter depth kind = depth := by
  cases kind <;> first | rfl | (cases level <;> cases h)

/-- An operator between two expressions that are moved. -/
theorem Level.combine_mapTokens (level : Level) (g : Token → Token) (left : Expr) (op : Token)
    (right : Expr) : (level.combine left op right).mapTokens g =
      level.combine (left.mapTokens g) (g op) (right.mapTokens g) := by
  cases level <;> rfl

namespace Cursor

open Reading (Paired)

variable {f : Position → Position} {R : Nat → Cursor → Cursor → Prop}

theorem expect_paired (L : Likeness f R) {depth : Nat} {c c' : Cursor} (h : R depth c c')
    (kind : Kind) : Paired (Token.relocate f) f (R (Lexer.depthAfter depth kind)) (c.expect kind)
      (c'.expect kind) := by
  have hk := L.kind_eq h
  unfold expect
  split
  · next he =>
    rw [if_pos (hk.trans he)]
    exact .ok (L.cur h) (L.pass h he)
  · next he =>
    rw [if_neg (hk ▸ he)]
    exact .error (congrArg (SyntaxError.mk · [kind] []) (L.cur h))

/-- A token that begins no construct is a fault for both. -/
theorem wrongStart_paired {α β : Type} {g : α → β} {S : Cursor → Cursor → Prop} {m n : Nat}
    (L : Likeness f R) {depth : Nat} {c c' : Cursor} (h : R depth c c') (rule : Text) :
    Paired g f S (.error (.wrongStart c.cur rule) c : Reading α m)
      (.error (.wrongStart c'.cur rule) c' : Reading α n) :=
  .error (congrArg (SyntaxError.mk · [] rule) (L.cur h))

/-! ## Expressions -/

mutual

/-- **Chains are read alike.** -/
theorem chain_paired (L : Likeness f R) (c : Cursor) (level : Level) {depth : Nat} {c' : Cursor}
    (h : R depth c c') : Paired (Expr.mapTokens (Token.relocate f)) f (R depth) (c.chain level)
      (c'.chain level) := by
  rw [chain.eq_1 level c, chain.eq_1 level c']
  refine (operand_paired L c level h).andThen fun left left' c₁ c₁' h₁ _ hleft hc => ?_
  exact (chainTail_paired L c₁ level hleft hc).relax _ _
termination_by 8 * c.size + level.rank + 1
decreasing_by
  · omega
  · have : level.rank ≤ 5 := by cases level <;> simp [Level.rank]
    omega

theorem operand_paired (L : Likeness f R) (c : Cursor) (level : Level) {depth : Nat} {c' : Cursor}
    (h : R depth c c') : Paired (Expr.mapTokens (Token.relocate f)) f (R depth) (c.operand level)
      (c'.operand level) := by
  match level with
  | .comparison =>
    rw [operand, operand]
    exact chain_paired L c .sum h
  | .sum =>
    rw [operand, operand]
    exact chain_paired L c .product h
  | .product =>
    rw [operand, operand]
    exact factor_paired L c h
termination_by 8 * c.size + level.rank
decreasing_by all_goals simp only [Level.rank]; omega

theorem factor_paired (L : Likeness f R) (c : Cursor) {depth : Nat} {c' : Cursor}
    (h : R depth c c') : Paired (Expr.mapTokens (Token.relocate f)) f (R depth) c.factor
      c'.factor := by
  have hk := L.kind_eq h
  rw [factor.eq_1 c, factor.eq_1 c']
  by_cases hleaf : c.cur.kind = .number ∨ c.cur.kind = .identifier
  · rw [dif_pos hleaf, dif_pos (hk ▸ hleaf)]
    refine .ok (congrArg Expr.leaf (L.cur h)) ?_
    rcases hleaf with hk | hk
    · exact L.pass h hk
    · exact L.pass h hk
  · have hleaf' : ¬ (c'.cur.kind = .number ∨ c'.cur.kind = .identifier) := by rwa [hk]
    rw [dif_neg hleaf, dif_neg hleaf']
    by_cases hopen : c.cur.kind = .openParen
    · have hlt := c.advance_size_lt (by simp [hopen])
      rw [dif_pos hopen, dif_pos (hk.trans hopen)]
      refine ((chain_paired L c.advance .sum (L.pass h hopen)).andThen
        fun inner inner' c₁ c₁' _ _ hinner hc => ?_).relax _ _
      exact ((expect_paired L hc .closeParen).map fun _ _ _ => hinner).relax _ _
    · rw [dif_neg hopen, dif_neg (hk ▸ hopen)]
      exact wrongStart_paired L h _
termination_by 8 * c.size
decreasing_by simp only [Level.rank]; omega

theorem chainTail_paired (L : Likeness f R) (c : Cursor) (level : Level) {depth : Nat}
    {c' : Cursor} {left left' : Expr}
    (hleft : left'.mapTokens (Token.relocate f) = left.mapTokens (Token.relocate f))
    (h : R depth c c') : Paired (Expr.mapTokens (Token.relocate f)) f (R depth)
      (c.chainTail level left) (c'.chainTail level left') := by
  have hk := L.kind_eq h
  rw [chainTail.eq_1 level left c, chainTail.eq_1 level left' c']
  split
  · next hop =>
    have hlt := c.advance_size_lt (Level.ne_eof_of_accepts hop)
    have hpass := L.advance h
    rw [Level.depthAfter_of_accepts hop] at hpass
    rw [dif_pos (hk ▸ hop)]
    refine ((operand_paired L c.advance level hpass).andThen
      fun right right' c₁ c₁' h₁ _ hright hc => ?_).relax _ _
    refine (chainTail_paired L c₁ level ?_ hc).relax _ _
    rw [Level.combine_mapTokens, Level.combine_mapTokens, hleft, hright, L.cur h]
  · next hop =>
    rw [dif_neg (hk ▸ hop)]
    exact .ok hleft h
termination_by 8 * c.size + 7
decreasing_by
  · have : level.rank ≤ 5 := by cases level <;> simp [Level.rank]
    omega
  · omega

end

theorem arguments_paired (L : Likeness f R) (c : Cursor) {depth : Nat} {c' : Cursor}
    (h : R depth c c') : Paired (List.map (Expr.mapTokens (Token.relocate f))) f (R depth)
      c.arguments c'.arguments := by
  rw [arguments.eq_1 c, arguments.eq_1 c']
  refine (chain_paired L c .sum h).andThen fun arg arg' c₁ c₁' h₁ _ harg hc => ?_
  have hk := L.kind_eq hc
  split
  · next hcomma =>
    have hlt := c₁.advance_size_lt (by simp [hcomma])
    rw [dif_pos (hk.trans hcomma)]
    refine ((arguments_paired L c₁.advance (L.pass hc hcomma)).map fun v w hvw => ?_).relax _ _
    rw [List.map_cons, List.map_cons, harg, hvw]
  · next hcomma =>
    rw [dif_neg (hk ▸ hcomma)]
    exact .ok (congrArg (fun e => [e]) harg) hc
termination_by c.size

/-- **Arguments are read alike.** -/
theorem argumentList_paired (L : Likeness f R) {depth : Nat} {c c' : Cursor} (h : R depth c c') :
    Paired (List.map (Expr.mapTokens (Token.relocate f))) f (R depth) c.argumentList
      c'.argumentList := by
  have hk := L.kind_eq h
  unfold argumentList
  split
  · next hclose =>
    rw [if_pos (hk.trans hclose)]
    exact .ok rfl h
  · next hclose =>
    rw [if_neg (hk ▸ hclose)]
    exact (arguments_paired L c h).relax _ _

/-! ## Statements -/

theorem assignment_paired (L : Likeness f R) {c c' : Cursor} (h : R 0 c c')
    (hk : c.cur.kind = .identifier) (hne : c.cur.kind ≠ .eof) (hne' : c'.cur.kind ≠ .eof) :
    Paired (Stmt.mapTokens (Token.relocate f)) f (R 0) (c.assignment hne) (c'.assignment hne') := by
  unfold assignment
  refine ((expect_paired L (L.pass h hk) .assign).relax _ _).andThen
    fun _ _ c₁ c₁' _ _ _ hc => ?_
  refine ((chain_paired L c₁ .sum hc).map fun v w hvw => ?_).relax _ _
  rw [Stmt.mapTokens, Stmt.mapTokens, L.cur h, hvw]

theorem call_paired (L : Likeness f R) {c c' : Cursor} (h : R 0 c c')
    (hk : c.cur.kind = .identifier) (hne : c.cur.kind ≠ .eof) (hne' : c'.cur.kind ≠ .eof) :
    Paired (Stmt.mapTokens (Token.relocate f)) f (R 0) (c.call hne) (c'.call hne') := by
  unfold call
  refine ((expect_paired L (L.pass h hk) .openParen).relax _ _).andThen
    fun _ _ c₁ c₁' _ _ _ hc₁ => ?_
  refine ((argumentList_paired L hc₁).relax _ _).andThen fun args args' c₂ c₂' _ _ hargs hc₂ => ?_
  refine ((expect_paired L hc₂ .closeParen).map fun _ _ _ => ?_).relax _ _
  rw [Stmt.mapTokens, Stmt.mapTokens, L.cur h, hargs]

theorem header_paired (L : Likeness f R) {c c' : Cursor} (hpass : R 0 c.advance c'.advance)
    (hne : c.cur.kind ≠ .eof) (hne' : c'.cur.kind ≠ .eof) :
    Paired (Expr.mapTokens (Token.relocate f)) f (R 0) (c.header hne) (c'.header hne') := by
  unfold header
  refine ((chain_paired L c.advance .comparison hpass).relax _ _).andThen
    fun cond cond' c₁ c₁' _ _ hcond hc => ?_
  exact ((expect_paired L hc .colon).map fun _ _ _ => hcond).relax _ _

/-- What a name begins is told by the token behind it. -/
theorem statement_name {c : Cursor} (hk : c.cur.kind = .identifier) (hne : c.cur.kind ≠ .eof) :
    c.statement =
      if c.advance.cur.kind = .assign then c.assignment hne
      else if c.advance.cur.kind = .openParen then c.call hne
      else .error (.wrongKind c.advance.cur [.assign, .openParen]) c := by
  have hcur := advance_cur hne
  rw [statement, dif_pos hk]
  split
  · next hnone =>
    rw [hnone, Option.getD_none] at hcur
    rw [hcur]
    rfl
  · next t hsome =>
    rw [hsome, Option.getD_some] at hcur
    rw [hcur]

theorem name_paired (L : Likeness f R) {c c' : Cursor} (h : R 0 c c')
    (hk : c.cur.kind = .identifier) :
    Paired (Stmt.mapTokens (Token.relocate f)) f (R 0) c.statement c'.statement := by
  have hk' : c'.cur.kind = .identifier := (L.kind_eq h).trans hk
  have hne : c.cur.kind ≠ .eof := by simp [hk]
  have hne' : c'.cur.kind ≠ .eof := by simp [hk']
  have hpass : R 0 c.advance c'.advance := L.pass h hk
  have hkind := L.kind_eq hpass
  rw [statement_name hk hne, statement_name hk' hne', hkind]
  split
  · exact assignment_paired L h hk hne hne'
  · split
    · exact call_paired L h hk hne hne'
    · exact .error (congrArg (SyntaxError.mk · [.assign, .openParen] []) (L.cur hpass))

mutual

/-- **Statements are read alike.** -/
theorem statement_paired (L : Likeness f R) (c : Cursor) {c' : Cursor} (h : R 0 c c') :
    Paired (Stmt.mapTokens (Token.relocate f)) f (R 0) c.statement c'.statement := by
  have hk := L.kind_eq h
  by_cases hname : c.cur.kind = .identifier
  · exact name_paired L h hname
  have hname' : ¬ c'.cur.kind = .identifier := by rwa [hk]
  rw [statement.eq_1 c, statement.eq_1 c', dif_neg hname, dif_neg hname']
  by_cases hif : c.cur.kind = .ifWord
  · rw [dif_pos hif, dif_pos (hk.trans hif)]
    refine (header_paired L (L.pass h hif) _ _).andThen
      fun test test' c₁ c₁' h₁ _ htest hc₁ => ?_
    refine ((block_paired L c₁ hc₁).relax _ _).andThen fun body body' c₂ c₂' h₂ _ hbody hc₂ => ?_
    have hk₂ := L.kind_eq hc₂
    by_cases helse : c₂.cur.kind = .elseWord
    · rw [if_pos helse, if_pos (hk₂.trans helse)]
      refine ((expect_paired L (L.pass hc₂ helse) .colon).relax _ _).andThen
        fun _ _ c₃ c₃' h₃ _ _ hc₃ => ?_
      refine ((block_paired L c₃ hc₃).map fun alt alt' halt => ?_).relax _ _
      rw [Stmt.mapTokens, Stmt.mapTokens, htest, hbody, halt]
    · rw [if_neg helse, if_neg (hk₂ ▸ helse)]
      refine .ok ?_ hc₂
      rw [Stmt.mapTokens, Stmt.mapTokens, htest, hbody]
  have hif' : ¬ c'.cur.kind = .ifWord := by rwa [hk]
  rw [dif_neg hif, dif_neg hif']
  by_cases hloop : c.cur.kind = .whileWord
  · rw [dif_pos hloop, dif_pos (hk.trans hloop)]
    refine (header_paired L (L.pass h hloop) _ _).andThen
      fun test test' c₁ c₁' h₁ _ htest hc₁ => ?_
    refine ((block_paired L c₁ hc₁).map fun body body' hbody => ?_).relax _ _
    rw [Stmt.mapTokens, Stmt.mapTokens, htest, hbody]
  · have hloop' : ¬ c'.cur.kind = .whileWord := by rwa [hk]
    rw [dif_neg hloop, dif_neg hloop']
    exact wrongStart_paired L h _
termination_by 3 * c.size

/-- **Blocks are read alike.** -/
theorem block_paired (L : Likeness f R) (c : Cursor) {c' : Cursor} (h : R 0 c c') :
    Paired (Stmt.mapAll (Token.relocate f)) f (R 0) c.block c'.block := by
  have hk := L.kind_eq h
  rw [block.eq_1 c, block.eq_1 c']
  by_cases hindent : c.cur.kind = .indent
  · have hlt := c.advance_size_lt (by simp [hindent])
    rw [dif_pos hindent, dif_pos (hk.trans hindent)]
    refine ((sequence_paired L c.advance .indented (L.pass h hindent)).andThen
      fun body body' c₁ c₁' h₁ _ hbody hc₁ => ?_).relax _ _
    have hk₁ := L.kind_eq hc₁
    by_cases heof : c₁.cur.kind = .eof
    · rw [if_pos heof, if_pos (hk₁.trans heof)]
      exact .ok hbody hc₁
    · rw [if_neg heof, if_neg (hk₁ ▸ heof)]
      exact ((expect_paired L hc₁ .dedent).map fun _ _ _ => hbody).relax _ _
  · rw [dif_neg hindent, dif_neg (hk ▸ hindent)]
    exact sequence_paired L c .inline h
termination_by 3 * c.size + 2

/-- **Sequences are read alike.** -/
theorem sequence_paired (L : Likeness f R) (c : Cursor) (extent : Extent) {c' : Cursor}
    (h : R 0 c c') : Paired (Stmt.mapAll (Token.relocate f)) f (R 0) (c.sequence extent)
      (c'.sequence extent) := by
  have hk := L.kind_eq h
  have hends := L.endsAt_eq h extent
  rw [sequence.eq_1 c extent, sequence.eq_1 c' extent, hends]
  by_cases hend : extent.endsAt c = true
  · rw [if_pos hend, if_pos hend]
    exact .ok rfl h
  rw [if_neg hend, if_neg hend]
  by_cases hcolon : c.cur.kind = .colon
  · have hlt := c.advance_size_lt (by simp [hcolon])
    rw [dif_pos hcolon, dif_pos (hk.trans hcolon)]
    exact (sequence_paired L c.advance extent (L.pass h hcolon)).relax _ _
  · rw [dif_neg hcolon, dif_neg (hk ▸ hcolon)]
    refine ((statement_paired L c h).andThen fun s s' c₁ c₁' h₁ _ hs hc₁ => ?_).relax _ _
    refine ((sequence_paired L c₁ extent hc₁).map fun ss ss' hss => ?_).relax _ _
    rw [Stmt.mapAll, Stmt.mapAll, hs, hss]
termination_by 3 * c.size + 1

end

/-! ## Tokens that are alike -/

/-- Two cursors in front of tokens that are alike. -/
structure Beside (P : Position → Position → Prop) (c c' : Cursor) : Prop where
  last : P c.last c'.last
  ahead : List.Forall₂ (Token.Alike P) c.ahead c'.ahead

variable {P : Position → Position → Prop} {c c' : Cursor}

theorem Beside.cur (h : Beside P c c') : c.cur.Alike P c'.cur := by
  obtain ⟨last, ahead⟩ := c
  obtain ⟨last', ahead'⟩ := c'
  obtain ⟨hlast, hahead⟩ := h
  cases hahead with
  | nil => exact ⟨rfl, rfl, rfl, hlast⟩
  | cons ht _ => exact ht

theorem Beside.advance (h : Beside P c c') : Beside P c.advance c'.advance := by
  obtain ⟨last, ahead⟩ := c
  obtain ⟨last', ahead'⟩ := c'
  obtain ⟨hlast, hahead⟩ := h
  cases hahead with
  | nil => exact ⟨hlast, .nil⟩
  | cons ht hts => exact ⟨ht.pos, hts⟩

/-- **Tokens that are alike cannot be told apart** if their lines differ by a constant. -/
theorem likeness_beside {k : Int} (hf : ∀ p q, P p q → f q = f p)
    (hline : ∀ p q, P p q → q.line = p.line + k) : Likeness f fun _ => Beside P where
  cur h := h.cur.relocate_eq hf
  advance h := h.advance
  line h := by
    rw [hline _ _ h.cur.pos, hline _ _ h.last]
    exact Int.add_left_inj k

end Cursor

/-! ## Outcomes -/

/-- **Two outcomes that are not told apart**: results that `g` makes the same, or faults that `h`
does. -/
inductive SameOutcome {α β γ δ : Type} (g : α → β) (h : γ → δ) :
    Except γ α → Except γ α → Prop where
  | ok {v w : α} (value : g w = g v) : SameOutcome g h (.ok v) (.ok w)
  | error {e e' : γ} (fault : h e' = h e) : SameOutcome g h (.error e) (.error e')

/-- What comes out of two readings that are paired. -/
theorem Reading.Paired.sameOutcome {α β : Type} {g : α → β} {f : Position → Position}
    {S : Cursor → Cursor → Prop} {m n : Nat} {r : Reading α m} {r' : Reading α n}
    (h : Paired g f S r r') : SameOutcome g (SyntaxError.relocate f) r.result.1 r'.result.1 := by
  cases h with
  | ok value _ => exact .ok value
  | error fault => exact .error fault

/-- **Tokens that are alike and stand on the same lines spell the same program**, or show the same
fault. -/
theorem parseTokens_alike {P : Position → Position → Prop} {f : Position → Position}
    {ts us : List Token} (h : List.Forall₂ (Token.Alike P) ts us) (hunset : P .unset .unset)
    (hf : ∀ p q, P p q → f q = f p) (hline : ∀ p q, P p q → q.line = p.line) :
    SameOutcome (Program.relocate f) (SyntaxError.relocate f)
      (parseTokens ts) (parseTokens us) := by
  have L := Cursor.likeness_beside (k := 0) hf fun p q hp => by rw [hline p q hp, Int.add_zero]
  have hstart : Cursor.Beside P (.ofTokens ts) (.ofTokens us) := ⟨hunset, h⟩
  exact (Cursor.sequence_paired L (.ofTokens ts) .program hstart).sameOutcome

/-- **Sources that are cut into tokens on the same lines spell the same program**, or have the same
fault. -/
theorem parse_alike {P Q : Position → Position → Prop} {f : Position → Position}
    {tab tab' : TabWidth} {src src' : Text}
    (h : Lexer.Outcomes P Q (tokenize tab src) (tokenize tab' src')) (hPQ : ∀ p q, P p q → Q p q)
    (hunset : Q .unset .unset) (hf : ∀ p q, Q p q → f q = f p)
    (hline : ∀ p q, Q p q → q.line = p.line) :
    SameOutcome (Program.relocate f) (SourceError.relocate f)
      (parse tab src) (parse tab' src') := by
  unfold parse
  generalize tokenize tab src = x, tokenize tab' src' = y at h
  cases h with
  | @ok ts us tokens =>
    have hparse := parseTokens_alike (tokens.forall₂ hPQ) hunset hf hline
    simp only
    generalize parseTokens ts = x, parseTokens us = y at hparse
    cases hparse with
    | ok value => exact .ok value
    | error fault => exact .error (congrArg SourceError.grammar fault)
  | error alike =>
    exact .error (congrArg SourceError.lexical
      (alike.relocate_eq fun p q hp => hf p q (hPQ p q hp)))

end Offside
