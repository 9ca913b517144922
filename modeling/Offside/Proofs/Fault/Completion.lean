import Offside.Proofs.Fault.Place

/-!
# What was read before a fault can be completed

The first half of a statement about syntax errors (specification, 7): the tokens in front of the
error are the beginning of something that the grammar accepts. The other half is in
`Proofs/Fault/Local`.

Where reading stops, the tokens in front of the fault are the beginning of a phrase, and a few more
tokens make a whole phrase of them. Four kinds of token are enough for that (`fillers`): an equals
sign and a number behind a name, a number for an operand, a closing parenthesis and a colon. Only
the kinds matter, not the texts or the positions of the tokens.

* `Completable` says that some tokens become a good phrase with further tokens of certain kinds.
* `Stops` says that reading stops behind tokens that can be completed and shows the next token.
  `Stops.missing`, `Stops.extend` and `Stops.within` build it up as a phrase is built: one token is
  missing, the last part is completed, a part in the middle is.
* `EndsPlain` says that tokens end with one that is no marker. It is what is known at the end of a
  source, where nothing but markers can stand in the way of a completion.

Results:
* `chain_stops`, `argumentList_stops`: reading an expression or arguments stops where they can be
  completed.
* `statement_stops`, `block_stops`, `sequence_stops`: the same for statements, blocks and sequences,
  and at the end of the source reading does not stop right behind a marker.
-/

namespace Offside

/-- The kinds of token that complete a phrase. -/
def fillers : List Kind := [.assign, .number, .closeParen, .colon]

/-- Some tokens in front become a good phrase with further tokens of certain kinds. -/
def Completable {T : Type} (tokens : T → List Token) (Good : T → Prop)
    (before : List Token) : Prop :=
  ∃ kinds : List Kind, kinds ⊆ fillers ∧ ∀ fill : List Token, fill.map Token.kind = kinds →
    ∃ t, tokens t = before ++ fill ∧ Good t

/-- Reading stops behind tokens that can be completed and shows the next token. -/
structure Stops {T : Type} (tokens : T → List Token) (Good : T → Prop) (c : Cursor)
    (before : List Token) (e : SyntaxError) (stop : Cursor) : Prop where
  blames : Blames c before e stop
  completable : Completable tokens Good before

namespace Stops

variable {T U : Type} {tokens : T → List Token} {tokens' : U → List Token} {Good : T → Prop}
  {Good' : U → Prop} {c c' stop : Cursor} {pre before : List Token} {e : SyntaxError}

/-- Nothing is missing. -/
theorem whole (hp : c.Passes pre c') (hb : Blames c' [] e stop) {t : T} (ht : tokens t = pre)
    (hgood : Good t) : Stops tokens Good c pre e stop where
  blames := by simpa using hb.after hp
  completable := ⟨[], List.nil_subset _, fun fill hfill =>
    ⟨t, by rw [List.map_eq_nil_iff.mp hfill, List.append_nil, ht], hgood⟩⟩

/-- One token is missing. -/
theorem missing (hp : c.Passes pre c') (hb : Blames c' [] e stop) (kind : Kind)
    (hk : kind ∈ fillers)
    (make : ∀ u : Grammar.Terminal kind, ∃ t, tokens t = pre ++ [u.token] ∧ Good t) :
    Stops tokens Good c pre e stop where
  blames := by simpa using hb.after hp
  completable := by
    refine ⟨[kind], by simpa using hk, fun fill hfill => ?_⟩
    obtain ⟨t, rfl, ht⟩ := List.map_eq_singleton_iff.mp hfill
    exact make ⟨t, ht⟩

/-- What completes the last part of a phrase completes the phrase. -/
theorem extend (h : Stops tokens Good c' before e stop) (hp : c.Passes pre c')
    (make : ∀ t, Good t → (∃ fill, tokens t = before ++ fill) →
      ∃ u, tokens' u = pre ++ tokens t ∧ Good' u) :
    Stops tokens' Good' c (pre ++ before) e stop where
  blames := h.blames.after hp
  completable := by
    obtain ⟨kinds, hk, h⟩ := h.completable
    refine ⟨kinds, hk, fun fill hfill => ?_⟩
    obtain ⟨t, ht, hgood⟩ := h fill hfill
    obtain ⟨u, hu, hgood'⟩ := make t hgood ⟨fill, ht⟩
    exact ⟨u, by rw [hu, ht, List.append_assoc], hgood'⟩

/-- A part in the middle of a phrase is completed, and one more token behind it is missing. -/
theorem within (h : Stops tokens Good c' before e stop) (hp : c.Passes pre c') (kind : Kind)
    (hk : kind ∈ fillers)
    (make : ∀ t, Good t → ∀ u : Grammar.Terminal kind,
      ∃ w, tokens' w = pre ++ (tokens t ++ [u.token]) ∧ Good' w) :
    Stops tokens' Good' c (pre ++ before) e stop where
  blames := h.blames.after hp
  completable := by
    obtain ⟨kinds, hks, h⟩ := h.completable
    refine ⟨kinds ++ [kind], by simp [hks, hk], fun fill hfill => ?_⟩
    obtain ⟨front, last, rfl, hfront, hlast⟩ := List.map_eq_append_iff.mp hfill
    obtain ⟨u, rfl, hu⟩ := List.map_eq_singleton_iff.mp hlast
    obtain ⟨t, ht, hgood⟩ := h front hfront
    obtain ⟨w, hw, hgood'⟩ := make t hgood ⟨u, hu⟩
    exact ⟨w, by simp [hw, ht], hgood'⟩

/-- Tokens that begin a phrase without markers are no markers. -/
theorem plain (h : Stops tokens Good c before e stop)
    (hplain : ∀ t, Good t → ∀ u ∈ tokens t, u.kind.isMarker = false) :
    ∀ u ∈ before, u.kind.isMarker = false := by
  obtain ⟨kinds, -, h⟩ := h.completable
  obtain ⟨t, ht, hgood⟩ := h (kinds.map fun k => .plain k [] .unset) (by
    simp [Function.comp_def, Token.plain])
  intro u hu
  exact hplain t hgood u (by rw [ht]; exact List.mem_append_left _ hu)

end Stops

namespace Cursor

open Grammar

/-! ## Expressions -/

mutual

/-- **Reading a chain stops where it can be completed.** -/
theorem chain_stops (c : Cursor) (level : Level) {e : SyntaxError} {stop : Cursor}
    (h : Fails (c.chain level) e stop) :
    ∃ before, Stops (T := Chain level) Chain.tokens (fun _ => True) c before e stop := by
  rcases fails_chain.mp h with h | ⟨first, c₁, h₁, h₂⟩
  · obtain ⟨before, hs⟩ := operand_stops c level h
    exact ⟨_, hs.extend (.refl c) fun t _ _ =>
      ⟨.mk t .nil, by simp [Chain.tokens, Tail.tokens], trivial⟩⟩
  · have hlt := h₁.size_lt
    obtain ⟨t, -, ht⟩ := operand_sound c level h₁
    obtain ⟨before, hs⟩ := chainTail_stops c₁ level h₂
    exact ⟨_, hs.extend ht fun u _ _ => ⟨.mk t u, rfl, trivial⟩⟩
termination_by 8 * c.size + level.rank + 1
decreasing_by
  · omega
  · have : level.rank ≤ 5 := by cases level <;> simp [Level.rank]
    omega

theorem operand_stops (c : Cursor) (level : Level) {e : SyntaxError} {stop : Cursor}
    (h : Fails (c.operand level) e stop) :
    ∃ before, Stops (T := Operand level) Operand.tokens (fun _ => True) c before e stop := by
  match level, h with
  | .comparison, h =>
    obtain ⟨before, hs⟩ := chain_stops c .sum (fails_operand_comparison.mp h)
    exact ⟨_, hs.extend (.refl c) fun t _ _ => ⟨.sum t, rfl, trivial⟩⟩
  | .sum, h =>
    obtain ⟨before, hs⟩ := chain_stops c .product (fails_operand_sum.mp h)
    exact ⟨_, hs.extend (.refl c) fun t _ _ => ⟨.product t, rfl, trivial⟩⟩
  | .product, h =>
    rcases fails_operand_product.mp h with ⟨hk, h | ⟨inner, c₁, h₁, h₂⟩⟩ | ⟨_, rfl, rfl⟩
    · have hne : c.cur.kind ≠ .eof := by simp [hk]
      have hlt := c.advance_size_lt hne
      obtain ⟨before, hs⟩ := chain_stops c.advance .sum h
      exact ⟨_, hs.within (.token hne) .closeParen (by decide) fun t _ u =>
        ⟨.group ⟨c.cur, hk⟩ t u, rfl, trivial⟩⟩
    · have hne : c.cur.kind ≠ .eof := by simp [hk]
      obtain ⟨t, -, ht⟩ := chain_sound c.advance .sum h₁
      exact ⟨_, .missing (.cons hne ht) (.expect h₂) .closeParen (by decide) fun u =>
        ⟨.group ⟨c.cur, hk⟩ t u, rfl, trivial⟩⟩
    · exact ⟨_, .missing (.refl c) (.wrongStart c _) .number (by decide) fun u =>
        ⟨.number u, rfl, trivial⟩⟩
termination_by 8 * c.size + level.rank
decreasing_by
  all_goals simp only [Level.rank]
  all_goals omega

theorem chainTail_stops (c : Cursor) (level : Level) {left : Expr} {e : SyntaxError} {stop : Cursor}
    (h : Fails (c.chainTail level left) e stop) :
    ∃ before, Stops (T := Tail level) Tail.tokens (fun _ => True) c before e stop := by
  obtain ⟨ha, h⟩ := fails_chainTail.mp h
  have hne := Level.ne_eof_of_accepts ha
  have hlt := c.advance_size_lt hne
  rcases h with h | ⟨right, c₁, h₁, h₂⟩
  · obtain ⟨before, hs⟩ := operand_stops c.advance level h
    exact ⟨_, hs.extend (.token hne) fun t _ _ =>
      ⟨.cons ⟨c.cur, ha⟩ t .nil, by simp [Tail.tokens], trivial⟩⟩
  · have hlt₁ := h₁.size_lt
    obtain ⟨t, -, ht⟩ := operand_sound c.advance level h₁
    obtain ⟨before, hs⟩ := chainTail_stops c₁ level h₂
    exact ⟨_, hs.extend (.cons hne ht) fun u _ _ => ⟨.cons ⟨c.cur, ha⟩ t u, rfl, trivial⟩⟩
termination_by 8 * c.size + 7
decreasing_by
  · have : level.rank ≤ 5 := by cases level <;> simp [Level.rank]
    omega
  · omega

end

/-- One or more arguments. -/
def someTokens (args : Chain .sum × List (Terminal .comma × Chain .sum)) : List Token :=
  (Args.some args.1 args.2).tokens

theorem arguments_stops (c : Cursor) {e : SyntaxError} {stop : Cursor}
    (h : Fails c.arguments e stop) :
    ∃ before, Stops someTokens (fun _ => True) c before e stop := by
  rcases fails_arguments.mp h with h | ⟨arg, c₁, h₁, hk, h₂⟩
  · obtain ⟨before, hs⟩ := chain_stops c .sum h
    exact ⟨_, hs.extend (.refl c) fun t _ _ =>
      ⟨(t, []), by simp [someTokens, Args.tokens, moreArgs], trivial⟩⟩
  · have hne : c₁.cur.kind ≠ .eof := by simp [hk]
    have hlt := h₁.size_lt
    have hlt₁ := c₁.advance_size_lt hne
    obtain ⟨t, -, ht⟩ := chain_sound c .sum h₁
    obtain ⟨before, hs⟩ := arguments_stops c₁.advance h₂
    exact ⟨_, hs.extend (ht.trans (.token hne)) fun u _ _ =>
      ⟨(t, (⟨c₁.cur, hk⟩, u.1) :: u.2), by simp [someTokens, Args.tokens, moreArgs], trivial⟩⟩
termination_by c.size

/-- **Reading arguments stops where they can be completed.** -/
theorem argumentList_stops {c : Cursor} {e : SyntaxError} {stop : Cursor}
    (h : Fails c.argumentList e stop) :
    ∃ before, Stops Args.tokens (fun _ => True) c before e stop := by
  obtain ⟨before, hs⟩ := arguments_stops c (fails_argumentList.mp h).2
  exact ⟨_, hs.extend (.refl c) fun t _ _ => ⟨.some t.1 t.2, rfl, trivial⟩⟩

/-! ## Statements -/

/-- The tokens end with one that is no marker. -/
def EndsPlain (ts : List Token) : Prop :=
  ∃ t ∈ ts.getLast?, t.kind.isMarker = false

theorem EndsPlain.append {ts us : List Token} (h : EndsPlain us) : EndsPlain (ts ++ us) := by
  obtain ⟨t, ht, hplain⟩ := h
  exact ⟨t, by simp [List.getLast?_append, Option.mem_def.mp ht], hplain⟩

theorem EndsPlain.concat {ts : List Token} {t : Token} (h : t.kind.isMarker = false) :
    EndsPlain (ts ++ [t]) :=
  ⟨t, by simp, h⟩

theorem EndsPlain.of_plain {ts : List Token} (hne : ts ≠ [])
    (h : ∀ u ∈ ts, u.kind.isMarker = false) : EndsPlain ts :=
  ⟨_, List.getLast?_eq_some_getLast hne, h _ (List.getLast_mem _)⟩

/-- The number of an expression that is nothing else. -/
def numberChain (t : Terminal .number) : Chain .sum :=
  .mk (.product (.mk (.number t) .nil)) .nil

/-- The end of a header. -/
def headTokens (head : Chain .comparison × Terminal .colon) : List Token :=
  head.1.tokens ++ [head.2.token]

theorem head_stops {c : Cursor} {e : SyntaxError} {stop : Cursor} (h : c.HeadFails e stop) :
    ∃ before, Stops headTokens (fun _ => True) c.advance before e stop := by
  rcases h with h | ⟨test, c₁, h₁, h₂⟩
  · obtain ⟨before, hs⟩ := chain_stops c.advance .comparison h
    exact ⟨_, hs.within (.refl c.advance) .colon (by decide) fun t _ u => ⟨(t, u), rfl, trivial⟩⟩
  · obtain ⟨t, -, ht⟩ := chain_sound c.advance .comparison h₁
    exact ⟨_, .missing ht (.expect h₂) .colon (by decide) fun u => ⟨(t, u), rfl, trivial⟩⟩

theorem headTokens_plain (x : Chain .comparison × Terminal .colon) :
    ∀ u ∈ headTokens x, u.kind.isMarker = false := by
  intro u hu
  rcases List.mem_append.mp hu with hu | hu
  · exact x.1.plain u hu
  · obtain rfl := List.mem_singleton.mp hu
    exact x.2.plain rfl

/-- A statement that begins with a name has no markers. -/
theorem plain_of_name {t : Statement} (h : t.first.kind = .identifier) :
    ∀ u ∈ t.tokens, u.kind.isMarker = false := by
  intro u hu
  cases t with
  | assign target sign value =>
    rcases List.mem_cons.mp hu with rfl | hu
    · exact target.plain rfl
    · rcases List.mem_cons.mp hu with rfl | hu
      · exact sign.plain rfl
      · exact value.plain u hu
  | call name opening args closing =>
    rcases List.mem_cons.mp hu with rfl | hu
    · exact name.plain rfl
    · rcases List.mem_cons.mp hu with rfl | hu
      · exact opening.plain rfl
      · rcases List.mem_append.mp hu with hu | hu
        · exact args.plain u hu
        · obtain rfl := List.mem_singleton.mp hu
          exact closing.plain rfl
  | ifThen word _ _ _ => exact absurd (word.kind_eq.symm.trans h) (by decide)
  | ifElse word _ _ _ _ _ _ => exact absurd (word.kind_eq.symm.trans h) (by decide)
  | loop word _ _ _ => exact absurd (word.kind_eq.symm.trans h) (by decide)

/-- A statement that begins at the cursor and ends its stream. -/
def Ending (c : Cursor) (t : Statement) : Prop :=
  t.first = c.cur ∧ t.Fits []

/-- Reading a statement stops behind its first token, where it can be completed. -/
def StatementStops (c : Cursor) (e : SyntaxError) (stop : Cursor) : Prop :=
  ∃ before, Stops Statement.tokens (Ending c) c before e stop ∧ before ≠ [] ∧
    (e.got.kind = .eof → EndsPlain before)

theorem name_stops {c : Cursor} {e : SyntaxError} {stop : Cursor} (hk : c.cur.kind = .identifier)
    (h : Fails c.statement e stop) : StatementStops c e stop := by
  have hne : c.cur.kind ≠ .eof := by simp [hk]
  have hs : ∃ before, Stops Statement.tokens (Ending c) c before e stop ∧ before ≠ [] := by
    rcases (fails_statement_name hk).mp h with ⟨_, _, rfl, rfl⟩ | ⟨ha, h⟩ | ⟨ho, h⟩
    · refine ⟨_, ⟨.behindName hne, [.assign, .number], by decide, fun fill hfill => ?_⟩, by simp⟩
      obtain ⟨sign, fill, rfl, hsign, hfill⟩ := List.map_eq_cons_iff.mp hfill
      obtain ⟨number, rfl, hnumber⟩ := List.map_eq_singleton_iff.mp hfill
      exact ⟨.assign ⟨c.cur, hk⟩ ⟨sign, hsign⟩ (numberChain ⟨number, hnumber⟩), rfl, rfl, trivial⟩
    · obtain ⟨before, hs⟩ := chain_stops _ .sum h
      exact ⟨_, hs.extend (.cons hne (.token (by simp [ha]))) fun t _ _ =>
        ⟨.assign ⟨c.cur, hk⟩ ⟨_, ha⟩ t, rfl, rfl, trivial⟩, by simp⟩
    · have hp : c.Passes [c.cur, c.advance.cur] c.advance.advance :=
        .cons hne (.token (by simp [ho]))
      rcases h with h | ⟨args, c₁, h₁, h₂⟩
      · obtain ⟨before, hs⟩ := argumentList_stops h
        exact ⟨_, hs.within hp .closeParen (by decide) fun t _ u =>
          ⟨.call ⟨c.cur, hk⟩ ⟨_, ho⟩ t u, rfl, rfl, trivial⟩, by simp⟩
      · obtain ⟨t, -, ht⟩ := argumentList_sound h₁
        exact ⟨_, .missing (hp.trans ht) (.expect h₂) .closeParen (by decide) fun u =>
          ⟨.call ⟨c.cur, hk⟩ ⟨_, ho⟩ t u, rfl, rfl, trivial⟩, by simp⟩
  obtain ⟨before, hs, hbefore⟩ := hs
  refine ⟨before, hs, hbefore, fun _ => .of_plain hbefore (hs.plain fun t ht => plain_of_name ?_)⟩
  rw [ht.1, hk]

/-- What makes a whole statement of a header is an empty block. -/
theorem headed_stops {c : Cursor} {e : SyntaxError} {stop : Cursor}
    (hk : c.cur.kind = .ifWord ∨ c.cur.kind = .whileWord) (h : c.HeadFails e stop)
    (make : ∀ (cond : Chain .comparison) (colon : Terminal .colon),
      ∃ t : Statement, t.tokens = c.cur :: headTokens (cond, colon) ∧ Ending c t) :
    StatementStops c e stop := by
  have hne : c.cur.kind ≠ .eof := by rcases hk with hk | hk <;> simp [hk]
  have hplain : c.cur.kind.isMarker = false := by rcases hk with hk | hk <;> rw [hk] <;> rfl
  obtain ⟨before, hs⟩ := head_stops h
  refine ⟨_, hs.extend (.token hne) fun x _ _ => make x.1 x.2, by simp, fun _ => ?_⟩
  refine .of_plain (by simp) fun u hu => ?_
  rcases List.mem_cons.mp hu with rfl | hu
  · exact hplain
  · exact hs.plain (fun x _ => headTokens_plain x) u hu

/-- Reading a block stops where it can be completed, and not right behind a marker at the end. -/
def BlockStops (c : Cursor) (e : SyntaxError) (stop : Cursor) : Prop :=
  ∃ before, Stops Suite.tokens (fun t => t.Fits c.last.line []) c before e stop ∧
    (e.got.kind = .eof → EndsPlain before)

/-- Reading a sequence stops where it can be completed, and not right behind a marker at the end.
Nothing is missing in front of the first item. -/
def SequenceStops (c : Cursor) (extent : Extent) (e : SyntaxError) (stop : Cursor) : Prop :=
  ∃ before, Stops Items.tokens
      (fun t => t.Fits extent c.last.line [] ∧ (before = [] → t.tokens = [])) c before e stop ∧
    (e.got.kind = .eof → EndsPlain before)

/-- A sequence does not go on at the end of the source. -/
theorem ne_eof_of_not_endsAt {c : Cursor} {extent : Extent} (h : extent.endsAt c = false) :
    c.cur.kind ≠ .eof := by
  intro hk
  have hend : extent.endsAt c = true := by
    rw [endsAt_iff, c.stream_eq_nil.mpr hk]
    trivial
  rw [h] at hend
  exact absurd hend nofun

mutual

/-- **Reading a statement stops where it can be completed.** -/
theorem statement_stops (c : Cursor) {e : SyntaxError} {stop : Cursor}
    (h : Fails c.statement e stop)
    (hstart : c.cur.kind ∈ starters) : StatementStops c e stop := by
  simp only [starters, List.mem_cons, List.not_mem_nil, or_false] at hstart
  rcases hstart with hk | hk | hk
  · exact name_stops hk h
  · have hne : c.cur.kind ≠ .eof := by simp [hk]
    rcases (fails_statement_if hk).mp h with h | ⟨test, c₁, h₁, h₂⟩
    · exact headed_stops (Or.inl hk) h fun cond colon =>
        ⟨.ifThen ⟨c.cur, hk⟩ cond colon (.inline .nil), rfl, rfl, trivial, nofun⟩
    have hlt₁ := h₁.size_lt
    obtain ⟨cond, colon, -, hp₁, hline⟩ := h₁.sound hne
    rcases h₂ with h₂ | ⟨body, c₂, h₂, he, h₃⟩
    · obtain ⟨before, hs, hends⟩ := block_stops c₁ h₂
      exact ⟨_, hs.extend hp₁ fun t ht _ =>
        ⟨.ifThen ⟨c.cur, hk⟩ cond colon t, by simp [Statement.tokens], rfl, hline ▸ ht, nofun⟩,
        by simp, fun hg => (hends hg).append⟩
    have hlt₂ := h₂.size_lt
    obtain ⟨t, -, hp₂, hfit⟩ := block_sound c₁ h₂
    have hp₃ := Passes.token (c := c₂) (by simp [he])
    rw [hline, hp₃.stream_eq] at hfit
    have hp := hp₁.trans (hp₂.trans hp₃)
    rcases h₃ with h₃ | ⟨hc, h₃⟩
    · -- an empty block behind `else`
      refine ⟨_, .missing hp (.expect h₃) .colon (by decide) fun u =>
        ⟨.ifElse ⟨c.cur, hk⟩ cond colon t ⟨c₂.cur, he⟩ u (.inline .nil), ?_, rfl, ?_, trivial⟩,
        by simp, fun _ => ?_⟩
      · simp [Statement.tokens, Suite.tokens, Items.tokens]
      · exact Suite.Fits.shorten t hfit (.same _ _ _)
      · exact (EndsPlain.concat (by rw [he]; rfl)).append
    · have hp₄ := Passes.token (c := c₂.advance) (by simp [hc])
      have hline' : c₂.advance.advance.last.line = c₂.advance.cur.pos.line := hp₄.line_eq
      have hlt₃ := c₂.advance_size_le
      have hlt₄ := c₂.advance.advance_size_le
      obtain ⟨before, hs, hends⟩ := block_stops c₂.advance.advance h₃
      refine ⟨_, hs.extend (hp.trans hp₄) fun u hu _ =>
        ⟨.ifElse ⟨c.cur, hk⟩ cond colon t ⟨c₂.cur, he⟩ ⟨_, hc⟩ u, ?_, rfl, ?_, hline' ▸ hu⟩,
        by simp, fun hg => (hends hg).append⟩
      · simp [Statement.tokens]
      · exact Suite.Fits.shorten t hfit (.same _ _ _)
  · have hne : c.cur.kind ≠ .eof := by simp [hk]
    rcases (fails_statement_while hk).mp h with h | ⟨test, c₁, h₁, h₂⟩
    · exact headed_stops (Or.inr hk) h fun cond colon =>
        ⟨.loop ⟨c.cur, hk⟩ cond colon (.inline .nil), rfl, rfl, trivial⟩
    have hlt₁ := h₁.size_lt
    obtain ⟨cond, colon, -, hp₁, hline⟩ := h₁.sound hne
    obtain ⟨before, hs, hends⟩ := block_stops c₁ h₂
    rw [hline] at hs
    exact ⟨_, hs.extend hp₁ fun t ht _ =>
      ⟨.loop ⟨c.cur, hk⟩ cond colon t, by simp [Statement.tokens], rfl, ht⟩,
      by simp, fun hg => (hends hg).append⟩
termination_by 3 * c.size

/-- **Reading a block stops where it can be completed.** -/
theorem block_stops (c : Cursor) {e : SyntaxError} {stop : Cursor} (h : Fails c.block e stop) :
    BlockStops c e stop := by
  by_cases hk : c.cur.kind = .indent
  · have hne : c.cur.kind ≠ .eof := by simp [hk]
    have hlt := c.advance_size_lt hne
    have hp := Passes.token hne
    have hline : c.advance.last.line = c.cur.pos.line := hp.line_eq
    rcases (fails_block_indented hk).mp h with h | ⟨body, c₁, h₁, he, h₂⟩
    · obtain ⟨before, hs, hends⟩ := sequence_stops c.advance .indented h
      refine ⟨_, hs.extend hp fun t ht _ => ⟨.indented ⟨c.cur, hk⟩ t none, ?_, ?_, fun _ => rfl⟩,
        fun hg => (hends hg).append⟩
      · simp [Suite.tokens, closing]
      · exact hline ▸ ht.1
    · -- the end of the source closes the block as well
      obtain ⟨t, -, hp₁, hfit⟩ := sequence_sound c.advance .indented h₁
      have hb := Blames.expect h₂
      refine ⟨_, .whole (t := .indented ⟨c.cur, hk⟩ t none) (hp.trans hp₁) hb ?_
        ⟨?_, fun _ => rfl⟩, fun hg => ?_⟩
      · simp [Suite.tokens, closing]
      · exact hline ▸ Items.Fits.shorten t hfit (.nil _)
      · obtain ⟨-, rfl, -⟩ := Fails.expect_iff.mp h₂
        exact absurd hg he
  · obtain ⟨before, hs, hends⟩ := sequence_stops c .inline ((fails_block_inline hk).mp h)
    exact ⟨_, hs.extend (.refl c) fun t ht _ => ⟨.inline t, rfl, ht.1⟩, hends⟩
termination_by 3 * c.size + 2

/-- **Reading a sequence stops where it can be completed.** -/
theorem sequence_stops (c : Cursor) (extent : Extent) {e : SyntaxError} {stop : Cursor}
    (h : Fails (c.sequence extent) e stop) : SequenceStops c extent e stop := by
  have hend : extent.endsAt c = false :=
    Bool.eq_false_iff.mpr fun hend => fails_sequence_end hend h
  have hne := ne_eof_of_not_endsAt hend
  have hadmits := admits_of_not_endsAt hend
  by_cases hk : c.cur.kind = .colon
  · have hlt := c.advance_size_lt hne
    have hp := Passes.token hne
    have hline : c.advance.last.line = c.cur.pos.line := hp.line_eq
    obtain ⟨before, hs, hends⟩ :=
      sequence_stops c.advance extent ((fails_sequence_colon hend hk).mp h)
    exact ⟨_, hs.extend hp fun t ht _ =>
      ⟨.colon ⟨c.cur, hk⟩ t, rfl, ⟨hadmits, hline ▸ ht.1⟩, nofun⟩, fun hg => (hends hg).append⟩
  rcases (fails_sequence_stmt hend hk).mp h with h | ⟨s, c₁, h₁, h₂⟩
  · by_cases hstart : c.cur.kind ∈ starters
    · obtain ⟨before, hs, hbefore, hends⟩ := statement_stops c h hstart
      refine ⟨before, hs.extend (.refl c) fun t ht _ =>
        ⟨.stmt t .nil, ?_, ⟨ht.1 ▸ hadmits, ht.2, trivial⟩, fun h => absurd h hbefore⟩, hends⟩
      simp [Items.tokens]
    · obtain ⟨rfl, rfl⟩ := (fails_statement_start hstart).mp h
      exact ⟨[], .whole (t := .nil) (.refl c) (.wrongStart c _) rfl ⟨trivial, fun _ => rfl⟩,
        fun hg => absurd hg hne⟩
  · have hlt := h₁.size_lt
    obtain ⟨t, -, hfirst, hp₁, hfit⟩ := statement_sound c h₁
    obtain ⟨before, hs, hends⟩ := sequence_stops c₁ extent h₂
    obtain ⟨ts, hts⟩ := t.tokens_eq
    refine ⟨_, hs.extend hp₁ fun u hu hbegin => ⟨.stmt t u, rfl, ⟨hfirst ▸ hadmits, ?_, ?_⟩, ?_⟩,
      fun hg => (hends hg).append⟩
    · -- the next token behind the statement is the same, or there is none
      rw [hs.blames.passes.stream_eq] at hfit
      refine Statement.Fits.shorten t hfit ?_
      obtain ⟨fill, hfill⟩ := hbegin
      cases before with
      | nil =>
        rw [hu.2 rfl]
        exact .nil _
      | cons b bs =>
        rw [hfill]
        exact .same b _ _
    · exact hp₁.line_eq ▸ hu.1
    · simp [hts]
termination_by 3 * c.size + 1

end

end Cursor

end Offside
