import Offside.Proofs.Grammar.Statement

/-!
# The parser accepts exactly the grammar

`parseTokens` against the grammar of the specification (4.2), for every list of tokens, put together
by hand or not.

The parser looks one token ahead, and behind a name two. That this is enough rests on the kinds of
token that can follow a statement (`Resumes`): no operator and no indent marker is among them. So an
expression never ends too early, and an indent marker can only stand behind the colon of a header.

That what is read has a derivation is in `Proofs/Grammar/Statement`. Here are the other two
directions, each by induction on the derivation, and all three are put together.

* `Statement.suites`, `Suite.suites` and `Items.suites` list the suites inside a phrase, each with
  all the tokens behind the colon of its header.
* `OpensAtIndent` says that a suite is indented if an indent marker stands behind its header.

Results:
* `Statement.complete`, `Suite.complete`, `Items.complete`: a phrase that fits is read.
* `Statement.unique`, `Suite.unique`, `Items.unique`: a stream begins with one such phrase at most.
* `parseTokens_of_derivation`, `derivation_of_parseTokens`: a stream is read as a program if and
  only if the grammar derives it.
* `parseTokens_iff_derivation`: the programs that are read are those that the grammar derives, a
  stream has one derivation at most, and an indent marker behind a header opens an indented suite.

Out of scope: the tokens behind the first end of the source, which no reading gets to (`streamOf`).
-/

namespace Offside

/-- The kinds of token that can follow a statement, the end of the stream included. -/
def Kind.resumes : Kind → Bool
  | eof | elseWord | dedent | colon | identifier | ifWord | whileWord => true
  | _ => false

/-- Some tokens can follow a statement. -/
def Resumes (rest : List Token) : Prop :=
  (nextKind rest).resumes = true

theorem Resumes.clear {rest : List Token} (h : Resumes rest) (level : Level) :
    level.Clear (nextKind rest) := by
  intro other _
  unfold Resumes at h
  generalize nextKind rest = k at h
  cases k <;> first | exact absurd h (by decide) | (cases other <;> rfl)

theorem Resumes.ne_indent {rest : List Token} (h : Resumes rest) : nextKind rest ≠ .indent := by
  intro hk
  unfold Resumes at h
  rw [hk] at h
  exact absurd h (by decide)

namespace Grammar

theorem Terminal.resumes {k : Kind} (t : Terminal k) (h : k.resumes = true) (rest : List Token) :
    Resumes (t.token :: rest) := by
  show t.token.kind.resumes = true
  rw [t.kind_eq]
  exact h

theorem Statement.tokens_eq (t : Statement) : ∃ ts, t.tokens = t.first :: ts := by
  cases t <;> exact ⟨_, rfl⟩

theorem Statement.starts (t : Statement) : t.first.kind ∈ Cursor.starters := by
  cases t with
  | assign target _ _ =>
    rw [show Statement.first _ = target.token from rfl, target.kind_eq]
    decide
  | call name _ _ _ =>
    rw [show Statement.first _ = name.token from rfl, name.kind_eq]
    decide
  | ifThen word _ _ _ =>
    rw [show Statement.first _ = word.token from rfl, word.kind_eq]
    decide
  | ifElse word _ _ _ _ _ _ =>
    rw [show Statement.first _ = word.token from rfl, word.kind_eq]
    decide
  | loop word _ _ _ =>
    rw [show Statement.first _ = word.token from rfl, word.kind_eq]
    decide

/-- What a starter of a statement is not. -/
theorem starters_spec {k : Kind} (h : k ∈ Cursor.starters) :
    k.resumes = true ∧ k.endsBlock = false ∧ k ≠ .colon := by
  simp only [Cursor.starters, List.mem_cons, List.not_mem_nil, or_false] at h
  rcases h with rfl | rfl | rfl <;> decide

theorem Items.resumes (t : Items) {rest : List Token} (h : Resumes rest) :
    Resumes (t.tokens ++ rest) := by
  cases t with
  | nil => exact h
  | colon token more => exact token.resumes rfl _
  | stmt s more =>
    obtain ⟨ts, hts⟩ := s.tokens_eq
    rw [Items.tokens, hts]
    exact (starters_spec s.starts).1

theorem closing_resumes (dedent : Option (Terminal .dedent)) {rest : List Token}
    (h : dedent = none → rest = []) : Resumes (closing dedent ++ rest) := by
  cases dedent with
  | none =>
    rw [h rfl]
    rfl
  | some d => exact d.resumes rfl rest

/-- A sequence does not end in front of an item that it admits. -/
theorem not_ends {extent : Extent} {line : Int} {t : Token} {rest : List Token}
    (hk : t.kind.endsBlock = false) (h : extent.Admits line t) :
    ¬ extent.Ends line (t :: rest) := by
  cases extent with
  | program => exact id
  | inline =>
    rintro (he | he)
    · rw [hk] at he
      exact absurd he (by simp)
    · exact he (h rfl)
  | indented =>
    intro he
    change t.kind.endsBlock = true at he
    rw [hk] at he
    exact absurd he (by simp)

/-! ## Phrases that fit are read -/

/-- The header of a conditional or a loop is read. -/
theorem header_complete {k : Kind} (word : Terminal k) (cond : Chain .comparison)
    (colon : Terminal .colon) {c : Cursor} {rest : List Token}
    (hs : c.stream = word.token :: (cond.tokens ++ colon.token :: rest)) :
    ∃ c', c.Heads cond.expr c' ∧ c.Passes (word.token :: (cond.tokens ++ [colon.token])) c' ∧
      c'.stream = rest ∧ c'.last.line = colon.token.pos.line := by
  have hcur := Cursor.cur_of_stream hs
  have hs₁ := Cursor.advance_stream hs
  obtain ⟨c₁, h₁, hp₁⟩ := cond.complete hs₁ (colon.clear (by decide) rest)
  have hs₂ := hp₁.stream_of_append hs₁
  have hcur₂ := Cursor.cur_of_stream hs₂
  have htoken := Cursor.Passes.token (Cursor.ne_eof_of_stream hs₂)
  refine ⟨c₁.advance, ⟨c₁, h₁, ?_, rfl⟩, ?_, Cursor.advance_stream hs₂, ?_⟩
  · rw [hcur₂, colon.kind_eq]
  · have hp := Cursor.Passes.cons (Cursor.ne_eof_of_stream hs) (hp₁.trans htoken)
    rw [hcur, hcur₂] at hp
    exact hp
  · rw [htoken.line_eq, hcur₂]
    rfl

mutual

/-- **A statement that fits is read as such.** -/
theorem Statement.complete : ∀ (t : Statement) {c : Cursor} {rest : List Token},
    c.stream = t.tokens ++ rest → t.Fits rest → Resumes rest →
    ∃ c', Reads c.statement t.stmt c' ∧ c.Passes t.tokens c'
  | .assign target sign value, c, rest, hs, _, hr => by
    have hcur := Cursor.cur_of_stream hs
    have hs₁ := Cursor.advance_stream hs
    have hcur₁ := Cursor.cur_of_stream hs₁
    have hk : c.cur.kind = .identifier := by rw [hcur, target.kind_eq]
    obtain ⟨c₁, h₁, hp₁⟩ := value.complete (Cursor.advance_stream hs₁) (hr.clear .sum)
    refine ⟨c₁, (Cursor.reads_statement_name hk).mpr (Or.inl ?_), ?_⟩
    · rw [Cursor.reads_assignment]
      refine ⟨by rw [hcur₁, sign.kind_eq], value.expr, h₁, ?_⟩
      rw [hcur]
      rfl
    · rw [Statement.tokens, ← hcur, ← hcur₁]
      exact .cons (Cursor.ne_eof_of_stream hs) (.cons (Cursor.ne_eof_of_stream hs₁) hp₁)
  | .call name opening args closing, c, rest, hs, _, _ => by
    rw [Statement.tokens, List.cons_append, List.cons_append, List.append_assoc] at hs
    have hcur := Cursor.cur_of_stream hs
    have hs₁ := Cursor.advance_stream hs
    have hcur₁ := Cursor.cur_of_stream hs₁
    have hk : c.cur.kind = .identifier := by rw [hcur, name.kind_eq]
    obtain ⟨c₁, h₁, hp₁⟩ := args.complete (Cursor.advance_stream hs₁)
    have hs₂ := hp₁.stream_of_append (Cursor.advance_stream hs₁)
    have hcur₂ := Cursor.cur_of_stream hs₂
    refine ⟨c₁.advance, (Cursor.reads_statement_name hk).mpr (Or.inr ?_), ?_⟩
    · rw [Cursor.reads_call]
      refine ⟨by rw [hcur₁, opening.kind_eq], args.exprs, c₁, h₁, ?_, rfl, ?_⟩
      · rw [hcur₂, closing.kind_eq]
      · rw [hcur]
        rfl
    · rw [Statement.tokens, ← hcur, ← hcur₁, ← hcur₂]
      exact .cons (Cursor.ne_eof_of_stream hs) (.cons (Cursor.ne_eof_of_stream hs₁)
        (hp₁.trans (.token (Cursor.ne_eof_of_stream hs₂))))
  | .ifThen word cond colon body, c, rest, hs, hfit, hr => by
    have hk : c.cur.kind = .ifWord := by rw [Cursor.cur_of_stream hs, word.kind_eq]
    simp only [Statement.tokens, List.cons_append, List.append_assoc] at hs
    obtain ⟨c₁, h₁, hp₁, hs₁, hline⟩ := header_complete word cond colon hs
    obtain ⟨c₂, h₂, hp₂⟩ := body.complete hs₁ (hline ▸ hfit.1) hr
    refine ⟨c₂, (Cursor.reads_statement_if hk).mpr
      ⟨_, c₁, _, c₂, h₁, h₂, Or.inr ⟨?_, rfl, rfl⟩⟩, ?_⟩
    · rw [← c₂.nextKind_stream, hp₂.stream_of_append hs₁]
      exact hfit.2
    · simpa [Statement.tokens, List.append_assoc] using hp₁.trans hp₂
  | .ifElse word cond colon body other colon' alt, c, rest, hs, hfit, hr => by
    have hk : c.cur.kind = .ifWord := by rw [Cursor.cur_of_stream hs, word.kind_eq]
    simp only [Statement.tokens, List.cons_append, List.append_assoc] at hs
    obtain ⟨c₁, h₁, hp₁, hs₁, hline⟩ := header_complete word cond colon hs
    obtain ⟨c₂, h₂, hp₂⟩ := body.complete hs₁ (hline ▸ hfit.1) (other.resumes rfl _)
    have hs₂ := hp₂.stream_of_append hs₁
    have hs₃ := Cursor.advance_stream hs₂
    have hcur₂ := Cursor.cur_of_stream hs₂
    have hcur₃ := Cursor.cur_of_stream hs₃
    have hp₃ := Cursor.Passes.token (Cursor.ne_eof_of_stream hs₂)
    have hp₄ := Cursor.Passes.token (Cursor.ne_eof_of_stream hs₃)
    rw [hcur₂] at hp₃
    rw [hcur₃] at hp₄
    obtain ⟨c₃, h₃, hp₅⟩ := alt.complete (Cursor.advance_stream hs₃) (hp₄.line_eq ▸ hfit.2) hr
    refine ⟨c₃, (Cursor.reads_statement_if hk).mpr
      ⟨_, c₁, _, c₂, h₁, h₂, Or.inl ⟨?_, ?_, _, h₃, rfl⟩⟩, ?_⟩
    · rw [hcur₂, other.kind_eq]
    · rw [hcur₃, colon'.kind_eq]
    · have hp := (hp₁.trans hp₂).trans ((hp₃.trans hp₄).trans hp₅)
      simpa [Statement.tokens, List.append_assoc] using hp
  | .loop word cond colon body, c, rest, hs, hfit, hr => by
    have hk : c.cur.kind = .whileWord := by rw [Cursor.cur_of_stream hs, word.kind_eq]
    simp only [Statement.tokens, List.cons_append, List.append_assoc] at hs
    obtain ⟨c₁, h₁, hp₁, hs₁, hline⟩ := header_complete word cond colon hs
    obtain ⟨c₂, h₂, hp₂⟩ := body.complete hs₁ (hline ▸ hfit) hr
    refine ⟨c₂, (Cursor.reads_statement_while hk).mpr ⟨_, c₁, _, h₁, h₂, rfl⟩, ?_⟩
    simpa [Statement.tokens, List.append_assoc] using hp₁.trans hp₂

/-- **A suite that fits is read as a block.** -/
theorem Suite.complete : ∀ (t : Suite) {c : Cursor} {rest : List Token},
    c.stream = t.tokens ++ rest → t.Fits c.last.line rest → Resumes rest →
    ∃ c', Reads c.block t.stmts c' ∧ c.Passes t.tokens c'
  | .inline items, c, rest, hs, hfit, hr => by
    have hk : c.cur.kind ≠ .indent := by
      rw [← c.nextKind_stream, hs]
      exact (items.resumes hr).ne_indent
    obtain ⟨c₁, h₁, hp₁⟩ := items.complete hs hfit hr
    exact ⟨c₁, (Cursor.reads_block_inline hk).mpr h₁, hp₁⟩
  | .indented indent items dedent, c, rest, hs, hfit, _ => by
    rw [Suite.tokens, List.cons_append, List.append_assoc] at hs
    have hcur := Cursor.cur_of_stream hs
    have hk : c.cur.kind = .indent := by rw [hcur, indent.kind_eq]
    have hp := Cursor.Passes.token (Cursor.ne_eof_of_stream hs)
    rw [hcur] at hp
    have hs₁ := Cursor.advance_stream hs
    obtain ⟨c₁, h₁, hp₁⟩ := items.complete hs₁ (by rw [hp.line_eq]; exact hfit.1)
      (closing_resumes dedent hfit.2)
    have hs₂ := hp₁.stream_of_append hs₁
    cases dedent with
    | none =>
      refine ⟨c₁, (Cursor.reads_block_indented hk).mpr ⟨c₁, h₁, Or.inl ⟨?_, rfl⟩⟩, ?_⟩
      · rw [← c₁.stream_eq_nil, hs₂, hfit.2 rfl]
        rfl
      · simpa [Suite.tokens, closing] using hp.trans hp₁
    | some d =>
      have hcur₂ := Cursor.cur_of_stream hs₂
      have hp₂ := Cursor.Passes.token (Cursor.ne_eof_of_stream hs₂)
      rw [hcur₂] at hp₂
      refine ⟨c₁.advance, (Cursor.reads_block_indented hk).mpr ⟨c₁, h₁, Or.inr ⟨?_, rfl⟩⟩, ?_⟩
      · rw [hcur₂, d.kind_eq]
      · exact hp.trans (hp₁.trans hp₂)

/-- **Items that fit are read as a sequence.** -/
theorem Items.complete : ∀ (t : Items) {extent : Extent} {c : Cursor} {rest : List Token},
    c.stream = t.tokens ++ rest → t.Fits extent c.last.line rest → Resumes rest →
    ∃ c', Reads (c.sequence extent) t.stmts c' ∧ c.Passes t.tokens c'
  | .nil, extent, c, rest, hs, hfit, _ => by
    obtain rfl : c.stream = rest := hs
    exact ⟨c, (Cursor.reads_sequence_end (Cursor.endsAt_iff.mpr hfit)).mpr ⟨rfl, rfl⟩, .refl c⟩
  | .colon token more, extent, c, rest, hs, hfit, hr => by
    have hcur := Cursor.cur_of_stream hs
    have hk : c.cur.kind = .colon := by rw [hcur, token.kind_eq]
    have hend : extent.endsAt c = false := by
      rw [Bool.eq_false_iff]
      intro he
      rw [Cursor.endsAt_iff, hs] at he
      exact not_ends (by rw [token.kind_eq]; rfl) hfit.1 he
    have hp := Cursor.Passes.token (Cursor.ne_eof_of_stream hs)
    rw [hcur] at hp
    obtain ⟨c₁, h₁, hp₁⟩ := more.complete (Cursor.advance_stream hs)
      (by rw [hp.line_eq]; exact hfit.2) hr
    exact ⟨c₁, (Cursor.reads_sequence_colon hend hk).mpr h₁, hp.trans hp₁⟩
  | .stmt s more, extent, c, rest, hs, hfit, hr => by
    rw [Items.tokens, List.append_assoc] at hs
    obtain ⟨ts, hts⟩ := s.tokens_eq
    obtain ⟨-, hblock, hcolon⟩ := starters_spec s.starts
    have hhead : c.stream = s.first :: (ts ++ (more.tokens ++ rest)) := by rw [hs, hts]; rfl
    have hk : c.cur.kind ≠ .colon := by rw [Cursor.cur_of_stream hhead]; exact hcolon
    have hend : extent.endsAt c = false := by
      rw [Bool.eq_false_iff]
      intro he
      rw [Cursor.endsAt_iff, hhead] at he
      exact not_ends hblock hfit.1 he
    obtain ⟨c₁, h₁, hp₁⟩ := s.complete hs hfit.2.1 (more.resumes hr)
    obtain ⟨c₂, h₂, hp₂⟩ :=
      more.complete (hp₁.stream_of_append hs) (hp₁.line_eq ▸ hfit.2.2) hr
    exact ⟨c₂, (Cursor.reads_sequence_stmt hend hk).mpr ⟨_, c₁, _, h₁, h₂, rfl⟩, hp₁.trans hp₂⟩

end

/-! ## Streams begin with one phrase at most -/

/-- Items that are there are not taken for the end of their sequence. -/
theorem Items.ne_nil_of_ends {t : Items} {extent : Extent} {line : Int} {rest r : List Token}
    (ht : t.Fits extent line r) (h : t.tokens ++ r = rest) (hend : extent.Ends line rest) :
    t = .nil := by
  subst h
  cases t with
  | nil => rfl
  | colon token more =>
    exact absurd hend (not_ends (by rw [token.kind_eq]; rfl) ht.1)
  | stmt s more =>
    obtain ⟨ts, hts⟩ := s.tokens_eq
    rw [Items.tokens, hts] at hend
    exact absurd hend (not_ends (starters_spec s.starts).2.1 ht.1)

theorem closing_unique (d e : Option (Terminal .dedent)) {r s : List Token}
    (h : closing d ++ r = closing e ++ s) (hr : d = none → r = []) (hs : e = none → s = []) :
    d = e ∧ r = s := by
  cases d with
  | none =>
    cases e with
    | none => exact ⟨rfl, h⟩
    | some e =>
      rw [hr rfl] at h
      exact absurd h (by simp [closing])
  | some d =>
    cases e with
    | none =>
      rw [hs rfl] at h
      exact absurd h (by simp [closing])
    | some e =>
      obtain ⟨he, h₁⟩ := List.cons.inj h
      exact ⟨congrArg some (Terminal.ext he), h₁⟩

theorem header_unique {k : Kind} {word word' : Terminal k} {cond cond' : Chain .comparison}
    {colon colon' : Terminal .colon} {r s : List Token}
    (h : word.token :: (cond.tokens ++ colon.token :: r) =
      word'.token :: (cond'.tokens ++ colon'.token :: s)) :
    word = word' ∧ cond = cond' ∧ colon = colon' ∧ r = s := by
  obtain ⟨hw, h₁⟩ := List.cons.inj h
  obtain ⟨hc, h₂⟩ := cond.unique cond' h₁ (colon.clear (by decide) r) (colon'.clear (by decide) s)
  obtain ⟨hcolon, h₃⟩ := List.cons.inj h₂
  exact ⟨Terminal.ext hw, hc, Terminal.ext hcolon, h₃⟩

mutual

/-- **A stream begins with one statement at most.** -/
theorem Statement.unique : ∀ (t u : Statement) {r s : List Token},
    t.tokens ++ r = u.tokens ++ s → t.Fits r → u.Fits s → Resumes r → Resumes s → t = u ∧ r = s
  | .assign target sign value, .assign target' sign' value', r, s, h, _, _, hr, hs => by
    obtain ⟨ht, h₁⟩ := List.cons.inj h
    obtain ⟨hsign, h₂⟩ := List.cons.inj h₁
    obtain ⟨rfl, h₃⟩ := value.unique value' h₂ (hr.clear .sum) (hs.clear .sum)
    rw [Terminal.ext ht, Terminal.ext hsign]
    exact ⟨rfl, h₃⟩
  | .call name opening args closing, .call name' opening' args' closing', r, s, h, _, _, _, _ => by
    obtain ⟨hn, h₁⟩ := List.cons.inj h
    obtain ⟨ho, h₂⟩ := List.cons.inj h₁
    simp only [List.append_eq, List.append_assoc, List.singleton_append] at h₂
    obtain ⟨rfl, h₃⟩ := args.unique args' h₂
    obtain ⟨hc, h₄⟩ := List.cons.inj h₃
    rw [Terminal.ext hn, Terminal.ext ho, Terminal.ext hc]
    exact ⟨rfl, h₄⟩
  | .ifThen word cond colon body, .ifThen word' cond' colon' body', r, s, h, ht, hu, hr, hs => by
    simp only [Statement.tokens, List.cons_append, List.append_assoc] at h
    obtain ⟨rfl, rfl, rfl, h₁⟩ := header_unique h
    obtain ⟨rfl, h₂⟩ := body.unique body' h₁ ht.1 hu.1 hr hs
    exact ⟨rfl, h₂⟩
  | .ifElse word cond colon body other colon₂ alt,
    .ifElse word' cond' colon' body' other' colon₂' alt',
      r, s, h, ht, hu, hr, hs => by
    simp only [Statement.tokens, List.cons_append, List.append_assoc] at h
    obtain ⟨rfl, rfl, rfl, h₁⟩ := header_unique h
    obtain ⟨rfl, h₂⟩ := body.unique body' h₁ ht.1 hu.1 (other.resumes rfl _) (other'.resumes rfl _)
    obtain ⟨ho, h₃⟩ := List.cons.inj h₂
    obtain ⟨hc, h₄⟩ := List.cons.inj h₃
    obtain rfl := Terminal.ext ho
    obtain rfl := Terminal.ext hc
    obtain ⟨rfl, h₅⟩ := alt.unique alt' h₄ ht.2 hu.2 hr hs
    exact ⟨rfl, h₅⟩
  | .loop word cond colon body, .loop word' cond' colon' body', r, s, h, ht, hu, hr, hs => by
    simp only [Statement.tokens, List.cons_append, List.append_assoc] at h
    obtain ⟨rfl, rfl, rfl, h₁⟩ := header_unique h
    obtain ⟨rfl, h₂⟩ := body.unique body' h₁ ht hu hr hs
    exact ⟨rfl, h₂⟩
  | .ifThen word cond colon body, .ifElse word' cond' colon' body' other' colon₂' alt', r, s, h, ht,
      hu, hr, _ => by
    -- the shorter conditional would be followed by the `else` of the longer one
    simp only [Statement.tokens, List.cons_append, List.append_assoc] at h
    obtain ⟨rfl, rfl, rfl, h₁⟩ := header_unique h
    obtain ⟨rfl, h₂⟩ := body.unique body' h₁ ht.1 hu.1 hr (other'.resumes rfl _)
    subst h₂
    exact absurd other'.kind_eq ht.2
  | .ifElse word cond colon body other colon₂ alt,
    .ifThen word' cond' colon' body', r, s, h, ht, hu,
      _, hs => by
    simp only [Statement.tokens, List.cons_append, List.append_assoc] at h
    obtain ⟨rfl, rfl, rfl, h₁⟩ := header_unique h
    obtain ⟨rfl, h₂⟩ := body.unique body' h₁ ht.1 hu.1 (other.resumes rfl _) hs
    subst h₂
    exact absurd other.kind_eq hu.2
  | .assign _ sign _, .call _ sign' _ _, r, s, h, _, _, _, _
  | .call _ sign _ _, .assign _ sign' _, r, s, h, _, _, _, _ =>
    absurd (List.cons.inj (List.cons.inj h).2).1 (sign.token_ne sign' nofun)
  | .assign word _ _, .ifThen word' _ _ _, r, s, h, _, _, _, _
  | .assign word _ _, .ifElse word' _ _ _ _ _ _, r, s, h, _, _, _, _
  | .assign word _ _, .loop word' _ _ _, r, s, h, _, _, _, _
  | .call word _ _ _, .ifThen word' _ _ _, r, s, h, _, _, _, _
  | .call word _ _ _, .ifElse word' _ _ _ _ _ _, r, s, h, _, _, _, _
  | .call word _ _ _, .loop word' _ _ _, r, s, h, _, _, _, _
  | .ifThen word _ _ _, .assign word' _ _, r, s, h, _, _, _, _
  | .ifThen word _ _ _, .call word' _ _ _, r, s, h, _, _, _, _
  | .ifThen word _ _ _, .loop word' _ _ _, r, s, h, _, _, _, _
  | .ifElse word _ _ _ _ _ _, .assign word' _ _, r, s, h, _, _, _, _
  | .ifElse word _ _ _ _ _ _, .call word' _ _ _, r, s, h, _, _, _, _
  | .ifElse word _ _ _ _ _ _, .loop word' _ _ _, r, s, h, _, _, _, _
  | .loop word _ _ _, .assign word' _ _, r, s, h, _, _, _, _
  | .loop word _ _ _, .call word' _ _ _, r, s, h, _, _, _, _
  | .loop word _ _ _, .ifThen word' _ _ _, r, s, h, _, _, _, _
  | .loop word _ _ _, .ifElse word' _ _ _ _ _ _, r, s, h, _, _, _, _ =>
    absurd (List.cons.inj h).1 (word.token_ne word' nofun)

/-- **A stream begins with one suite at most.** -/
theorem Suite.unique : ∀ (t u : Suite) {line : Int} {r s : List Token},
    t.tokens ++ r = u.tokens ++ s → t.Fits line r → u.Fits line s → Resumes r → Resumes s →
    t = u ∧ r = s
  | .inline items, .inline items', line, r, s, h, ht, hu, hr, hs => by
    obtain ⟨rfl, h₁⟩ := items.unique items' h ht hu hr hs
    exact ⟨rfl, h₁⟩
  | .indented indent items dedent, .indented indent' items' dedent',
    line, r, s, h, ht, hu, _, _ => by
    simp only [Suite.tokens, List.cons_append, List.append_assoc] at h
    obtain ⟨hi, h₁⟩ := List.cons.inj h
    obtain rfl := Terminal.ext hi
    obtain ⟨rfl, h₂⟩ := items.unique items' h₁ ht.1 hu.1 (closing_resumes dedent ht.2)
      (closing_resumes dedent' hu.2)
    obtain ⟨rfl, h₃⟩ := closing_unique dedent dedent' h₂ ht.2 hu.2
    exact ⟨rfl, h₃⟩
  | .inline items, .indented indent _ _, line, r, s, h, _, _, hr, _ => by
    have hne := (items.resumes hr).ne_indent
    change items.tokens ++ r = _ at h
    rw [h] at hne
    exact absurd indent.kind_eq hne
  | .indented indent _ _, .inline items, line, r, s, h, _, _, _, hs => by
    have hne := (items.resumes hs).ne_indent
    change _ = items.tokens ++ s at h
    rw [← h] at hne
    exact absurd indent.kind_eq hne

/-- **A stream begins with one sequence of items at most.** -/
theorem Items.unique : ∀ (t u : Items) {extent : Extent} {line : Int} {r s : List Token},
    t.tokens ++ r = u.tokens ++ s → t.Fits extent line r → u.Fits extent line s → Resumes r →
    Resumes s → t = u ∧ r = s
  | .nil, u, extent, line, r, s, h, ht, hu, _, _ => by
    obtain rfl := Items.ne_nil_of_ends hu h.symm ht
    exact ⟨rfl, h⟩
  | t, .nil, extent, line, r, s, h, ht, hu, _, _ => by
    obtain rfl := Items.ne_nil_of_ends ht h hu
    exact ⟨rfl, h⟩
  | .colon token more, .colon token' more', extent, line, r, s, h, ht, hu, hr, hs => by
    obtain ⟨htoken, h₁⟩ := List.cons.inj h
    obtain rfl := Terminal.ext htoken
    obtain ⟨rfl, h₂⟩ := more.unique more' h₁ ht.2 hu.2 hr hs
    exact ⟨rfl, h₂⟩
  | .stmt t more, .stmt u more', extent, line, r, s, h, ht, hu, hr, hs => by
    rw [Items.tokens, Items.tokens, List.append_assoc, List.append_assoc] at h
    obtain ⟨rfl, h₁⟩ := t.unique u h ht.2.1 hu.2.1 (more.resumes hr) (more'.resumes hs)
    obtain ⟨rfl, h₂⟩ := more.unique more' h₁ ht.2.2 hu.2.2 hr hs
    exact ⟨rfl, h₂⟩
  | .colon token more, .stmt u more', extent, line, r, s, h, _, _, _, _ => by
    obtain ⟨us, hus⟩ := u.tokens_eq
    rw [Items.tokens, Items.tokens, hus] at h
    exact absurd (by rw [← (List.cons.inj h).1, token.kind_eq]) (starters_spec u.starts).2.2
  | .stmt t more, .colon token more', extent, line, r, s, h, _, _, _, _ => by
    obtain ⟨ts, hts⟩ := t.tokens_eq
    rw [Items.tokens, Items.tokens, hts] at h
    exact absurd (by rw [(List.cons.inj h).1, token.kind_eq]) (starters_spec t.starts).2.2

end

/-! ## Indent markers -/

mutual

/-- The suites in a statement, each with all the tokens behind the colon of its header. -/
def Statement.suites : Statement → List Token → List (Suite × List Token)
  | .assign _ _ _, _ => []
  | .call _ _ _ _, _ => []
  | .ifThen _ _ _ body, rest => (body, body.tokens ++ rest) :: body.suites rest
  | .ifElse _ _ _ body other colon alt, rest =>
    let behind := other.token :: colon.token :: (alt.tokens ++ rest)
    (body, body.tokens ++ behind) ::
      (body.suites behind ++ (alt, alt.tokens ++ rest) :: alt.suites rest)
  | .loop _ _ _ body, rest => (body, body.tokens ++ rest) :: body.suites rest

/-- The suites inside a suite. -/
def Suite.suites : Suite → List Token → List (Suite × List Token)
  | .inline items, rest => items.suites rest
  | .indented _ items dedent, rest => items.suites (closing dedent ++ rest)

/-- The suites inside some items. -/
def Items.suites : Items → List Token → List (Suite × List Token)
  | .nil, _ => []
  | .colon _ more, rest => more.suites rest
  | .stmt s more, rest => s.suites (more.tokens ++ rest) ++ more.suites rest

end

/-- A suite is indented if an indent marker stands behind its header. -/
def OpensAtIndent (x : Suite × List Token) : Prop :=
  nextKind x.2 = .indent → ∃ indent items dedent, x.1 = .indented indent items dedent

theorem Suite.opensAtIndent (t : Suite) {rest : List Token} (hr : Resumes rest) :
    OpensAtIndent (t, t.tokens ++ rest) := by
  intro hk
  cases t with
  | inline items => exact absurd hk (items.resumes hr).ne_indent
  | indented indent items dedent => exact ⟨indent, items, dedent, rfl⟩

mutual

theorem Statement.suites_open : ∀ (t : Statement) {rest : List Token}, t.Fits rest →
    Resumes rest → ∀ x ∈ t.suites rest, OpensAtIndent x
  | .assign _ _ _, _, _, _, x, hx => absurd hx List.not_mem_nil
  | .call _ _ _ _, _, _, _, x, hx => absurd hx List.not_mem_nil
  | .ifThen _ _ _ body, rest, hfit, hr, x, hx => by
    rcases List.mem_cons.mp hx with rfl | hx
    · exact body.opensAtIndent hr
    · exact body.suites_open hfit.1 hr x hx
  | .ifElse _ _ _ body other colon alt, rest, hfit, hr, x, hx => by
    rcases List.mem_cons.mp hx with rfl | hx
    · exact body.opensAtIndent (other.resumes rfl _)
    · rcases List.mem_append.mp hx with hx | hx
      · exact body.suites_open hfit.1 (other.resumes rfl _) x hx
      · rcases List.mem_cons.mp hx with rfl | hx
        · exact alt.opensAtIndent hr
        · exact alt.suites_open hfit.2 hr x hx
  | .loop _ _ _ body, rest, hfit, hr, x, hx => by
    rcases List.mem_cons.mp hx with rfl | hx
    · exact body.opensAtIndent hr
    · exact body.suites_open hfit hr x hx

theorem Suite.suites_open : ∀ (t : Suite) {line : Int} {rest : List Token}, t.Fits line rest →
    Resumes rest → ∀ x ∈ t.suites rest, OpensAtIndent x
  | .inline items, _, _, hfit, hr, x, hx => items.suites_open hfit hr x hx
  | .indented _ items dedent, _, _, hfit, _, x, hx =>
    items.suites_open hfit.1 (closing_resumes dedent hfit.2) x hx

theorem Items.suites_open : ∀ (t : Items) {extent : Extent} {line : Int} {rest : List Token},
    t.Fits extent line rest → Resumes rest → ∀ x ∈ t.suites rest, OpensAtIndent x
  | .nil, _, _, _, _, _, x, hx => absurd hx List.not_mem_nil
  | .colon _ more, _, _, _, hfit, hr, x, hx => more.suites_open hfit.2 hr x hx
  | .stmt s more, _, _, _, hfit, hr, x, hx => by
    rcases List.mem_append.mp hx with hx | hx
    · exact s.suites_open hfit.2.1 (more.resumes hr) x hx
    · exact more.suites_open hfit.2.2 hr x hx

end

/-- Nothing follows the items of a program. -/
theorem Items.rest_of_fits_program : ∀ (t : Items) {line : Int} {rest : List Token},
    t.Fits .program line rest → rest = []
  | .nil, _, [], _ => rfl
  | .nil, _, _ :: _, h => h.elim
  | .colon _ more, _, _, h => more.rest_of_fits_program h.2
  | .stmt _ more, _, _, h => more.rest_of_fits_program h.2.2

theorem Derivation.unique {stream : List Token} (d d' : Derivation stream) : d = d' := by
  obtain ⟨items, htokens, hfit⟩ := d
  obtain ⟨items', htokens', hfit'⟩ := d'
  have h : items.tokens ++ [] = items'.tokens ++ [] := by rw [htokens, htokens']
  obtain ⟨rfl, -⟩ := items.unique items' h hfit hfit' rfl rfl
  rfl

end Grammar

open Grammar

theorem parseTokens_eq_ok {ts : List Token} {program : Program} :
    parseTokens ts = .ok program ↔
      ∃ c', Reads ((Cursor.ofTokens ts).sequence .program) program c' := by
  unfold parseTokens Cursor.program
  cases (Cursor.ofTokens ts).sequence .program with
  | ok value rest shorter => simp [Reading.result]
  | error e stop => simp [Reading.result]

/-- A stream is read as a program if the grammar derives it. -/
theorem parseTokens_of_derivation {ts : List Token} (d : Derivation (streamOf ts)) :
    parseTokens ts = .ok d.items.stmts := by
  have hs : (Cursor.ofTokens ts).stream = d.items.tokens ++ [] := by
    rw [d.tokens_eq, List.append_nil]
    rfl
  obtain ⟨c', h, -⟩ := d.items.complete hs d.fits rfl
  exact parseTokens_eq_ok.mpr ⟨c', h⟩

/-- A stream that is read as a program is derived by the grammar. -/
theorem derivation_of_parseTokens {ts : List Token} {program : Program}
    (h : parseTokens ts = .ok program) :
    ∃ d : Derivation (streamOf ts), d.items.stmts = program := by
  obtain ⟨c', hc'⟩ := parseTokens_eq_ok.mp h
  obtain ⟨t, rfl, hp, hfit⟩ := Cursor.sequence_sound _ .program hc'
  have hend := t.rest_of_fits_program hfit
  have htokens := hp.stream_eq
  rw [hend, List.append_nil] at htokens
  rw [hend] at hfit
  exact ⟨⟨t, htokens.symm, hfit⟩, rfl⟩

/-- **The parser accepts exactly the grammar.** The programs that are read from some tokens are
those that the grammar derives from their stream, a stream has one derivation at most, and an
indent marker behind the colon of a header always opens an indented suite. -/
theorem parseTokens_iff_derivation (ts : List Token) :
    (∀ program, parseTokens ts = .ok program ↔
        ∃ d : Derivation (streamOf ts), d.items.stmts = program) ∧
      (∀ d d' : Derivation (streamOf ts), d = d') ∧
      ∀ d : Derivation (streamOf ts), ∀ suite behind, (suite, behind) ∈ d.items.suites [] →
        nextKind behind = .indent →
          ∃ indent items dedent, suite = .indented indent items dedent := by
  refine ⟨fun program => ⟨derivation_of_parseTokens, ?_⟩, fun d d' => d.unique d', ?_⟩
  · rintro ⟨d, rfl⟩
    exact parseTokens_of_derivation d
  · intro d suite behind hmem
    exact d.items.suites_open d.fits rfl _ hmem

end Offside
