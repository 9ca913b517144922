import Offside.Lexer.Stream
import Offside.Proofs.Text.Rune

/-!
# The run of a lexer

`Lexer.next` (`NextToken`) takes steps only while nothing waits, and `Lexer.readAll` (`Tokenize`) is
a loop over it. Here the interleaving of steps and deliveries is taken apart.

Tokens are delivered one at a time, and a lexer takes no more steps than it has to in between. What
comes out in the end is the same as if it ran to its stop first and delivered everything then. With
this, a property of all tokens of a source is proved as an invariant of the steps.

* `stop` runs a lexer to its stop, and `steps` takes some steps. `Lexer.after` is a lexer with more
  tokens to deliver before the others; no step looks at the tokens that wait (`step_after`).
* `settle_cases` has the four things that the width of a line can be, and `Finds` what a step can
  find: nothing, markers at the place where it stands, or one lexeme.
* `Tidy` says that the end of the source is among the tokens that wait when the source is used up,
  and only then.

Results:
* `stop_invariant`: what every step preserves is true when the lexer has stopped.
* `step_finds`: every step but the last finds tokens in front of the end of the source.
* `readAll_eq`: delivering the tokens one at a time gives what a run to the stop gives.
* `tokenize_eq`: the tokens of a source are those that wait when the lexer has stopped, unless it
  was stopped by an error.
* `tokenize_ends`: the tokens of a source end with the end of the source, which is not among the
  others.
* `tokenize_of_steps`: the tokens of a source are known once enough steps are taken, which is how
  the tokens of a given source are computed in a proof.
-/

namespace Offside

namespace Lexer

/-- Takes steps until the lexer has stopped. -/
def stop (l : Lexer) : Lexer :=
  if l.mode.isActive = true then l.step.stop else l
termination_by l.work
decreasing_by
  rename_i h
  exact l.step_work_lt h

theorem stop_of_active {l : Lexer} (h : l.mode.isActive = true) : l.stop = l.step.stop := by
  rw [stop, if_pos h]

theorem stop_of_inactive {l : Lexer} (h : l.mode.isActive = false) : l.stop = l := by
  rw [stop, if_neg (by simp [h])]

theorem stop_isActive (l : Lexer) : l.stop.mode.isActive = false := by
  fun_induction stop l with
  | case1 l h ih => exact ih
  | case2 l h => simpa using h

/-- Takes some steps. -/
def steps : Nat → Lexer → Lexer
  | 0, l => l
  | n + 1, l => steps n l.step

theorem step_of_inactive {l : Lexer} (h : l.mode.isActive = false) : l.step = l := by
  unfold step
  split <;> first | rfl | (next hm => rw [hm] at h; exact absurd h nofun)

/-- Steps lead to the same stop. -/
theorem stop_steps (n : Nat) (l : Lexer) : (steps n l).stop = l.stop := by
  induction n generalizing l with
  | zero => rfl
  | succ n ih =>
    rw [steps, ih]
    cases h : l.mode.isActive with
    | true => exact (stop_of_active h).symm
    | false => rw [step_of_inactive h]

/-- **What every step preserves is true when the lexer has stopped.** -/
theorem stop_invariant {P : Lexer → Prop}
    (hstep : ∀ l : Lexer, l.mode.isActive = true → P l → P l.step) (l : Lexer) (h : P l) :
    P l.stop := by
  fun_induction stop l with
  | case1 l ha ih => exact ih (hstep l ha h)
  | case2 l ha => exact h

theorem fill_stop (l : Lexer) : l.fill.stop = l.stop := by
  fun_induction fill l with
  | case1 l h ih => rw [ih, stop_of_active h.2]
  | case2 l h => rfl

/-- A lexer that has nothing to deliver after filling has stopped. -/
theorem fill_inactive {l : Lexer} (h : l.fill.pending = []) : l.fill.mode.isActive = false := by
  fun_induction fill l with
  | case1 l _ ih => exact ih h
  | case2 l hn =>
    cases ha : l.mode.isActive with
    | false => rfl
    | true => exact absurd ⟨h, ha⟩ hn

/-! ## The indentation of a line -/

section Settle

variable {l : Lexer} {width : Int64} (r : Rune)

/-- The levels that a line of some width leaves open. -/
def kept (levels : List Int64) (width : Int64) : List Int64 :=
  levels.dropWhile fun level => width < level

theorem settle_deeper (h : l.levels.headD 0 < width) : l.settle width r =
    { l with
      pending := l.pending ++ [.plain .indent [] l.pos]
      levels := width :: l.levels
      mode := .between } := by
  unfold settle
  simp only [h, if_true]
  rfl

theorem settle_same (h : width = l.levels.headD 0) :
    l.settle width r = { l with mode := .between } := by
  subst h
  unfold settle
  simp only [Int64.lt_irrefl, if_false, if_true]

theorem settle_shallower (h₁ : ¬ l.levels.headD 0 < width) (h₂ : width ≠ l.levels.headD 0)
    (h₃ : (kept l.levels width).headD 0 = width) : l.settle width r =
    { l with
      pending := l.pending ++
        List.replicate (l.levels.length - (kept l.levels width).length) (.plain .dedent [] l.pos)
      levels := kept l.levels width
      mode := .between } := by
  unfold settle
  unfold kept at h₃
  simp only [h₁, h₂, if_false, h₃, if_true]
  rfl

theorem settle_lost (h₁ : ¬ l.levels.headD 0 < width) (h₂ : width ≠ l.levels.headD 0)
    (h₃ : (kept l.levels width).headD 0 ≠ width) :
    l.settle width r = l.fail ⟨r.code, l.pos, .inconsistentDedent⟩ := by
  unfold settle
  unfold kept at h₃
  simp only [h₁, h₂, if_false, h₃]

/-- What the width of a line can be. -/
theorem settle_cases (l : Lexer) (width : Int64) :
    l.levels.headD 0 < width ∨ width = l.levels.headD 0 ∨
      (¬ l.levels.headD 0 < width ∧ width ≠ l.levels.headD 0 ∧
        (kept l.levels width).headD 0 = width) ∨
      (¬ l.levels.headD 0 < width ∧ width ≠ l.levels.headD 0 ∧
        (kept l.levels width).headD 0 ≠ width) := by
  by_cases h₁ : l.levels.headD 0 < width
  · exact Or.inl h₁
  · by_cases h₂ : width = l.levels.headD 0
    · exact Or.inr (Or.inl h₂)
    · by_cases h₃ : (kept l.levels width).headD 0 = width
      · exact Or.inr (Or.inr (Or.inl ⟨h₁, h₂, h₃⟩))
      · exact Or.inr (Or.inr (Or.inr ⟨h₁, h₂, h₃⟩))

end Settle

/-! ## Tokens that wait do not matter for what is read -/

/-- The lexer with more tokens to deliver before the others. -/
def after (ts : List Token) (l : Lexer) : Lexer :=
  { l with pending := ts ++ l.pending }

theorem settle_after (ts : List Token) (l : Lexer) (width : Int64) (r : Rune) :
    (after ts l).settle width r = after ts (l.settle width r) := by
  rcases l.settle_cases width with h | h | ⟨h₁, h₂, h₃⟩ | ⟨h₁, h₂, h₃⟩
  · rw [settle_deeper r h, settle_deeper (l := after ts l) r h]
    simp [after]
  · rw [settle_same r h, settle_same (l := after ts l) r h]
    rfl
  · rw [settle_shallower r h₁ h₂ h₃, settle_shallower (l := after ts l) r h₁ h₂ h₃]
    simp [after]
  · rw [settle_lost r h₁ h₂ h₃, settle_lost (l := after ts l) r h₁ h₂ h₃]
    rfl

theorem startLine_after (ts : List Token) (l : Lexer) :
    (after ts l).startLine = after ts l.startLine := by
  unfold startLine
  simp only [show (after ts l).input = l.input from rfl]
  cases splitGap true false l.input with
  | mk gap rest =>
    cases rest with
    | nil => rfl
    | cons r rs => exact settle_after ts { l with input := r :: rs, pos := l.pos.afterAll gap } _ r

theorem startLexeme_after (ts : List Token) (l : Lexer) :
    (after ts l).startLexeme = after ts l.startLexeme := by
  unfold startLexeme
  simp only [show (after ts l).input = l.input from rfl, show (after ts l).depth = l.depth from rfl]
  cases splitGap (0 < l.depth) false l.input with
  | mk gap rest => cases rest <;> rfl

theorem readNumber_after (ts : List Token) (l : Lexer) (first : Rune) (start : Position) :
    (after ts l).readNumber first start = after ts (l.readNumber first start) := by
  unfold readNumber
  simp only [show (after ts l).input = l.input from rfl]
  cases numberToken first (Rune.encode (first :: l.input.takeWhile Rune.isDigit)) start with
  | ok t => simp [after, emit]
  | error e => rfl

theorem readWord_after (ts : List Token) (l : Lexer) (first : Rune) (start : Position) :
    (after ts l).readWord first start = after ts (l.readWord first start) := by
  simp [readWord, after, emit]

theorem readSymbol_after (ts : List Token) (l : Lexer) (first : Rune) (start : Position) :
    (after ts l).readSymbol first start = after ts (l.readSymbol first start) := by
  unfold readSymbol
  simp only [show (after ts l).input = l.input from rfl]
  cases readOperator first l.input start with
  | ok x => simp [after, emit]
  | error e => rfl

theorem step_after (ts : List Token) (l : Lexer) : (after ts l).step = after ts l.step := by
  unfold step
  simp only [show (after ts l).mode = l.mode from rfl]
  cases l.mode with
  | lineStart => exact startLine_after ts l
  | between => exact startLexeme_after ts l
  | lexeme cls first start =>
    cases cls with
    | number => exact readNumber_after ts l first start
    | word => exact readWord_after ts l first start
    | operator => exact readSymbol_after ts l first start
  | finish => simp [close, after]
  | done => rfl
  | failed e => rfl

theorem stop_after (ts : List Token) (l : Lexer) : (after ts l).stop = after ts l.stop := by
  fun_induction stop l with
  | case1 l h ih => rw [stop_of_active (l := after ts l) h, step_after, ih]
  | case2 l h =>
    have hf : l.mode.isActive = false := by simpa using h
    exact stop_of_inactive (l := after ts l) hf

/-! ## What a step finds -/

/-- The number of open parentheses behind some tokens. -/
def depthOver (depth : Nat) (ts : List Token) : Nat :=
  ts.foldl (fun d t => depthAfter d t.kind) depth

theorem wordKind_mem (word : Text) :
    wordKind word ∈ [Kind.ifWord, .elseWord, .whileWord, .identifier] := by
  unfold wordKind
  split
  · simp
  · split
    · simp
    · split <;> simp

/-- The kinds of operators. -/
def symbols : List Kind :=
  [.plus, .minus, .times, .divide, .assign, .less, .greater, .openParen, .closeParen, .comma,
   .colon,
   .equal, .unequal]

theorem operatorKind?_mem {r : Rune} {kind : Kind} (h : operatorKind? r = some kind) :
    kind ∈ symbols := by
  unfold operatorKind? at h
  split at h <;> cases h <;> decide

theorem pairKind?_mem {r : Rune} {kind : Kind} (h : pairKind? r = some kind) :
    kind ∈ symbols := by
  unfold pairKind? at h
  split at h <;> cases h <;> decide

theorem readOperator_mem {first : Rune} {rest rest' lexeme : List Rune} {pos : Position}
    {kind : Kind} (h : readOperator first rest pos = .ok (kind, lexeme, rest')) :
    kind ∈ symbols := by
  unfold readOperator at h
  split at h
  · rename_i hk
    cases h
    exact pairKind?_mem hk
  · split at h
    · cases h
    · split at h
      · next hk =>
        cases h
        exact operatorKind?_mem hk
      · cases h

theorem numberToken_ok {first : Rune} {digits : Text} {pos : Position} {t : Token}
    (h : numberToken first digits pos = .ok t) : t.kind = .number ∧ t.pos = pos := by
  unfold numberToken at h
  split at h
  · rw [← Except.ok.inj h]
    exact ⟨rfl, rfl⟩
  · cases h

/-- The kinds of tokens that are spelled out in a source. -/
def spelled : List Kind :=
  .number :: [.ifWord, .elseWord, .whileWord, .identifier] ++ symbols

/-- **What a step finds** in front of the end of the source: nothing, markers at the place where it
stands, or one lexeme. -/
inductive Finds (l : Lexer) : List Token → Prop where
  | nothing : Finds l []
  | indent (pos : Position) (mode : l.mode = .lineStart) : Finds l [.plain .indent [] pos]
  | dedents (n : Nat) (pos : Position) (mode : l.mode = .lineStart) :
      Finds l (List.replicate n (.plain .dedent [] pos))
  | lexeme (t : Token) (cls : LexemeClass) (first : Rune) (mode : l.mode = .lexeme cls first t.pos)
      (kind : t.kind ∈ spelled) : Finds l [t]

theorem Finds.spelled_or_marker {l : Lexer} {new : List Token} (h : Finds l new) :
    ∀ t ∈ new, t.kind ∈ spelled ∨ t.kind.isMarker = true := by
  intro t ht
  cases h with
  | nothing => exact absurd ht List.not_mem_nil
  | indent pos _ =>
    obtain rfl := List.mem_singleton.mp ht
    exact Or.inr rfl
  | dedents n pos _ =>
    obtain ⟨-, rfl⟩ := List.mem_replicate.mp ht
    exact Or.inr rfl
  | lexeme u cls first _ hk =>
    obtain rfl := List.mem_singleton.mp ht
    exact Or.inl hk

theorem Finds.ne_eof {l : Lexer} {new : List Token} (h : Finds l new) :
    ∀ t ∈ new, t.kind ≠ .eof := by
  intro t ht he
  have := h.spelled_or_marker t ht
  rw [he] at this
  exact absurd this (by decide)

theorem startLine_finds {l : Lexer} (hm : l.mode = .lineStart) :
    l.startLine.mode ≠ .done ∧ ∃ new, Finds l new ∧ l.startLine.pending = l.pending ++ new := by
  unfold startLine
  cases splitGap true false l.input with
  | mk gap rest =>
    cases rest with
    | nil => exact ⟨nofun, [], .nothing, (List.append_nil _).symm⟩
    | cons r rs =>
      simp only
      generalize hl : ({ l with input := r :: rs, pos := l.pos.afterAll gap } : Lexer) = l'
      have hp : l'.pending = l.pending := by rw [← hl]
      rcases l'.settle_cases (widthOf l.tab gap) with h | h | ⟨h₁, h₂, h₃⟩ | ⟨h₁, h₂, h₃⟩
      · rw [settle_deeper r h, ← hp]
        exact ⟨nofun, _, .indent _ hm, rfl⟩
      · rw [settle_same r h, ← hp]
        exact ⟨nofun, [], .nothing, (List.append_nil _).symm⟩
      · rw [settle_shallower r h₁ h₂ h₃, ← hp]
        exact ⟨nofun, _, .dedents _ _ hm, rfl⟩
      · rw [settle_lost r h₁ h₂ h₃, ← hp]
        exact ⟨nofun, [], .nothing, (List.append_nil _).symm⟩

/-- Every step but the last finds tokens and does not end the run. -/
theorem step_finds {l : Lexer} (ha : l.mode.isActive = true) (hm : l.mode ≠ .finish) :
    l.step.mode ≠ .done ∧ ∃ new, Finds l new ∧ l.step.pending = l.pending ++ new := by
  unfold step
  split
  · next h => exact startLine_finds h
  · next h =>
    unfold startLexeme
    cases splitGap (0 < l.depth) false l.input with
    | mk gap rest =>
      cases rest with
      | nil => exact ⟨nofun, [], .nothing, (List.append_nil _).symm⟩
      | cons r rs =>
        refine ⟨?_, [], .nothing, (List.append_nil _).symm⟩
        simp only
        split <;> simp
  · next first start h =>
    unfold readNumber
    simp only
    split
    · next t ht =>
      obtain ⟨hk, rfl⟩ := numberToken_ok ht
      exact ⟨nofun, _, .lexeme t .number first h (by rw [hk]; decide), rfl⟩
    · exact ⟨nofun, [], .nothing, (List.append_nil _).symm⟩
  · next first start h =>
    refine ⟨nofun, _, .lexeme _ .word first h ?_, rfl⟩
    exact List.mem_cons_of_mem _ (List.mem_append_left _ (wordKind_mem _))
  · next first start h =>
    unfold readSymbol
    split
    · next kind lexeme rest hop =>
      refine ⟨nofun, _, .lexeme _ .operator first h ?_, rfl⟩
      exact List.mem_cons_of_mem _ (List.mem_append_right _ (readOperator_mem hop))
    · exact ⟨nofun, [], .nothing, (List.append_nil _).symm⟩
  · next h => exact absurd h hm
  · next h => rw [h] at ha; exact absurd ha nofun
  · next h => rw [h] at ha; exact absurd ha nofun

/-! ## The end of the source comes last -/

/-- The end of the source is among the tokens that wait when the source is used up, and only then.
-/
structure Tidy (l : Lexer) : Prop where
  ends : l.mode = .done → ∃ ts pos, l.pending = ts ++ [.eofAt pos] ∧ ∀ t ∈ ts, t.kind ≠ .eof
  plain : l.mode ≠ .done → ∀ t ∈ l.pending, t.kind ≠ .eof

theorem Tidy.step {l : Lexer} (h : Tidy l) (ha : l.mode.isActive = true) : Tidy l.step := by
  have hplain := h.plain (by rintro hd; rw [hd] at ha; exact absurd ha (by decide))
  by_cases hm : l.mode = .finish
  · have hs : l.step = l.close := by rw [Lexer.step, hm]
    rw [hs]
    refine ⟨fun _ => ⟨_, l.pos, rfl, fun t ht => ?_⟩, fun hd => absurd rfl hd⟩
    rcases List.mem_append.mp ht with ht | ht
    · exact hplain t ht
    · obtain ⟨-, rfl⟩ := List.mem_replicate.mp ht
      exact nofun
  · obtain ⟨hd, new, hnew, hp⟩ := step_finds ha hm
    refine ⟨fun he => absurd he hd, fun _ t ht => ?_⟩
    rw [hp, List.mem_append] at ht
    exact ht.elim (hplain t) (hnew.ne_eof t)

theorem Tidy.fill {l : Lexer} (h : Tidy l) : Tidy l.fill := by
  fun_induction Lexer.fill l with
  | case1 l hl ih => exact ih (h.step hl.2)
  | case2 l hl => exact h

/-- What a stopped lexer has to say. -/
def outcome (l : Lexer) : Except LexicalError (List Token) :=
  match l.mode with
  | .failed e => .error e
  | _ => .ok l.pending

theorem outcome_after (ts : List Token) (l : Lexer) :
    (after ts l).outcome = l.outcome.map (ts ++ ·) := by
  unfold outcome
  simp only [show (after ts l).mode = l.mode from rfl]
  cases l.mode <;> rfl

/-- What is delivered next. -/
theorem next_cases {l l' : Lexer} {r : Except LexicalError Token} (h : l.next = (r, l')) :
    (∃ t, r = .ok t ∧ l.fill = after [t] l') ∨
      (l.fill = l' ∧ l'.pending = [] ∧
        ((∃ e, r = .error e ∧ l'.mode = .failed e) ∨
          (∃ pos, r = .ok (.eofAt pos) ∧ l'.mode = .done))) := by
  unfold next at h
  simp only at h
  split at h
  · next t ts hp =>
    obtain ⟨rfl, rfl⟩ := Prod.mk.inj h
    refine Or.inl ⟨t, rfl, ?_⟩
    simp only [after, List.singleton_append, ← hp]
  · next hp =>
    have hi := fill_inactive hp
    split at h
    · next e hm =>
      obtain ⟨rfl, rfl⟩ := Prod.mk.inj h
      exact Or.inr ⟨rfl, hp, Or.inl ⟨e, rfl, hm⟩⟩
    · next hm =>
      obtain ⟨rfl, rfl⟩ := Prod.mk.inj h
      refine Or.inr ⟨rfl, hp, Or.inr ⟨_, rfl, ?_⟩⟩
      cases hmode : l.fill.mode with
      | done => rfl
      | failed e => exact absurd hmode (hm e)
      | _ => rw [hmode] at hi; exact absurd hi nofun

/-- Delivering a token leaves the rest in order. -/
theorem Tidy.of_after {t : Token} {l : Lexer} (h : Tidy (after [t] l)) (ht : t.kind ≠ .eof) :
    Tidy l where
  ends := by
    intro hm
    obtain ⟨ts, pos, hp, hts⟩ := h.ends hm
    change t :: l.pending = ts ++ [.eofAt pos] at hp
    cases ts with
    | nil => exact absurd (congrArg Token.kind (List.cons.inj hp).1) ht
    | cons u us =>
      exact ⟨us, pos, (List.cons.inj hp).2, fun v hv => hts v (List.mem_cons_of_mem u hv)⟩
  plain := fun hm u hu => h.plain hm u (List.mem_append_right _ hu)

/-- Behind a token that is not the end of the source, the rest is in order. -/
theorem next_token {l l' : Lexer} {t : Token} (h : Tidy l.fill) (hn : l.next = (.ok t, l'))
    (hk : t.kind ≠ .eof) : l.fill = after [t] l' ∧ Tidy l' := by
  rcases next_cases hn with ⟨u, hu, hl⟩ | ⟨-, -, ⟨e, he, -⟩ | ⟨pos, he, -⟩⟩
  · obtain rfl := Except.ok.inj hu
    rw [hl] at h
    exact ⟨hl, h.of_after hk⟩
  · exact absurd he nofun
  · obtain rfl := Except.ok.inj he
    exact absurd rfl hk

/-- The end of the source is delivered when it is all that waits. -/
theorem next_end {l l' : Lexer} {t : Token} (h : Tidy l.fill) (hn : l.next = (.ok t, l'))
    (hk : t.kind = .eof) : l.fill.mode = .done ∧ l.fill.pending = [t] := by
  rcases next_cases hn with ⟨u, hu, hl⟩ | ⟨hl, hp, ⟨e', he, -⟩ | ⟨pos, -, hm⟩⟩
  · obtain rfl := Except.ok.inj hu
    have ht : t ∈ l.fill.pending := by
      rw [hl]
      exact List.mem_append_left _ (List.mem_singleton_self t)
    -- the end of the source waits only when the lexer is done, and nothing waits behind it
    have hm : l.fill.mode = .done := by
      by_cases hm : l.fill.mode = .done
      · exact hm
      · exact absurd hk (h.plain hm t ht)
    obtain ⟨ts, pos, hp, hts⟩ := h.ends hm
    have hnil : ts = [] := by
      cases ts with
      | nil => rfl
      | cons u us =>
        rw [hl] at hp
        change t :: l'.pending = u :: us ++ [.eofAt pos] at hp
        rw [(List.cons.inj hp).1] at hk
        exact absurd hk (hts u List.mem_cons_self)
    subst hnil
    rw [hp] at ht
    exact ⟨hm, by rw [hp, List.mem_singleton.mp ht]; rfl⟩
  · exact absurd he nofun
  · obtain ⟨ts, pos, hts, -⟩ := h.ends (by rw [hl]; exact hm)
    rw [hl, hp] at hts
    exact absurd hts (by simp)

/-- Delivering the tokens one at a time gives what a run to the stop gives. -/
theorem readAll_eq (l : Lexer) (h : Tidy l) : l.readAll.1 = l.stop.outcome := by
  have hfill := h.fill
  rw [← l.fill_stop]
  fun_induction readAll l with
  | case1 l e l' hn =>
    rcases next_cases hn with ⟨t, ht, -⟩ | ⟨hl, -, ⟨e', he, hm⟩ | ⟨pos, he, -⟩⟩
    · exact absurd ht nofun
    · obtain rfl := Except.error.inj he
      rw [hl, stop_of_inactive (by rw [hm]; rfl), outcome, hm]
    · exact absurd he nofun
  | case2 l t l' hn hk =>
    obtain ⟨hm, hp⟩ := next_end hfill hn hk
    rw [stop_of_inactive (by rw [hm]; rfl), outcome, hm, hp]
  | case3 l t l' hn hk ts l'' hr ih =>
    obtain ⟨hl, hl'⟩ := next_token hfill hn hk
    have hrest := ih hl' hl'.fill
    rw [fill_stop, hr] at hrest
    rw [hl, stop_after, outcome_after, ← hrest]
    rfl
  | case4 l t l' hn hk e l'' hr ih =>
    obtain ⟨hl, hl'⟩ := next_token hfill hn hk
    have hrest := ih hl' hl'.fill
    rw [fill_stop, hr] at hrest
    rw [hl, stop_after, outcome_after, ← hrest]
    rfl

theorem tidy_ofSource (tab : TabWidth) (src : Text) : Tidy (ofSource tab src) where
  ends := nofun
  plain := fun _ _ ht => absurd ht List.not_mem_nil

end Lexer

open Lexer

/-- **The tokens of a source are those that wait when the lexer has stopped.** -/
theorem tokenize_eq (tab : TabWidth) (src : Text) :
    tokenize tab src = (ofSource tab src).stop.outcome :=
  readAll_eq _ (tidy_ofSource tab src)

/-- A source that can be cut into tokens is used up in the end. -/
theorem tokenize_eq_ok {tab : TabWidth} {src : Text} {ts : List Token} :
    tokenize tab src = .ok ts ↔
      (ofSource tab src).stop.mode = .done ∧ (ofSource tab src).stop.pending = ts := by
  rw [tokenize_eq]
  have hi := stop_isActive (ofSource tab src)
  unfold outcome
  cases hm : (ofSource tab src).stop.mode with
  | done => simp
  | failed e => simp
  | _ => rw [hm] at hi; exact absurd hi nofun

/-- The tokens of a source end with the end of the source, which is not among the others. -/
theorem tokenize_ends {tab : TabWidth} {src : Text} {ts : List Token}
    (h : tokenize tab src = .ok ts) :
    ∃ us pos, ts = us ++ [.eofAt pos] ∧ ∀ t ∈ us, t.kind ≠ .eof := by
  obtain ⟨hm, rfl⟩ := tokenize_eq_ok.mp h
  have htidy : Tidy (ofSource tab src).stop :=
    stop_invariant (fun l ha hl => hl.step ha) _ (tidy_ofSource tab src)
  exact htidy.ends hm

/-- A lexer at the start of some runes. -/
def Lexer.ofRunes (tab : TabWidth) (rs : List Rune) : Lexer :=
  { ofSource tab [] with input := rs }

theorem ofSource_ofString (tab : TabWidth) (s : String) :
    ofSource tab (Text.ofString s) = ofRunes tab (s.toList.map .char) := by
  rw [ofSource, Rune.ofString_eq, Rune.decode_ofChars]
  rfl

/-- The tokens of a source are known once enough steps are taken. -/
theorem tokenize_of_steps (n : Nat) {tab : TabWidth} {s : String} {ts : List Token}
    (hm : (steps n (ofRunes tab (s.toList.map .char))).mode = .done)
    (hp : (steps n (ofRunes tab (s.toList.map .char))).pending = ts) :
    tokenize tab (Text.ofString s) = .ok ts := by
  rw [tokenize_eq_ok, ofSource_ofString, ← stop_steps n, stop_of_inactive (by rw [hm]; rfl)]
  exact ⟨hm, hp⟩

end Offside
