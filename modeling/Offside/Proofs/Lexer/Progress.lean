import Offside.Proofs.Lexer.Exact

/-!
# A lexer gets on

How many rounds the loop of `NextToken` can take, how much the loops inside a state function read,
and how many tokens a source can have.

A lexer that is asked for a token takes steps while it has nothing to answer with. Some steps find
no token, and the step that settles a line that is indented as before does not even read a rune.
Still it is never long before an answer is there: what a step leaves unread decides how the next one
goes. So between two lexemes at most four steps are taken: to the end of the line, over the
indentation of the next one, to the first rune of its lexeme, and over the lexeme.

A source of `n` bytes has at most `2 * n + 1` tokens. Each lexeme takes a rune, and so does the
indentation that opens a level, which pays for the marker that closes it as well.

* `fillSteps` is the number of steps that are taken for a call, and `Answers` says that a lexer has
  something to answer with or no further step.
* `Skips` is a loop over runes, every round of which reads some of them, until no round is possible.
  `classRound` and `gapRound` are the rounds of the loops over digits and letters, and over gaps and
  comments.

Results:
* `fillSteps_le`: at most four steps are taken for a call. The bound is taken backwards, mode by
  mode: from a lexeme one, from the start of a line three, from between two lexemes four.
* `skips_splitGap`, `skips_dropWhile`: every round of a loop within a step reads a rune.
* `Course.length_le`: the results of a course are bounded by the runes and levels in front of it.
* `lexer_progress`: all of this for the calls of a lexer and the tokens of a source.
-/

namespace Offside

namespace Lexer

/-! ## The steps for one call -/

/-- There is something to answer a call with, or no further step. -/
def Answers (l : Lexer) : Prop :=
  l.pending ≠ [] ∨ l.mode.isActive = false

/-- The number of steps that are taken for a call. -/
def fillSteps (l : Lexer) : Nat :=
  if l.pending = [] ∧ l.mode.isActive = true then l.step.fillSteps + 1 else 0
termination_by l.work
decreasing_by
  rename_i h
  exact l.step_work_lt h.2

/-- A call takes this number of steps, and then there is an answer. -/
theorem fill_eq_steps (l : Lexer) : l.fill = steps l.fillSteps l ∧ Answers l.fill := by
  fun_induction fill l with
  | case1 l h ih =>
    rw [fillSteps, if_pos h, steps]
    exact ih
  | case2 l h =>
    rw [fillSteps, if_neg h]
    refine ⟨rfl, ?_⟩
    by_cases hp : l.pending = []
    · exact Or.inr (by simpa [hp] using h)
    · exact Or.inl hp

/-- Each of the steps is taken for want of an answer. -/
theorem not_answers_of_lt {l : Lexer} {n : Nat} (h : n < l.fillSteps) : ¬ Answers (steps n l) := by
  induction n generalizing l with
  | zero =>
    rw [fillSteps] at h
    split at h
    · next hl => simp [Answers, steps, hl]
    · exact absurd h (Nat.not_lt_zero 0)
  | succ n ih =>
    rw [fillSteps] at h
    split at h
    · exact ih (Nat.lt_of_succ_lt_succ h)
    · exact absurd h (Nat.not_lt_zero _)

section FillSteps

variable {l : Lexer} {n : Nat}

theorem fillSteps_of_answers (h : Answers l) : l.fillSteps = 0 := by
  rw [fillSteps, if_neg]
  rintro ⟨hp, ha⟩
  rcases h with h | h
  · exact h hp
  · rw [ha] at h
    cases h

theorem fillSteps_le_succ (h : l.step.fillSteps ≤ n) : l.fillSteps ≤ n + 1 := by
  rw [fillSteps]
  split <;> omega

/-- A step over a lexeme gives a token, or the lexeme is faulty. -/
theorem answers_of_lexeme {cls : LexemeClass} {first : Rune} {start : Position}
    (hm : l.mode = .lexeme cls first start) : Answers l.step := by
  rw [step, hm]
  cases cls with
  | number =>
    simp only [readNumber]
    split
    · exact Or.inl (by simp [emit])
    · exact Or.inr rfl
  | word => exact Or.inl (by simp [readWord, emit])
  | operator =>
    simp only [readSymbol]
    split
    · exact Or.inl (by simp [emit])
    · exact Or.inr rfl

theorem fillSteps_of_lexeme {cls : LexemeClass} {first : Rune} {start : Position}
    (hm : l.mode = .lexeme cls first start) : l.fillSteps ≤ 1 :=
  fillSteps_le_succ (Nat.le_of_eq (fillSteps_of_answers (answers_of_lexeme hm)))

theorem fillSteps_of_finish (hm : l.mode = .finish) : l.fillSteps ≤ 1 := by
  refine fillSteps_le_succ (Nat.le_of_eq (fillSteps_of_answers ?_))
  rw [step, hm]
  exact Or.inr rfl

/-- In front of a lexeme there is no gap to skip. -/
theorem fillSteps_of_solid {r : Rune} {rest : List Rune} (hm : l.mode = .between)
    (hin : l.input = r :: rest) (hr : Solid r) : l.fillSteps ≤ 2 := by
  have hrest : (l.scanOf false).rest = r :: rest := by
    simp only [Scan.rest, scanOf, hin, splitGap_solid hr]
  have hstep : l.step.mode = .lexeme (classOf r) r (l.scanOf false).next := by
    rw [step_between hm, hrest]
    simp only [hr.1, Bool.false_eq_true, if_false]
  exact fillSteps_le_succ (fillSteps_of_lexeme hstep)

/-- Where a line begins, a lexeme comes next, or a marker, or the end. -/
theorem fillSteps_of_lineStart (hm : l.mode = .lineStart) : l.fillSteps ≤ 3 := by
  refine fillSteps_le_succ ?_
  cases hr : (l.scanOf true).rest with
  | nil =>
    have hfinish : l.step.mode = .finish := by rw [step_lineStart hm, hr]
    exact (fillSteps_of_finish hfinish).trans (by decide)
  | cons r rest =>
    have hsolid := Scan.solid_of_fresh rfl hr
    simp only [step_lineStart hm, hr, settle_eq]
    split
    · exact fillSteps_of_solid rfl rfl hsolid
    · rw [fillSteps_of_answers (Or.inr rfl)]
      exact Nat.zero_le 2

theorem fillSteps_of_between (hm : l.mode = .between) : l.fillSteps ≤ 4 := by
  refine fillSteps_le_succ ?_
  rw [step_between hm]
  split
  · exact (fillSteps_of_finish rfl).trans (by decide)
  · next r rest _ =>
    by_cases hn : r.isNewline = true
    · exact fillSteps_of_lineStart (if_pos hn)
    · exact (fillSteps_of_lexeme (if_neg hn)).trans (by decide)

/-- **At most four steps are taken for a call.** -/
theorem fillSteps_le (l : Lexer) : l.fillSteps ≤ 4 := by
  cases hm : l.mode with
  | lineStart => exact (fillSteps_of_lineStart hm).trans (by decide)
  | between => exact fillSteps_of_between hm
  | lexeme cls first start => exact (fillSteps_of_lexeme hm).trans (by decide)
  | finish => exact (fillSteps_of_finish hm).trans (by decide)
  | done => exact (Nat.le_of_eq (fillSteps_of_answers (Or.inr (by rw [hm]; rfl)))).trans (by decide)
  | failed e =>
    exact (Nat.le_of_eq (fillSteps_of_answers (Or.inr (by rw [hm]; rfl)))).trans (by decide)

end FillSteps

/-! ## The loops within a step -/

/-- **A loop that skips runes**: every round reads some of them, until no round is possible. -/
inductive Skips (round : List Rune → Option (List Rune)) : List Rune → List Rune → Prop where
  | over {rs : List Rune} (stops : round rs = none) : Skips round rs rs
  | round {rs rs' rest : List Rune} (goes : round rs = some rs')
      (reads : ∃ front, front ≠ [] ∧ front ++ rs' = rs) (more : Skips round rs' rest) :
      Skips round rs rest

/-- One round of skipping the runes of some class. -/
def classRound (p : Rune → Bool) : List Rune → Option (List Rune)
  | [] => none
  | r :: rs => if p r then some rs else none

/-- One round of skipping a gap: a line feed that belongs to it, a comment, or a space character. -/
def gapRound (acrossLines : Bool) : List Rune → Option (List Rune)
  | [] => none
  | r :: rs =>
    if r.isNewline then if acrossLines then some rs else none
    else if r.is '#' then some ((r :: rs).dropWhile fun r => !r.isNewline)
    else if r.isSpace then some rs
    else none

/-- **Skipping a class reads a rune in every round.** -/
theorem skips_dropWhile (p : Rune → Bool) (rs : List Rune) :
    Skips (classRound p) rs (rs.dropWhile p) := by
  induction rs with
  | nil => exact .over rfl
  | cons r rs ih =>
    cases hr : p r with
    | true =>
      rw [List.dropWhile_cons_of_pos hr]
      exact .round (by rw [classRound, if_pos hr]) ⟨[r], List.cons_ne_nil _ _, rfl⟩ ih
    | false =>
      rw [List.dropWhile_cons_of_neg (by simp [hr])]
      exact .over (by rw [classRound, if_neg (by simp [hr])])

/-- In a comment, the gap goes on at the end of the line. -/
theorem splitGap_comment (acrossLines : Bool) (rs : List Rune) :
    (splitGap acrossLines true rs).2 =
      (splitGap acrossLines false (rs.dropWhile fun r => !r.isNewline)).2 := by
  induction rs with
  | nil => rfl
  | cons r rs ih =>
    cases hn : r.isNewline with
    | true =>
      rw [List.dropWhile_cons_of_neg (by simp [hn])]
      simp only [splitGap, hn, if_true]
    | false =>
      rw [List.dropWhile_cons_of_pos (by simp [hn]), ← ih]
      simp [splitGap, hn]

/-- **Skipping a gap reads a rune in every round.** -/
theorem skips_splitGap (acrossLines : Bool) (rs : List Rune) :
    Skips (gapRound acrossLines) rs (splitGap acrossLines false rs).2 := by
  induction hk : rs.length using Nat.strong_induction_on generalizing rs with
  | _ k ih =>
    subst hk
    cases rs with
    | nil => exact .over rfl
    | cons r rs =>
      have hone : ∃ front, front ≠ [] ∧ front ++ rs = r :: rs := ⟨[r], List.cons_ne_nil _ _, rfl⟩
      have hrest := ih rs.length (Nat.lt_succ_self _) rs rfl
      unfold splitGap
      cases hn : r.isNewline with
      | true =>
        cases acrossLines with
        | true => exact .round (by simp [gapRound, hn]) hone hrest
        | false => exact .over (by simp [gapRound, hn])
      | false =>
        simp only [Bool.false_eq_true, if_false, Bool.false_or]
        cases hc : r.is '#' with
        | true =>
          -- the comment is one round, however long it is
          have hdrop : ((r :: rs).dropWhile fun r => !r.isNewline) =
              rs.dropWhile fun r => !r.isNewline := List.dropWhile_cons_of_pos (by simp [hn])
          have hlt : (rs.dropWhile fun r => !r.isNewline).length < (r :: rs).length :=
            Nat.lt_succ_of_le (length_dropWhile_le _ rs)
          simp only [if_true, splitGap_comment]
          refine .round (by simp [gapRound, hn, hc]) ?_ (ih _ hlt _ rfl)
          refine ⟨(r :: rs).takeWhile fun r => !r.isNewline, ?_, ?_⟩
          · rw [List.takeWhile_cons_of_pos (by simp [hn])]
            exact List.cons_ne_nil _ _
          · rw [← hdrop]
            exact List.takeWhile_append_dropWhile
        | false =>
          simp only [Bool.false_eq_true, if_false]
          cases hs : r.isSpace with
          | true => exact .round (by simp [gapRound, hn, hc, hs]) hone hrest
          | false => exact .over (by simp [gapRound, hn, hc, hs])

/-! ## Few tokens for a source -/

theorem Rising.headD_nonneg {levels : List Int64} (h : Rising levels) : 0 ≤ levels.headD 0 := by
  cases levels with
  | nil => exact Int64.le_refl 0
  | cons top below =>
    have hpos := (List.pairwise_cons.mp h).1 0 (List.mem_append_right _ (List.mem_singleton_self 0))
    exact Int64.le_of_lt hpos

/-- A level is opened by an indentation, which has a rune. -/
theorem gap_ne_nil_of_indent {tab : TabWidth} {levels : List Int64} {gap : List Rune}
    (h : Rising levels) (hw : levels.headD 0 < widthOf tab gap) : gap ≠ [] := by
  rintro rfl
  exact Int64.lt_irrefl (Int64.lt_of_le_of_lt h.headD_nonneg hw)

/-- **The results of a course are few**: two for every rune in front of it, one for every open level
and one for the end. -/
theorem Course.length_le {tab : TabWidth} {s : Scan} {ts : List Token} {e : Option LexicalError}
    (h : Course tab s ts e) (hs : Rising s.levels) :
    (resultsOf ts e).length ≤ 2 * s.input.length + s.levels.length + 1 := by
  have hinput (s : Scan) : s.input.length = s.gap.length + s.rest.length := by
    rw [← List.length_append, s.gap_append_rest]
  induction h with
  | finish _ => simp [resultsOf, markersAt]
  | @newline s r rest ts e _ hr _ _ ih =>
    have hrest := ih hs
    have hlen := hinput s
    rw [hr, List.length_cons] at hlen
    simp only at hrest
    omega
  | @line s r rest kinds levels ts e _ hr ha _ ih =>
    have hrest := ih (hs.adjust ha)
    have hlen := hinput s
    rw [hr, List.length_cons] at hlen
    rw [List.length_cons] at hrest
    rw [resultsOf_append, List.length_append, List.length_map, markersAt, List.length_map]
    rcases adjust_cases ha with ⟨hw, rfl, rfl⟩ | ⟨n, hn, rfl, rfl, -⟩
    · -- the indentation pays for the marker and for the one that closes the level
      have hgap := List.length_pos_of_ne_nil (gap_ne_nil_of_indent hs hw)
      simp only [List.length_cons, List.length_nil] at hrest ⊢
      omega
    · rw [List.length_drop] at hrest
      rw [List.length_replicate]
      omega
  | lost _ _ _ => simp [resultsOf]
  | @lexeme s r rest lexeme after t ts e _ hr _ hread _ ih =>
    have hrest := ih hs
    have hlen := hinput s
    obtain ⟨happ, hv, -, hl⟩ := readLexeme_spec hread
    have hpos := List.length_pos_of_ne_nil (hl.ne_nil hv)
    rw [hr, ← happ, List.length_append] at hlen
    simp only at hrest
    rw [show resultsOf (t :: ts) e = .ok t :: resultsOf ts e from rfl, List.length_cons]
    omega
  | fault _ _ _ _ => simp [resultsOf]

/-- A source has no more runes than bytes. -/
theorem length_decode_le (src : Text) : (Rune.decode src).length ≤ src.length := by
  have hrunes (rs : List Rune) : rs.length ≤ (Rune.encode rs).length := by
    induction rs with
    | nil => exact Nat.le_refl 0
    | cons r rs ih =>
      have hpos := r.width_pos
      rw [Rune.encode_cons, List.length_append, List.length_cons, r.length_bytes]
      omega
  have h := hrunes (Rune.decode src)
  rwa [Rune.encode_decode] at h

/-- If all results are tokens, the answer has each of them. -/
theorem length_of_mapM {rs : List Result} {ts : List Token} (h : rs.mapM id = .ok ts) :
    ts.length = rs.length := by
  induction rs generalizing ts with
  | nil =>
    obtain rfl := Except.ok.inj h
    rfl
  | cons r rs ih =>
    rw [List.mapM_cons] at h
    cases r with
    | error e => cases h
    | ok t =>
      cases hrs : rs.mapM id with
      | error e =>
        rw [hrs] at h
        cases h
      | ok us =>
        rw [hrs] at h
        obtain rfl := Except.ok.inj h
        exact congrArg Nat.succ (ih hrs)

/-- The results of a lexer of a source are few. -/
theorem length_trace_le (tab : TabWidth) (src : Text) :
    (ofSource tab src).trace.length ≤ 2 * src.length + 1 := by
  obtain ⟨ts, e, hc, htrace⟩ := trace_ofSource tab src
  have hlen : (resultsOf ts e).length ≤ 2 * (Rune.decode src).length + 0 + 1 :=
    hc.length_le rising_nil
  have hrunes := length_decode_le src
  rw [htrace]
  omega

end Lexer

open Lexer

/-- **A lexer gets on.** A call takes at most four steps, each for want of an answer, until there is
a token or the lexer has stopped; and the loops within a step, over a gap, a comment, a number and a
word, read a rune in every round. So reading a source to its end takes no more than `2 * n + 1`
calls for `n` bytes. These give the answer, and as many tokens if there is no fault. -/
theorem lexer_progress :
    (∀ l : Lexer, l.fillSteps ≤ 4 ∧ l.fill = steps l.fillSteps l ∧ Answers l.fill ∧
      ∀ n < l.fillSteps, ¬ Answers (steps n l)) ∧
    (∀ acrossLines rs, Skips (gapRound acrossLines) rs (splitGap acrossLines false rs).2) ∧
    (∀ rs, Skips (classRound fun r => !r.isNewline) rs (rs.dropWhile fun r => !r.isNewline)) ∧
    (∀ (l : Lexer) first start,
      Skips (classRound Rune.isDigit) l.input (l.readNumber first start).input ∧
      Skips (classRound Rune.isNamePart) l.input (l.readWord first start).input) ∧
    ∀ tab src, ∃ n ≤ 2 * src.length + 1,
      tokenize tab src = ((ofSource tab src).drawnBy (List.replicate n .one)).mapM id ∧
      ∀ ts, tokenize tab src = .ok ts → ts.length = n := by
  refine ⟨fun l => ⟨l.fillSteps_le, l.fill_eq_steps.1, l.fill_eq_steps.2,
      fun n => not_answers_of_lt⟩,
    skips_splitGap, skips_dropWhile _, fun l first start => ⟨?_, skips_dropWhile _ l.input⟩,
    fun tab src => ?_⟩
  · have hinput : (l.readNumber first start).input = l.input.dropWhile Rune.isDigit := by
      unfold readNumber
      dsimp only
      split <;> rfl
    rw [hinput]
    exact skips_dropWhile _ l.input
  · obtain ⟨htrace, -, hall⟩ := all_eq_ones (ofSource tab src)
    have htokens : tokenize tab src = (ofSource tab src).trace.mapM id := hall
    refine ⟨_, length_trace_le tab src, by rw [← htrace, htokens], fun ts hts => ?_⟩
    exact length_of_mapM (htokens.symm.trans hts)

/-- The tokens of a source, called for one by one. -/
theorem lexer_progress_wrapped :
    tokenize .standard (Text.ofString wrappedSource) = .ok wrappedTokens ∧
      wrappedTokens.length ≤ 2 * (Text.ofString wrappedSource).length + 1 ∧
      ((ofSource .standard (Text.ofString wrappedSource)).drawnBy
        (List.replicate wrappedTokens.length .one)).mapM id = .ok wrappedTokens := by
  obtain ⟨n, hn, hcalls, hlen⟩ :=
    lexer_progress.2.2.2.2 .standard (Text.ofString wrappedSource)
  obtain rfl := hlen _ tokenize_wrapped
  exact ⟨tokenize_wrapped, hn, hcalls ▸ tokenize_wrapped⟩

end Offside
