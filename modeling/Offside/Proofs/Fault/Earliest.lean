import Mathlib.Data.List.TakeWhile
import Offside.Proofs.Fault.Local

/-!
# A fault is shown at the earliest token

The parser stops at the first error (specification, 4.2), and the token that it names is the first
that makes a program impossible: it is not found too late, and not blamed too early.

What stands in front of the token at fault can be completed (`Proofs/Fault/Completion`), and reading
does the same whatever stands behind that token (`Proofs/Fault/Local`). Both are put together for
whole streams here.

* `Halts` says that reading some tokens as a program stops behind some of them with a fault.

Results:
* `parseTokens_of_streamOf_eq`: whether tokens are a program depends on their stream alone.
* `Halts.completable`: the tokens in front of a fault are the beginning of a program.
* `Halts.error_of_append`: reading shows the same fault whatever stands behind its token.
* `Halts.dead`: no program begins with these tokens and the one at fault.
* `parseTokens_error_earliest`: both together. There is one place of a stream with both properties,
  since a beginning of a program has only beginnings of programs as beginnings.
-/

namespace Offside

open Grammar

/-! ## Streams -/

theorem ne_eof_of_mem_streamOf {ts : List Token} {t : Token} (h : t ∈ streamOf ts) :
    t.kind ≠ .eof := by
  simpa using List.mem_takeWhile_imp h

theorem streamOf_append {before : List Token} (h : ∀ t ∈ before, t.kind ≠ .eof) (ts : List Token) :
    streamOf (before ++ ts) = before ++ streamOf ts :=
  List.takeWhile_append_of_pos (by simpa using h)

theorem streamOf_eq_self {ts : List Token} (h : ∀ t ∈ ts, t.kind ≠ .eof) : streamOf ts = ts :=
  List.takeWhile_eq_self_iff.mpr (by simpa using h)

theorem streamOf_eofAt {ts : List Token} (h : ∀ t ∈ ts, t.kind ≠ .eof) (pos : Position) :
    streamOf (ts ++ [.eofAt pos]) = ts := by
  rw [streamOf_append h]
  exact List.append_nil ts

/-- No end of source is among the tokens that complete a phrase. -/
theorem ne_eof_of_fill {kinds : List Kind} (hk : kinds ⊆ fillers) {fill : List Token}
    (h : fill.map Token.kind = kinds) : ∀ t ∈ fill, t.kind ≠ .eof := by
  intro t ht
  have hmem : t.kind ∈ fillers := hk (h ▸ List.mem_map_of_mem ht)
  have hall : ∀ k ∈ fillers, k ≠ .eof := by decide
  exact hall t.kind hmem

/-! ## Programs -/

theorem parseTokens_eq_error {ts : List Token} {e : SyntaxError} :
    parseTokens ts = .error e ↔
      ∃ stop, Fails ((Cursor.ofTokens ts).sequence .program) e stop := by
  unfold parseTokens Cursor.program
  cases (Cursor.ofTokens ts).sequence .program with
  | ok value rest shorter => simp [Reading.result]
  | error e' stop' => simp [Reading.result]

/-- Whether tokens are a program depends on their stream alone. -/
theorem parseTokens_of_streamOf_eq {ts ts' : List Token} {program : Program}
    (h : parseTokens ts = .ok program) (hs : streamOf ts' = streamOf ts) :
    parseTokens ts' = .ok program := by
  obtain ⟨d, rfl⟩ := derivation_of_parseTokens h
  exact parseTokens_of_derivation ⟨d.items, d.tokens_eq.trans hs.symm, d.fits⟩

/-- Reading some tokens as a program stops behind `before` with the fault `e`. -/
structure Halts (ts before : List Token) (e : SyntaxError) (stop : Cursor) : Prop where
  fails : Fails ((Cursor.ofTokens ts).sequence .program) e stop
  stops : Stops Items.tokens
    (fun t => t.Fits .program 0 [] ∧ (before = [] → t.tokens = [])) (.ofTokens ts) before e stop
  /-- At the end of the source, reading does not stop right behind a marker. -/
  ends : e.got.kind = .eof → Cursor.EndsPlain before

theorem halts_of_error {ts : List Token} {e : SyntaxError} (h : parseTokens ts = .error e) :
    ∃ before stop, Halts ts before e stop := by
  obtain ⟨stop, hf⟩ := parseTokens_eq_error.mp h
  obtain ⟨before, hs, hends⟩ := Cursor.sequence_stops _ .program hf
  exact ⟨before, stop, hf, hs, hends⟩

namespace Halts

variable {ts before : List Token} {e : SyntaxError} {stop : Cursor}

/-- The fault lies behind some tokens of the stream. -/
theorem streamOf_eq (h : Halts ts before e stop) :
    streamOf ts = before ++ (e.place stop).stream :=
  h.stops.blames.passes.stream_eq

theorem ne_eof (h : Halts ts before e stop) : ∀ t ∈ before, t.kind ≠ .eof := by
  intro t ht
  have hmem : t ∈ streamOf ts := by
    rw [h.streamOf_eq]
    exact List.mem_append_left _ ht
  exact ne_eof_of_mem_streamOf hmem

/-- In front of the end of the source stands the whole stream. -/
theorem streamOf_of_end (h : Halts ts before e stop) (hg : e.got.kind = .eof) :
    streamOf ts = before := by
  have hnil : (e.place stop).stream = [] := by
    rw [Cursor.stream_eq_nil, h.stops.blames.got, hg]
  rw [h.streamOf_eq, hnil, List.append_nil]

/-- The token at fault is the next one of the stream, or the end of the source. -/
theorem next (h : Halts ts before e stop) :
    (e.place stop).stream.head? = some e.got ∨
      (e.place stop).stream = [] ∧ e.got.kind = .eof := by
  cases hs : (e.place stop).stream with
  | nil =>
    refine Or.inr ⟨rfl, ?_⟩
    rw [← h.stops.blames.nextKind_eq, hs]
    rfl
  | cons t rest =>
    left
    rw [← h.stops.blames.got, Cursor.cur_of_stream hs]
    rfl

/-- **What stands in front of a fault is the beginning of a program**: certain kinds of token make
up the rest. -/
theorem completable (h : Halts ts before e stop) :
    ∃ kinds : List Kind, kinds ⊆ fillers ∧ ∀ fill : List Token, fill.map Token.kind = kinds →
      ∀ ts', streamOf ts' = before ++ fill → ∃ program, parseTokens ts' = .ok program := by
  obtain ⟨kinds, hk, hc⟩ := h.stops.completable
  refine ⟨kinds, hk, fun fill hfill ts' hs => ?_⟩
  obtain ⟨t, ht, hfit, -⟩ := hc fill hfill
  exact ⟨_, parseTokens_of_derivation ⟨t, ht.trans hs.symm, hfit⟩⟩

/-- **Reading shows the same fault whatever stands behind its token.** -/
theorem error_of_append (h : Halts ts before e stop) (hne : e.got.kind ≠ .eof) (more : List Token) :
    parseTokens (before ++ e.got :: more) = .error e := by
  have hnext : (e.place stop).stream.head? = some e.got :=
    h.next.resolve_right fun hg => hne hg.2
  obtain ⟨rest, hrest⟩ := List.head?_eq_some_iff.mp hnext
  have hstream : streamOf (before ++ e.got :: more) = before ++ e.got :: streamOf more := by
    rw [streamOf_append h.ne_eof, streamOf, List.takeWhile_cons_of_pos (by simpa using hne)]
    rfl
  have htwins : Twins rest (streamOf more) (.ofTokens ts)
      (.ofTokens (before ++ e.got :: more)) := by
    refine ⟨?_, rfl⟩
    have hs : (Cursor.ofTokens ts).stream = before ++ e.got :: rest := by
      rw [← hrest]
      exact h.streamOf_eq
    cases before with
    | nil => exact ⟨e.got, [], hs, hstream⟩
    | cons b bs =>
      exact ⟨b, bs ++ [e.got], by rw [hs]; simp, hstream.trans (by simp)⟩
  have hahead : Ahead rest (e.place stop) := by
    rw [Ahead, hrest]
    exact Nat.lt_succ_self _
  obtain ⟨stop', hf⟩ := (Cursor.sequence_alike _ _ .program htwins).fails h.fails hahead
  exact parseTokens_eq_error.mpr ⟨stop', hf⟩

/-- **No program begins with the tokens up to the one at fault.** -/
theorem dead (h : Halts ts before e stop) (more : List Token) (program : Program) :
    parseTokens (before ++ e.got :: more) ≠ .ok program := by
  intro hok
  by_cases hg : e.got.kind = .eof
  · -- the stream is used up, and only the stream matters
    have hs : streamOf ts = streamOf (before ++ e.got :: more) := by
      rw [h.streamOf_of_end hg, streamOf_append h.ne_eof, streamOf,
        List.takeWhile_cons_of_neg (by simp [hg]), List.append_nil]
    have herror := parseTokens_eq_error.mpr ⟨stop, h.fails⟩
    rw [parseTokens_of_streamOf_eq hok hs] at herror
    cases herror
  · rw [h.error_of_append hg more] at hok
    cases hok

end Halts

/-- **A fault is shown at the earliest token.** Where reading some tokens as a program fails, the
token at fault is one of their stream, or the end of the source if it stands behind the whole
stream. The tokens in front of it are the beginning of a program, and no program begins with them
and the token at fault. -/
theorem parseTokens_error_earliest {ts : List Token} {e : SyntaxError}
    (h : parseTokens ts = .error e) :
    ∃ before behind, streamOf ts = before ++ behind ∧
      (behind.head? = some e.got ∨ behind = [] ∧ e.got.kind = .eof) ∧
      (∃ more program, parseTokens (before ++ more) = .ok program) ∧
      ∀ more program, parseTokens (before ++ e.got :: more) ≠ .ok program := by
  obtain ⟨before, stop, hh⟩ := halts_of_error h
  obtain ⟨kinds, hk, hc⟩ := hh.completable
  let fill := kinds.map fun k => Token.plain k [] .unset
  have hfill : fill.map Token.kind = kinds := by
    simp [fill, Function.comp_def, Token.plain]
  have hs : streamOf (before ++ fill) = before ++ fill := by
    rw [streamOf_append hh.ne_eof]
    simpa [streamOf] using streamOf_append (ne_eof_of_fill hk hfill) []
  exact ⟨before, _, hh.streamOf_eq, hh.next, ⟨fill, hc fill hfill _ hs⟩, hh.dead⟩

/-- Two names in a row: the second one is at fault, though reading stops in front of the first. -/
def twoNames : List Token :=
  [.plain .identifier "x" ⟨0, 1, 1⟩, .plain .identifier "y" ⟨2, 1, 3⟩]

theorem parseTokens_twoNames : parseTokens twoNames =
    .error (.wrongKind (.plain .identifier "y" ⟨2, 1, 3⟩) [.assign, .openParen]) :=
  parseTokens_eq_error.mpr ⟨_, (Cursor.fails_sequence_stmt rfl (by decide)).mpr
    (Or.inl ((Cursor.fails_statement_name rfl).mpr (Or.inl ⟨by decide, by decide, rfl, rfl⟩)))⟩

/-- The second of two names in a row is the earliest token at fault. -/
theorem parseTokens_error_twoNames :
    ∃ before behind, streamOf twoNames = before ++ behind ∧
      (behind.head? = some (Token.plain .identifier "y" ⟨2, 1, 3⟩) ∨
        behind = [] ∧ (Token.plain .identifier "y" ⟨2, 1, 3⟩).kind = .eof) ∧
      (∃ more program, parseTokens (before ++ more) = .ok program) ∧
      ∀ more program,
        parseTokens (before ++ Token.plain .identifier "y" ⟨2, 1, 3⟩ :: more) ≠ .ok program :=
  parseTokens_error_earliest parseTokens_twoNames

end Offside
