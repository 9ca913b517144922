import Offside.Proofs.Grammar.Tree

/-!
# What a reading takes from the stream

The functions of the parser carry a bound on the tokens that are left, which makes them end and is
in the way of everything else. Here they are freed of it.

`Reads r v c` says that the reading `r` found `v` and stopped at the cursor `c`. The ways in which
readings are put together are restated with it one by one, without the bounds.

`Passes c ts c'` says that `c'` stands behind the tokens `ts` of the stream that `c` stands in front
of. A cursor counts as being at the end of its stream in front of an end of source.

Results:
* `Reads.andThen_iff`, `Reads.map_iff`, `Reads.relax_iff`, `Reads.expect_iff`: what was read, in
  terms of the parts.
* `Passes.trans`, `Passes.token`: passing tokens, one and several.
* `stream_of_append`: what is left of a stream behind its first tokens.
-/

namespace Offside

/-- A reading found `v` and stopped at `c`. -/
def Reads {α : Type} {n : Nat} (r : Reading α n) (v : α) (c : Cursor) : Prop :=
  ∃ h, r = .ok v c h

namespace Reads

variable {α β : Type} {m n : Nat} {v w : α} {u : β} {c c' : Cursor}

theorem size_lt {r : Reading α n} (h : Reads r v c) : c.size < n := by
  obtain ⟨hlt, -⟩ := h
  exact hlt

@[simp] theorem ok_iff {h : c.size < n} : Reads (.ok v c h) w c' ↔ v = w ∧ c = c' := by
  constructor
  · rintro ⟨_, he⟩
    cases he
    exact ⟨rfl, rfl⟩
  · rintro ⟨rfl, rfl⟩
    exact ⟨h, rfl⟩

@[simp] theorem error_iff {e : SyntaxError} {stop : Cursor} :
    ¬ Reads (.error e stop : Reading α n) v c := by
  rintro ⟨_, he⟩
  cases he

@[simp] theorem relax_iff {h : m ≤ n} {r : Reading α m} : Reads (r.relax h) v c ↔ Reads r v c := by
  cases r with
  | ok value rest shorter => simp [Reading.relax]
  | error e stop => simp [Reading.relax]

@[simp] theorem map_iff {f : α → β} {r : Reading α n} :
    Reads (r.map f) u c ↔ ∃ v, Reads r v c ∧ f v = u := by
  cases r with
  | ok value rest shorter =>
    simp only [Reading.map, ok_iff]
    constructor
    · rintro ⟨hu, hc⟩
      exact ⟨value, ⟨rfl, hc⟩, hu⟩
    · rintro ⟨_, ⟨rfl, hc⟩, hu⟩
      exact ⟨hu, hc⟩
  | error e stop => simp [Reading.map]

theorem andThen_iff {r : Reading α n}
    {f : (value : α) → (rest : Cursor) → rest.size < n → Reading β n} :
    Reads (r.andThen f) u c' ↔ ∃ v c h, Reads r v c ∧ Reads (f v c h) u c' := by
  constructor
  · intro h
    cases r with
    | ok value rest shorter => exact ⟨value, rest, shorter, ⟨shorter, rfl⟩, h⟩
    | error e stop => exact absurd h error_iff
  · rintro ⟨v, c, h, ⟨_, rfl⟩, hf⟩
    exact hf

@[simp] theorem expect_iff {kind : Kind} {t : Token} :
    Reads (c.expect kind) t c' ↔ c.cur.kind = kind ∧ c.cur = t ∧ c.advance = c' := by
  unfold Cursor.expect
  split
  · next h => simp [h]
  · next h => simp [h]

end Reads

namespace Cursor

/-! ## Cursors and their streams -/

/-- The tokens that are left in front of the end of source. -/
def stream (c : Cursor) : List Token :=
  streamOf c.ahead

theorem nextKind_stream (c : Cursor) : nextKind c.stream = c.cur.kind := by
  obtain ⟨last, ahead⟩ := c
  cases ahead with
  | nil => rfl
  | cons t ts =>
    by_cases h : t.kind = .eof
    · simp [stream, streamOf, cur, h, nextKind]
    · simp [stream, streamOf, cur, h, nextKind]

theorem stream_eq_nil (c : Cursor) : c.stream = [] ↔ c.cur.kind = .eof := by
  obtain ⟨last, ahead⟩ := c
  cases ahead with
  | nil => simp [stream, streamOf, cur, Token.eofAt, Token.plain]
  | cons t ts =>
    by_cases h : t.kind = .eof
    · simp [stream, streamOf, cur, h]
    · simp [stream, streamOf, cur, h]

/-- A cursor stands behind some tokens of the stream of another one. -/
structure Passes (c : Cursor) (ts : List Token) (c' : Cursor) : Prop where
  ahead_eq : c.ahead = ts ++ c'.ahead
  stream_eq : c.stream = ts ++ c'.stream
  line_eq : c'.last.line = lineAfter c.last.line ts

namespace Passes

variable {c c' c'' : Cursor} {ts us rest : List Token} {t : Token}

theorem refl (c : Cursor) : c.Passes [] c := ⟨rfl, rfl, rfl⟩

theorem trans (h : c.Passes ts c') (h' : c'.Passes us c'') : c.Passes (ts ++ us) c'' where
  ahead_eq := by rw [h.ahead_eq, h'.ahead_eq, List.append_assoc]
  stream_eq := by rw [h.stream_eq, h'.stream_eq, List.append_assoc]
  line_eq := by rw [h'.line_eq, h.line_eq, lineAfter_append]

/-- Moving on from a token other than the end of source passes it. -/
theorem token (h : c.cur.kind ≠ .eof) : c.Passes [c.cur] c.advance := by
  obtain ⟨last, ahead⟩ := c
  cases ahead with
  | nil => exact absurd rfl h
  | cons t ts =>
    refine ⟨rfl, ?_, rfl⟩
    change t.kind ≠ .eof at h
    show streamOf (t :: ts) = [t] ++ streamOf ts
    simp [streamOf, h]

theorem cons (h : c.cur.kind ≠ .eof) (h' : c.advance.Passes ts c') :
    c.Passes (c.cur :: ts) c' :=
  (token h).trans h'

/-- What is left of a stream behind its first tokens. -/
theorem stream_of_append (h : c.Passes ts c') (hs : c.stream = ts ++ rest) : c'.stream = rest :=
  List.append_cancel_left (h.stream_eq.symm.trans hs)

end Passes

variable {c : Cursor} {t t' : Token} {rest : List Token}

theorem ne_eof_of_stream (h : c.stream = t :: rest) : c.cur.kind ≠ .eof := by
  intro he
  rw [(c.stream_eq_nil).mpr he] at h
  exact absurd h (by simp)

theorem cur_of_stream (h : c.stream = t :: rest) : c.cur = t := by
  have hp := (Passes.token (ne_eof_of_stream h)).stream_eq
  rw [h] at hp
  exact (List.cons.inj hp).1.symm

theorem advance_stream (h : c.stream = t :: rest) : c.advance.stream = rest := by
  have hp := (Passes.token (ne_eof_of_stream h)).stream_eq
  rw [h] at hp
  exact (List.cons.inj hp).2.symm

end Cursor

end Offside
