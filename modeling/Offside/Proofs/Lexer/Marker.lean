import Mathlib.Data.List.Chain
import Offside.Proofs.Lexer.Run

/-!
# The place of a marker

A marker is delivered ahead of the token whose line it is for: the scanner's `indent` takes the
position of the first rune of the line, and `eofState` that of the end of the source. So a marker
has the position of the token behind it, also where several markers stand in a row.

This is an invariant of the steps of a lexer (`Marked`): the tokens that wait are in order, and if
the last of them is a marker, then the next lexeme is in sight and its position known
(`Lexer.Aims`).

Results:
* `splitGap_solid`: a gap is followed by a rune that belongs to no gap.
* `Marked.step`: every step preserves the invariant.
* `tokenize_markers`: a marker has the position of the next token.
-/

namespace Offside

namespace Lexer

/-! ## Runes that belong to no gap -/

/-- A rune that ends every gap. -/
def Solid (r : Rune) : Prop :=
  r.isNewline = false ∧ r.is '#' = false ∧ r.isSpace = false

theorem splitGap_solid {r : Rune} (h : Solid r) (acrossLines : Bool) (rs : List Rune) :
    splitGap acrossLines false (r :: rs) = ([], r :: rs) := by
  obtain ⟨hn, hc, hs⟩ := h
  simp [splitGap, hn, hc, hs]

/-- White space is part of a gap that runs over line ends. -/
theorem splitGap_spaces_append {lead : List Rune} (hl : ∀ r ∈ lead, r.isSpace = true)
    (rest : List Rune) : splitGap true false (lead ++ rest) =
      (lead ++ (splitGap true false rest).1, (splitGap true false rest).2) := by
  induction lead with
  | nil => rfl
  | cons a lead ih =>
    rw [List.forall_mem_cons] at hl
    have hash : a.is '#' = false := by
      cases hc : a.is '#' with
      | false => rfl
      | true =>
        rw [Rune.is, beq_iff_eq] at hc
        rw [hc] at hl
        exact absurd hl.1 (by decide)
    rw [List.cons_append, splitGap, ih hl.2]
    simp [hash, hl.1]

/-- A gap is followed by a line feed or by such a rune, and a gap that runs over line ends is not
followed by a line feed. -/
theorem solid_behind_gap {acrossLines inComment : Bool} {rs rest : List Rune} {r : Rune}
    (h : (splitGap acrossLines inComment rs).2 = r :: rest)
    (hr : acrossLines = true ∨ r.isNewline = false) : Solid r := by
  induction rs generalizing inComment with
  | nil => exact absurd h nofun
  | cons a rs ih =>
    unfold splitGap at h
    split at h
    · next ha =>
      cases acrossLines with
      | true => exact ih h
      | false =>
        obtain ⟨rfl, -⟩ := List.cons.inj h
        rw [ha] at hr
        exact absurd hr (by simp)
    · next hn =>
      split at h
      · exact ih h
      · next hc =>
        split at h
        · exact ih h
        · next hs =>
          obtain ⟨rfl, -⟩ := List.cons.inj h
          simp only [Bool.or_eq_true, not_or, Bool.not_eq_true] at hn hc hs
          exact ⟨hn, hc.2, hs⟩

theorem solid_of_splitGap {inComment : Bool} {rs rest : List Rune} {r : Rune}
    (h : (splitGap true inComment rs).2 = r :: rest) : Solid r :=
  solid_behind_gap h (Or.inl rfl)

/-! ## The invariant -/

/-- The position of the next token is known. -/
def Aims (l : Lexer) (pos : Position) : Prop :=
  match l.mode with
  | .between => l.pos = pos ∧ ∃ r rs, l.input = r :: rs ∧ Solid r
  | .lexeme _ _ start => start = pos
  | .failed _ => True
  | _ => False

/-- Two tokens may follow each other: a marker has the position of the token behind it. -/
def Marks (t u : Token) : Prop :=
  t.kind.isMarker = true → u.pos = t.pos

/-- Every marker that waits has the position of the token behind it, also if it is the last one. -/
structure Marked (l : Lexer) : Prop where
  chain : l.pending.IsChain Marks
  aims : ∀ t ∈ l.pending.getLast?, t.kind.isMarker = true → l.Aims t.pos

theorem isMarker_of_spelled {k : Kind} (h : k ∈ spelled) : k.isMarker = false := by
  have hall : ∀ k ∈ spelled, k.isMarker = false := by decide
  exact hall k h

/-- Some markers at one place follow each other. -/
theorem isChain_replicate (n : Nat) (kind : Kind) (pos : Position) :
    (List.replicate n (Token.plain kind [] pos)).IsChain Marks := by
  induction n with
  | zero => exact .nil
  | succ n ih =>
    cases n with
    | zero => exact .singleton _
    | succ n => exact List.isChain_cons_cons.mpr ⟨fun _ => rfl, ih⟩

/-- A step that finds nothing keeps the invariant if the aim stays. -/
theorem Marked.same {l l' : Lexer} (h : Marked l) (hp : l'.pending = l.pending)
    (ha : ∀ pos, l.Aims pos → l'.Aims pos) : Marked l' where
  chain := by rw [hp]; exact h.chain
  aims := by
    rw [hp]
    exact fun t ht hk => ha _ (h.aims t ht hk)

/-- A step that finds markers with the next lexeme in sight keeps the invariant. -/
theorem Marked.markers {l l' : Lexer} (h : Marked l) {n : Nat} {kind : Kind} {pos : Position}
    (hp : l'.pending = l.pending ++ List.replicate n (.plain kind [] pos))
    (hno : ∀ pos, ¬ l.Aims pos) (ha : l'.Aims pos) : Marked l' where
  chain := by
    rw [hp, List.isChain_append]
    exact ⟨h.chain, isChain_replicate n kind pos,
      fun t ht u _ hk => absurd (h.aims t ht hk) (hno _)⟩
  aims := by
    intro t ht hk
    rw [hp, List.getLast?_append, List.getLast?_replicate] at ht
    split at ht
    · exact absurd (h.aims t ht hk) (hno _)
    · obtain rfl := Option.some.inj ht
      exact ha

theorem Marked.startLine {l : Lexer} (h : Marked l) (hm : l.mode = .lineStart) :
    Marked l.startLine := by
  have hno : ∀ pos, ¬ l.Aims pos := by
    intro pos ha
    rw [Aims, hm] at ha
    exact ha
  unfold Lexer.startLine
  cases hg : splitGap true false l.input with
  | mk gap rest =>
    cases rest with
    | nil => exact h.same rfl fun pos ha => absurd ha (hno pos)
    | cons r rs =>
      have hr : Solid r := solid_of_splitGap (by rw [hg])
      simp only
      generalize hl : ({ l with input := r :: rs, pos := l.pos.afterAll gap } : Lexer) = l'
      have hp : l'.pending = l.pending := by rw [← hl]
      have hin : l'.input = r :: rs := by rw [← hl]
      rcases l'.settle_cases (widthOf l.tab gap) with hw | hw | ⟨h₁, h₂, h₃⟩ | ⟨h₁, h₂, h₃⟩
      · rw [settle_deeper r hw]
        exact h.markers (n := 1) (by rw [hp]; rfl) hno ⟨rfl, r, rs, hin, hr⟩
      · rw [settle_same r hw]
        exact h.same hp fun pos ha => absurd ha (hno pos)
      · rw [settle_shallower r h₁ h₂ h₃]
        exact h.markers (by rw [hp]) hno ⟨rfl, r, rs, hin, hr⟩
      · rw [settle_lost r h₁ h₂ h₃]
        exact h.same hp fun pos ha => absurd ha (hno pos)

theorem Marked.startLexeme {l : Lexer} (h : Marked l) (hm : l.mode = .between) :
    Marked l.startLexeme := by
  have haims : ∀ pos, l.Aims pos → l.startLexeme.Aims pos := by
    intro pos ha
    rw [Aims, hm] at ha
    obtain ⟨hpos, r, rs, hin, hr⟩ := ha
    unfold Lexer.startLexeme
    rw [hin, splitGap_solid hr]
    simp only [Aims, hr.1, Position.afterAll_nil]
    exact hpos
  refine h.same ?_ haims
  unfold Lexer.startLexeme
  cases splitGap (0 < l.depth) false l.input with
  | mk gap rest => cases rest <;> rfl

/-- A lexeme stands where it was announced. -/
theorem Marked.lexeme {l l' : Lexer} (h : Marked l) {t : Token} (hk : t.kind ∈ spelled)
    (hp : l'.pending = l.pending ++ [t]) (hpos : ∀ pos, l.Aims pos → t.pos = pos) : Marked l' where
  chain := by
    rw [hp, List.isChain_append]
    refine ⟨h.chain, .singleton t, fun u hu v hv hm => ?_⟩
    obtain rfl := Option.some.inj hv
    exact hpos _ (h.aims u hu hm)
  aims := by
    intro u hu hm
    rw [hp, List.getLast?_append, List.getLast?_singleton, Option.some_or] at hu
    obtain rfl := Option.some.inj hu
    rw [isMarker_of_spelled hk] at hm
    exact absurd hm (by simp)

theorem Marked.finish {l : Lexer} (h : Marked l) (hm : l.mode = .finish) : Marked l.close where
  chain := by
    have hno : ∀ pos, ¬ l.Aims pos := by
      intro pos ha
      rw [Aims, hm] at ha
      exact ha
    unfold close
    rw [List.append_assoc, List.isChain_append]
    refine ⟨h.chain, ?_, fun t ht u _ hk => absurd (h.aims t ht hk) (hno _)⟩
    rw [List.isChain_append]
    refine ⟨isChain_replicate _ _ _, .singleton _, fun t ht u hu _ => ?_⟩
    rw [List.getLast?_replicate] at ht
    obtain rfl := Option.some.inj hu
    split at ht
    · exact absurd ht (by simp)
    · rw [← Option.some.inj ht]
      rfl
  aims := by
    intro t ht hk
    simp only [close, List.getLast?_append, List.getLast?_singleton, Option.some_or] at ht
    rw [← Option.some.inj ht] at hk
    exact absurd hk (by simp [Token.eofAt, Token.plain, Kind.isMarker])

theorem Marked.step {l : Lexer} (h : Marked l) : Marked l.step := by
  -- a token that was announced is found where its lexeme starts
  have hstart : ∀ {cls first start}, l.mode = .lexeme cls first start →
      ∀ pos, l.Aims pos → start = pos := by
    intro cls first start hm pos haim
    rw [Aims, hm] at haim
    exact haim
  unfold Lexer.step
  split
  · next hm => exact h.startLine hm
  · next hm => exact h.startLexeme hm
  · next first start hm =>
    unfold readNumber
    simp only
    split
    · next t ht =>
      obtain ⟨hk, hpos⟩ := numberToken_ok ht
      exact h.lexeme (t := t) (by rw [hk]; decide) rfl
          fun pos haim => hpos.trans (hstart hm pos haim)
    · exact h.same rfl fun _ _ => trivial
  · next first start hm =>
    unfold readWord
    exact h.lexeme (List.mem_cons_of_mem _ (List.mem_append_left _ (wordKind_mem _))) rfl
      (hstart hm)
  · next first start hm =>
    unfold readSymbol
    split
    · next hop =>
      exact h.lexeme (List.mem_cons_of_mem _ (List.mem_append_right _ (readOperator_mem hop))) rfl
        (hstart hm)
    · exact h.same rfl fun _ _ => trivial
  · next hm => exact h.finish hm
  · exact h
  · exact h

end Lexer

open Lexer

/-- **A marker has the position of the next token.** -/
theorem tokenize_markers {tab : TabWidth} {src : Text} {ts : List Token}
    (h : tokenize tab src = .ok ts) : ts.IsChain Marks := by
  obtain ⟨-, rfl⟩ := tokenize_eq_ok.mp h
  refine (stop_invariant (fun l _ hl => hl.step) _ ?_ : Marked _).chain
  exact ⟨.nil, nofun⟩

end Offside
