import Mathlib.Tactic.IntervalCases
import Offside.Proofs.Lexer.Marker
import Offside.Proofs.Render.Basic

/-!
# Tokens that are read as they are written

`Lexer.readLexeme` on the texts that `render` writes for single tokens.

Names, numbers, keywords and operators are *legible*: where the text of such a token stands, with a
blank, a line end or a colon behind it, the lexer finds this token, whatever it has found before.

* `Bounds` is a text that begins with a blank, a line end or a colon, which ends every lexeme.
* `Spells` says that the lexer reads some characters as a token, and `Legible` that it does so for
  the text of the token. `Token.foundAt` is the token as it is found at a position.
* `wordSigns`, `singleSigns` and `pairSigns` list the keywords and the operators with their
  characters.

Results:
* `legible_name`: a name is legible, letters of any script included.
* `legible_numeral`: a number is legible with the digits it was given, leading zeros included.
* `legible_spelling`: a keyword or an operator with its text is legible.
-/

namespace Offside

/-! ## Classes of characters -/

namespace Rune

theorem not_space_of_letter {n : Nat} (h : Text.isLetterCode n = true) :
    Text.isSpaceCode n = false := by
  rw [Bool.eq_false_iff]
  intro hs
  simp only [Text.isSpaceCode, Text.spaceRanges, List.any_cons, List.any_nil, Bool.or_eq_true,
    Bool.and_eq_true, decide_eq_true_eq, Bool.false_eq_true, or_false] at hs
  -- there are few space characters, and none of them is in the table of letters
  rcases hs with hs | hs | hs | hs | hs | hs | hs | hs | hs | hs <;> obtain ⟨h₁, h₂⟩ := hs <;>
    interval_cases n <;> exact absurd h (by decide +kernel)

theorem isNamePart_of_isDigit {r : Rune} (h : r.isDigit = true) : r.isNamePart = true := by
  rw [isNamePart, h, Bool.or_true]

theorem isDigit_of_isNameStart {r : Rune} (h : r.isNameStart = true) : r.isDigit = false := by
  rw [Bool.eq_false_iff]
  intro hd
  simp only [isDigit, Bool.and_eq_true, decide_eq_true_eq] at hd
  simp only [isNameStart, Bool.or_eq_true, is, beq_iff_eq, isLetter, Text.isLetterCode] at h
  rcases h with rfl | h
  · exact absurd hd (by decide)
  · rw [if_pos (by omega)] at h
    simp only [Bool.or_eq_true, Bool.and_eq_true, decide_eq_true_eq] at h
    omega

theorem isNamePart_stray (b : UInt8) : isNamePart (.stray b) = false := by
  have hl : Text.isLetterCode 0xFFFD = false := by decide +kernel
  have hd : isDigit (.stray b) = false := rfl
  rw [isNamePart, isNameStart, isLetter, hd]
  exact congrArg (fun x => false || x || false) hl

/-- A text all of whose runes are of a class without stray bytes is made of characters. -/
theorem exists_chars {p : Rune → Bool} (hp : ∀ b, p (.stray b) = false) {t : Text}
    (h : (decode t).all p = true) :
    ∃ cs : List Char, t = Text.ofChars cs ∧ decode t = cs.map .char ∧
      ∀ c ∈ cs, p (.char c) = true := by
  have hchars : ∀ rs : List Rune, rs.all p = true →
      ∃ cs : List Char, rs = cs.map .char ∧ ∀ c ∈ cs, p (.char c) = true := by
    intro rs hrs
    induction rs with
    | nil => exact ⟨[], rfl, List.forall_mem_nil _⟩
    | cons r rs ih =>
      rw [List.all_cons, Bool.and_eq_true] at hrs
      obtain ⟨cs, rfl, hcs⟩ := ih hrs.2
      cases r with
      | char c => exact ⟨c :: cs, rfl, List.forall_mem_cons.mpr ⟨hrs.1, hcs⟩⟩
      | stray b => exact absurd hrs.1 (by simp [hp b])
  obtain ⟨cs, hcs, hall⟩ := hchars _ h
  refine ⟨cs, ?_, hcs, hall⟩
  rw [← encode_decode t, hcs, encode_chars]

end Rune

namespace Lexer

instance (r : Rune) : Decidable (Solid r) := inferInstanceAs (Decidable (_ ∧ _ ∧ _))

theorem solid_of_code {r : Rune} (hs : r.isSpace = false) (hc : r.code ≠ 0x23) : Solid r := by
  refine ⟨?_, ?_, hs⟩
  · rw [Bool.eq_false_iff]
    intro h
    rw [Rune.isNewline, Rune.is, beq_iff_eq] at h
    rw [h] at hs
    exact absurd hs (by decide)
  · rw [Bool.eq_false_iff]
    intro h
    rw [Rune.is, beq_iff_eq] at h
    exact hc (by rw [h]; rfl)

theorem solid_of_isNameStart {r : Rune} (h : r.isNameStart = true) : Solid r := by
  simp only [Rune.isNameStart, Bool.or_eq_true, Rune.is, beq_iff_eq] at h
  rcases h with rfl | h
  · decide
  · refine solid_of_code (Rune.not_space_of_letter h) fun hc => ?_
    rw [Rune.isLetter, hc] at h
    exact absurd h (by decide)

theorem solid_of_isDigit {r : Rune} (h : r.isDigit = true) : Solid r := by
  simp only [Rune.isDigit, Bool.and_eq_true, decide_eq_true_eq] at h
  refine solid_of_code ?_ (by omega)
  rw [Rune.isSpace]
  generalize r.code = n at h
  obtain ⟨h₁, h₂⟩ := h
  interval_cases n <;> decide

theorem solid_of_isNamePart {r : Rune} (h : r.isNamePart = true) : Solid r := by
  rcases Bool.or_eq_true_iff.mp h with h | h
  · exact solid_of_isNameStart h
  · exact solid_of_isDigit h

/-! ## What stands behind a token -/

/-- A text that begins with a blank, a line end or a colon. -/
def Bounds (rest : Text) : Prop :=
  ∃ c ∈ [' ', '\n', ':'], ∃ t, rest = String.utf8EncodeChar c ++ t

theorem Bounds.decode {rest : Text} (h : Bounds rest) : ∃ r rs, Rune.decode rest = r :: rs ∧
    r.isNamePart = false ∧ r.isDigit = false ∧ r ≠ .char '=' := by
  obtain ⟨c, hc, t, rfl⟩ := h
  refine ⟨.char c, Rune.decode t, Rune.decode_char_append c t, ?_⟩
  simp only [List.mem_cons, List.not_mem_nil, or_false] at hc
  rcases hc with rfl | rfl | rfl <;> decide

/-- A lexeme that is as long as possible ends where the text behind it begins. -/
theorem span_chars {p : Rune → Bool} {cs : List Char} (hcs : ∀ c ∈ cs, p (.char c) = true)
    {r : Rune} (hr : p r = false) (rs : List Rune) :
    (cs.map Rune.char ++ r :: rs).takeWhile p = cs.map Rune.char ∧
      (cs.map Rune.char ++ r :: rs).dropWhile p = r :: rs := by
  have hall : ∀ a ∈ cs.map Rune.char, p a = true := by
    intro a ha
    obtain ⟨c, hc, rfl⟩ := List.mem_map.mp ha
    exact hcs c hc
  constructor
  · rw [List.takeWhile_append_of_pos hall, List.takeWhile_cons_of_neg (by simp [hr]),
      List.append_nil]
  · rw [List.dropWhile_append_of_pos hall, List.dropWhile_cons_of_neg (by simp [hr])]

end Lexer

open Lexer

/-! ## Legible tokens -/

/-- The token as it is found at a position. -/
def Token.foundAt (t : Token) (pos : Position) : Token :=
  { t.bare with pos := pos }

theorem Token.foundAt_plain {t : Token} (h : t.kind ≠ .number) (pos : Position) :
    t.foundAt pos = .plain t.kind t.value pos := by
  simp [Token.foundAt, Token.bare, Token.plain, h]

/-- The lexer reads these characters as this token. -/
structure Spells (t : Token) (first : Char) (more : List Char) : Prop where
  value : t.value = Text.ofChars (first :: more)
  solid : ∀ c ∈ first :: more, Solid (.char c)
  step : ∀ {l : Lexer} {start : Position} {rest : Text}, Bounds rest →
    l.mode = .lexeme (classOf (.char first)) (.char first) start →
    l.pos = start.after (.char first) → l.input = more.map .char ++ Rune.decode rest →
    l.step = { l with
      input := Rune.decode rest
      pos := start.afterAll ((first :: more).map .char)
      mode := .between
      depth := depthAfter l.depth t.kind
      pending := l.pending ++ [t.foundAt start] }

/-- **A legible token** is read as it is written. -/
def Legible (t : Token) : Prop :=
  ∃ first more, Spells t first more

theorem Spells.word {t : Token} {first : Char} {more : List Char}
    (hv : t.value = Text.ofChars (first :: more)) (hf : Rune.isNameStart (.char first) = true)
    (hm : ∀ c ∈ more, Rune.isNamePart (.char c) = true) (hk : wordKind t.value = t.kind) :
    Spells t first more where
  value := hv
  solid := List.forall_mem_cons.mpr
    ⟨solid_of_isNameStart hf, fun c hc => solid_of_isNamePart (hm c hc)⟩
  step := by
    intro l start rest hb hmode hpos hin
    obtain ⟨r, rs, hd, hr, -, -⟩ := hb.decode
    obtain ⟨htake, hdrop⟩ := span_chars hm hr rs
    have hclass : classOf (.char first) = .word := by
      simp [classOf, Rune.isDigit_of_isNameStart hf, hf]
    have hword : Rune.encode (.char first :: more.map .char) = t.value := by
      rw [hv, ← Rune.encode_chars]
      rfl
    have hmem := wordKind_mem t.value
    rw [hk] at hmem
    have hplain : t.kind ≠ .number ∧ depthAfter l.depth t.kind = l.depth := by
      generalize t.kind = k at hmem
      simp only [List.mem_cons, List.not_mem_nil, or_false] at hmem
      rcases hmem with rfl | rfl | rfl | rfl <;> exact ⟨by decide, rfl⟩
    rw [Lexer.step, hmode, hclass]
    simp only [readWord, hin, hd, htake, hdrop, hword, hk, hplain.2, hpos, emit,
      Token.foundAt_plain hplain.1, List.map_cons, Position.afterAll_cons]

theorem Spells.numeral {t : Token} {first : Char} {more : List Char}
    (hv : t.value = Text.ofChars (first :: more))
    (hd : ∀ c ∈ first :: more, Rune.isDigit (.char c) = true) (hk : t.kind = .number)
    (hn : t.num.toInt = Text.digitsValue t.value) : Spells t first more where
  value := hv
  solid := fun c hc => solid_of_isDigit (hd c hc)
  step := by
    intro l start rest hb hmode hpos hin
    obtain ⟨r, rs, hdec, -, hr, -⟩ := hb.decode
    obtain ⟨hfirst, hmore⟩ := List.forall_mem_cons.mp hd
    obtain ⟨htake, hdrop⟩ := span_chars hmore hr rs
    have hclass : classOf (.char first) = .number := by simp [classOf, hfirst]
    have hdigits : Rune.encode (.char first :: more.map .char) = t.value := by
      rw [hv, ← Rune.encode_chars]
      rfl
    have hlt : t.num.toInt < 2 ^ 63 := t.num.toInt_lt
    have hle : Text.digitsValue t.value < 2 ^ 63 := by omega
    have hnum : Int64.ofNat (Text.digitsValue t.value) = t.num := by
      apply Int64.toInt.inj
      rw [Int64.toInt_ofNat_of_lt hle, hn]
    have htoken : numberToken (.char first) t.value start = .ok (t.foundAt start) := by
      unfold numberToken Word.greatest
      rw [if_pos (by omega), hnum]
      simp [Token.foundAt, Token.bare, hk]
    rw [Lexer.step, hmode, hclass]
    simp only [readNumber, hin, hdec, htake, hdrop, hdigits, htoken, hk, hpos, emit, depthAfter,
      List.map_cons, Position.afterAll_cons]

theorem ne_number_of_mem_symbols {k : Kind} (h : k ∈ symbols) : k ≠ .number := by
  rintro rfl
  exact absurd h (by decide)

theorem Spells.symbol {t : Token} {first : Char} (hv : t.value = Text.ofChars [first])
    (hs : Solid (.char first)) (hc : classOf (.char first) = .operator) (hf : first ≠ '!')
    (hk : operatorKind? (.char first) = some t.kind) : Spells t first [] where
  value := hv
  solid := by simpa using hs
  step := by
    intro l start rest hb hmode hpos hin
    obtain ⟨r, rs, hdec, -, -, hr⟩ := hb.decode
    have hread : readOperator (.char first) (Rune.decode rest) start =
        .ok (t.kind, [.char first], Rune.decode rest) := by
      unfold readOperator
      split
      · next he =>
        rw [hdec] at he
        exact absurd (List.cons.inj he).1 hr
      · rw [if_neg (by simpa [Rune.is] using hf), hk]
    rw [Lexer.step, hmode, hc]
    simp only [readSymbol, hin, List.map_nil, List.nil_append, hread, emit, List.map_cons,
      Token.foundAt_plain (ne_number_of_mem_symbols (operatorKind?_mem hk)), hv]
    rfl

theorem Spells.pair {t : Token} {first : Char} (hv : t.value = Text.ofChars [first, '='])
    (hs : Solid (.char first)) (hc : classOf (.char first) = .operator)
    (hk : pairKind? (.char first) = some t.kind) : Spells t first ['='] where
  value := hv
  solid := by
    have heq : Solid (.char '=') := by decide
    simpa using ⟨hs, heq⟩
  step := by
    intro l start rest _ hmode hpos hin
    have hread : readOperator (.char first) (.char '=' :: Rune.decode rest) start =
        .ok (t.kind, [.char first, .char '='], Rune.decode rest) := by
      simp only [readOperator, hk]
    rw [Lexer.step, hmode, hc]
    simp only [readSymbol, hin, List.map_cons, List.map_nil, List.cons_append, List.nil_append,
      hread,
      emit, Token.foundAt_plain (ne_number_of_mem_symbols (pairKind?_mem hk)), hv]
    rfl

/-- A name is legible. -/
theorem legible_name {t : Token} (h : t.IsName) : Legible t := by
  obtain ⟨hk, hw, hne, hstart, hpart⟩ := h
  obtain ⟨cs, hv, hd, hcs⟩ := Rune.exists_chars Rune.isNamePart_stray hpart
  cases cs with
  | nil => exact absurd hv hne
  | cons first more =>
    rw [hd] at hstart
    refine ⟨first, more, .word hv (by simpa using hstart)
      (fun c hc => hcs c (List.mem_cons_of_mem _ hc)) ?_⟩
    simp only [keywords, List.mem_cons, List.not_mem_nil, or_false, not_or] at hw
    rw [wordKind, if_neg hw.1, if_neg hw.2.1, if_neg hw.2.2, hk]

/-- A number is legible. -/
theorem legible_numeral {t : Token} (h : t.IsNumeral) : Legible t := by
  obtain ⟨hk, hne, hd, hn⟩ := h
  obtain ⟨cs, hv, -, hcs⟩ := Rune.exists_chars (fun _ => rfl) hd
  cases cs with
  | nil => exact absurd hv hne
  | cons first more => exact ⟨first, more, .numeral hv hcs hk hn⟩

/-! ## Keywords and operators -/

/-- The keywords: their first characters, the others, and their kinds. -/
def wordSigns : List (Char × List Char × Kind) :=
  [('i', ['f'], .ifWord), ('e', ['l', 's', 'e'], .elseWord),
   ('w', ['h', 'i', 'l', 'e'], .whileWord)]

/-- The operators of one character. -/
def singleSigns : List (Char × Kind) :=
  [('+', .plus), ('-', .minus), ('*', .times), ('/', .divide), ('=', .assign), ('<', .less),
   ('>', .greater), ('(', .openParen), (')', .closeParen), (',', .comma), (':', .colon)]

/-- The operators of two characters: the character in front of the equals sign. -/
def pairSigns : List (Char × Kind) :=
  [('=', .equal), ('!', .unequal)]

theorem wordSigns_spec : ∀ e ∈ wordSigns, e.2.2.spelling = Text.ofChars (e.1 :: e.2.1) ∧
    Rune.isNameStart (.char e.1) = true ∧ e.2.1.all (fun c => Rune.isNamePart (.char c)) = true ∧
    wordKind e.2.2.spelling = e.2.2 := by decide

theorem singleSigns_spec : ∀ e ∈ singleSigns, e.2.spelling = Text.ofChars [e.1] ∧
    Solid (.char e.1) ∧ classOf (.char e.1) = .operator ∧ e.1 ≠ '!' ∧
    operatorKind? (.char e.1) = some e.2 := by decide

theorem pairSigns_spec : ∀ e ∈ pairSigns, e.2.spelling = Text.ofChars [e.1, '='] ∧
    Solid (.char e.1) ∧ classOf (.char e.1) = .operator ∧ pairKind? (.char e.1) = some e.2 := by
  decide

/-- The kinds whose text is fixed. -/
def fixedKinds : List Kind :=
  .ifWord :: .elseWord :: .whileWord :: symbols

theorem fixedKinds_cases : ∀ k ∈ fixedKinds, (∃ e ∈ wordSigns, e.2.2 = k) ∨
    (∃ e ∈ singleSigns, e.2 = k) ∨ (∃ e ∈ pairSigns, e.2 = k) := by decide

/-- A keyword or an operator with its text is legible. -/
theorem legible_spelling {t : Token} (hk : t.kind ∈ fixedKinds) (hv : t.value = t.kind.spelling) :
    Legible t := by
  rcases fixedKinds_cases t.kind hk with ⟨e, he, hek⟩ | ⟨e, he, hek⟩ | ⟨e, he, hek⟩
  · obtain ⟨hs, hf, hm, hw⟩ := wordSigns_spec e he
    rw [hek] at hs hw
    exact ⟨e.1, e.2.1, .word (hv.trans hs) hf (List.all_eq_true.mp hm) (by rw [hv, hw])⟩
  · obtain ⟨hs, hsolid, hc, hf, hop⟩ := singleSigns_spec e he
    rw [hek] at hs hop
    exact ⟨e.1, [], .symbol (hv.trans hs) hsolid hc hf hop⟩
  · obtain ⟨hs, hsolid, hc, hop⟩ := pairSigns_spec e he
    rw [hek] at hs hop
    exact ⟨e.1, ['='], .pair (hv.trans hs) hsolid hc hop⟩

end Offside
