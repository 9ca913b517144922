import Offside.Lexer.Gap
import Offside.Lexer.Lexeme

/-!
# The lexer

Model of the scanner (specification, 4.1): the `Lexer` with its state functions `lineStartState`,
`defaultState`, `numberState`, `identifierState`, `operatorState` and `eofState`, and the `indent`
that compares a line with the open blocks (4.1.1).

A lexer walks over the runes of a source once and turns them into tokens. It works in steps. Each
step is governed by a *mode*, which says which state function is due:

* `Mode.lineStart` is `lineStartState`, and `startLine` its step: blank lines, comments and the
  indentation of the next line are skipped as one gap. `settle` is `indent`: a greater width opens a
  level and announces it, an equal one goes on, a smaller one closes levels and has to meet one.
* `Mode.between` is `defaultState`, and `startLexeme` its step: the gap in front of the next lexeme
  is skipped, and the next rune tells what follows.
* `Mode.lexeme` is the state function that its class names. `readNumber`, `readWord` and
  `readSymbol` are `numberState`, `identifierState` and `operatorState`. The first rune is taken by
  `startLexeme` already, so the mode carries it, and the position it was found at, which the scanner
  keeps in its field `start`.
* `Mode.finish` is `eofState`, and `close` its step: the open levels are closed one by one and the
  end of the source follows.
* `Mode.done` and `Mode.failed` stand for the absent state function: nothing is left to do, or a
  lexical error was met.

The stack of indentations is `levels`, the innermost first. The width zero at its bottom is never
taken off, so it is left out, and `headD 0` reads the top.

Results:
* `step_work_lt`: every step of a lexer that has not stopped lowers its `work`, in which every rune
  that is left counts twice and the mode by its rank. So reading ends, and no step needs fuel.
* `step_owed_le`: a step finds at most two tokens more than it closes levels.
* `step_load_lt`: the same as for `work` with the tokens counted that wait to be delivered.

Out of scope: how the state functions pass on which of them is next, and the byte offsets that the
scanner peeks at; a lexer here holds the runes that are left. Positions are not bounded, where the
scanner counts them in signed words; no source is long enough to tell.
-/

namespace Offside

namespace Lexer

/-- What the lexer is about to do. -/
inductive Mode where
  /-- Measure the indentation of the next line that holds a lexeme. -/
  | lineStart
  /-- Skip a gap and look at the next rune. -/
  | between
  /-- Read the lexeme that begins with `first` at `start`. -/
  | lexeme (cls : LexemeClass) (first : Rune) (start : Position)
  /-- Close the open levels. -/
  | finish
  /-- The source is used up. -/
  | done
  /-- The source is faulty. -/
  | failed (e : LexicalError)
  deriving DecidableEq, Repr

/-- A mode in which there is something left to do. -/
def Mode.isActive : Mode → Bool
  | done | failed _ => false
  | _ => true

/-- How many steps a mode may lead to without reading a rune. -/
def Mode.rank : Mode → Nat
  | lineStart | lexeme _ _ _ => 3
  | between => 2
  | finish => 1
  | done | failed _ => 0

@[simp] theorem Mode.rank_lineStart : Mode.rank .lineStart = 3 := rfl

@[simp] theorem Mode.rank_lexeme (cls : LexemeClass) (first : Rune) (start : Position) :
    Mode.rank (.lexeme cls first start) = 3 := rfl

@[simp] theorem Mode.rank_between : Mode.rank .between = 2 := rfl

@[simp] theorem Mode.rank_finish : Mode.rank .finish = 1 := rfl

@[simp] theorem Mode.rank_done : Mode.rank .done = 0 := rfl

@[simp] theorem Mode.rank_failed (e : LexicalError) : Mode.rank (.failed e) = 0 := rfl

end Lexer

/-- A source in the course of being read. -/
structure Lexer where
  tab : TabWidth
  /-- The runes not yet read. -/
  input : List Rune
  /-- The position of the first rune not yet read. -/
  pos : Position
  mode : Lexer.Mode
  /-- Tokens found and not yet delivered, the next one first. -/
  pending : List Token
  /-- The widths of the open indentations, the innermost first. The width zero, which is always
  open, is left out. -/
  levels : List Int64
  /-- The number of open parentheses. -/
  depth : Nat

namespace Lexer

/-- A lexer at the start of a source (`NewLexer`). -/
def ofSource (tab : TabWidth) (src : Text) : Lexer where
  tab := tab
  input := Rune.decode src
  pos := .start
  mode := .lineStart
  pending := []
  levels := []
  depth := 0

/-- The lexer with one more token to deliver, ready for the next lexeme. -/
def emit (l : Lexer) (t : Token) : Lexer :=
  { l with pending := l.pending ++ [t], mode := .between }

/-- The lexer stopped by an error. -/
def fail (l : Lexer) (e : LexicalError) : Lexer :=
  { l with mode := .failed e }

/-- Compares the width of a line that begins with `r` with the open levels (`indent`). A greater
width opens a level; a smaller one closes levels, and has to meet one. -/
def settle (l : Lexer) (width : Int64) (r : Rune) : Lexer :=
  let top := l.levels.headD 0
  if top < width then
    { l.emit (.plain .indent [] l.pos) with levels := width :: l.levels }
  else if width = top then { l with mode := .between }
  else
    let kept := l.levels.dropWhile fun level => width < level
    if kept.headD 0 = width then
      { l with
        pending := l.pending ++
          List.replicate (l.levels.length - kept.length) (.plain .dedent [] l.pos)
        levels := kept
        mode := .between }
    else l.fail ⟨r.code, l.pos, .inconsistentDedent⟩

/-- Skips blank lines, comments and the indentation of the next line (`lineStartState`). -/
def startLine (l : Lexer) : Lexer :=
  let (gap, rest) := splitGap true false l.input
  let l' := { l with input := rest, pos := l.pos.afterAll gap }
  match rest with
  | [] => { l' with mode := .finish }
  | r :: _ => l'.settle (widthOf l.tab gap) r

/-- Skips the gap in front of the next lexeme and takes its first rune (`defaultState`). -/
def startLexeme (l : Lexer) : Lexer :=
  let (gap, rest) := splitGap (0 < l.depth) false l.input
  let pos := l.pos.afterAll gap
  match rest with
  | [] => { l with input := [], pos, mode := .finish }
  | r :: rest =>
    { l with
      input := rest
      pos := pos.after r
      mode := if r.isNewline then .lineStart else .lexeme (classOf r) r pos }

/-- Reads the rest of a number (`numberState`). -/
def readNumber (l : Lexer) (first : Rune) (start : Position) : Lexer :=
  let more := l.input.takeWhile Rune.isDigit
  let l' := { l with input := l.input.dropWhile Rune.isDigit, pos := l.pos.afterAll more }
  match numberToken first (Rune.encode (first :: more)) start with
  | .ok t => l'.emit t
  | .error e => l'.fail e

/-- Reads the rest of a word (`identifierState`). -/
def readWord (l : Lexer) (first : Rune) (start : Position) : Lexer :=
  let more := l.input.takeWhile Rune.isNamePart
  let word := Rune.encode (first :: more)
  { l with input := l.input.dropWhile Rune.isNamePart, pos := l.pos.afterAll more }.emit
    (.plain (wordKind word) word start)

/-- The number of open parentheses after a token. -/
def depthAfter (depth : Nat) : Kind → Nat
  | .openParen => depth + 1
  | .closeParen => depth - 1
  | _ => depth

/-- Reads the rest of an operator (`operatorState`). -/
def readSymbol (l : Lexer) (first : Rune) (start : Position) : Lexer :=
  match readOperator first l.input start with
  | .ok (kind, lexeme, rest) =>
    { l with
      input := rest
      pos := start.afterAll lexeme
      depth := depthAfter l.depth kind }.emit (.plain kind (Rune.encode lexeme) start)
  | .error e => l.fail e

/-- Closes every open level and ends the stream (`eofState`). -/
def close (l : Lexer) : Lexer :=
  { l with
    pending := l.pending ++ List.replicate l.levels.length (.plain .dedent [] l.pos) ++
      [.eofAt l.pos]
    levels := []
    mode := .done }

/-- One step of the lexer. A lexer that has stopped stays as it is. -/
def step (l : Lexer) : Lexer :=
  match l.mode with
  | .lineStart => l.startLine
  | .between => l.startLexeme
  | .lexeme .number first start => l.readNumber first start
  | .lexeme .word first start => l.readWord first start
  | .lexeme .operator first start => l.readSymbol first start
  | .finish => l.close
  | .done | .failed _ => l

/-! ## Every step brings the end nearer -/

/-- A bound on the steps that are left: every rune and every mode count. -/
def work (l : Lexer) : Nat :=
  2 * l.input.length + l.mode.rank

theorem settle_input (l : Lexer) (width : Int64) (r : Rune) :
    (l.settle width r).input = l.input := by
  unfold settle
  dsimp only
  split
  · rfl
  · split
    · rfl
    · split <;> rfl

theorem settle_rank_le (l : Lexer) (width : Int64) (r : Rune) :
    (l.settle width r).mode.rank ≤ 2 := by
  unfold settle
  dsimp only
  split
  · exact Nat.le_refl 2
  · split
    · exact Nat.le_refl 2
    · split
      · exact Nat.le_refl 2
      · exact Nat.zero_le 2

theorem startLine_work_lt (l : Lexer) (h : l.mode = .lineStart) : l.startLine.work < l.work := by
  have hlen := splitGap_length_le true false l.input
  have hw : l.work = 2 * l.input.length + 3 := by simp [work, h]
  rw [hw]
  unfold startLine
  cases hs : splitGap true false l.input with
  | mk gap rest =>
    rw [hs] at hlen
    cases rest with
    | nil => simp [work]
    | cons r rs =>
      dsimp only
      simp only [work, settle_input]
      have := settle_rank_le { l with input := r :: rs, pos := l.pos.afterAll gap }
        (widthOf l.tab gap) r
      dsimp only at hlen this ⊢
      omega

theorem startLexeme_work_lt (l : Lexer) (h : l.mode = .between) :
    l.startLexeme.work < l.work := by
  have hlen := splitGap_length_le (0 < l.depth) false l.input
  have hw : l.work = 2 * l.input.length + 2 := by simp [work, h]
  rw [hw]
  unfold startLexeme
  cases hs : splitGap (0 < l.depth) false l.input with
  | mk gap rest =>
    rw [hs] at hlen
    cases rest with
    | nil => simp [work]
    | cons r rs =>
      simp only [work, List.length_cons] at hlen ⊢
      split <;> simp only [Mode.rank_lineStart, Mode.rank_lexeme] <;> omega

theorem length_dropWhile_le (p : Rune → Bool) (rs : List Rune) :
    (rs.dropWhile p).length ≤ rs.length :=
  (List.dropWhile_sublist p).length_le

theorem readNumber_work_lt (l : Lexer) (first : Rune) (start : Position)
    (h : l.mode.rank = 3) : (l.readNumber first start).work < l.work := by
  have hlen := length_dropWhile_le Rune.isDigit l.input
  unfold readNumber
  dsimp only
  split <;> simp only [work, emit, fail, h, Mode.rank_between, Mode.rank_failed] <;> omega

theorem readWord_work_lt (l : Lexer) (first : Rune) (start : Position)
    (h : l.mode.rank = 3) : (l.readWord first start).work < l.work := by
  have hlen := length_dropWhile_le Rune.isNamePart l.input
  simp only [readWord, work, emit, h, Mode.rank_between]
  omega

theorem readOperator_length_le {first : Rune} {rest rest' lexeme : List Rune} {pos : Position}
    {kind : Kind} (h : readOperator first rest pos = .ok (kind, lexeme, rest')) :
    rest'.length ≤ rest.length := by
  unfold readOperator at h
  split at h
  · cases h; simp
  · split at h
    · cases h
    · split at h <;> cases h
      exact Nat.le_refl _

theorem readSymbol_work_lt (l : Lexer) (first : Rune) (start : Position)
    (h : l.mode.rank = 3) : (l.readSymbol first start).work < l.work := by
  unfold readSymbol
  split
  · next hop =>
    have := readOperator_length_le hop
    simp only [work, emit, h, Mode.rank_between]
    omega
  · simp only [work, fail, h, Mode.rank_failed]; omega

/-- Every step of a lexer that has not stopped lowers its work. -/
theorem step_work_lt (l : Lexer) (h : l.mode.isActive = true) : l.step.work < l.work := by
  unfold step
  split
  · next hm => exact l.startLine_work_lt hm
  · next hm => exact l.startLexeme_work_lt hm
  · next hm => exact l.readNumber_work_lt _ _ (by rw [hm]; rfl)
  · next hm => exact l.readWord_work_lt _ _ (by rw [hm]; rfl)
  · next hm => exact l.readSymbol_work_lt _ _ (by rw [hm]; rfl)
  · next hm => simp [work, close, hm]
  · next hm => rw [hm] at h; cases h
  · next hm => rw [hm] at h; cases h

/-! ## Few tokens per step -/

/-- Tokens found and levels open: what the lexer still has to deliver for what it has read. -/
def owed (l : Lexer) : Nat :=
  l.pending.length + l.levels.length

theorem settle_owed_le (l : Lexer) (width : Int64) (r : Rune) :
    (l.settle width r).owed ≤ l.owed + 2 := by
  have hk : (l.levels.dropWhile fun level => width < level).length ≤ l.levels.length :=
    (List.dropWhile_sublist _).length_le
  unfold settle
  dsimp only
  split
  · simp [owed, emit]; omega
  · split
    · simp [owed]
    · split
      · simp [owed]; omega
      · simp [owed, fail]

/-- One step finds at most two tokens more than it closes levels. -/
theorem step_owed_le (l : Lexer) : l.step.owed ≤ l.owed + 2 := by
  unfold step
  split
  · unfold startLine
    split
    dsimp only
    split
    · simp [owed]
    · exact settle_owed_le _ _ _
  · unfold startLexeme
    split
    dsimp only
    split <;> simp [owed]
  · unfold readNumber
    dsimp only
    split <;> simp [owed, emit, fail]
    omega
  · simp [owed, readWord, emit]; omega
  · unfold readSymbol
    split <;> simp [owed, emit, fail]
    omega
  · simp [owed, close]; omega
  · exact Nat.le_add_right _ _
  · exact Nat.le_add_right _ _

/-- A bound on the tokens that are left. -/
def load (l : Lexer) : Nat :=
  l.owed + 3 * l.work

theorem step_load_lt (l : Lexer) (h : l.mode.isActive = true) : l.step.load < l.load := by
  have h1 := l.step_owed_le
  have h2 := l.step_work_lt h
  simp only [load]
  omega

end Lexer

end Offside
