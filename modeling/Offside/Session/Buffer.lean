import Offside.Frontend

/-!
# Collecting the lines of one input

Model of the buffer of `readByParseProbe` (specification, 9.4) with its operations `add`, `empty`
and `String`.

The lines of an interactive session are collected until they make up an input. A line that ends in a
colon opens a block, and a block ends at the first blank line, which is dropped. Otherwise an input
is complete unless its program stops where the grammar wants more.

* `Buffer` has the two fields of the buffer: the lines, and whether a block is open.
* `opensBlock` is the test of the last character. It looks at the text of the line, not at its
  tokens, so a colon at the end of a comment opens a block, and a colon in front of a comment does
  not. What that means is worked out in `Proofs/Session/Colon`.
* `wantsMore` is the probe: the lines so far are read as a program, and the fault, if there is one,
  is asked whether it is incomplete.
* `Buffer.add` is `add`. It answers whether the input is complete, and the buffer with the line.
* `Buffer.text` is `String`: the lines with line feeds between them.

Results:
* `Buffer.add_blank`: a blank line ends a block and leaves the lines as they are.
* `Buffer.add_block`: any other line of a block is kept and does not end it.
* `Buffer.add_lines`: outside of a block every line is kept, also one that completes the input.
-/

namespace Offside

/-- The lines of one input. -/
structure Buffer where
  lines : List Text
  /-- Whether a block is open. -/
  block : Bool
  deriving DecidableEq, Repr

namespace Buffer

/-- No lines yet. -/
def empty : Buffer := ⟨[], false⟩

/-- Whether no line was collected yet. -/
def isEmpty (b : Buffer) : Bool :=
  b.lines.isEmpty

/-- The text of the lines. -/
def text (b : Buffer) : Text :=
  Text.join "\n" b.lines

/-- Whether a line opens a block. -/
def opensBlock (line : Text) : Bool :=
  line.trim.endsWith ":"

/-- Whether a text stops where the grammar wants more. -/
def wantsMore (tab : TabWidth) (src : Text) : Bool :=
  match parse tab src with
  | .ok _ => false
  | .error e => e.isIncomplete

/-- Adds a line, and tells whether the input is complete. -/
def add (tab : TabWidth) (b : Buffer) (line : Text) : Bool × Buffer :=
  if b.block then
    if line.isBlank then (true, b) else (false, ⟨b.lines ++ [line], true⟩)
  else
    let lines := b.lines ++ [line]
    if opensBlock line then (false, ⟨lines, true⟩)
    else (!wantsMore tab (Text.join "\n" lines), ⟨lines, false⟩)

theorem add_blank (tab : TabWidth) {b : Buffer} {line : Text} (hb : b.block = true)
    (hl : line.isBlank = true) : b.add tab line = (true, b) := by
  simp [add, hb, hl]

theorem add_block (tab : TabWidth) {b : Buffer} {line : Text} (hb : b.block = true)
    (hl : line.isBlank = false) : b.add tab line = (false, ⟨b.lines ++ [line], true⟩) := by
  simp [add, hb, hl]

theorem add_lines (tab : TabWidth) {b : Buffer} (line : Text) (hb : b.block = false) :
    (b.add tab line).2.lines = b.lines ++ [line] := by
  unfold add
  rw [if_neg (by simp [hb])]
  dsimp only
  split <;> rfl

end Buffer

end Offside
