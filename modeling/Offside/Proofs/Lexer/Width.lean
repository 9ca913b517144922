import Offside.Proofs.Lexer.Course
import Offside.Settings.Basic

/-!
# The width of an indentation and its columns

The scanner measures an indentation in a signed word, one rune after the other (`lineStartState`),
and takes any positive tab width (`WithTabWidth`). Here is how far that measure can be relied on.

The width of an indentation is a signed word that wraps around. Its columns are what the word stands
for, counted without an end: a blank is one column, a tab leads to the next multiple of the tab
width, and no other rune takes a column.

The two agree up to the greatest word. The first blank or tab that leads beyond it makes the width
negative, since one rune adds at most the tab width, which is a word itself. So a width is measured
faithfully as long as the columns are a word, and not a rune longer. A tab width near the greatest
word gets there with two tabs.

* `columnsAfter` and `columnsOver` count columns as whole numbers.
* `Faithful` says that the width is never negative and grows with every rune, which is what the
  comparison with the open levels rests on.

Results:
* `widen_toInt`: one more rune of an indentation, exactly.
* `widthOf_toInt`: the width is the number of columns, up to the greatest word.
* `widen_neg`: the rune that leads beyond the greatest word makes the width negative.
* `columnsOver_le`: a run has at most as many columns as its runes have at the tab width.
* `widthOf_faithful_iff`: the width of a run of blanks and tabs is measured faithfully if and only
  if its columns are a word, and a line that begins with the run is settled at that width.
* `widthOf_unfaithful`: two tabs of the greatest admitted width are measured as shallower than one.
-/

namespace Offside

/-! ## Columns -/

/-- The number of columns a tab leads to a multiple of. -/
def TabWidth.size (tab : TabWidth) : Nat :=
  tab.columns.toInt.toNat

theorem TabWidth.columns_toInt (tab : TabWidth) : tab.columns.toInt = tab.size := by
  have hpos := Int64.lt_iff_toInt_lt.mp tab.positive
  rw [Int64.toInt_zero] at hpos
  unfold size
  omega

theorem TabWidth.size_pos (tab : TabWidth) : 0 < tab.size := by
  have hpos := Int64.lt_iff_toInt_lt.mp tab.positive
  rw [Int64.toInt_zero, tab.columns_toInt] at hpos
  omega

theorem TabWidth.size_le (tab : TabWidth) : tab.size ≤ Word.greatest := by
  have hlt := tab.columns.toInt_lt
  rw [tab.columns_toInt] at hlt
  unfold Word.greatest
  omega

/-- A blank or a tab, which is what an indentation is counted in. -/
def Rune.IsBlank (r : Rune) : Prop :=
  r = .char ' ' ∨ r = .char '\t'

instance (r : Rune) : Decidable r.IsBlank :=
  inferInstanceAs (Decidable (r = .char ' ' ∨ r = .char '\t'))

namespace Lexer

variable {tab : TabWidth} {columns : Nat} {r : Rune}

/-- The columns behind one more rune. -/
def columnsAfter (tab : TabWidth) (columns : Nat) (r : Rune) : Nat :=
  if r.is ' ' then columns + 1
  else if r.is '\t' then columns + (tab.size - columns % tab.size)
  else columns

/-- The columns of some runes of one line. -/
def columnsOver (tab : TabWidth) (rs : List Rune) : Nat :=
  rs.foldl (columnsAfter tab) 0

theorem columnsOver_concat (tab : TabWidth) (rs : List Rune) (r : Rune) :
    columnsOver tab (rs ++ [r]) = columnsAfter tab (columnsOver tab rs) r :=
  List.foldl_append

theorem columnsAfter_blank (tab : TabWidth) (columns : Nat) :
    columnsAfter tab columns (.char ' ') = columns + 1 := rfl

theorem columnsAfter_tab (tab : TabWidth) (columns : Nat) :
    columnsAfter tab columns (.char '\t') = columns + (tab.size - columns % tab.size) := rfl

theorem le_columnsAfter (tab : TabWidth) (columns : Nat) (r : Rune) :
    columns ≤ columnsAfter tab columns r := by
  unfold columnsAfter
  split
  · omega
  · split <;> omega

theorem columnsAfter_le (tab : TabWidth) (columns : Nat) (r : Rune) :
    columnsAfter tab columns r ≤ columns + tab.size := by
  have hpos := tab.size_pos
  unfold columnsAfter
  split
  · omega
  · split <;> omega

/-- Every blank and every tab takes a column. -/
theorem lt_columnsAfter (tab : TabWidth) (columns : Nat) (h : r.IsBlank) :
    columns < columnsAfter tab columns r := by
  have hmod := Nat.mod_lt columns tab.size_pos
  rcases h with rfl | rfl
  · rw [columnsAfter_blank]
    omega
  · rw [columnsAfter_tab]
    omega

theorem columnsOver_mono (tab : TabWidth) {rs ss : List Rune} (h : rs <+: ss) :
    columnsOver tab rs ≤ columnsOver tab ss := by
  obtain ⟨more, rfl⟩ := h
  induction more using List.reverseRecOn with
  | nil => rw [List.append_nil]
  | append_singleton more r ih =>
    rw [← List.append_assoc, columnsOver_concat]
    exact ih.trans (le_columnsAfter tab _ r)

/-- A run has at most as many columns as if all its runes were tabs at a tab stop. -/
theorem columnsOver_le (tab : TabWidth) (rs : List Rune) :
    columnsOver tab rs ≤ tab.size * rs.length := by
  induction rs using List.reverseRecOn with
  | nil => exact Nat.zero_le _
  | append_singleton rs r ih =>
    have hstep := columnsAfter_le tab (columnsOver tab rs) r
    rw [columnsOver_concat, List.length_append, List.length_singleton, Nat.mul_succ]
    omega

/-! ## Widths -/

variable {width : Int64}

/-- The word for the columns that a tab goes on. -/
theorem toInt_stop (tab : TabWidth) (hwidth : width.toInt = columns) :
    (tab.columns - width % tab.columns).toInt = (tab.size - columns % tab.size : Nat) := by
  have hmod := Nat.mod_lt columns tab.size_pos
  have hle := tab.size_le
  unfold Word.greatest at hle
  have hrem : (width % tab.columns).toInt = (columns % tab.size : Nat) := by
    rw [Int64.toInt_mod, hwidth, tab.columns_toInt,
      Int.tmod_eq_emod_of_nonneg (Int.natCast_nonneg _)]
    rfl
  rw [Int64.toInt_sub, tab.columns_toInt, hrem, Int.bmod_eq_of_le_mul_two (by omega) (by omega)]
  omega

/-- **One more rune of an indentation, exactly**: the columns behind it, as a word that wraps
around. -/
theorem widen_toInt (hr : r.isNewline = false) (hwidth : width.toInt = columns) :
    (widen tab width r).toInt = (columnsAfter tab columns r : Int).bmod Word.count := by
  unfold widen columnsAfter
  split
  · rw [Int64.toInt_add, hwidth]
    rfl
  · split
    · rw [Int64.toInt_add, hwidth, toInt_stop tab hwidth]
      rfl
    · have hlt := width.toInt_lt
      have hle := width.le_toInt
      unfold Word.count
      rw [if_neg (by simp [hr]), ← hwidth, Int.bmod_eq_of_le_mul_two (by omega) (by omega)]

theorem widen_toInt_of_le (hr : r.isNewline = false) (hwidth : width.toInt = columns)
    (h : columnsAfter tab columns r ≤ Word.greatest) :
    (widen tab width r).toInt = columnsAfter tab columns r := by
  unfold Word.greatest at h
  rw [widen_toInt hr hwidth, Word.count, Int.bmod_eq_of_le_mul_two (by omega) (by omega)]

/-- **The rune that leads beyond the greatest word makes the width negative.** It adds no more than
the tab width, so it does not lead around to zero again. -/
theorem widen_neg (hr : r.isNewline = false) (hwidth : width.toInt = columns)
    (h : Word.greatest < columnsAfter tab columns r) : widen tab width r < 0 := by
  have hword : columns ≤ Word.greatest := by
    have hlt := width.toInt_lt
    rw [hwidth] at hlt
    unfold Word.greatest
    omega
  have hstep := columnsAfter_le tab columns r
  have hsize := tab.size_le
  unfold Word.greatest at h hword hsize
  have hrem : (columnsAfter tab columns r : Int) % Word.count = columnsAfter tab columns r :=
    Int.emod_eq_of_lt (Int.natCast_nonneg _) (by unfold Word.count; omega)
  rw [Int64.lt_iff_toInt_lt, widen_toInt hr hwidth, Int64.toInt_zero, Int.bmod_def, hrem]
  unfold Word.count
  split <;> omega

theorem widthOf_concat (tab : TabWidth) (rs : List Rune) (r : Rune) :
    widthOf tab (rs ++ [r]) = widen tab (widthOf tab rs) r :=
  List.foldl_append

/-- **The width is the number of columns**, up to the greatest word. -/
theorem widthOf_toInt {rs : List Rune} (hline : ∀ r ∈ rs, r.isNewline = false)
    (h : columnsOver tab rs ≤ Word.greatest) : (widthOf tab rs).toInt = columnsOver tab rs := by
  induction rs using List.reverseRecOn with
  | nil => rfl
  | append_singleton rs r ih =>
    obtain ⟨hrs, hr⟩ := List.forall_mem_append.mp hline
    have hle := (columnsOver_mono tab (List.prefix_append rs [r])).trans h
    rw [columnsOver_concat] at h ⊢
    rw [widthOf_concat]
    exact widen_toInt_of_le (hr r (List.mem_singleton_self r)) (ih hrs hle) h

/-! ## Faithful widths -/

/-- **The width of a run is measured faithfully**: it is never negative, and grows with every rune.
-/
structure Faithful (tab : TabWidth) (run : List Rune) : Prop where
  nonneg : ∀ read, read <+: run → 0 ≤ widthOf tab read
  grows : ∀ read r, read ++ [r] <+: run → widthOf tab read < widthOf tab (read ++ [r])

theorem isNewline_of_isBlank (h : r.IsBlank) : r.isNewline = false := by
  rcases h with rfl | rfl <;> rfl

variable {run : List Rune}

/-- The part of a run that is a word is measured faithfully. -/
theorem Faithful.of_le (hrun : ∀ r ∈ run, r.IsBlank) (h : columnsOver tab run ≤ Word.greatest) :
    Faithful tab run := by
  have hexact : ∀ read, read <+: run → (widthOf tab read).toInt = columnsOver tab read := by
    intro read hread
    exact widthOf_toInt (fun r hr => isNewline_of_isBlank (hrun r (hread.subset hr)))
      ((columnsOver_mono tab hread).trans h)
  constructor
  · intro read hread
    rw [Int64.le_iff_toInt_le, hexact read hread]
    exact Int.natCast_nonneg _
  · intro read r hread
    have hr : r.IsBlank :=
      hrun r (hread.subset (List.mem_append_right _ (List.mem_singleton_self r)))
    have hlt := lt_columnsAfter tab (columnsOver tab read) hr
    rw [Int64.lt_iff_toInt_lt, hexact _ hread, hexact _ ((List.prefix_append read [r]).trans hread),
      columnsOver_concat]
    exact Int.ofNat_lt.mpr hlt

/-- A run that leads beyond the greatest word is not measured faithfully. -/
theorem Faithful.le (hrun : ∀ r ∈ run, r.IsBlank) (h : Faithful tab run) :
    columnsOver tab run ≤ Word.greatest := by
  induction run using List.reverseRecOn with
  | nil => exact Nat.zero_le _
  | append_singleton run r ih =>
    obtain ⟨hrun, hr⟩ := List.forall_mem_append.mp hrun
    have hprefix : run <+: run ++ [r] := List.prefix_append run [r]
    have hle := ih hrun ⟨fun read hread => h.nonneg read (hread.trans hprefix),
      fun read a hread => h.grows read a (hread.trans hprefix)⟩
    have hexact : (widthOf tab run).toInt = columnsOver tab run :=
      widthOf_toInt (fun a ha => isNewline_of_isBlank (hrun a ha)) hle
    by_contra hbeyond
    rw [columnsOver_concat] at hbeyond
    have hneg := widen_neg (isNewline_of_isBlank (hr r (List.mem_singleton_self r))) hexact
      (Nat.lt_of_not_le hbeyond)
    have hnonneg := h.nonneg _ List.prefix_rfl
    rw [widthOf_concat] at hnonneg
    exact Int64.not_le.mpr hneg hnonneg

/-- A longer run is measured as no shallower than its beginning. -/
theorem Faithful.mono (h : Faithful tab run) {read more : List Rune}
    (hread : read ++ more <+: run) :
    widthOf tab read ≤ widthOf tab (read ++ more) := by
  induction more using List.reverseRecOn with
  | nil => rw [List.append_nil]; exact Int64.le_refl _
  | append_singleton more r ih =>
    rw [← List.append_assoc] at hread ⊢
    exact Int64.le_trans (ih ((List.prefix_append _ [r]).trans hread))
      (Int64.le_of_lt (h.grows _ r hread))

/-- A line that begins with a run of blanks and tabs is settled at the width of the run. -/
theorem step_run {l : Lexer} {rest : List Rune} (hrun : ∀ r ∈ run, r.IsBlank) (hr : Solid r)
    (hmode : l.mode = .lineStart) (hinput : l.input = run ++ r :: rest) :
    l.step = { l with input := r :: rest, pos := l.pos.afterAll run }.settle
      (widthOf l.tab run) r := by
  have hspace : ∀ a ∈ run, a.isSpace = true := by
    intro a ha
    rcases hrun a ha with rfl | rfl <;> decide
  have hsplit : splitGap true false l.input = (run, r :: rest) := by
    rw [hinput, splitGap_spaces_append hspace, splitGap_solid hr, List.append_nil]
  have hstep : l.step = l.startLine := by rw [step, hmode]
  rw [hstep]
  simp only [startLine, hsplit]

end Lexer

open Lexer

/-- **When an indentation is measured faithfully.** The width at which a line is settled that begins
with a run of blanks and tabs is never negative and grows with every rune of the run if and only if
the columns of the run are a word. Then the width is the number of columns, and no part of the run
is measured as deeper than the whole. With a tab width of up to 2^32 this is so for every run of
less than 2^31 runes. -/
theorem widthOf_faithful_iff (tab : TabWidth) (run : List Rune) (hrun : ∀ r ∈ run, r.IsBlank) :
    (∀ (l : Lexer) (r : Rune) (rest : List Rune), Solid r → l.tab = tab → l.mode = .lineStart →
      l.input = run ++ r :: rest →
      l.step = { l with input := r :: rest, pos := l.pos.afterAll run }.settle
        (widthOf tab run) r) ∧
    (Faithful tab run ↔ columnsOver tab run ≤ Word.greatest) ∧
    (columnsOver tab run ≤ Word.greatest → (widthOf tab run).toInt = columnsOver tab run ∧
      ∀ read more, read ++ more <+: run → widthOf tab read ≤ widthOf tab (read ++ more)) ∧
    (tab.columns ≤ 4294967296 → run.length < 2147483648 → Faithful tab run) := by
  refine ⟨?_, ⟨Faithful.le hrun, Faithful.of_le hrun⟩, ?_, ?_⟩
  · rintro l r rest hr rfl hmode hinput
    exact step_run hrun hr hmode hinput
  · intro h
    exact ⟨widthOf_toInt (fun r hr => isNewline_of_isBlank (hrun r hr)) h,
      fun read more hread => (Faithful.of_le hrun h).mono hread⟩
  · intro hsize hlength
    have hcolumns := columnsOver_le tab run
    have hsmall : tab.size ≤ 4294967296 := by
      have hle := Int64.le_iff_toInt_le.mp hsize
      rw [tab.columns_toInt, show Int64.toInt 4294967296 = 4294967296 from rfl] at hle
      omega
    have hbound : tab.size * run.length ≤ 4294967296 * 2147483647 :=
      Nat.mul_le_mul hsmall (by omega)
    refine .of_le hrun ?_
    unfold Word.greatest
    omega

/-- A run with blanks in front of a tab and behind it is measured faithfully. -/
theorem widthOf_faithful_mixed :
    (∀ r ∈ [.char ' ', .char '\t', .char '\t', .char ' '], Rune.IsBlank r) ∧
      columnsOver .standard [.char ' ', .char '\t', .char '\t', .char ' '] = 17 ∧
      Faithful .standard [.char ' ', .char '\t', .char '\t', .char ' '] := by
  have hrun : ∀ r ∈ [.char ' ', .char '\t', .char '\t', .char ' '], Rune.IsBlank r := by decide
  have hcolumns : columnsOver .standard [.char ' ', .char '\t', .char '\t', .char ' '] = 17 := by
    decide +kernel
  refine ⟨hrun, hcolumns, (widthOf_faithful_iff .standard _ hrun).2.1.mpr ?_⟩
  rw [hcolumns]
  decide

/-- The greatest tab width. -/
def widestSettings : Settings := { Settings.standard with tabWidth := 9223372036854775807 }

/-- Two lines that are indented by one tab and by two. -/
def steepSource : String := "if a:\n\tif b:\n\t\tx\n"

/-- **Two tabs of the greatest admitted width are measured as shallower than one**, and than none.
So the line that is indented deepest returns to no open indentation. -/
theorem widthOf_unfaithful :
    widestSettings.check = .ok widestSettings ∧
      widthOf widestSettings.tab [.char '\t'] = 9223372036854775807 ∧
      widthOf widestSettings.tab [.char '\t', .char '\t'] = -2 ∧
      ¬ Faithful widestSettings.tab [.char '\t', .char '\t'] ∧
      tokenize widestSettings.tab (Text.ofString steepSource) =
        .error ⟨120, ⟨15, 3, 3⟩, .inconsistentDedent⟩ := by
  have hneg : widthOf widestSettings.tab [.char '\t', .char '\t'] = -2 := by decide +kernel
  refine ⟨by decide +kernel, by decide +kernel, hneg, fun h => ?_, ?_⟩
  · have hnonneg := h.nonneg _ List.prefix_rfl
    rw [hneg] at hnonneg
    exact absurd hnonneg (by decide)
  · rw [tokenize_eq, ofSource_ofString, ← stop_steps 20, stop_of_inactive (by decide +kernel)]
    have hm : (steps 20 (ofRunes widestSettings.tab (steepSource.toList.map .char))).mode =
        .failed ⟨120, ⟨15, 3, 3⟩, .inconsistentDedent⟩ := by
      decide +kernel
    rw [outcome, hm]

end Offside
