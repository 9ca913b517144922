import Offside.Proofs.Fault.Snippet

/-!
# The caret and the rune at fault

The comment on `FormatError` promises a caret under the column of a fault, and `caretPadding` that
it lands under the same rune (specification, 4.5). Here is when it does.

What is shown of a fault ends with two lines that are put together apart from each other. The line
of the fault stands behind a gutter with its number, which is at least four columns wide, and the
caret stands behind a gutter that is always four columns wide. From the gutters on, the runes that
lead the caret to its column match those of the line above them, so the caret stands under the rune
at fault as long as both gutters have the same width. A number of more than four digits makes the
upper one wider, and the caret stands too far on the left then.

* `Snippet.Points` are the last two lines of what is shown, with their parts: gutters, the line,
  what leads to the caret. The parts can be read off the two lines (`Snippet.Points.unique`).
* `Snippet.Aligned` says that as many runes stand in front of the caret as in front of the rune at
  fault, and that tabs stand under tabs.

Results:
* `Snippet.Points.unique`: the last two lines of what is shown have their parts.
* `Snippet.Leads.aligned_iff`: the caret is aligned if and only if the number of the line has at
  most four digits.
* `SourceError.render_points`: the last two lines of what is shown of a fault.
* `parse_error_aligned_iff`: this for all faults of all sources: up to line 9999 and not beyond.
* `parse_error_misaligned`: a source whose fault is on line 10000.

Out of scope: characters that take up two columns on a screen, or none. A rune counts as one.
-/

namespace Offside

open Lexer

namespace Text

/-! ## Numerals -/

/-- A numeral is a text of digits. -/
theorem ofNat_eq_ofChars (n : Nat) : ofNat n = ofChars (Nat.toDigits 10 n) := by
  unfold ofNat ofChars
  rw [List.map_eq_flatMap]
  refine List.flatMap_congr fun c hc => ?_
  have hdigit : c.isDigit = true := Nat.isDigit_of_mem_toDigits (by decide) (by decide) hc
  have hle : c.val.toNat ≤ 57 := (Char.isDigit_iff_toNat.mp hdigit).2
  unfold String.utf8EncodeChar
  dsimp only
  rw [if_pos (by omega)]
  rfl

/-- An ASCII byte of a text of characters is one of these characters. -/
theorem exists_of_mem_ofChars {cs : List Char} {b : UInt8} (h : b ∈ ofChars cs) (hb : b < 0x80) :
    ∃ c ∈ cs, String.utf8EncodeChar c = [b] := by
  obtain ⟨c, hc, hmem⟩ := List.mem_flatMap.mp h
  exact ⟨c, hc, Rune.utf8EncodeChar_of_mem hmem hb⟩

end Text

namespace Snippet

/-! ## The last two lines -/

/-- **The last two lines of what is shown of a position**: its line without carriage returns at its
end, behind a gutter, and the caret behind what leads to it. -/
structure Points (src out : Text) (p : Position) (gutter shown pointer : Text) : Prop where
  lines_eq : ∃ before, out.lines = before ++ [gutter ++ shown, pointer ++ "^"]
  isShown : ∃ index line, p.OnLine src index line ∧ ShownAs line shown
  /-- There is one caret. -/
  caret : .char '^' ∉ Rune.decode pointer

/-- **The caret stands under the rune of a column**: as many runes stand in front of both, those
behind the end of the line counted as well, and tabs stand under tabs. -/
structure Aligned (column : Int) (gutter shown pointer : Text) : Prop where
  length_eq : (Rune.decode pointer).length = (Rune.decode gutter).length + (column - 1).toNat
  tabs : ∀ i < (Rune.decode pointer).length,
    (Rune.decode pointer)[i]? = some (.char '\t') ↔
      (Rune.decode (gutter ++ shown))[i]? = some (.char '\t')

/-- What is shown of a line is determined by the line. -/
theorem ShownAs.eq_shownLine {line shown : Text} (h : ShownAs line shown) :
    shown = shownLine line := by
  obtain ⟨hlast, n, rfl⟩ := h
  have hdrop : shown.reverse.dropWhile (· == Text.carriageReturn) = shown.reverse := by
    rw [List.dropWhile_eq_self_iff]
    intro hpos hhead
    refine hlast ?_
    rw [← List.head?_reverse, List.head?_eq_getElem?, List.getElem?_eq_getElem hpos]
    exact congrArg some (eq_of_beq hhead)
  rw [shownLine, Text.dropEnd, List.reverse_append, List.reverse_replicate,
    List.dropWhile_append_of_pos (by simp), hdrop, List.reverse_reverse]

/-- **The parts of the last two lines are determined.** -/
theorem Points.unique {src out : Text} {p : Position}
    {gutter gutter' shown shown' pointer pointer' : Text}
    (h : Points src out p gutter shown pointer) (h' : Points src out p gutter' shown' pointer') :
    gutter = gutter' ∧ shown = shown' ∧ pointer = pointer' := by
  obtain ⟨index, line, hon, hshown⟩ := h.isShown
  obtain ⟨index', line', hon', hshown'⟩ := h'.isShown
  obtain rfl : index = index' := by
    have := hon.line_eq
    have := hon'.line_eq
    omega
  obtain rfl : line = line' := Option.some.inj (hon.getElem_eq.symm.trans hon'.getElem_eq)
  obtain rfl : shown = shown' := hshown.eq_shownLine.trans hshown'.eq_shownLine.symm
  obtain ⟨before, hlines⟩ := h.lines_eq
  obtain ⟨before', hlines'⟩ := h'.lines_eq
  have hlast := (List.append_inj' (hlines.symm.trans hlines') rfl).2
  simp only [List.cons.injEq, and_true] at hlast
  exact ⟨List.append_cancel_right hlast.1, rfl, List.append_cancel_right hlast.2⟩

/-! ## Gutters -/

/-- The number of a line and what divides it from the line. -/
def numberGutter (n : Nat) : Text :=
  Text.padLeft 4 Text.blank (Text.ofNat n) ++ " | "

/-- The characters of that gutter. -/
def numberGutterChars (n : Nat) : List Char :=
  List.replicate (4 - (Nat.toDigits 10 n).length) ' ' ++ (Nat.toDigits 10 n ++ [' ', '|', ' '])

theorem numberGutter_eq (n : Nat) : numberGutter n = Text.ofChars (numberGutterChars n) := by
  have hlength : (Text.ofNat n).length = (Nat.toDigits 10 n).length := List.length_map _
  have hblank : ∀ k, List.replicate k Text.blank = Text.ofChars (List.replicate k ' ') := by
    intro k
    induction k with
    | zero => rfl
    | succ k ih =>
      rw [List.replicate_succ, List.replicate_succ, ih]
      rfl
  rw [numberGutter, Text.padLeft, hlength, hblank, Text.ofNat_eq_ofChars, numberGutterChars]
  simp only [Text.ofChars, List.flatMap_append, List.append_assoc]
  rfl

theorem decode_numberGutter_append (n : Nat) (t : Text) :
    Rune.decode (numberGutter n ++ t) = (numberGutterChars n).map .char ++ Rune.decode t := by
  rw [numberGutter_eq, Rune.decode_ofChars_append]

theorem length_numberGutterChars (n : Nat) :
    (numberGutterChars n).length = max 4 (Nat.toDigits 10 n).length + 3 := by
  simp only [numberGutterChars, List.length_append, List.length_replicate, List.length_cons,
    List.length_nil]
  omega

theorem mem_numberGutterChars {n : Nat} {c : Char} (h : c ∈ numberGutterChars n) :
    c = ' ' ∨ c = '|' ∨ c.isDigit = true := by
  simp only [numberGutterChars, List.mem_append, List.mem_replicate, List.mem_cons,
    List.not_mem_nil, or_false] at h
  rcases h with ⟨-, h⟩ | h | h | h | h
  · exact Or.inl h
  · exact Or.inr (Or.inr (Nat.isDigit_of_mem_toDigits (by decide) (by decide) h))
  · exact Or.inl h
  · exact Or.inr (Or.inl h)
  · exact Or.inl h

theorem newline_not_mem_numberGutter (n : Nat) : Text.newline ∉ numberGutter n := by
  intro h
  rw [numberGutter_eq] at h
  obtain ⟨c, hc, he⟩ := Text.exists_of_mem_ofChars h (by decide)
  obtain rfl : c = '\n' := Rune.utf8EncodeChar_injective he
  exact absurd (mem_numberGutterChars hc) (by decide)

/-- The characters of the gutter of the caret. -/
def caretGutterChars : List Char :=
  [' ', ' ', ' ', ' ', ' ', '|', ' ']

theorem decode_caretGutter_append (t : Text) :
    Rune.decode ("     | " ++ t) = caretGutterChars.map .char ++ Rune.decode t := by
  rw [show Text.ofString "     | " = Text.ofChars caretGutterChars from Rune.ofString_eq _]
  exact Rune.decode_ofChars_append _ _

/-! ## What leads to the caret -/

theorem lead_cases (r : Option Rune) : lead r = .char '\t' ∨ lead r = .char ' ' := by
  unfold lead
  split
  · exact Or.inl rfl
  · exact Or.inr rfl

theorem lead_eq_tab_iff (r : Option Rune) : lead r = .char '\t' ↔ r = some (.char '\t') := by
  unfold lead
  split
  · next h => exact iff_of_true rfl h
  · next h => exact iff_of_false (by decide) h

/-- The runes that lead a caret to its column under a shown line. -/
def Leads (shown : Text) (n : Nat) (padding : Text) : Prop :=
  Rune.decode padding = (List.range n).map fun i => lead (Rune.decode shown)[i]?

variable {shown padding : Text} {n : Nat}

theorem Leads.mem (h : Leads shown n padding) {r : Rune} (hr : r ∈ Rune.decode padding) :
    r = .char '\t' ∨ r = .char ' ' := by
  rw [h] at hr
  obtain ⟨i, -, rfl⟩ := List.mem_map.mp hr
  exact lead_cases _

theorem Leads.length_decode (h : Leads shown n padding) :
    (Rune.decode ("     | " ++ padding)).length = 7 + n := by
  rw [decode_caretGutter_append, List.length_append, List.length_map, h, List.length_map,
    List.length_range]
  rfl

theorem Leads.newline_not_mem (h : Leads shown n padding) :
    Text.newline ∉ Text.ofString "     | " ++ padding := by
  rw [List.mem_append, not_or]
  refine ⟨by decide, fun hm => ?_⟩
  rw [← Rune.encode_decode padding] at hm
  obtain ⟨r, hr, hb⟩ := List.mem_flatMap.mp hm
  rcases h.mem hr with rfl | rfl
  · exact absurd hb (by decide)
  · exact absurd hb (by decide)

theorem Leads.caret_not_mem (h : Leads shown n padding) :
    .char '^' ∉ Rune.decode ("     | " ++ padding) := by
  rw [decode_caretGutter_append, List.mem_append, not_or]
  refine ⟨by decide, fun hm => ?_⟩
  rcases h.mem hm with he | he
  · cases he
  · cases he

/-- **Behind gutters of the same width tabs stand under tabs.** -/
theorem Leads.tabs (h : Leads shown n padding) {number : Nat}
    (hw : (numberGutterChars number).length = 7) {i : Nat} (hi : i < 7 + n) :
    (Rune.decode ("     | " ++ padding))[i]? = some (.char '\t') ↔
      (Rune.decode (numberGutter number ++ shown))[i]? = some (.char '\t') := by
  rw [decode_caretGutter_append, decode_numberGutter_append]
  by_cases hgutter : i < 7
  · -- no gutter holds a tab
    have hnone {cs : List Char} (hlen : cs.length = 7) (hcs : '\t' ∉ cs) (rs : List Rune) :
        (cs.map Rune.char ++ rs)[i]? ≠ some (.char '\t') := by
      rw [List.getElem?_append_left (by simpa [hlen] using hgutter)]
      intro he
      obtain ⟨c, hc, hr⟩ := List.mem_map.mp (List.mem_of_getElem? he)
      exact hcs (Rune.char.inj hr ▸ hc)
    exact iff_of_false (hnone rfl (by decide) _)
      (hnone hw (fun hm => absurd (mem_numberGutterChars hm) (by decide)) _)
  · obtain ⟨j, rfl⟩ := Nat.exists_eq_add_of_le (Nat.not_lt.mp hgutter)
    have hj : j < n := by omega
    have hbehind {cs : List Char} (hlen : cs.length = 7) (rs : List Rune) :
        (cs.map Rune.char ++ rs)[7 + j]? = rs[j]? := by
      rw [List.getElem?_append_right (by simp [hlen]), List.length_map, hlen,
        Nat.add_sub_cancel_left]
    rw [hbehind rfl, hbehind hw, h, List.getElem?_map, List.getElem?_range hj, Option.map_some,
      Option.some.injEq, lead_eq_tab_iff]

/-- **The caret is aligned if and only if the number of the line has at most four digits.** -/
theorem Leads.aligned_iff {column : Int} (h : Leads shown (column - 1).toNat padding)
    (number : Nat) :
    Aligned column (numberGutter number) shown ("     | " ++ padding) ↔ number < 10000 := by
  have hgutter : (Rune.decode (numberGutter number)).length =
        (numberGutterChars number).length := by
    rw [numberGutter_eq, Rune.decode_ofChars, List.length_map]
  have hdigits : (Nat.toDigits 10 number).length ≤ 4 ↔ number < 10000 :=
    Nat.length_toDigits_le_iff (by decide) (by decide)
  have hwidth := length_numberGutterChars number
  rw [← hdigits]
  constructor
  · intro ha
    have hlength := ha.length_eq
    rw [h.length_decode, hgutter, hwidth] at hlength
    omega
  · intro hle
    have hseven : (numberGutterChars number).length = 7 := by omega
    refine ⟨by rw [h.length_decode, hgutter, hseven], fun i hi => h.tabs hseven ?_⟩
    rwa [h.length_decode] at hi

/-- What stands above a line ends with a line feed. -/
theorem IsAbove.ends {src above : Text} {index : Nat} (h : IsAbove src index above) (title : Text) :
    ∃ before, title ++ "\n\n" ++ above = before ++ [Text.newline] := by
  cases index with
  | zero =>
    obtain rfl : above = [] := h
    exact ⟨title ++ [Text.newline], by rw [List.append_nil, List.append_assoc]; rfl⟩
  | succ index =>
    obtain ⟨line, shown, -, -, rfl⟩ := h
    refine ⟨title ++ "\n\n" ++ (numberGutter (index + 1) ++ shown), ?_⟩
    rw [entry, ← numberGutter, List.append_assoc _ _ [Text.newline]]
    rfl

end Snippet

open Snippet

/-- **The last two lines of what is shown of a fault on a line**, with the gutters and what leads to
the caret. -/
theorem SourceError.render_points {e : SourceError} {src : Text} {index : Nat} {line : Text}
    (h : e.pos.OnLine src index line) : ∃ shown padding,
      Points src ((Diagnostic.source e).render src) e.pos (numberGutter (index + 1)) shown
        ("     | " ++ padding) ∧ Leads shown (e.pos.column - 1).toNat padding := by
  obtain ⟨above, shown, padding, hrender, habove, hshown, hleads⟩ := render?_eq h
  refine ⟨shown, padding, ⟨?_, ⟨index, line, h, hshown⟩, Leads.caret_not_mem hleads⟩, hleads⟩
  obtain ⟨before, hbefore⟩ := habove.ends (e.heading ++ " at " ++ e.message)
  obtain ⟨-, k, hline⟩ := hshown
  have hnewline : Text.newline ∉ numberGutter (index + 1) ++ shown := by
    rw [List.mem_append, not_or]
    refine ⟨newline_not_mem_numberGutter _, fun hm => ?_⟩
    refine Text.newline_not_mem_of_mem_lines (List.mem_of_getElem? h.getElem_eq) ?_
    rw [hline]
    exact List.mem_append_left _ hm
  have hcaret : Text.newline ∉ Text.ofString "     | " ++ padding ++ "^" := by
    rw [List.mem_append, not_or]
    exact ⟨Leads.newline_not_mem hleads, by decide⟩
  have hout : (Diagnostic.source e).render src =
      before ++ Text.newline :: (numberGutter (index + 1) ++ shown ++
        Text.newline :: (Text.ofString "     | " ++ padding ++ "^")) := by
    show e.render src = _
    rw [SourceError.render, hrender]
    simp only
    rw [List.append_assoc above, ← List.append_assoc _ above, hbefore, entry, ← numberGutter]
    simp only [List.append_assoc, List.singleton_append]
    rfl
  refine ⟨before.lines, ?_⟩
  rw [hout, Text.lines_append_newline, Text.lines_append hnewline, Text.lines_of_not_mem hcaret]

/-- **The caret is aligned up to line 9999.** What is shown of a fault ends with its line behind a
gutter and with the caret. -/
theorem parse_error_aligned_iff {tab : TabWidth} {src : Text} {e : SourceError}
    (h : parse tab src = .error e) :
    (∃ gutter shown pointer,
      Points src ((Diagnostic.source e).render src) e.pos gutter shown pointer) ∧
      ∀ gutter shown pointer,
        Points src ((Diagnostic.source e).render src) e.pos gutter shown pointer →
          (Aligned e.pos.column gutter shown pointer ↔ e.pos.line < 10000) := by
  obtain ⟨index, line, honLine⟩ := (parse_error_isExact h).onLine
  obtain ⟨shown, padding, hpoints, hleads⟩ := SourceError.render_points honLine
  refine ⟨⟨_, _, _, hpoints⟩, fun gutter shown' pointer hparts => ?_⟩
  obtain ⟨rfl, rfl, rfl⟩ := hparts.unique hpoints
  have hline := honLine.line_eq
  rw [hleads.aligned_iff]
  omega

/-! ## A fault far down -/

/-- Blank lines, and an exclamation mark on the line behind them. -/
def bangBehind (n : Nat) : Text :=
  List.replicate n Text.newline ++ "!"

/-- The fault of that source. -/
def bangFault (n : Nat) : SourceError :=
  .lexical ⟨33, ⟨n, n + 1, 1⟩, .loneBang⟩

theorem decode_bangBehind (n : Nat) :
    Rune.decode (bangBehind n) = List.replicate n (.char '\n') ++ [.char '!'] := by
  induction n with
  | zero => exact Rune.decode_ofChars ['!']
  | succ n ih =>
    rw [List.replicate_succ, List.cons_append, ← ih]
    exact Rune.decode_char_append '\n' (bangBehind n)

theorem afterAll_newlines (n : Nat) :
    Position.start.afterAll (List.replicate n (.char '\n')) = ⟨n, n + 1, 1⟩ := by
  induction n with
  | zero => rfl
  | succ n ih =>
    rw [List.replicate_succ', Position.afterAll_append, ih]
    show Position.mk (n + 1) (n + 1 + 1) 1 = _
    rw [Int.natCast_succ]

theorem widthOf_newlines (tab : TabWidth) (n : Nat) :
    widthOf tab (List.replicate n (.char '\n')) = 0 := by
  cases n with
  | zero => rfl
  | succ n =>
    rw [List.replicate_succ', widthOf, List.foldl_append]
    rfl

theorem parse_bangBehind (tab : TabWidth) (n : Nat) :
    parse tab (bangBehind n) = .error (bangFault n) := by
  obtain ⟨ts, e, hc, -, htok⟩ := course_source tab (bangBehind n)
  have hsplit : splitGap true false (Rune.decode (bangBehind n)) =
      (List.replicate n (.char '\n'), [.char '!']) := by
    have hspaces : ∀ r ∈ List.replicate n (Rune.char '\n'), r.isSpace = true := by
      intro r hr
      rw [List.eq_of_mem_replicate hr]
      decide
    rw [decode_bangBehind, splitGap_spaces_append hspaces, splitGap_solid (by decide),
      List.append_nil]
  have hgap : (Scan.ofSource (bangBehind n)).gap = List.replicate n (.char '\n') :=
    congrArg Prod.fst hsplit
  have hnext : (Scan.ofSource (bangBehind n)).next = ⟨n, n + 1, 1⟩ := by
    rw [Scan.next, hgap]
    exact afterAll_newlines n
  have hadjust : adjust (Scan.ofSource (bangBehind n)).levels
      (widthOf tab (Scan.ofSource (bangBehind n)).gap) = some ([], []) := by
    rw [hgap, widthOf_newlines]
    rfl
  obtain ⟨ts, rfl, hline⟩ := hc.behind_indentation rfl (congrArg Prod.snd hsplit) hadjust
  rw [hnext] at hline
  have hread : readLexeme (.char '!') [] ⟨n, n + 1, 1⟩ =
      .error ⟨33, ⟨n, n + 1, 1⟩, .loneBang⟩ := rfl
  obtain ⟨-, rfl⟩ := hline.behind_fault rfl rfl rfl hread
  rw [parse, htok]
  rfl

/-- **On line 10000 the caret does not stand under the rune at fault.** -/
theorem parse_error_misaligned :
    parse .standard (bangBehind 9999) = .error (bangFault 9999) ∧
      ∃ gutter shown pointer, Points (bangBehind 9999)
          ((Diagnostic.source (bangFault 9999)).render (bangBehind 9999)) (bangFault 9999).pos
          gutter shown pointer ∧
        ¬ Aligned (bangFault 9999).pos.column gutter shown pointer := by
  have hparse := parse_bangBehind .standard 9999
  obtain ⟨index, line, honLine⟩ := (parse_error_isExact hparse).onLine
  obtain ⟨shown, padding, hpoints, hleads⟩ := SourceError.render_points honLine
  refine ⟨hparse, _, _, _, hpoints, fun ha => ?_⟩
  have hlt := (hleads.aligned_iff _).mp ha
  have hline : ((9999 : Nat) : Int) + 1 = index + 1 := honLine.line_eq
  omega

/-- A tab under a tab, and the caret behind the line as it is shown. -/
theorem parse_error_aligned_open :
    parse .standard (Text.ofString openSource) = .error openFault ∧
      ∃ gutter shown pointer, Points (Text.ofString openSource)
          ((Diagnostic.source openFault).render (Text.ofString openSource)) openFault.pos
          gutter shown pointer ∧
        Aligned openFault.pos.column gutter shown pointer := by
  obtain ⟨⟨gutter, shown, pointer, hpoints⟩, haligned⟩ := parse_error_aligned_iff parse_openSource
  exact ⟨parse_openSource, gutter, shown, pointer, hpoints,
    (haligned _ _ _ hpoints).mpr (by decide)⟩

end Offside
