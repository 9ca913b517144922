import Mathlib.Data.List.DropRight
import Offside.Proofs.Text.Lines

/-!
# Boundaries of runes

Lemmas about `Rune.decode` at a place where a text can be cut. The positions of a source count
bytes, and its lines and columns count runes; a fault is shown with the bytes of its line. To go
from one to the other, a text is cut in front of the place, at a *boundary*: no rune goes across it.

Between two runes of a text the text can be cut, and both parts are read on their own as before.
Line feeds are such runes, so the lines of a text can be counted and read byte by byte or rune by
rune.

* `Text.lastLine` and `Rune.lastLine` are what stands behind the last line feed, as bytes and as
  runes.
* `Text.firstLine` is what stands in front of the first line feed.

Results:
* `Rune.decode_encode_of_append`: both parts of a text that is cut at a boundary are read as before.
* `Text.count_newline`: the line feeds among the bytes of a text are those among its runes. A byte
  of a longer character is never a line feed.
* `Rune.decode_lastLine`: the runes of the last line are the last line of the runes.
* `Text.lines_at`: the line of a place is as many lines down as line feeds stand in front of the
  place, and it begins behind the last of them.
* `Rune.decode_firstLine`, `Rune.decode_line`: a line is read on its own, and if a text is cut at a
  boundary, then so is the line of the place.
-/

namespace Offside

theorem rtakeWhile_append_cons_of_neg {α : Type} {p : α → Bool} {x : α} (h : p x = false)
    (front back : List α) : (front ++ x :: back).rtakeWhile p = back.rtakeWhile p := by
  induction back using List.reverseRecOn with
  | nil => rw [List.rtakeWhile_concat_neg p front x (by simp [h]), List.rtakeWhile_nil]
  | append_singleton back y ih =>
    rw [← List.cons_append, ← List.append_assoc]
    cases hy : p y with
    | true =>
      rw [List.rtakeWhile_concat_pos p _ y hy, List.rtakeWhile_concat_pos p _ y hy, ih]
    | false =>
      rw [List.rtakeWhile_concat_neg p _ y (by simp [hy]),
        List.rtakeWhile_concat_neg p _ y (by simp [hy])]

/-! ## Cutting a text between two runes -/

namespace Rune

/-- Behind its first rune, a text is read on. -/
theorem exists_of_decode_cons {src : Text} {r : Rune} {rs : List Rune}
    (h : decode src = r :: rs) : ∃ rest, src = r.bytes ++ rest ∧ decode rest = rs := by
  cases src with
  | nil => rw [decode] at h; cases h
  | cons b rest =>
    rw [decode] at h
    split at h
    · next c hc =>
      obtain ⟨rfl, hrest⟩ := List.cons.inj h
      have hsplit := eq_append_of_leading? hc
      obtain ⟨n, hn⟩ : ∃ n, c.utf8Size = n + 1 :=
        ⟨c.utf8Size - 1, by have := c.utf8Size_pos; omega⟩
      rw [hn, Nat.add_sub_cancel] at hrest
      rw [hn, List.drop_succ_cons] at hsplit
      exact ⟨rest.drop n, hsplit, hrest⟩
    · obtain ⟨rfl, hrest⟩ := List.cons.inj h
      exact ⟨rest, rfl, hrest⟩

/-- A byte that begins no character in a text begins none where the text is cut off earlier. -/
theorem decode_stray_append {b : UInt8} {front back : Text} {rs : List Rune}
    (h : decode (b :: (front ++ back)) = .stray b :: rs) :
    decode (b :: front) = .stray b :: decode front := by
  have hnone : leading? (b :: front) = none := by
    rw [Option.eq_none_iff_forall_ne_some]
    intro c hc
    have hwhole := eq_append_of_leading? hc
    rw [← List.cons_append, hwhole, List.append_assoc, decode_char_append] at h
    cases (List.cons.inj h).1
  rw [decode, hnone]

/-- **A text that is cut at a boundary**: both parts are read as they were in the whole. -/
theorem decode_encode_of_append {src : Text} {front back : List Rune}
    (h : decode src = front ++ back) :
    decode (encode front) = front ∧ decode (encode back) = back := by
  induction front generalizing src with
  | nil =>
    rw [List.nil_append] at h
    exact ⟨by rw [encode_nil, decode], by rw [← h, encode_decode]⟩
  | cons r front ih =>
    obtain ⟨rest, rfl, hrest⟩ := exists_of_decode_cons h
    obtain ⟨hfront, hback⟩ := ih hrest
    refine ⟨?_, hback⟩
    rw [encode_cons]
    cases r with
    | char c => rw [bytes, decode_char_append, hfront]
    | stray b =>
      have hbytes : rest = encode front ++ encode back := by
        rw [← encode_append, ← encode_decode rest, hrest]
        rfl
      have hwhole : decode (b :: (encode front ++ encode back)) = .stray b :: (front ++ back) :=
        hbytes ▸ h
      rw [bytes, List.singleton_append, decode_stray_append hwhole, hfront]

/-- The two parts of a text that is cut at a boundary. -/
theorem take_drop_encode {src : Text} {front back : List Rune} (h : decode src = front ++ back) :
    src.take (encode front).length = encode front ∧
      src.drop (encode front).length = encode back := by
  have hsrc : src = encode front ++ encode back := by rw [← encode_append, ← h, encode_decode]
  rw [hsrc]
  exact ⟨List.take_left, List.drop_left⟩

end Rune

/-! ## Line feeds and the last line -/

namespace Text

/-- What stands behind the last line feed of a text. -/
def lastLine (t : Text) : Text :=
  t.rtakeWhile (· != newline)

theorem lastLine_of_not_mem {l : Text} (h : newline ∉ l) : lastLine l = l := by
  rw [lastLine, List.rtakeWhile_eq_self_iff]
  intro b hb
  rw [bne_iff_ne]
  rintro rfl
  exact h hb

theorem lastLine_append (l rest : Text) : lastLine (l ++ newline :: rest) = lastLine rest :=
  rtakeWhile_append_cons_of_neg (by simp) l rest

/-- **The line feeds of a text are runes of it.** -/
theorem count_newline (t : Text) : t.count newline = (Rune.decode t).countP Rune.isNewline := by
  have hnone {l : Text} (hl : newline ∉ l) :
      l.count newline = 0 ∧ (Rune.decode l).countP Rune.isNewline = 0 :=
    ⟨List.count_eq_zero.mpr hl,
      List.countP_eq_zero.mpr fun r hr => by simp [Rune.not_newline_of_line hl r hr]⟩
  induction t using lineInduction with
  | last l hl => rw [(hnone hl).1, (hnone hl).2]
  | more l rest hl ih =>
    rw [Rune.decode_append_newline, List.count_append, List.countP_append, (hnone hl).1,
      (hnone hl).2,
      List.count_cons_self, List.countP_cons_of_pos rfl, ih]

end Text

namespace Rune

/-- The runes behind the last line feed. -/
def lastLine (rs : List Rune) : List Rune :=
  rs.rtakeWhile fun r => !r.isNewline

/-- **The last line of a text is read on its own.** -/
theorem decode_lastLine (t : Text) : decode (Text.lastLine t) = lastLine (decode t) := by
  induction t using Text.lineInduction with
  | last l hl =>
    rw [Text.lastLine_of_not_mem hl, lastLine, List.rtakeWhile_eq_self_iff.mpr (forall_line hl)]
  | more l rest hl ih =>
    rw [Text.lastLine_append, ih, decode_append_newline]
    exact (rtakeWhile_append_cons_of_neg rfl (decode l) (decode rest)).symm

end Rune

/-! ## A place among the lines -/

namespace Text

/-- What stands in front of the first line feed of a text. -/
def firstLine (t : Text) : Text :=
  t.takeWhile (· != newline)

theorem firstLine_of_not_mem {l : Text} (h : newline ∉ l) : firstLine l = l := by
  rw [firstLine, List.takeWhile_eq_self_iff]
  intro b hb
  rw [bne_iff_ne]
  rintro rfl
  exact h hb

theorem firstLine_append {l : Text} (h : newline ∉ l) (rest : Text) :
    firstLine (l ++ newline :: rest) = l := by
  have hl : ∀ b ∈ l, (b != newline) = true := by
    intro b hb
    rw [bne_iff_ne]
    rintro rfl
    exact h hb
  rw [firstLine, List.takeWhile_append_of_pos hl, List.takeWhile_cons_of_neg (by simp),
    List.append_nil]

/-- The first line of a text that goes on in the line where another one ends. -/
theorem head?_lines_append {l : Text} (h : newline ∉ l) (after : Text) :
    (l ++ after).lines.head? = some (l ++ firstLine after) := by
  have hline {m : Text} (hm : newline ∉ m) : newline ∉ l ++ m := by simp [h, hm]
  rcases after.line_cases with hm | ⟨m, rest, hm, rfl⟩
  · rw [lines_of_not_mem (hline hm), firstLine_of_not_mem hm, List.head?_cons]
  · rw [← List.append_assoc, lines_append (hline hm), firstLine_append hm, List.head?_cons]

/-- **The line of a place.** It is as many lines down as line feeds stand in front of the place, and
it begins behind the last of them. -/
theorem lines_at (before after : Text) :
    (before ++ after).lines[before.count newline]? = some (lastLine before ++ firstLine after) ∧
      before = ((before ++ after).lines.take (before.count newline)).flatMap (· ++ [newline]) ++
        lastLine before := by
  induction before using lineInduction with
  | last l hl =>
    rw [List.count_eq_zero.mpr hl, lastLine_of_not_mem hl, ← head?_lines_append hl,
      List.head?_eq_getElem?]
    exact ⟨rfl, rfl⟩
  | more l rest hl ih =>
    have hcount : (l ++ newline :: rest).count newline = rest.count newline + 1 := by
      rw [List.count_append, List.count_eq_zero.mpr hl, List.count_cons_self, Nat.zero_add]
    obtain ⟨hline, hrest⟩ := ih
    rw [hcount, lastLine_append, List.append_assoc, List.cons_append, lines_append hl,
      List.getElem?_cons_succ, List.take_succ_cons, List.flatMap_cons]
    refine ⟨hline, ?_⟩
    rw [List.append_assoc, ← hrest, List.append_assoc]
    rfl

end Text

namespace Rune

/-- The first line of a text is read on its own. -/
theorem decode_firstLine (t : Text) :
    decode (Text.firstLine t) = (decode t).takeWhile fun r => !r.isNewline := by
  rcases t.line_cases with hl | ⟨l, rest, hl, rfl⟩
  · rw [Text.firstLine_of_not_mem hl, List.takeWhile_eq_self_iff.mpr (forall_line hl)]
  · rw [Text.firstLine_append hl, decode_append_newline,
      List.takeWhile_append_of_pos (forall_line hl), List.takeWhile_cons_of_neg (by decide),
      List.append_nil]

/-- **A line is cut at a boundary** if the text is. -/
theorem decode_line {before after : Text}
    (h : decode (before ++ after) = decode before ++ decode after) :
    decode (Text.lastLine before ++ Text.firstLine after) =
      decode (Text.lastLine before) ++ decode (Text.firstLine after) := by
  obtain ⟨front, hfront⟩ : ∃ front, front ++ decode (Text.lastLine before) = decode before := by
    rw [decode_lastLine]
    exact List.rtakeWhile_suffix _ _
  obtain ⟨back, hback⟩ : ∃ back, decode (Text.firstLine after) ++ back = decode after := by
    rw [decode_firstLine]
    exact List.takeWhile_prefix _
  rw [← hfront, ← hback, List.append_assoc,
    ← List.append_assoc (decode (Text.lastLine before))] at h
  have hline := (decode_encode_of_append (decode_encode_of_append h).2).1
  rwa [encode_append, encode_decode, encode_decode] at hline

end Rune

end Offside
