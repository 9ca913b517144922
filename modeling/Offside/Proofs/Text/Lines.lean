import Offside.Proofs.Text.Space

/-!
# Lines of a text

Lemmas about `Text.lines`, which is the cutting of lists at the line feed, and about what is done to
every line of a text on its own, such as deleting comments or widening tabs.

A text is a line without a line feed, or such a line, a line feed and the rest of the text. The two
cases are `Text.line_cases`, and what is done to every line is proved by `Text.lineInduction`, which
has a hypothesis for the rest in the second of them.

Results:
* `Text.line_cases`: a text is one line, or a line, a line feed and the rest.
* `Text.lineInduction`: the induction on the lines of a text.
* `Text.lines_of_not_mem`, `Text.lines_append`: the lines of such texts.
* `Text.lines_append_newline`: the lines of two texts with a line feed between them are those of
  both.
* `Text.join_map_lines_of_not_mem`, `Text.join_map_lines_append`: what is done to every line of a
  text is done line by line.
* `Rune.forall_line`: the runes of a line are in front of its end.
-/

namespace Offside

namespace Text

/-- **A text is one line, or a line, a line feed and the rest.** -/
theorem line_cases (t : Text) :
    newline ∉ t ∨ ∃ l rest, newline ∉ l ∧ t = l ++ newline :: rest := by
  by_cases h : newline ∈ t
  · obtain ⟨l, rest, ht, hl⟩ := List.eq_append_cons_of_mem h
    exact Or.inr ⟨l, rest, hl, ht⟩
  · exact Or.inl h

/-- **Induction on the lines of a text.** -/
@[elab_as_elim]
theorem lineInduction {motive : Text → Prop} (last : ∀ l, newline ∉ l → motive l)
    (more : ∀ l rest, newline ∉ l → motive rest → motive (l ++ newline :: rest)) (t : Text) :
    motive t := by
  rcases t.line_cases with h | ⟨l, rest, hl, ht⟩
  · exact last t h
  · have hlt : rest.length < t.length := by
      rw [ht, List.length_append, List.length_cons]
      omega
    rw [ht]
    exact more l rest hl (lineInduction last more rest)
termination_by t.length

theorem lines_of_not_mem {l : Text} (h : newline ∉ l) : l.lines = [l] :=
  List.splitOn_eq_singleton h

theorem lines_append {l : Text} (h : newline ∉ l) (rest : Text) :
    (l ++ newline :: rest).lines = l :: rest.lines :=
  List.splitOn_append_cons_self_of_not_mem h rest

/-- The lines of two texts with a line feed between them. -/
theorem lines_append_newline (t u : Text) : (t ++ newline :: u).lines = t.lines ++ u.lines :=
  List.splitOn_append_cons_self t u

/-- What is done to every line of a text, for a text of one line. -/
theorem join_map_lines_of_not_mem (f : Text → Text) {l : Text} (h : newline ∉ l) :
    join [newline] (l.lines.map f) = f l := by
  rw [lines_of_not_mem h, List.map_singleton, join, List.intercalate_singleton]

/-- What is done to every line of a text, line by line. -/
theorem join_map_lines_append (f : Text → Text) {l : Text} (h : newline ∉ l) (rest : Text) :
    join [newline] ((l ++ newline :: rest).lines.map f) =
      f l ++ newline :: join [newline] (rest.lines.map f) := by
  have hne : rest.lines.map f ≠ [] := mt List.map_eq_nil_iff.mp (List.splitOn_ne_nil newline rest)
  obtain ⟨line, lines, hlines⟩ := List.exists_cons_of_ne_nil hne
  rw [lines_append h, List.map_cons, hlines, join, List.intercalate_cons_cons, List.append_assoc,
    join, List.singleton_append]

theorem newline_not_mem_of_mem_lines {t l : Text} (h : l ∈ t.lines) : newline ∉ l := by
  induction t using lineInduction with
  | last m hm =>
    rw [lines_of_not_mem hm] at h
    rwa [List.mem_singleton.mp h]
  | more m rest hm ih =>
    rw [lines_append hm] at h
    rcases List.mem_cons.mp h with rfl | h
    · exact hm
    · exact ih h

end Text

namespace Rune

/-- A character of a text that is an ASCII byte is a byte of the text. -/
theorem mem_of_decode {c : Char} {b : UInt8} (hc : String.utf8EncodeChar c = [b]) {t : Text}
    (h : .char c ∈ decode t) : b ∈ t := by
  rw [← encode_decode t, encode, List.mem_flatMap]
  exact ⟨.char c, h, by rw [bytes, hc]; exact List.mem_singleton_self b⟩

/-- A line has no line feeds. -/
theorem not_newline_of_line {l : Text} (h : Text.newline ∉ l) :
    ∀ r ∈ decode l, r.isNewline = false := by
  intro r hr
  rw [Bool.eq_false_iff]
  intro hn
  rw [isNewline, is, beq_iff_eq] at hn
  exact h (mem_of_decode (c := '\n') rfl (hn ▸ hr))

/-- The runes of a line are in front of its end. -/
theorem forall_line {l : Text} (h : Text.newline ∉ l) : ∀ r ∈ decode l, (!r.isNewline) = true := by
  intro r hr
  rw [not_newline_of_line h r hr]
  rfl

end Rune

end Offside
