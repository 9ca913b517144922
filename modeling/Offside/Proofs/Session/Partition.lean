import Offside.Proofs.Session.Command

/-!
# Inputs partition the lines of a session

`Session.run`, which is the loop of `runRepl` over `readByParseProbe`, as a matter of the lines that
it is given.

A session reads line by line and acts whenever the lines that it has collected make up an input. The
lines of an input are a *group*. Which line ends a group is a matter of the lines in front of it in
the group: behind a line that ends in a colon it is the first blank line, and otherwise the first
line that does not end in a colon and behind which the grammar wants no more. So every line belongs
to one group, in the order in which it was read, and the lines behind the last group are given up at
the end.

* `endsGroup` says whether a line ends the group whose lines stand in front of it, and `IsGroup`
  that the last of some lines is the first that does.
* `Collects` says that a buffer holds the lines of an unfinished group. It is what a turn preserves.
* `Splits` is how the lines of a session are split, in a state in which some lines are held.

Results:
* `Collects.add_within`, `Collects.add_last`: what a buffer does with a line that does not end its
  group, and with one that does.
* `Turn.next_eq`: a session acts on what it takes, and on nothing else.
* `Collects.splits`: the lines of a session from any state on, by induction on the lines.
* `session_partition`: the same for whole sessions.
-/

namespace Offside

namespace Session

/-! ## Groups of lines -/

/-- Whether a block is open behind some lines of a group. -/
def inBlock (lines : List Text) : Bool :=
  lines.any Buffer.opensBlock

theorem inBlock_concat (lines : List Text) (line : Text) :
    inBlock (lines ++ [line]) = (inBlock lines || Buffer.opensBlock line) := by
  simp [inBlock]

/-- Whether a line ends the group whose lines stand in front of it. -/
def endsGroup (tab : TabWidth) (before : List Text) (line : Text) : Bool :=
  if inBlock before then line.isBlank
  else !Buffer.opensBlock line && !Buffer.wantsMore tab (Text.join "\n" (before ++ [line]))

/-- None of some lines ends their group. -/
def Unfinished (tab : TabWidth) (lines : List Text) : Prop :=
  ∀ before line after, lines = before ++ line :: after → endsGroup tab before line = false

/-- **A group**: its last line is the first one that ends it. -/
def IsGroup (tab : TabWidth) (group : List Text) : Prop :=
  ∃ before line, group = before ++ [line] ∧ Unfinished tab before ∧ endsGroup tab before line = true

/-- The text of a group: its lines, without the blank line that closes a block. -/
def groupText (group : List Text) : Text :=
  Text.join "\n" (if inBlock group.dropLast then group.dropLast else group)

theorem unfinished_nil (tab : TabWidth) : Unfinished tab [] := by
  intro before line after h
  exact absurd h (by simp)

theorem Unfinished.concat {tab : TabWidth} {lines : List Text} {line : Text}
    (h : Unfinished tab lines) (hl : endsGroup tab lines line = false) :
    Unfinished tab (lines ++ [line]) := by
  intro before l after he
  rcases Lexer.place_append he with ⟨more, hlines, -⟩ | ⟨us, rfl, hlast⟩
  · exact h before l more hlines
  · cases us with
    | nil =>
      obtain ⟨rfl, -⟩ := List.cons.inj hlast
      rwa [List.append_nil]
    | cons u us => exact absurd (List.cons.inj hlast).2 (by simp)

/-! ## What a buffer collects -/

/-- A buffer holds the lines of an unfinished group. -/
structure Collects (tab : TabWidth) (lines : List Text) (b : Buffer) : Prop where
  eq : b = ⟨lines, inBlock lines⟩
  unfinished : Unfinished tab lines

theorem collects_empty (tab : TabWidth) : Collects tab [] .empty :=
  ⟨rfl, unfinished_nil tab⟩

namespace Collects

variable {tab : TabWidth} {lines : List Text} {b : Buffer} {line : Text}

/-- A line that does not end the group is collected. -/
theorem add_within (h : Collects tab lines b) (hl : endsGroup tab lines line = false) :
    ∃ b', b.add tab line = (false, b') ∧ Collects tab (lines ++ [line]) b' := by
  obtain ⟨rfl, hu⟩ := h
  refine ⟨⟨lines ++ [line], inBlock (lines ++ [line])⟩, ?_, rfl, hu.concat hl⟩
  rw [inBlock_concat]
  unfold endsGroup at hl
  cases hb : inBlock lines with
  | true =>
    rw [hb, if_pos rfl] at hl
    exact Buffer.add_block tab rfl hl
  | false =>
    rw [hb, if_neg (by simp), Bool.and_eq_false_iff, Bool.not_eq_false', Bool.not_eq_false'] at hl
    rw [Buffer.add, if_neg (by simp), Bool.false_or]
    cases ho : Buffer.opensBlock line with
    | true => rfl
    | false =>
      have hmore := hl.resolve_left (by simp [ho])
      simp [hmore]

/-- **A line that ends the group completes the input**, whose text is that of the group. -/
theorem add_last (h : Collects tab lines b) (hl : endsGroup tab lines line = true) :
    ∃ b', b.add tab line = (true, b') ∧ b'.text = groupText (lines ++ [line]) := by
  obtain ⟨rfl, -⟩ := h
  unfold endsGroup at hl
  rw [groupText, List.dropLast_concat]
  cases hb : inBlock lines with
  | true =>
    rw [hb, if_pos rfl] at hl
    exact ⟨_, Buffer.add_blank tab rfl hl, rfl⟩
  | false =>
    rw [hb, if_neg (by simp), Bool.and_eq_true, Bool.not_eq_true'] at hl
    refine ⟨⟨lines ++ [line], false⟩, ?_, rfl⟩
    rw [Buffer.add, if_neg (by simp)]
    simp [hl.1, hl.2]

end Collects

/-! ## What a session takes -/

/-- The input that a turn completes, if it does. -/
def Turn.taken? (o : Options) (t : Turn) : Option Text :=
  let (done, buffer) := t.session.buffer.add o.tab t.line
  if done then some buffer.text else none

/-- The inputs that a session takes, in order. -/
def inputs (o : Options) (s : Session) (lines : List Text) : List Text :=
  (turns o s lines).filterMap (Turn.taken? o)

/-- **A session acts on what it takes**, and on nothing else. -/
theorem Turn.next_eq (o : Options) (t : Turn) :
    match t.taken? o with
    | some code => t.next o = take o { t.session with buffer := .empty } code
    | none => ∃ buffer, t.next o = .continue { t.session with buffer } [] := by
  rw [Turn.next, step, Turn.taken?]
  dsimp only
  cases (t.session.buffer.add o.tab t.line).1 with
  | true => rfl
  | false => exact ⟨_, rfl⟩

/-- Behind an input nothing is collected. -/
theorem buffer_of_take {o : Options} {s s' : Session} {code out : Text} (hb : s.buffer = .empty)
    (h : take o s code = .continue s' out) : s'.buffer = .empty := by
  unfold take at h
  split at h
  · injection h with h
    exact h ▸ hb
  · cases h
  · injection h with h
    subst h
    exact hb
  · injection h with h
    subst h
    exact hb

/-- An input that leaves a session asks for it. -/
theorem request_of_take {o : Options} {s s' : Session} {code out : Text}
    (h : take o s code = .leave s' out) : request code = .leave := by
  unfold take at h
  split at h
  · cases h
  · assumption
  · cases h
  · cases h

/-! ## The lines of a session -/

/-- **How the lines of a session are split**, in a state in which some lines are held: into groups,
one for each input, the lines of an unfinished group, and lines that are not read because the last
input left the session. -/
structure Splits (o : Options) (s : Session) (held lines : List Text) (groups : List (List Text))
    (rest unread : List Text) : Prop where
  lines_eq : held ++ lines = groups.flatten ++ rest ++ unread
  inputs_eq : inputs o s lines = groups.map groupText
  isGroup : ∀ group ∈ groups, IsGroup o.tab group
  unfinished : Unfinished o.tab rest
  left : (turns o s lines).any (Turn.leaves o) = true →
    rest = [] ∧ ∃ group ∈ groups.getLast?, request (groupText group) = .leave
  stayed : (turns o s lines).any (Turn.leaves o) = false → unread = []

section Splits

variable {o : Options} {s s' : Session} {held lines rest unread : List Text}
  {groups : List (List Text)} {line code out : Text}

theorem inputs_cons (hs : step o s line = .continue s' out) :
    inputs o s (line :: lines) = (Turn.taken? o ⟨s, line⟩).toList ++ inputs o s' lines := by
  rw [inputs, turns, hs, List.filterMap_cons]
  cases Turn.taken? o ⟨s, line⟩ with
  | none => rfl
  | some code => rfl

theorem leaves_cons (hs : step o s line = .continue s' out) :
    (turns o s (line :: lines)).any (Turn.leaves o) = (turns o s' lines).any (Turn.leaves o) := by
  rw [turns, hs, List.any_cons, Turn.leaves, Turn.next, hs, Bool.false_or]

/-- A line that is collected. -/
theorem Splits.within (h : Splits o s' (held ++ [line]) lines groups rest unread)
    (hs : step o s line = .continue s' out) (ht : Turn.taken? o ⟨s, line⟩ = none) :
    Splits o s held (line :: lines) groups rest unread where
  lines_eq := by rw [← h.lines_eq, List.append_assoc, List.singleton_append]
  inputs_eq := by rw [inputs_cons hs, ht, ← h.inputs_eq]; rfl
  isGroup := h.isGroup
  unfinished := h.unfinished
  left := by rw [leaves_cons hs]; exact h.left
  stayed := by rw [leaves_cons hs]; exact h.stayed

/-- A line that ends a group behind which the session goes on. -/
theorem Splits.last (h : Splits o s' [] lines groups rest unread) (hu : Unfinished o.tab held)
    (he : endsGroup o.tab held line = true) (hs : step o s line = .continue s' out)
    (ht : Turn.taken? o ⟨s, line⟩ = some (groupText (held ++ [line]))) :
    Splits o s held (line :: lines) ((held ++ [line]) :: groups) rest unread where
  lines_eq := by
    have hlines : lines = groups.flatten ++ rest ++ unread := h.lines_eq
    rw [hlines]
    simp
  inputs_eq := by rw [inputs_cons hs, ht, h.inputs_eq]; rfl
  isGroup := List.forall_mem_cons.mpr ⟨⟨held, line, rfl, hu, he⟩, h.isGroup⟩
  unfinished := h.unfinished
  left := by
    intro hl
    rw [leaves_cons hs] at hl
    obtain ⟨hrest, group, hg, hr⟩ := h.left hl
    refine ⟨hrest, group, ?_, hr⟩
    rw [List.getLast?_cons, Option.mem_def.mp hg]
    rfl
  stayed := by rw [leaves_cons hs]; exact h.stayed

/-- A line that ends a group which leaves the session. -/
theorem splits_leave (hu : Unfinished o.tab held) (he : endsGroup o.tab held line = true)
    (hs : step o s line = .leave s' out)
    (ht : Turn.taken? o ⟨s, line⟩ = some (groupText (held ++ [line])))
    (hr : request (groupText (held ++ [line])) = .leave) :
    Splits o s held (line :: lines) [held ++ [line]] [] lines := by
  have hturns : turns o s (line :: lines) = [⟨s, line⟩] := by rw [turns, hs]
  refine ⟨by simp, ?_, List.forall_mem_singleton.mpr ⟨held, line, rfl, hu, he⟩, unfinished_nil _,
    fun _ => ⟨rfl, _, rfl, hr⟩, fun hl => ?_⟩
  · rw [inputs, hturns, List.filterMap_cons, ht]
    rfl
  · rw [hturns, List.any_cons, Turn.leaves, Turn.next, hs] at hl
    cases hl

/-- **The lines of a session are split into groups.** -/
theorem Collects.splits (lines : List Text) (h : Collects o.tab held s.buffer) :
    ∃ groups rest unread, Splits o s held lines groups rest unread := by
  induction lines generalizing s held with
  | nil =>
    refine ⟨[], held, [], by simp, rfl, by simp, h.unfinished, fun hl => ?_, fun _ => rfl⟩
    cases hl
  | cons line lines ih =>
    have hnext := Turn.next_eq o ⟨s, line⟩
    cases he : endsGroup o.tab held line with
    | false =>
      obtain ⟨b, hadd, hb⟩ := h.add_within he
      have ht : Turn.taken? o ⟨s, line⟩ = none := by simp [Turn.taken?, hadd]
      have hs : step o s line = .continue { s with buffer := b } [] := by simp [step, hadd]
      obtain ⟨groups, rest, unread, hsplits⟩ := ih (s := { s with buffer := b }) hb
      exact ⟨groups, rest, unread, hsplits.within hs ht⟩
    | true =>
      obtain ⟨b, hadd, hb⟩ := h.add_last he
      have ht : Turn.taken? o ⟨s, line⟩ = some (groupText (held ++ [line])) := by
        simp [Turn.taken?, hadd, hb]
      rw [ht] at hnext
      have htake : step o s line =
        take o { s with buffer := .empty } (groupText (held ++ [line])) :=
        hnext
      cases hs : step o s line with
      | leave s' out =>
        exact ⟨_, _, _, splits_leave h.unfinished he hs ht (request_of_take (htake.symm.trans hs))⟩
      | «continue» s' out =>
        have hempty : s'.buffer = .empty := buffer_of_take rfl (htake.symm.trans hs)
        have hcollects : Collects o.tab [] s'.buffer := hempty ▸ collects_empty o.tab
        obtain ⟨groups, rest, unread, hsplits⟩ := ih hcollects
        exact ⟨_, _, _, hsplits.last h.unfinished he hs ht⟩

end Splits

end Session

open Session

/-- **The inputs of a session partition its lines.** Up to the point where the session ends, the
lines are consecutive groups, one for each input that the session takes and acts on, and an
unfinished group, which is given up when the lines end. The text of an input is that of its group.
If the session is left, the last group asks for it and there is no unfinished one; otherwise all
lines are read. -/
theorem session_partition (o : Options) (history : History) (lines : List Text) :
    (∀ turn ∈ turns o (start history) lines,
      match turn.taken? o with
      | some code => turn.next o = take o { turn.session with buffer := .empty } code
      | none => ∃ buffer, turn.next o = .continue { turn.session with buffer } []) ∧
    ∃ (groups : List (List Text)) (rest unread : List Text),
      lines = groups.flatten ++ rest ++ unread ∧
      inputs o (start history) lines = groups.map groupText ∧
      (∀ group ∈ groups, IsGroup o.tab group) ∧ Unfinished o.tab rest ∧
      (if (turns o (start history) lines).any (Turn.leaves o) then
        rest = [] ∧ ∃ group ∈ groups.getLast?, request (groupText group) = .leave
      else unread = []) := by
  refine ⟨fun turn _ => turn.next_eq o, ?_⟩
  obtain ⟨groups, rest, unread, h⟩ :=
    Collects.splits (s := start history) lines (collects_empty o.tab)
  refine ⟨groups, rest, unread, h.lines_eq, h.inputs_eq, h.isGroup, h.unfinished, ?_⟩
  split
  · next hl => exact h.left hl
  · next hl => exact h.stayed (Bool.eq_false_iff.mpr hl)

end Offside
