import Mathlib.Algebra.Group.Nat.Even
import Offside.Proofs.Session.Probe

/-!
# Commands in a session

The help text of the command `repl` lists two commands: one leaves the session, and one switches the
IR on or off. `runRepl` compares a whole input with them, and an input is what the buffer's `add`
lets through. Here is when a command is obeyed.

A session goes from turn to turn: a line is read in some state, and the state carries on or the
session ends. A command takes effect only where the probe lets it through, that is, if the line is
indented; any other command is taken for the first line of a longer input, and the lines behind it
are collected with it. No command is let through later, when lines are waiting: the probe would have
to ask for more than the first of them and not for more than all of them.

* `Turn` is a line of a session with the state it is read in, and `turns` are the turns of a session
  up to its end.
* `Waits` are the lines that are held between two turns: a block is open, or the program stops where
  the grammar wants more. Every turn preserves it (`add_cases`).
* `Turn.Indented` says that the line of a turn is indented, and `Turn.Kept` that it is kept as the
  first line of a longer input and nothing else happens.

Results:
* `run_written`: a session writes what its turns write.
* `request_of_waiting`: what was collected over several lines is no command.
* `step_switches`: a line switches the IR if and only if it is an indented command to do so.
* `turns_switches`, `turns_leave`: this along a session, and that a session that is left has no
  further turns.
* `session_commands`: all of it for every session.
* `session_commands_kept`: a session in which a command that is not indented has no effect.
-/

namespace Offside

namespace Session

open Lexer

/-! ## Turns -/

/-- A line of a session, and the state it is read in. -/
structure Turn where
  session : Session
  line : Text

/-- How the session goes on. -/
def Turn.next (o : Options) (t : Turn) : Next :=
  step o t.session t.line

/-- What the session writes. -/
def Turn.written (o : Options) (t : Turn) : Text :=
  t.session.prompt ++
    match t.next o with
    | .continue _ out | .leave _ out => out

/-- Whether the session ends. -/
def Turn.leaves (o : Options) (t : Turn) : Bool :=
  match t.next o with
  | .continue _ _ => false
  | .leave _ _ => true

/-- The turns of a session up to its end. -/
def turns (o : Options) (s : Session) : List Text → List Turn
  | [] => []
  | line :: rest =>
    ⟨s, line⟩ ::
      match step o s line with
      | .continue s' _ => turns o s' rest
      | .leave _ _ => []

/-- **A session writes what its turns write**, and ends with a prompt that is not answered unless it
is left. -/
theorem run_written (o : Options) (s : Session) (lines : List Text) :
    (run o s lines).2 = (turns o s lines).flatMap (Turn.written o) ++
      if (turns o s lines).any (Turn.leaves o) then []
      else (run o s lines).1.prompt ++ Text.ofString "\n" := by
  induction lines generalizing s with
  | nil => rfl
  | cons line rest ih =>
    rw [run, turns]
    cases hs : step o s line with
    | leave s' out =>
      have hl : Turn.leaves o ⟨s, line⟩ = true := by simp [Turn.leaves, Turn.next, hs]
      simp [hl, Turn.written, Turn.next, hs]
    | «continue» s' out =>
      have hl : Turn.leaves o ⟨s, line⟩ = false := by simp [Turn.leaves, Turn.next, hs]
      simp only [List.any_cons, hl, Bool.false_or, List.flatMap_cons, Turn.written, Turn.next, hs,
        List.append_assoc]
      rw [ih s']

/-! ## What is collected -/

/-- Lines that wait for more: a block is open, or the program stops where the grammar wants more. -/
structure Waits (tab : TabWidth) (b : Buffer) : Prop where
  block : b.block = true → ∃ line ∈ b.lines, Buffer.opensBlock line = true
  plain : b.block = false → b.lines ≠ [] → Buffer.wantsMore tab b.text = true

theorem waits_empty (tab : TabWidth) : Waits tab .empty where
  block := fun h => by cases h
  plain := fun _ h => absurd rfl h

/-- Nothing waits at the main prompt. -/
theorem Waits.eq_empty {tab : TabWidth} {b : Buffer} (h : Waits tab b) (he : b.isEmpty = true) :
    b = .empty := by
  obtain ⟨lines, block⟩ := b
  obtain rfl := List.isEmpty_iff.mp he
  cases block with
  | false => rfl
  | true =>
    obtain ⟨line, hl, -⟩ := h.block rfl
    exact absurd hl List.not_mem_nil

/-- What a further line can do. -/
theorem add_cases (tab : TabWidth) (b : Buffer) (line : Text) (h : Waits tab b) :
    (b.block = true ∧ b.add tab line = (true, b)) ∨
      (b.block = false ∧ Buffer.wantsMore tab (Text.join "\n" (b.lines ++ [line])) = false ∧
        b.add tab line = (true, ⟨b.lines ++ [line], false⟩)) ∨
      ((b.add tab line).1 = false ∧ Waits tab (b.add tab line).2) := by
  cases hb : b.block with
  | true =>
    obtain ⟨opening, hmem, ho⟩ := h.block hb
    cases hl : line.isBlank with
    | true => exact Or.inl ⟨rfl, Buffer.add_blank tab hb hl⟩
    | false =>
      rw [Buffer.add_block tab hb hl]
      exact Or.inr (Or.inr ⟨rfl, fun _ => ⟨opening, List.mem_append_left _ hmem, ho⟩, by simp⟩)
  | false =>
    rw [Buffer.add, if_neg (by simp [hb])]
    dsimp only
    cases ho : Buffer.opensBlock line with
    | true =>
      rw [if_pos rfl]
      exact Or.inr (Or.inr ⟨rfl, fun _ => ⟨line, by simp, ho⟩, by simp⟩)
    | false =>
      rw [if_neg (by simp)]
      cases hw : Buffer.wantsMore tab (Text.join "\n" (b.lines ++ [line])) with
      | true => exact Or.inr (Or.inr ⟨rfl, by simp, fun _ _ => hw⟩)
      | false => exact Or.inr (Or.inl ⟨rfl, rfl, rfl⟩)

/-! ## Commands are not collected -/

theorem IsCommand.eq_ofChars {src : Text} {name lead trail : List Char}
    (h : IsCommand src name lead trail) : src = Text.ofChars (lead ++ (word name ++ trail)) := by
  rw [← Rune.encode_decode src, h.runes, Rune.encode_chars]

theorem join_cons_cons (l l' : Text) (lines : List Text) :
    Text.join "\n" (l :: l' :: lines) = l ++ Text.newline :: Text.join "\n" (l' :: lines) := by
  rw [Text.join, List.intercalate_cons_cons, List.append_assoc]
  rfl

theorem join_singleton (l : Text) : Text.join "\n" [l] = l :=
  List.intercalate_singleton

theorem join_concat {lines : List Text} (h : lines ≠ []) (line : Text) :
    Text.join "\n" (lines ++ [line]) = Text.join "\n" lines ++ Text.newline :: line := by
  induction lines with
  | nil => exact absurd rfl h
  | cons l lines ih =>
    cases lines with
    | nil => rw [List.singleton_append, join_cons_cons, join_singleton, join_singleton]
    | cons l' lines =>
      rw [List.cons_append, List.cons_append, join_cons_cons, join_cons_cons, ← List.cons_append,
        ih (by simp)]
      simp

/-- A line among lines that make up a text of characters. -/
theorem chars_of_line {lines : List Text} {line : Text} {cs : List Char} (hl : line ∈ lines)
    (h : Text.ofChars cs = Text.join "\n" lines) :
    ∃ before mine behind, cs = before ++ (mine ++ behind) ∧ line = Text.ofChars mine ∧
      ∀ c ∈ behind.head?, c = '\n' := by
  induction lines generalizing cs with
  | nil => exact absurd hl List.not_mem_nil
  | cons l lines ih =>
    cases lines with
    | nil =>
      obtain rfl := List.mem_singleton.mp hl
      rw [join_singleton] at h
      exact ⟨[], cs, [], by simp, h.symm, by simp⟩
    | cons l' lines =>
      rw [join_cons_cons] at h
      obtain ⟨x, y, rfl, rfl, hy⟩ := Rune.split_newline h
      rcases List.mem_cons.mp hl with rfl | hl
      · refine ⟨[], x, '\n' :: y, rfl, rfl, fun c hc => (Option.some.inj hc).symm⟩
      · obtain ⟨before, mine, behind, rfl, hline, hb⟩ := ih hl hy.symm
        exact ⟨x ++ '\n' :: before, mine, behind, by simp, hline, hb⟩

/-- No line of a command opens a block. -/
theorem IsCommand.opensBlock {lines : List Text} {line : Text} {name lead trail : List Char}
    (h : IsCommand (Text.join "\n" lines) name lead trail) (hl : line ∈ lines) :
    Buffer.opensBlock line = false := by
  rw [Bool.eq_false_iff]
  intro ho
  obtain ⟨before, mine, behind, hcs, rfl, hb⟩ := chars_of_line hl h.eq_ofChars.symm
  obtain ⟨front, sp, rfl, hsp⟩ := Text.chars_of_trim_endsWith (c := ':') rfl (by decide) ho
  have hfacts : ∀ name ∈ commandNames, ':' ∉ name := by decide
  have hnot {cs : List Char} (hs : ∀ c ∈ cs, Rune.isSpace (.char c) = true) : ':' ∉ cs :=
    fun hc => absurd (hs _ hc) (by decide)
  -- there is one colon in all, so the name stands behind the one that ends the line
  have heq : lead ++ ':' :: (name ++ trail) = (before ++ front) ++ ':' :: (sp ++ behind) := by
    simpa [word] using hcs
  have hname : name ++ trail = sp ++ behind := by
    refine ((List.append_cons_inj_of_notMem (hnot h.lead) ?_).mp heq).2.2
    rw [List.mem_append, not_or]
    exact ⟨hfacts name h.known, hnot h.trail⟩
  obtain ⟨⟨first, more, rfl, hstart, -⟩, -⟩ := name_spec h.known
  have hsolid := solid_of_isNameStart hstart
  cases sp with
  | nil =>
    have hfirst : first ∈ behind.head? := by
      rw [List.nil_append] at hname
      rw [← hname]
      rfl
    rw [hb first hfirst] at hsolid
    exact absurd hsolid (by decide)
  | cons c sp =>
    obtain ⟨rfl, -⟩ := List.cons.inj hname
    have hs := hsp first List.mem_cons_self
    rw [hsolid.2.2] at hs
    cases hs

/-- Lines that wait do not become a command by a further line. -/
theorem IsCommand.wantsMore_init {tab : TabWidth} {text line : Text} {name lead trail : List Char}
    (h : IsCommand (text ++ Text.newline :: line) name lead trail)
    (hw : Buffer.wantsMore tab text = true) :
    Buffer.wantsMore tab (text ++ Text.newline :: line) = true := by
  obtain ⟨before, behind, hcs, rfl, -⟩ := Rune.split_newline h.eq_ofChars.symm
  have hno : '\n' ∉ word name := by
    have hall : ∀ name ∈ commandNames, '\n' ∉ word name := by decide
    exact hall name h.known
  rcases place_append hcs with ⟨more, rfl, -⟩ | ⟨rest, rfl, hrest⟩
  · -- the line feed stands in front of the command, so only white space waits
    have hblank : ∀ r ∈ Rune.decode (Text.ofChars before), r.isSpace = true := by
      rw [Rune.decode_ofChars]
      exact isSpace_map fun c hc => h.lead c (List.mem_append_left _ hc)
    rw [wantsMore_blank tab hblank] at hw
    cases hw
  · rcases place_append hrest with ⟨more, hword, -⟩ | ⟨rest', rfl, htrail⟩
    · exact absurd (hword ▸ by simp) hno
    · -- the line feed stands behind it, so the command waits, with the same indentation
      have hinit : IsCommand (Text.ofChars (lead ++ (word name ++ rest'))) name lead rest' :=
        ⟨h.known, Rune.decode_ofChars _, h.lead,
          fun c hc => h.trail c (htrail ▸ List.mem_append_left _ hc)⟩
      rw [hinit.wantsMore, hinit.margin_eq] at hw
      rw [h.wantsMore, h.margin_eq, hw]

/-! ## Commands -/

theorem request_leave_iff (code : Text) :
    request code = .leave ↔ code.trim = Text.ofString ":quit" := by
  have hne : Text.ofString ":quit" ≠ [] := by decide
  unfold request
  dsimp only
  constructor
  · intro h
    split at h
    · cases h
    · split at h
      · assumption
      · split at h <;> cases h
  · intro h
    rw [h, if_neg hne, if_pos rfl]

theorem request_toggleIr_iff (code : Text) :
    request code = .toggleIr ↔ code.trim = Text.ofString ":ir" := by
  have hne : Text.ofString ":ir" ≠ [] ∧ Text.ofString ":ir" ≠ Text.ofString ":quit" := by decide
  unfold request
  dsimp only
  constructor
  · intro h
    split at h
    · cases h
    · split at h
      · cases h
      · split at h
        · assumption
        · cases h
  · intro h
    rw [h, if_neg hne.1, if_neg hne.2, if_pos rfl]

/-- A request that is a command. -/
def Request.isCommand : Request → Bool
  | .leave | .toggleIr => true
  | .nothing | .evaluate => false

theorem isCommand_of_request {code : Text} (h : (request code).isCommand = true) :
    ∃ name lead trail, IsCommand code name lead trail := by
  cases hr : request code with
  | leave =>
    exact ⟨_, isCommand_of_trim (show ['q', 'u', 'i', 't'] ∈ commandNames by decide)
      ((request_leave_iff code).mp hr)⟩
  | toggleIr =>
    exact ⟨_, isCommand_of_trim (show ['i', 'r'] ∈ commandNames by decide)
      ((request_toggleIr_iff code).mp hr)⟩
  | nothing => exact absurd h (by simp [hr, Request.isCommand])
  | evaluate => exact absurd h (by simp [hr, Request.isCommand])

/-- **What was collected over several lines is no command.** -/
theorem request_of_waiting {tab : TabWidth} {b : Buffer} {line : Text} (h : Waits tab b)
    (hne : b.isEmpty = false) (hdone : (b.add tab line).1 = true) :
    (request (b.add tab line).2.text).isCommand = false := by
  have hlines : b.lines ≠ [] := by
    intro hl
    rw [Buffer.isEmpty, hl] at hne
    cases hne
  rw [Bool.eq_false_iff]
  intro hcmd
  rcases add_cases tab b line h with ⟨hb, ha⟩ | ⟨hb, hw, ha⟩ | ⟨ha, -⟩
  · rw [ha] at hcmd
    obtain ⟨name, lead, trail, hs⟩ := isCommand_of_request hcmd
    obtain ⟨opening, hmem, ho⟩ := h.block hb
    rw [hs.opensBlock hmem] at ho
    cases ho
  · rw [ha, Buffer.text] at hcmd
    obtain ⟨name, lead, trail, hs⟩ := isCommand_of_request hcmd
    rw [join_concat hlines] at hs hw
    rw [hs.wantsMore_init (h.plain hb hlines)] at hw
    cases hw
  · rw [ha] at hdone
    cases hdone

/-- At the main prompt a command makes up an input if and only if it is indented. -/
theorem IsCommand.add_empty {tab : TabWidth} {line : Text} {name lead trail : List Char}
    (h : IsCommand line name lead trail) :
    Buffer.empty.add tab line = (!decide (margin tab line = 0), ⟨[line], false⟩) := by
  have hone : IsCommand (Text.join "\n" [line]) name lead trail := by rwa [join_singleton]
  have ho := hone.opensBlock (List.mem_singleton_self line)
  rw [Buffer.add, if_neg (by simp [Buffer.empty])]
  simp only [Buffer.empty, List.nil_append, ho, join_singleton, h.wantsMore]
  rfl

/-- A command at the main prompt. -/
theorem step_command {o : Options} {s : Session} {line : Text} (hb : s.buffer = .empty)
    (hcmd : (request line).isCommand = true) :
    step o s line =
      if margin o.tab line = 0 then .continue { s with buffer := ⟨[line], false⟩ } []
      else take o s line := by
  obtain ⟨name, lead, trail, hs⟩ := isCommand_of_request hcmd
  obtain ⟨buffer, showIr, history⟩ := s
  obtain rfl : buffer = .empty := hb
  rw [step]
  simp only [hs.add_empty]
  by_cases h0 : margin o.tab line = 0
  · simp [h0]
  · simp only [h0, decide_false, Bool.not_false, if_true, if_false, Buffer.text, join_singleton]

theorem step_indented {o : Options} {s : Session} {line : Text} (hb : s.buffer = .empty)
    (hcmd : (request line).isCommand = true) (hm : margin o.tab line ≠ 0) :
    step o s line = take o s line := by
  rw [step_command hb hcmd, if_neg hm]

/-- The line of a turn is indented. -/
def Turn.Indented (o : Options) (t : Turn) : Prop :=
  margin o.tab t.line ≠ 0

/-- The line of a turn is kept as the first line of a longer input, and nothing else happens. -/
def Turn.Kept (o : Options) (t : Turn) : Prop :=
  t.next o = .continue { t.session with buffer := ⟨[t.line], false⟩ } []

theorem Turn.kept {o : Options} (t : Turn) (hb : t.session.buffer = .empty)
    (hcmd : (request t.line).isCommand = true) (hm : ¬ t.Indented o) : t.Kept o := by
  rw [Turn.Kept, Turn.next, step_command hb hcmd, if_pos (Decidable.not_not.mp hm)]

/-- A line at the main prompt that is an indented command to switch the IR on or off. -/
def Turn.switches (o : Options) (t : Turn) : Bool :=
  t.session.buffer.isEmpty && decide (t.line.trim = Text.ofString ":ir") &&
    decide (margin o.tab t.line ≠ 0)

/-- A line that switches nothing. -/
theorem step_keeps {o : Options} {s s' : Session} {line out : Text} (h : Waits o.tab s.buffer)
    (hs : step o s line = .continue s' out)
    (hreq : (s.buffer.add o.tab line).1 = true →
      request (s.buffer.add o.tab line).2.text ≠ .toggleIr) :
    Waits o.tab s'.buffer ∧ s'.showIr = s.showIr := by
  rw [step] at hs
  dsimp only at hs
  cases hdone : (s.buffer.add o.tab line).1 with
  | false =>
    rw [hdone, if_neg (by simp)] at hs
    injection hs with hs
    subst hs
    refine ⟨?_, rfl⟩
    rcases add_cases o.tab s.buffer line h with ⟨-, ha⟩ | ⟨-, -, ha⟩ | ⟨-, hw⟩
    · rw [ha] at hdone
      cases hdone
    · rw [ha] at hdone
      cases hdone
    · exact hw
  | true =>
    rw [hdone, if_pos rfl, take] at hs
    cases hr : request (s.buffer.add o.tab line).2.text with
    | toggleIr => exact absurd hr (hreq hdone)
    | leave =>
      rw [hr] at hs
      cases hs
    | nothing =>
      rw [hr] at hs
      injection hs with hs
      subst hs
      exact ⟨waits_empty _, rfl⟩
    | evaluate =>
      rw [hr] at hs
      injection hs with hs
      subst hs
      exact ⟨waits_empty _, rfl⟩

/-- **A line switches the IR if and only if it is an indented command to do so**, at the main
prompt. -/
theorem step_switches {o : Options} {s s' : Session} {line out : Text} (h : Waits o.tab s.buffer)
    (hs : step o s line = .continue s' out) :
    Waits o.tab s'.buffer ∧ s'.showIr = (s.showIr ^^ Turn.switches o ⟨s, line⟩) := by
  by_cases hir : s.buffer.isEmpty = true ∧ line.trim = Text.ofString ":ir"
  · obtain ⟨he, ht⟩ := hir
    have hreq := (request_toggleIr_iff line).mpr ht
    rw [step_command (h.eq_empty he) (by rw [hreq]; rfl)] at hs
    by_cases h0 : margin o.tab line = 0
    · have hsw : Turn.switches o ⟨s, line⟩ = false := by simp [Turn.switches, h0]
      rw [if_pos h0] at hs
      injection hs with hs
      subst hs
      refine ⟨⟨by simp, fun _ _ => ?_⟩, by simp [hsw]⟩
      obtain ⟨name, lead, trail, hspell⟩ := isCommand_of_request
        (show (request line).isCommand = true by rw [hreq]; rfl)
      rw [Buffer.text, join_singleton, hspell.wantsMore]
      simp [h0]
    · have hsw : Turn.switches o ⟨s, line⟩ = true := by simp [Turn.switches, h0, he, ht]
      rw [if_neg h0, take, hreq] at hs
      injection hs with hs
      subst hs
      exact ⟨h, by simp [hsw]⟩
  · have hsw : Turn.switches o ⟨s, line⟩ = false := by
      simp only [Turn.switches, Bool.and_eq_false_iff, decide_eq_false_iff_not]
      exact Or.inl (by by_cases he : s.buffer.isEmpty = true <;> simp_all)
    rw [hsw, Bool.xor_false]
    refine step_keeps h hs fun hdone hreq => ?_
    cases he : s.buffer.isEmpty with
    | false =>
      have hcmd := request_of_waiting h he hdone
      rw [hreq] at hcmd
      cases hcmd
    | true =>
      have htext : (s.buffer.add o.tab line).2.text = line := by
        rw [h.eq_empty he, Buffer.text, Buffer.add_lines o.tab line rfl]
        exact join_singleton line
      rw [htext, request_toggleIr_iff] at hreq
      exact hir ⟨he, hreq⟩

/-! ## Whole sessions -/

/-- The input that a turn completes and that is no command, if there is one. -/
def Turn.input? (o : Options) (t : Turn) : Option Text :=
  let (done, buffer) := t.session.buffer.add o.tab t.line
  if done = true ∧ request buffer.text = .evaluate then some buffer.text else none

theorem Turn.next_of_input {o : Options} {t : Turn} {code : Text} (h : t.input? o = some code) :
    ∃ s, t.next o = .continue s (evaluate o t.session.showIr code) := by
  rw [Turn.input?] at h
  dsimp only at h
  split at h
  · next hd =>
    obtain rfl := Option.some.inj h
    rw [Turn.next, step]
    simp only [hd.1, if_true, take, hd.2]
    exact ⟨_, rfl⟩
  · cases h

/-- **Along a session** the IR is switched by indented commands at the main prompt and by nothing
else. -/
theorem turns_switches {o : Options} {s : Session} {lines : List Text} {past future : List Turn}
    {turn : Turn} (h : Waits o.tab s.buffer) (ht : turns o s lines = past ++ turn :: future) :
    Waits o.tab turn.session.buffer ∧
      turn.session.showIr = (s.showIr ^^ decide (Odd (past.countP (Turn.switches o)))) := by
  induction past generalizing s lines with
  | nil =>
    cases lines with
    | nil => cases ht
    | cons line rest =>
      obtain ⟨rfl, -⟩ := List.cons.inj ht
      exact ⟨h, by simp⟩
  | cons first past ih =>
    cases lines with
    | nil => cases ht
    | cons line rest =>
      rw [turns] at ht
      obtain ⟨rfl, hrest⟩ := List.cons.inj ht
      cases hs : step o s line with
      | leave s' out =>
        rw [hs] at hrest
        exact absurd hrest (by simp)
      | «continue» s' out =>
        rw [hs] at hrest
        obtain ⟨hw, hir⟩ := step_switches h hs
        obtain ⟨hwaits, hshow⟩ := ih hw hrest
        refine ⟨hwaits, ?_⟩
        rw [hshow, hir, List.countP_cons]
        cases Turn.switches o ⟨s, line⟩ with
        | false => simp
        | true =>
          have hodd (n : Nat) : decide (Odd (n + 1)) = !decide (Odd n) := by
            rw [← decide_not]
            exact decide_eq_decide.mpr Nat.odd_add_one
          rw [if_pos rfl, hodd]
          cases s.showIr <;> simp

/-- A session that is left has no further turns. -/
theorem turns_leave {o : Options} {s : Session} {lines : List Text} {past future : List Turn}
    {turn : Turn} (ht : turns o s lines = past ++ turn :: future) (hl : turn.leaves o = true) :
    future = [] := by
  induction past generalizing s lines with
  | nil =>
    cases lines with
    | nil => cases ht
    | cons line rest =>
      obtain ⟨rfl, hrest⟩ := List.cons.inj ht
      rw [Turn.leaves, Turn.next] at hl
      split at hl
      · cases hl
      · next hs =>
        rw [hs] at hrest
        exact hrest.symm
  | cons first past ih =>
    cases lines with
    | nil => cases ht
    | cons line rest =>
      obtain ⟨-, hrest⟩ := List.cons.inj ht
      split at hrest
      · exact ih hrest
      · exact absurd hrest (by simp)

end Session

open Session

/-- **Commands in a session.** A session writes what its turns write. In every turn the IR is shown
if and only if an odd number of indented commands to switch it was read at the main prompt before,
and an input is answered in this way. A command at the main prompt takes effect at once if it is
indented; otherwise it is kept as the first line of a longer input. -/
theorem session_commands (o : Options) (history : History) (lines : List Text) :
    (run o (start history) lines).2 =
        (turns o (start history) lines).flatMap (Turn.written o) ++
          (if (turns o (start history) lines).any (Turn.leaves o) then []
            else (run o (start history) lines).1.prompt ++ Text.ofString "\n") ∧
      ∀ past turn future, turns o (start history) lines = past ++ turn :: future →
        turn.session.showIr = decide (Odd (past.countP (Turn.switches o))) ∧
        (∀ code, turn.input? o = some code →
          ∃ s, turn.next o = .continue s (evaluate o turn.session.showIr code)) ∧
        (turn.session.buffer.isEmpty = true → turn.line.trim = Text.ofString ":quit" →
          (turn.Indented o → turn.next o = .leave turn.session [] ∧ future = []) ∧
          (¬ turn.Indented o → turn.Kept o)) ∧
        (turn.session.buffer.isEmpty = true → turn.line.trim = Text.ofString ":ir" →
          (turn.Indented o →
            turn.next o = .continue { turn.session with showIr := !turn.session.showIr }
              (Text.ofString "IR output " ++ onOff (!turn.session.showIr) ++ Text.ofString "\n")) ∧
          (¬ turn.Indented o → turn.Kept o)) := by
  refine ⟨run_written o _ lines, fun past turn future ht => ?_⟩
  obtain ⟨hw, hshow⟩ := turns_switches (waits_empty o.tab) ht
  refine ⟨by rw [hshow]; exact Bool.false_xor _, fun code hc => Turn.next_of_input hc, ?_, ?_⟩
  · intro he hquit
    have hreq := (request_leave_iff turn.line).mpr hquit
    have hcmd : (request turn.line).isCommand = true := by rw [hreq]; rfl
    refine ⟨fun hm => ?_, turn.kept (hw.eq_empty he) hcmd⟩
    have hnext : turn.next o = .leave turn.session [] := by
      rw [Turn.next, step_indented (hw.eq_empty he) hcmd hm, take, hreq]
    exact ⟨hnext, turns_leave ht (by rw [Turn.leaves, hnext])⟩
  · intro he hir
    have hreq := (request_toggleIr_iff turn.line).mpr hir
    have hcmd : (request turn.line).isCommand = true := by rw [hreq]; rfl
    refine ⟨fun hm => ?_, turn.kept (hw.eq_empty he) hcmd⟩
    rw [Turn.next, step_indented (hw.eq_empty he) hcmd hm, take, hreq]

/-! ## Sessions with commands -/

/-- A session with eight columns to a tab. -/
def plainOptions : Options := ⟨.standard, []⟩

theorem margin_ofString (tab : TabWidth) (line : String) :
    margin tab (Text.ofString line) =
      Lexer.widthOf tab ((line.toList.map Rune.char).takeWhile Rune.isSpace) := by
  rw [margin, Rune.ofString_eq, Rune.decode_ofChars]

theorem trim_ofString (line : String) :
    (Text.ofString line).trim =
      let inner := ((line.toList.map Rune.char).dropWhile Rune.isSpace).reverse
      Rune.encode (inner.dropWhile Rune.isSpace).reverse := by
  rw [Text.trim, Rune.ofString_eq, Rune.decode_ofChars]

/-- The IR is switched on and the session is left, with a blank in front of the commands. -/
theorem session_commands_indented :
    turns plainOptions (start .empty) [Text.ofString " :ir", Text.ofString " :quit"] =
        [⟨⟨.empty, false, .empty⟩, Text.ofString " :ir"⟩,
          ⟨⟨.empty, true, .empty⟩, Text.ofString " :quit"⟩] ∧
      (Turn.mk ⟨.empty, true, .empty⟩ (Text.ofString " :quit")).next plainOptions =
        .leave ⟨.empty, true, .empty⟩ [] := by
  have hir : request (Text.ofString " :ir") = .toggleIr := by
    rw [request_toggleIr_iff, trim_ofString]
    decide +kernel
  have hquit : request (Text.ofString " :quit") = .leave := by
    rw [request_leave_iff, trim_ofString]
    decide +kernel
  have hm : margin plainOptions.tab (Text.ofString " :ir") ≠ 0 := by
    rw [margin_ofString]
    decide +kernel
  have hm' : margin plainOptions.tab (Text.ofString " :quit") ≠ 0 := by
    rw [margin_ofString]
    decide +kernel
  have hturns : turns plainOptions (start .empty) [Text.ofString " :ir", Text.ofString " :quit"] =
      [⟨⟨.empty, false, .empty⟩, Text.ofString " :ir"⟩,
        ⟨⟨.empty, true, .empty⟩, Text.ofString " :quit"⟩] := by
    rw [turns, step_indented rfl (by rw [hir]; rfl) hm, take, hir]
    simp only [turns, start, Bool.not_false]
    rw [step_indented rfl (by rw [hquit]; rfl) hm', take, hquit]
  have hspec := (session_commands plainOptions .empty
    [Text.ofString " :ir", Text.ofString " :quit"]).2 [_] _ [] hturns
  exact ⟨hturns, ((hspec.2.2.1 rfl ((request_leave_iff _).mp hquit)).1 hm').1⟩

/-- **A command that is not indented has no effect**: the session goes on behind the one that should
leave it, and the IR is not switched by the one that should switch it. -/
theorem session_commands_kept :
    (∃ turn ∈ turns plainOptions (start .empty) [Text.ofString ":quit", Text.ofString "x = 1"],
      turn.session.buffer.isEmpty = true ∧ turn.line.trim = Text.ofString ":quit" ∧
        turn.Kept plainOptions) ∧
    ∃ turn ∈ turns plainOptions (start .empty) [Text.ofString ":ir", Text.ofString "x = 1"],
      turn.session.buffer.isEmpty = true ∧ turn.line.trim = Text.ofString ":ir" ∧
        turn.Kept plainOptions := by
  have hir : request (Text.ofString ":ir") = .toggleIr := by
    rw [request_toggleIr_iff, trim_ofString]
    decide +kernel
  have hquit : request (Text.ofString ":quit") = .leave := by
    rw [request_leave_iff, trim_ofString]
    decide +kernel
  have hm : ¬ margin plainOptions.tab (Text.ofString ":ir") ≠ 0 := by
    rw [margin_ofString]
    decide +kernel
  have hm' : ¬ margin plainOptions.tab (Text.ofString ":quit") ≠ 0 := by
    rw [margin_ofString]
    decide +kernel
  constructor
  · exact ⟨_, List.mem_cons_self, rfl, (request_leave_iff _).mp hquit,
      Turn.kept _ rfl (by rw [hquit]; rfl) hm'⟩
  · exact ⟨_, List.mem_cons_self, rfl, (request_toggleIr_iff _).mp hir,
      Turn.kept _ rfl (by rw [hir]; rfl) hm⟩

end Offside
