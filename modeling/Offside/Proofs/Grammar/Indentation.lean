import Offside.Frontend
import Offside.Proofs.Grammar.Member
import Offside.Proofs.Lexer.Marker

/-!
# Indentation and blocks

The specification says that an inline block takes the statements on the line of its colon (4.2). The
parser's `block` compares each statement with the token in front of it instead, and a dedent marker
is a token. Here is what this comes to.

A statement that begins a line should belong to the block of the innermost indent marker that is
open there, or to the program if none is open. It does, with one exception: when an inline suite
holds a statement with an indented block, the dedent marker that closes the block has the position
of the line behind it. The statement on that line then begins on the line of the token in front of
it and is taken into the inline suite.

* `BeginsLine` says that a token is the first one of its line, markers not counted.
* `homeAt` is the block that the indentation says, told from the tokens in front of a place alone.
* `Derivation.members` lists the statements of a derivation with what they are members of.

Results:
* `Derivation.home_iff`: in a derivation, a statement that begins a line is a member of the block
  that the indentation says, unless a member of an inline suite ends in front of it with a dedent
  marker.
* `parse_indentation`: so in the derivation of a program that is read from a source.
* `parse_indentation_spill`: a source with a statement that is in another block.
-/

namespace Offside

/-- The token at place `i` is the first one of its line, markers not counted. -/
def BeginsLine (stream : List Token) (i : Nat) : Prop :=
  ∃ t, stream[i]? = some t ∧
    ∀ u ∈ stream.take i, u.kind.isMarker = false → u.pos.line ≠ t.pos.line

namespace Grammar

/-- The statements of a derivation. -/
def Derivation.members {stream : List Token} (d : Derivation stream) : List Member :=
  d.items.members .program 0

/-- The block that the indentation says: that of the innermost indent marker that is open in front
of a place. -/
def homeAt (stream : List Token) (i : Nat) : Container :=
  home (openAt (stream.take i))

variable {stream : List Token}

theorem Derivation.seated (d : Derivation stream) {m : Member} (hm : m ∈ d.members) :
    Seated d.members stream m := by
  have hready : Ready d.members .program .program [] :=
    ⟨fun hk => absurd hk (by decide), fun _ => rfl⟩
  have h := d.items.seated d.fits hready (fun m hm => hm) m hm
  rwa [List.nil_append, List.append_nil, d.tokens_eq] at h

section Seat

variable {all : List Member} {m : Member} {before rest : List Token}
  {extent : Extent} {more : Items}

theorem Seat.take_eq (h : Seat all stream m before extent more rest) :
    stream.take m.start = before := by
  rw [h.stream_eq, h.start_eq, List.take_left]

theorem Seat.drop_eq (h : Seat all stream m before extent more rest) :
    stream.drop m.start = m.stmt.tokens ++ (more.tokens ++ rest) := by
  rw [h.stream_eq, h.start_eq, List.drop_left]

theorem Seat.drop_stop (h : Seat all stream m before extent more rest) :
    stream.drop m.stop = more.tokens ++ rest := by
  rw [Member.stop, ← List.drop_drop, h.drop_eq, List.drop_left]

theorem Seat.first (h : Seat all stream m before extent more rest) :
    stream[m.start]? = some m.stmt.first := by
  obtain ⟨ts, hts⟩ := m.stmt.tokens_eq
  rw [h.stream_eq, h.start_eq, List.getElem?_append_right (Nat.le_refl _), Nat.sub_self, hts]
  rfl

/-- A statement behind an inline member that ends with a dedent marker is taken into the suite. -/
theorem Seat.next_inline (h : Seat all stream m before extent more rest)
    (hm : m.container.isInline = true) {t u : Token} (ht : m.stmt.tokens.getLast? = some t)
    {us : List Token} (hu : more.tokens ++ rest = u :: us) (hk : u.kind ∈ Cursor.starters)
    (hline : u.pos.line = t.pos.line) :
    ∃ m' ∈ all, m'.container.isInline = true ∧ m'.start = m.stop := by
  have hlast : (before ++ m.stmt.tokens).getLast? = some t := by
    rw [List.getLast?_append, ht, Option.some_or]
  have hfit := h.fits
  rw [lineAfter_getLast hlast, h.inline hm] at hfit
  obtain ⟨-, hblock, hcolon⟩ := starters_spec hk
  cases more with
  | nil =>
    obtain rfl : rest = u :: us := hu
    rcases hfit with he | he
    · rw [hblock] at he
      exact absurd he (by simp)
    · exact absurd hline he
  | colon token more =>
    rw [← (List.cons.inj hu).1] at hcolon
    exact absurd token.kind_eq hcolon
  | stmt s more =>
    exact ⟨⟨m.container, m.stop, s⟩, h.siblings _ List.mem_cons_self, hm, rfl⟩

end Seat

/-- **Indentation decides the block of a line, except behind a block inside an inline suite.** -/
theorem Derivation.home_iff (d : Derivation stream) (hmarks : stream.IsChain Lexer.Marks)
    {m : Member} (hm : m ∈ d.members) (hline : BeginsLine stream m.start) :
    m.container = homeAt stream m.start ↔ ¬ EndsInline d.members m.start := by
  obtain ⟨before, extent, more, rest, hseat⟩ := d.seated hm
  unfold homeAt
  rw [hseat.take_eq]
  cases hk : m.container.isInline with
  | true =>
    refine ⟨fun h => ?_, fun h => ?_⟩
    · rw [h, home_not_inline] at hk
      exact absurd hk (by simp)
    · rcases hseat.taken hk with ⟨u, hu, hplain, hsame⟩ | hends
      · -- a token that is no marker stands on the line already
        obtain ⟨t, ht, hfree⟩ := hline
        rw [hseat.first] at ht
        obtain rfl := Option.some.inj ht
        rw [hseat.take_eq] at hfree
        exact absurd hsame (hfree u hu hplain)
      · rw [hseat.start_eq] at h
        exact absurd hends h
  | false =>
    refine ⟨fun _ => ?_, fun _ => (hseat.home_eq hk).symm⟩
    rintro ⟨m', hm', hk', hstop, t, ht, hdedent⟩
    obtain ⟨before', extent', more', rest', hseat'⟩ := d.seated hm'
    obtain ⟨us, hus⟩ := m.stmt.tokens_eq
    have hnext : more'.tokens ++ rest' = m.stmt.first :: (us ++ (more.tokens ++ rest)) := by
      rw [← hseat'.drop_stop, hstop, hseat.drop_eq, hus]
      rfl
    -- the marker has the position of the statement behind it
    have hpos : m.stmt.first.pos.line = t.pos.line := by
      obtain ⟨ts, hts⟩ := List.getLast?_eq_some_iff.mp ht
      have hchain := hmarks
      rw [hseat'.stream_eq, hnext, hts, List.append_assoc, ← List.append_assoc,
        List.singleton_append, List.isChain_append_cons_cons] at hchain
      rw [hchain.2.1 (by rw [hdedent]; rfl)]
    obtain ⟨m'', hm'', hk'', hstart⟩ := hseat'.next_inline hk' ht hnext m.stmt.starts hpos
    have := Items.member_unique hm'' hm (hstart.trans hstop)
    rw [this, hk] at hk''
    exact absurd hk'' (by simp)

end Grammar

open Grammar

/-- **Indentation decides the block of a line, except behind a block inside an inline suite.** In
the derivation of a program that is read from a source, a statement that begins a line is a direct
member of the block of the innermost open indent marker, or of the program if none is open, unless
a member of an inline suite ends in front of it with a dedent marker. -/
theorem parse_indentation {tab : TabWidth} {src : Text} {program : Program}
    (h : parse tab src = .ok program) :
    ∃ ts, tokenize tab src = .ok ts ∧ ∃ d : Derivation (streamOf ts), d.items.stmts = program ∧
      ∀ m ∈ d.members, BeginsLine (streamOf ts) m.start →
        (m.container = homeAt (streamOf ts) m.start ↔ ¬ EndsInline d.members m.start) := by
  obtain ⟨ts, hts, hp⟩ := parse_eq_ok.mp h
  obtain ⟨d, hd⟩ := derivation_of_parseTokens hp
  have hmarks : (streamOf ts).IsChain Lexer.Marks := by
    have hall := tokenize_markers hts
    rw [← List.takeWhile_append_dropWhile (p := fun t : Token => t.kind != .eof) (l := ts)] at hall
    exact hall.left_of_append
  exact ⟨ts, hts, d, hd, fun m hm hline => d.home_iff hmarks hm hline⟩

/-! ## A statement in the wrong block -/

/-- A block inside an inline suite, and a statement on a line of its own behind it. -/
def spillSource : String := "if a: while b:\n  x = 1\ny = 2\n"

/-- The tokens of the source. -/
def spillTokens : List Token :=
  [.plain .ifWord "if" ⟨0, 1, 1⟩, .plain .identifier "a" ⟨3, 1, 4⟩, .plain .colon ":" ⟨4, 1, 5⟩,
   .plain .whileWord "while" ⟨6, 1, 7⟩, .plain .identifier "b" ⟨12, 1, 13⟩,
   .plain .colon ":" ⟨13, 1, 14⟩, .plain .indent [] ⟨17, 2, 3⟩, .plain .identifier "x" ⟨17, 2, 3⟩,
   .plain .assign "=" ⟨19, 2, 5⟩, ⟨.number, "1", 1, ⟨21, 2, 7⟩⟩, .plain .dedent [] ⟨23, 3, 1⟩,
   .plain .identifier "y" ⟨23, 3, 1⟩, .plain .assign "=" ⟨25, 3, 3⟩, ⟨.number, "2", 2, ⟨27, 3, 5⟩⟩,
   .eofAt ⟨29, 4, 1⟩]

theorem tokenize_spill : tokenize .standard (Text.ofString spillSource) = .ok spillTokens :=
  tokenize_of_steps 40 (by decide +kernel) (by decide +kernel)

/-- The derivation of the source: the last statement is a member of the inline suite. -/
def spill : Derivation (streamOf spillTokens) where
  items :=
    let test (t : Terminal .identifier) : Chain .comparison :=
      .mk (.sum (.mk (.product (.mk (.name t) .nil)) .nil)) .nil
    let number (t : Terminal .number) : Chain .sum := .mk (.product (.mk (.number t) .nil)) .nil
    .stmt (.ifThen ⟨.plain .ifWord "if" ⟨0, 1, 1⟩, rfl⟩
      (test ⟨.plain .identifier "a" ⟨3, 1, 4⟩, rfl⟩) ⟨.plain .colon ":" ⟨4, 1, 5⟩, rfl⟩
      (.inline
        (.stmt (.loop ⟨.plain .whileWord "while" ⟨6, 1, 7⟩, rfl⟩
            (test ⟨.plain .identifier "b" ⟨12, 1, 13⟩, rfl⟩) ⟨.plain .colon ":" ⟨13, 1, 14⟩, rfl⟩
            (.indented ⟨.plain .indent [] ⟨17, 2, 3⟩, rfl⟩
              (.stmt (.assign ⟨.plain .identifier "x" ⟨17, 2, 3⟩, rfl⟩
                ⟨.plain .assign "=" ⟨19, 2, 5⟩, rfl⟩
                (number ⟨⟨.number, "1", 1, ⟨21, 2, 7⟩⟩, rfl⟩)) .nil)
              (some ⟨.plain .dedent [] ⟨23, 3, 1⟩, rfl⟩)))
          (.stmt (.assign ⟨.plain .identifier "y" ⟨23, 3, 1⟩, rfl⟩
            ⟨.plain .assign "=" ⟨25, 3, 3⟩, rfl⟩
            (number ⟨⟨.number, "2", 2, ⟨27, 3, 5⟩⟩, rfl⟩)) .nil)))) .nil
  tokens_eq := rfl
  fits := ⟨nofun, ⟨⟨fun _ => rfl, ⟨⟨nofun, trivial, rfl⟩, nofun⟩, fun _ => rfl, trivial, trivial⟩,
    nofun⟩, trivial⟩

theorem parse_spill : parse .standard (Text.ofString spillSource) = .ok spill.items.stmts :=
  parse_eq_ok.mpr ⟨_, tokenize_spill, parseTokens_of_derivation spill⟩

/-- **The indentation does not decide every block.** No indent marker is open in front of the last
line, yet its statement is a member of an inline suite. -/
theorem parse_indentation_spill :
    parse .standard (Text.ofString spillSource) = .ok spill.items.stmts ∧
      ∃ m ∈ spill.members, BeginsLine (streamOf spillTokens) m.start ∧
        homeAt (streamOf spillTokens) m.start = .program ∧ m.container = .inline 3 := by
  refine ⟨parse_spill, _, .tail _ (.tail _ (.tail _ (.head _))), ⟨_, rfl, ?_⟩, rfl, rfl⟩
  decide

/-- The statements of that source are in their blocks as far as the indentation decides. -/
theorem parse_indentation_spilled :
    parse .standard (Text.ofString spillSource) = .ok spill.items.stmts ∧
      ∃ ts, tokenize .standard (Text.ofString spillSource) = .ok ts ∧
        ∃ d : Derivation (streamOf ts), d.items.stmts = spill.items.stmts ∧
          ∀ m ∈ d.members, BeginsLine (streamOf ts) m.start →
            (m.container = homeAt (streamOf ts) m.start ↔ ¬ EndsInline d.members m.start) :=
  ⟨parse_spill, parse_indentation parse_spill⟩

end Offside
