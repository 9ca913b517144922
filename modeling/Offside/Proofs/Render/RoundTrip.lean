import Offside.Proofs.Grammar.Derivation
import Offside.Proofs.Render.Phrase

/-!
# What is written is read back

`parse` behind `render`: every program of the grammar has a text, and its text is read as this
program.

A program that can be written is read back from its text, whatever the tab width. The tokens that
are found in the text have a derivation from the grammar, one phrase for each statement, and the
stream has no other.

The delicate point is where statements end, as nothing marks it. A block that is not empty is closed
by its dedent marker. An empty block is an inline suite without items, and it ends because the next
token is a marker, or `else`, or stands on a later line (`Follows`). In all of these cases a
conditional without `else` is not followed by `else`, so no `else` goes to the wrong conditional.

* `HasPhrase`, `HasSuite` and `HasItems` say that some tokens are a statement, a block or a sequence
  up to positions, with what each asks for behind it.

Results:
* `derived_laid`, `derived_all`: the phrases of statements and sequences, and what may follow them,
  by induction on the program.
* `parse_render`: a program that can be written is read back up to positions.

Out of scope: texts whose length is no signed word. The width of an indentation is a word that wraps
around, and no indentation is longer than the text.
-/

namespace Offside

open Grammar

/-! ## What follows a statement -/

/-- The next token is a dedent marker, or it begins a statement on a line not before `stop`. -/
def Follows (stop : Int) (rest : List Token) : Prop :=
  ∀ a ∈ rest.head?, a.kind ≠ .elseWord ∧ (a.kind = .dedent ∨ stop ≤ a.pos.line)

/-- The next token is a dedent marker, unless there is none. -/
def Closed (rest : List Token) : Prop :=
  ∀ a ∈ rest.head?, a.kind = .dedent

theorem Closed.nil : Closed [] := by
  intro a ha
  exact absurd ha (by simp)

theorem Closed.follows {rest : List Token} (h : Closed rest) (stop : Int) : Follows stop rest :=
  fun a ha => ⟨by rw [h a ha]; decide, .inl (h a ha)⟩

namespace Follows

variable {stop line : Int} {rest : List Token}

theorem nextKind_ne (h : Follows stop rest) : nextKind rest ≠ .elseWord := by
  cases rest with
  | nil => decide
  | cons a as => exact (h a rfl).1

/-- An empty inline suite may end here. -/
theorem ends (h : Follows stop rest) (hline : line < stop) : Extent.inline.Ends line rest := by
  cases rest with
  | nil => trivial
  | cons a as =>
    rcases (h a rfl).2 with hk | hl
    · left
      rw [hk]
      rfl
    · right
      omega

end Follows

namespace Stmt

theorem laid_head {s : Stmt} (h : s.IsWritable) (depth : Nat) (line : Int) :
    ∃ (t : Token) (ts : List Token), s.laid depth line = t.onLine line :: ts ∧
      t.kind ≠ .elseWord := by
  cases s with
  | assign target value => exact ⟨target, _, rfl, by rw [h.1.1]; decide⟩
  | call name args => exact ⟨name, _, rfl, by rw [h.1.1]; decide⟩
  | ifThen cond body => exact ⟨.sign .ifWord, _, rfl, by decide⟩
  | ifElse cond body alt => exact ⟨.sign .ifWord, _, rfl, by decide⟩
  | loop cond body => exact ⟨.sign .whileWord, _, rfl, by decide⟩
  | missing => exact absurd h id

/-- Statements that begin on a line follow what ends in front of this line. -/
theorem follows_laidAll {ss : List Stmt} (h : AreWritable ss) {depth : Nat} {line : Int}
    {found rest : List Token} (hf : found.map Token.rowed = laidAll depth line ss)
    (hrest : Closed rest) : Follows line (found ++ rest) := by
  cases ss with
  | nil =>
    obtain rfl := List.map_eq_nil_iff.mp hf
    exact hrest.follows line
  | cons s ss =>
    obtain ⟨t, ts, ht, hk⟩ := laid_head h.1 depth line
    rw [laidAll, ht, List.cons_append] at hf
    obtain ⟨a, as, rfl, ha, -⟩ := List.map_eq_cons_iff.mp hf
    intro b hb
    obtain rfl := Option.some.inj hb
    exact ⟨by rw [kind_of_found ha]; exact hk, .inr (line_of_found ha).ge⟩

end Stmt

/-- The line behind some lines comes after the first of them. -/
theorem lt_lineBehind_cons (line : Int) (r : Line) (rs : List Line) :
    line < lineBehind line (r :: rs) := by
  rw [lineBehind, List.length_cons]
  omega

/-! ## The phrases of statements -/

/-- The header of a conditional or a loop is found as it is written. -/
theorem header_found {word : Kind} {cond : Expr} (h : cond.IsTest) {depth : Nat} {line : Int}
    {found : List Token} (hf : FoundOn line found (Line.header depth word cond).tokens) :
    ∃ (w : Terminal word) (c : Chain .comparison) (colon : Terminal .colon),
      found = w.token :: (c.tokens ++ [colon.token]) ∧
        c.expr.mapTokens .unplaced = cond.mapTokens .bare ∧ colon.token.pos.line = line := by
  obtain ⟨a, as, rfl, ha, has⟩ := hf.cons
  obtain ⟨bs, cs, rfl, hbs, hcs⟩ := has.append
  obtain ⟨c, cs, rfl, hc, hnil⟩ := hcs.cons
  obtain rfl := hnil.nil
  obtain ⟨chain, rfl, hchain⟩ := Expr.derived_test h hbs
  exact ⟨signTerminal ha, chain, signTerminal hc, rfl, hchain, line_of_found hc⟩

namespace Stmt

/-- Some tokens are a statement, up to positions, in front of everything that may follow it. -/
def HasPhrase (s : Stmt) (stop : Int) (found : List Token) : Prop :=
  ∃ t : Statement, t.tokens = found ∧ t.stmt.mapTokens .unplaced = s.mapTokens .bare ∧
    ∀ {rest : List Token}, Follows stop rest → t.Fits rest

/-- Some tokens are a block, up to positions. Only an empty block asks for something behind it. -/
def HasSuite (ss : List Stmt) (found : List Token) : Prop :=
  ∃ t : Suite, t.tokens = found ∧ mapAll .unplaced t.stmts = mapAll .bare ss ∧
    ∀ {line : Int} {rest : List Token}, (ss = [] → Extent.inline.Ends line rest) → t.Fits line rest

/-- Some tokens are a sequence of statements, up to positions. -/
def HasItems (ss : List Stmt) (found : List Token) : Prop :=
  ∃ t : Items, t.tokens = found ∧ mapAll .unplaced t.stmts = mapAll .bare ss ∧
    ∀ {extent : Extent} {line : Int} {rest : List Token}, extent ≠ .inline → Closed rest →
      (∀ line, extent.Ends line rest) → t.Fits extent line rest

/-- An empty block is an inline suite without items. -/
theorem hasSuite_nil : HasSuite [] [] :=
  ⟨.inline .nil, rfl, rfl, fun h => h rfl⟩

/-- A block that is not empty is an indented suite. -/
theorem HasItems.framed {ss : List Stmt} {found : List Token} (h : HasItems ss found) {a b : Token}
    {line stop : Int} (ha : a.rowed = .marker .indent line) (hb : b.rowed = .marker .dedent stop) :
    HasSuite ss (a :: (found ++ [b])) := by
  obtain ⟨t, rfl, hss, hfits⟩ := h
  have hak : a.kind = .indent := congrArg Token.kind ha
  have hbk : b.kind = .dedent := congrArg Token.kind hb
  refine ⟨.indented ⟨a, hak⟩ t (some ⟨b, hbk⟩), rfl, hss,
    fun _ => ⟨hfits (by decide) ?_ ?_, fun h => absurd h (by simp)⟩⟩
  · intro c hc
    obtain rfl := Option.some.inj hc
    exact hbk
  · intro _
    change b.kind.endsBlock = true
    rw [hbk]
    rfl

section Phrases

variable {cond : Expr} {body alt : List Stmt} {depth : Nat} {line : Int} {found : List Token}

theorem hasPhrase_assign {target : Token} {value : Expr} (ht : target.IsName)
    (hv : value.IsArithmetic) {stop : Int}
    (hf : FoundOn line found (target :: .sign .assign :: value.written)) :
    (assign target value).HasPhrase stop found := by
  obtain ⟨a, as, rfl, ha, has⟩ := hf.cons
  obtain ⟨b, bs, rfl, hb, hbs⟩ := has.cons
  obtain ⟨c, rfl, hc⟩ := (Expr.derived hv).sum hbs
  exact ⟨.assign ⟨a, (kind_of_found ha).trans ht.1⟩ (signTerminal hb) c, rfl,
    congrArg₂ assign (unplaced_of_found ha) hc, fun _ => trivial⟩

theorem hasPhrase_call {name : Token} {args : List Expr} (hn : name.IsName)
    (hargs : ∀ e ∈ args, e.IsArithmetic) {stop : Int}
    (hf : FoundOn line found
      (name :: .sign .openParen :: (Expr.writtenArgs args ++ [.sign .closeParen]))) :
    (call name args).HasPhrase stop found := by
  obtain ⟨a, as, rfl, ha, has⟩ := hf.cons
  obtain ⟨b, bs, rfl, hb, hbs⟩ := has.cons
  obtain ⟨cs, ds, rfl, hcs, hds⟩ := hbs.append
  obtain ⟨d, ds, rfl, hd, hnil⟩ := hds.cons
  obtain rfl := hnil.nil
  obtain ⟨t, rfl, ht⟩ := Expr.derived_args hargs hcs
  exact ⟨.call ⟨a, (kind_of_found ha).trans hn.1⟩ (signTerminal hb) t (signTerminal hd), rfl,
    congrArg₂ call (unplaced_of_found ha) ht, fun _ => trivial⟩

/-- A header with a block that nothing but the next statement follows. -/
theorem headed_found {word : Kind} (hc : cond.IsTest) {heads bodies : List Token}
    (hf : FoundOn line heads (Line.header depth word cond).tokens) (hb : HasSuite body bodies)
    {stop : Int} (hstop : line < stop) :
    ∃ (w : Terminal word) (c : Chain .comparison) (colon : Terminal .colon) (t : Suite),
      w.token :: (c.tokens ++ colon.token :: t.tokens) = heads ++ bodies ∧
        c.expr.mapTokens .unplaced = cond.mapTokens .bare ∧
        mapAll .unplaced t.stmts = mapAll .bare body ∧
        ∀ {rest : List Token}, Follows stop rest → t.Fits colon.token.pos.line rest := by
  obtain ⟨w, c, colon, rfl, hcond, hline⟩ := header_found hc hf
  obtain ⟨t, rfl, hss, hfits⟩ := hb
  refine ⟨w, c, colon, t, by simp, hcond, hss, fun h => hfits fun _ => ?_⟩
  rw [hline]
  exact h.ends hstop

theorem hasPhrase_ifThen (hc : cond.IsTest) {heads bodies : List Token}
    (hf : FoundOn line heads (Line.header depth .ifWord cond).tokens) (hb : HasSuite body bodies)
    {stop : Int} (hstop : line < stop) : (ifThen cond body).HasPhrase stop (heads ++ bodies) := by
  obtain ⟨w, c, colon, t, htokens, hcond, hss, hfits⟩ := headed_found hc hf hb hstop
  exact ⟨.ifThen w c colon t, htokens, congrArg₂ ifThen hcond hss,
    fun h => ⟨hfits h, h.nextKind_ne⟩⟩

theorem hasPhrase_loop (hc : cond.IsTest) {heads bodies : List Token}
    (hf : FoundOn line heads (Line.header depth .whileWord cond).tokens) (hb : HasSuite body bodies)
    {stop : Int} (hstop : line < stop) : (loop cond body).HasPhrase stop (heads ++ bodies) := by
  obtain ⟨w, c, colon, t, htokens, hcond, hss, hfits⟩ := headed_found hc hf hb hstop
  exact ⟨.loop w c colon t, htokens, congrArg₂ loop hcond hss, fun h => hfits h⟩

theorem hasPhrase_ifElse (hc : cond.IsTest) {heads bodies others alts : List Token} {other : Int}
    (hf : FoundOn line heads (Line.header depth .ifWord cond).tokens) (hb : HasSuite body bodies)
    (ho : FoundOn other others (Line.other depth).tokens) (ha : HasSuite alt alts)
    {stop : Int} (hstop : other < stop) :
    (ifElse cond body alt).HasPhrase stop (heads ++ (bodies ++ (others ++ alts))) := by
  obtain ⟨w, c, colon, rfl, hcond, -⟩ := header_found hc hf
  obtain ⟨t, rfl, hss, hfits⟩ := hb
  obtain ⟨e, es, rfl, he, hes⟩ := ho.cons
  obtain ⟨e', es, rfl, he', hnil⟩ := hes.cons
  obtain rfl := hnil.nil
  obtain ⟨t', rfl, hss', hfits'⟩ := ha
  refine ⟨.ifElse w c colon t (signTerminal he) (signTerminal he') t', by
    simp [Statement.tokens, signTerminal], ?_, fun h => ⟨hfits fun _ => ?_, hfits' fun _ => ?_⟩⟩
  · simp only [Statement.stmt, mapTokens, hcond, hss, hss']
  · -- the word behind an empty block ends it
    left
    change e.kind.endsBlock = true
    rw [kind_of_found he]
    rfl
  · change Extent.inline.Ends e'.pos.line _
    rw [line_of_found he']
    exact h.ends hstop

/-- What is found in the lines of a block is this block, if this is known of its statements. -/
theorem derived_block {ss : List Stmt}
    (hall : ∀ {found : List Token}, found.map Token.rowed = laidAll depth line ss →
      HasItems ss found)
    (hf : found.map Token.rowed = laidBlock depth line ss) : HasSuite ss found := by
  cases ss with
  | nil =>
    obtain rfl := List.map_eq_nil_iff.mp hf
    exact hasSuite_nil
  | cons s ss =>
    rw [laidBlock_cons] at hf
    obtain ⟨a, as, rfl, ha, hf⟩ := List.map_eq_cons_iff.mp hf
    obtain ⟨items, bs, rfl, hitems, hbs⟩ := List.map_eq_append_iff.mp hf
    obtain ⟨b, bs, rfl, hb, hnil⟩ := List.map_eq_cons_iff.mp hbs
    obtain rfl := List.map_eq_nil_iff.mp hnil
    exact (hall hitems).framed ha hb

end Phrases

mutual

/-- What is found in the lines of a statement is this statement. -/
theorem derived_laid : ∀ {s : Stmt}, s.IsWritable → ∀ {depth : Nat} {line : Int}
    {found : List Token}, found.map Token.rowed = s.laid depth line →
    s.HasPhrase (lineBehind line (s.lines depth)) found
  | .assign _ _, ⟨ht, hv⟩, _, _, _, hf => hasPhrase_assign ht hv hf
  | .call _ _, ⟨hn, ha⟩, _, _, _, hf => hasPhrase_call hn ha hf
  | .ifThen _ _, ⟨hc, hb⟩, depth, line, _, hf => by
    obtain ⟨heads, bodies, rfl, hheads, hbodies⟩ := List.map_eq_append_iff.mp hf
    exact hasPhrase_ifThen hc hheads (derived_block (derived_all hb) hbodies)
      (lt_lineBehind_cons line _ _)
  | .loop _ _, ⟨hc, hb⟩, depth, line, _, hf => by
    obtain ⟨heads, bodies, rfl, hheads, hbodies⟩ := List.map_eq_append_iff.mp hf
    exact hasPhrase_loop hc hheads (derived_block (derived_all hb) hbodies)
      (lt_lineBehind_cons line _ _)
  | .ifElse _ _ _, ⟨hc, hb, ha⟩, depth, line, _, hf => by
    obtain ⟨heads, found, rfl, hheads, hf⟩ := List.map_eq_append_iff.mp hf
    obtain ⟨bodies, found, rfl, hbodies, hf⟩ := List.map_eq_append_iff.mp hf
    obtain ⟨others, alts, rfl, hothers, halts⟩ := List.map_eq_append_iff.mp hf
    refine hasPhrase_ifElse hc hheads (derived_block (derived_all hb) hbodies) hothers
      (derived_block (derived_all ha) halts) ?_
    rw [lines, lineBehind_cons, lineBehind_append]
    exact lt_lineBehind_cons _ _ _

/-- What is found in the lines of statements is these statements. -/
theorem derived_all : ∀ {ss : List Stmt}, AreWritable ss → ∀ {depth : Nat} {line : Int}
    {found : List Token}, found.map Token.rowed = laidAll depth line ss → HasItems ss found
  | [], _, _, _, _, hf => by
    obtain rfl := List.map_eq_nil_iff.mp hf
    exact ⟨.nil, rfl, rfl, fun _ _ h => h _⟩
  | s :: ss, ⟨hs, hss⟩, _, _, _, hf => by
    obtain ⟨as, bs, rfl, has, hbs⟩ := List.map_eq_append_iff.mp hf
    obtain ⟨t, rfl, ht, hfits⟩ := derived_laid hs has
    obtain ⟨more, rfl, hmore, hfits'⟩ := derived_all hss hbs
    refine ⟨.stmt t more, rfl, congrArg₂ List.cons ht hmore, fun hi hc he => ?_⟩
    exact ⟨fun h => absurd h hi, hfits (follows_laidAll hss hbs hc), hfits' hi hc he⟩

end

end Stmt

/-! ## The round trip -/

/-- No line is further in than the text is long. -/
theorem depth_le_length {rs : List Line} {r : Line} (h : r ∈ rs) :
    r.depth ≤ (rs.flatMap Line.text).length := by
  obtain ⟨as, bs, rfl⟩ := List.append_of_mem h
  simp only [List.flatMap_append, List.flatMap_cons, List.length_append, Line.text,
    List.length_replicate]
  omega

/-- **What is written is read back**: whatever the tab width, the text of a program that can be
written is read as this program, up to positions and values of tokens that are no numbers. The text
has to exist as a string: the length of a string is a word, and so is the width of an indentation.
-/
theorem parse_render (tab : TabWidth) {p : Program} (h : Grammatical p)
    (hlen : (render p).length ≤ Word.greatest) :
    ∃ p', parse tab (render p) = .ok p' ∧ Program.unplaced p' = Program.bare p := by
  have hnested : Nested 0 (Stmt.linesOf 0 p ++ []) := Stmt.nested_linesOf h trivial
  have hlayout : layout 0 1 (Stmt.linesOf 0 p ++ []) = _ := Stmt.layout_linesOf h (.nil 0)
  rw [List.append_nil] at hnested hlayout
  obtain ⟨ts, hts, hfound⟩ :=
    tokenize_lines tab hnested fun r hr => (depth_le_length hr).trans hlen
  obtain ⟨us, pos, rfl, hus⟩ := tokenize_ends hts
  rw [hlayout, List.map_append] at hfound
  have hstream : streamOf (us ++ [.eofAt pos]) = us := by
    rw [streamOf, List.takeWhile_append_of_pos (by simpa using hus)]
    simp [Token.eofAt, Token.plain]
  obtain ⟨t, htokens, hstmts, hfits⟩ := Stmt.derived_all h (List.append_inj_left' hfound rfl)
  have hparse : parseTokens (us ++ [.eofAt pos]) = .ok t.stmts :=
    parseTokens_of_derivation
      ⟨t, by rw [hstream, htokens], hfits (by decide) .nil fun _ => trivial⟩
  exact ⟨t.stmts, parse_eq_ok.mpr ⟨_, hts, hparse⟩, hstmts⟩

/-- A program with empty blocks, an `else` behind a nested conditional that has none, and operands
in parentheses. -/
def ledgerProgram : Program :=
  let name (s : String) : Token := .plain .identifier s .unset
  let leaf (s : String) : Expr := .leaf (name s)
  let number (s : String) (n : Int64) : Expr := .leaf ⟨.number, s, n, .unset⟩
  [.ifElse
      (.compare (.compare (leaf "due") (.sign .less) (number "007" 7)) (.sign .unequal)
        (.arith (leaf "näher") (.sign .minus) (.arith (leaf "b") (.sign .plus) (leaf "c"))))
      [.ifThen (leaf "open") [],
       .loop (leaf "b")
        [.ifThen (leaf "d")
          [.assign (name "q_1")
            (.arith (.arith (leaf "x") (.sign .plus) (leaf "y")) (.sign .times)
              (.arith (leaf "u") (.sign .divide) (leaf "v")))]]]
      [.ifElse (leaf "c") [] [.call (name "note") []]],
   .call (name "sum") [leaf "x", .arith (leaf "x") (.sign .plus) (number "1" 1)]]

/-- The program and its text. -/
theorem parse_render_ledger : Grammatical ledgerProgram ∧
    render ledgerProgram = Text.ofString ("if due < 007 != näher - ( b + c ) :\n if open :\n" ++
      " while b :\n  if d :\n   q_1 = ( x + y ) * ( u / v )\nelse:\n if c :\n else:\n" ++
      "  note ( )\nsum ( x , x + 1 )\n") ∧
    ∃ p', parse .standard (render ledgerProgram) = .ok p' ∧
      Program.unplaced p' = Program.bare ledgerProgram :=
  ⟨by decide +kernel, by decide +kernel,
    parse_render .standard (by decide +kernel) (by decide +kernel)⟩

end Offside
