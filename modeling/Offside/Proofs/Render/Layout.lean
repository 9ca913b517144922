import Offside.Proofs.Render.Lines

/-!
# The layout of a program

What the lines that `render` writes hold, once they are read. `Proofs/Render/Lines` reads any lines
of legible tokens; here it is shown that the lines of a program are such lines, and what `layout`
finds in them.

The lines of a program that can be written can be read. What is found in them follows the
statements: a block that is not empty stands between an indent marker and a dedent marker, and an
empty block is not to be seen. So the distances from the margin are gone, and only the nesting of
the markers is left.

* `Row` are tokens that can be read and close the parentheses they open.
* `laid`, `laidBlock` and `laidAll` are what is found in the lines of a statement, a block and
  statements, by recursion over the program.
* `Shallow` says that the first of some lines is not further in than some distance, which is what
  ends the lines of a block.

Results:
* `row_written`, `row_test`, `row_writtenArgs`: the tokens of an expression, a condition and
  arguments can be read.
* `nested_linesOf`: the lines of statements can be read.
* `layout_linesOf`: what is found in the lines of statements is their tokens with the markers around
  blocks.
-/

namespace Offside

open Lexer

/-! ## Parts of a line -/

/-- Tokens that can be read and close the parentheses they open. -/
structure Row (ts : List Token) : Prop where
  legible : ∀ t ∈ ts, Legible t
  plain : ∀ t ∈ ts, t.kind ≠ .elseWord
  level : ∀ depth, depthOver depth ts = depth

namespace Row

variable {ts us : List Token} {t : Token}

theorem append (h : Row ts) (h' : Row us) : Row (ts ++ us) where
  legible := fun u hu => (List.mem_append.mp hu).elim (h.legible u) (h'.legible u)
  plain := fun u hu => (List.mem_append.mp hu).elim (h.plain u) (h'.plain u)
  level := by
    intro depth
    rw [depthOver, List.foldl_append]
    exact (h'.level _).trans (h.level depth)

theorem nil : Row [] where
  legible := List.forall_mem_nil _
  plain := List.forall_mem_nil _
  level := fun _ => rfl

theorem cons (ht : Legible t) (he : t.kind ≠ .elseWord)
    (hd : ∀ depth, depthAfter depth t.kind = depth)
    (h : Row ts) : Row (t :: ts) where
  legible := List.forall_mem_cons.mpr ⟨ht, h.legible⟩
  plain := List.forall_mem_cons.mpr ⟨he, h.plain⟩
  level := fun depth => (h.level _).trans (hd depth)

/-- A sign that is neither `else` nor a parenthesis may stand in front. -/
theorem sign {kind : Kind} (hk : kind ∈ fixedKinds) (he : kind ≠ .elseWord)
    (hd : ∀ depth, depthAfter depth kind = depth) (h : Row ts) : Row (.sign kind :: ts) :=
  .cons (legible_spelling hk rfl) he hd h

theorem parens (h : Row ts) : Row (.sign .openParen :: (ts ++ [.sign .closeParen])) where
  legible := by
    have hsign : ∀ k ∈ [Kind.openParen, .closeParen], Legible (.sign k) := by
      intro k hk
      refine legible_spelling ?_ rfl
      have hall : ∀ k ∈ [Kind.openParen, .closeParen], k ∈ fixedKinds := by decide
      exact hall k hk
    intro u hu
    simp only [List.mem_cons, List.mem_append, List.not_mem_nil, or_false] at hu
    rcases hu with rfl | hu | rfl
    · exact hsign _ (by decide)
    · exact h.legible u hu
    · exact hsign _ (by decide)
  plain := by
    intro u hu
    simp only [List.mem_cons, List.mem_append, List.not_mem_nil, or_false] at hu
    rcases hu with rfl | hu | rfl
    · decide
    · exact h.plain u hu
    · decide
  level := by
    intro depth
    rw [depthOver, List.foldl_cons, List.foldl_append]
    exact congrArg (fun d => d - 1) (h.level (depth + 1))

theorem enclosed (h : Row ts) (wanted : Bool) : Row (Offside.enclosed wanted ts) := by
  unfold Offside.enclosed
  split
  · exact h.parens
  · exact h

/-- A row is a line that can be read. -/
theorem sound (h : Row ts) (hne : ts ≠ []) (depth : Nat) : Line.Sound ⟨depth, ts⟩ where
  filled := hne
  legible := h.legible
  together := by
    refine List.Pairwise.isChain (List.pairwise_of_forall_mem_list fun t ht u _ hk => ?_)
    exact absurd hk (h.plain t ht)
  balanced := h.level 0

end Row

theorem accepts_spec {level : Level} {k : Kind} (h : level.accepts k = true) :
    k ∈ fixedKinds ∧ k ≠ .elseWord ∧ ∀ depth, depthAfter depth k = depth := by
  cases level <;> cases k <;>
    first | exact ⟨by decide, by decide, fun _ => rfl⟩ | exact absurd h (by simp [Level.accepts])

theorem row_operator {level : Level} {op : Token} (h : op.IsOperator level) {ts : List Token}
    (hts : Row ts) : Row (op :: ts) := by
  obtain ⟨hk, he, hd⟩ := accepts_spec h.1
  exact .cons (legible_spelling hk h.2) he hd hts

theorem row_name {t : Token} (h : t.IsName) {ts : List Token} (hts : Row ts) : Row (t :: ts) :=
  .cons (legible_name h) (by rw [h.1]; decide) (fun _ => by rw [h.1]; rfl) hts

theorem row_numeral {t : Token} (h : t.IsNumeral) {ts : List Token} (hts : Row ts) :
    Row (t :: ts) :=
  .cons (legible_numeral h) (by rw [h.1]; decide) (fun _ => by rw [h.1]; rfl) hts

namespace Expr

theorem row_written : ∀ {e : Expr}, e.IsArithmetic → Row e.written
  | .leaf _, h => h.elim (row_name · .nil) (row_numeral · .nil)
  | .arith _ _ _, ⟨hl, hop, hr⟩ =>
    ((row_written hl).enclosed _).append
      (hop.elim (row_operator · ((row_written hr).enclosed _))
        (row_operator · ((row_written hr).enclosed _)))

theorem row_test : ∀ {e : Expr}, e.IsTest → Row e.written
  | .compare _ _ _, ⟨hl, hop, hr⟩ => (row_test hl).append (row_operator hop (row_written hr))
  | .leaf _, h => row_written h
  | .arith _ _ _, h => row_written h

theorem row_writtenArgs {args : List Expr} (h : ∀ e ∈ args, e.IsArithmetic) :
    Row (writtenArgs args) := by
  have hmore : ∀ es : List Expr, (∀ e ∈ es, e.IsArithmetic) →
      Row (es.flatMap fun e => .sign .comma :: e.written) := by
    intro es hes
    induction es with
    | nil => exact .nil
    | cons e es ih =>
      rw [List.forall_mem_cons] at hes
      rw [List.flatMap_cons]
      exact (Row.sign (by decide) (by decide) (fun _ => rfl) (row_written hes.1)).append (ih hes.2)
  cases args with
  | nil => exact .nil
  | cons e es =>
    rw [List.forall_mem_cons] at h
    exact (row_written h.1).append (hmore es h.2)

end Expr

namespace Line

theorem sound_header {word : Kind} (hw : word ∈ [Kind.ifWord, .whileWord]) {cond : Expr}
    (h : cond.IsTest) (depth : Nat) : (header depth word cond).Sound := by
  have hall : ∀ k ∈ [Kind.ifWord, .whileWord], k ∈ fixedKinds ∧ k ≠ .elseWord := by decide
  have hdepth : ∀ d, depthAfter d word = d := by
    intro d
    simp only [List.mem_cons, List.not_mem_nil, or_false] at hw
    rcases hw with rfl | rfl <;> rfl
  have hcolon : Row [.sign .colon] := .sign (by decide) (by decide) (fun _ => rfl) .nil
  have hrow := Row.sign (hall word hw).1 (hall word hw).2 hdepth ((Expr.row_test h).append hcolon)
  exact hrow.sound (List.cons_ne_nil _ _) depth

theorem sound_other (depth : Nat) : (other depth).Sound where
  filled := List.cons_ne_nil _ _
  legible := by
    intro t ht
    simp only [other, List.mem_cons, List.not_mem_nil, or_false] at ht
    rcases ht with rfl | rfl <;> exact legible_spelling (by decide) rfl
  together := List.isChain_cons_cons.mpr ⟨fun _ => rfl, .singleton _⟩
  balanced := rfl

end Line

/-! ## The lines of a program can be read -/

theorem Nested.mono {before before' : Nat} (hb : before ≤ before') :
    ∀ {rs : List Line}, Nested before rs → Nested before' rs
  | [], _ => trivial
  | _ :: _, ⟨hr, hd, hrs⟩ => ⟨hr, by omega, hrs⟩

namespace Stmt

mutual

/-- The lines of a statement can be read behind a header and behind its equals. -/
theorem nested_lines : ∀ {s : Stmt}, s.IsWritable → ∀ {depth before : Nat} {rest : List Line},
    depth ≤ before + 1 → Nested depth rest → Nested before (s.lines depth ++ rest)
  | .assign _ _, ⟨ht, hv⟩, _, _, _, hd, hrest =>
    ⟨(row_name ht (.sign (by decide) (by decide) (fun _ => rfl) (Expr.row_written hv))).sound
      (List.cons_ne_nil _ _) _, hd, hrest⟩
  | .call _ _, ⟨hn, ha⟩, _, _, _, hd, hrest =>
    ⟨(row_name hn (Expr.row_writtenArgs ha).parens).sound (List.cons_ne_nil _ _) _, hd, hrest⟩
  | .ifThen _ _, ⟨hc, hb⟩, _, _, _, hd, hrest =>
    ⟨Line.sound_header (by decide) hc _, hd, nested_block hb hrest⟩
  | .loop _ _, ⟨hc, hb⟩, _, _, _, hd, hrest =>
    ⟨Line.sound_header (by decide) hc _, hd, nested_block hb hrest⟩
  | .ifElse _ _ _, ⟨hc, hb, ha⟩, _, _, _, hd, hrest => by
    rw [lines, List.cons_append, List.append_assoc]
    exact ⟨Line.sound_header (by decide) hc _, hd,
      nested_block hb ⟨Line.sound_other _, Nat.le_succ _, nested_block ha hrest⟩⟩

/-- The lines of a block can be read behind its header. -/
theorem nested_block : ∀ {ss : List Stmt}, AreWritable ss → ∀ {depth : Nat} {rest : List Line},
    Nested depth rest → Nested depth (linesOf (depth + 1) ss ++ rest)
  | [], _, _, _, hrest => hrest
  | s :: ss, ⟨hs, hss⟩, depth, rest, hrest => by
    rw [linesOf, List.append_assoc]
    exact nested_lines hs (Nat.le_refl _)
      (nested_linesOf hss (hrest.mono (Nat.le_succ depth)))

/-- **The lines of statements can be read.** -/
theorem nested_linesOf : ∀ {ss : List Stmt}, AreWritable ss → ∀ {depth : Nat} {rest : List Line},
    Nested depth rest → Nested depth (linesOf depth ss ++ rest)
  | [], _, _, _, hrest => hrest
  | s :: ss, ⟨hs, hss⟩, depth, rest, hrest => by
    rw [linesOf, List.append_assoc]
    exact nested_lines hs (Nat.le_succ depth) (nested_linesOf hss hrest)

end

end Stmt

/-! ## What is found in the lines of a program -/

/-- The number of the line behind some lines. -/
def lineBehind (line : Int) (rs : List Line) : Int :=
  line + rs.length

theorem lineBehind_nil (line : Int) : lineBehind line [] = line := by simp [lineBehind]

theorem lineBehind_cons (line : Int) (r : Line) (rs : List Line) :
    lineBehind line (r :: rs) = lineBehind (line + 1) rs := by
  simp only [lineBehind, List.length_cons]
  omega

theorem lineBehind_append (line : Int) (rs rs' : List Line) :
    lineBehind line (rs ++ rs') = lineBehind (lineBehind line rs) rs' := by
  simp only [lineBehind, List.length_append]
  omega

namespace Stmt

mutual

/-- What is found in the lines of a statement, the first of which is numbered `line`. -/
def laid (depth : Nat) (line : Int) : Stmt → List Token
  | .assign target value => (target :: .sign .assign :: value.written).map (Token.onLine line)
  | .call name args =>
    (name :: .sign .openParen :: (Expr.writtenArgs args ++ [.sign .closeParen])).map
      (Token.onLine line)
  | .ifThen cond body =>
    (Line.header depth .ifWord cond).tokens.map (Token.onLine line) ++
      laidBlock (depth + 1) (line + 1) body
  | .ifElse cond body alt =>
    let other := lineBehind (line + 1) (linesOf (depth + 1) body)
    (Line.header depth .ifWord cond).tokens.map (Token.onLine line) ++
      (laidBlock (depth + 1) (line + 1) body ++
        ((Line.other depth).tokens.map (Token.onLine other) ++
          laidBlock (depth + 1) (other + 1) alt))
  | .loop cond body =>
    (Line.header depth .whileWord cond).tokens.map (Token.onLine line) ++
      laidBlock (depth + 1) (line + 1) body
  | .missing => []

/-- What is found in the lines of a block: its statements between two markers, if there are any. -/
def laidBlock (depth : Nat) (line : Int) : List Stmt → List Token
  | [] => []
  | s :: ss =>
    .marker .indent line ::
      (s.laid depth line ++ laidAll depth (lineBehind line (s.lines depth)) ss ++
        [.marker .dedent (lineBehind line (linesOf depth (s :: ss)))])

/-- What is found in the lines of statements. -/
def laidAll (depth : Nat) (line : Int) : List Stmt → List Token
  | [] => []
  | s :: ss => s.laid depth line ++ laidAll depth (lineBehind line (s.lines depth)) ss

end

theorem laidBlock_cons (depth : Nat) (line : Int) (s : Stmt) (ss : List Stmt) :
    laidBlock depth line (s :: ss) = .marker .indent line :: (laidAll depth line (s :: ss) ++
      [.marker .dedent (lineBehind line (linesOf depth (s :: ss)))]) := by
  rw [laidBlock, laidAll]

end Stmt

/-- The first of some lines is not further in than `depth`. -/
def Shallow (depth : Nat) (rs : List Line) : Prop :=
  ∀ r ∈ rs.head?, r.depth ≤ depth

theorem Shallow.nil (depth : Nat) : Shallow depth [] := by
  intro r hr
  exact absurd hr (by simp)

theorem Shallow.succ {depth : Nat} {rs : List Line} (h : Shallow depth rs) :
    Shallow (depth + 1) rs :=
  fun r hr => Nat.le_succ_of_le (h r hr)

theorem Shallow.cons (r : Line) (rs : List Line) : Shallow r.depth (r :: rs) := by
  intro r' hr'
  obtain rfl := Option.some.inj hr'
  exact Nat.le_refl _

/-- A line as far in as the one before calls for no marker. -/
theorem layout_same (r : Line) (line : Int) (rs : List Line) :
    layout r.depth line (r :: rs) =
      r.tokens.map (Token.onLine line) ++ layout r.depth (line + 1) rs := by
  simp [layout, markers]

/-- A line further in opens a level. -/
theorem layout_deeper {depth : Nat} {r : Line} (h : r.depth = depth + 1) (line : Int)
    (rs : List Line) :
    layout depth line (r :: rs) = .marker .indent line :: layout (depth + 1) line (r :: rs) := by
  simp [layout, markers, h, Token.marker]

/-- A level is closed in front of lines that are not so far in. -/
theorem layout_shallower {depth : Nat} {rs : List Line} (h : Shallow depth rs) (line : Int) :
    layout (depth + 1) line rs = .marker .dedent line :: layout depth line rs := by
  cases rs with
  | nil => rfl
  | cons r rs =>
    have hr : r.depth ≤ depth := h r rfl
    simp only [layout, markers]
    rw [if_neg (by omega), if_neg (by omega), Nat.succ_sub hr, List.replicate_succ,
      List.cons_append, Token.marker]

namespace Stmt

theorem lines_eq_cons {s : Stmt} (h : s.IsWritable) (depth : Nat) :
    ∃ r rs, s.lines depth = r :: rs ∧ r.depth = depth := by
  cases s with
  | missing => exact absurd h id
  | _ => exact ⟨_, _, rfl, rfl⟩

theorem shallow_linesOf {ss : List Stmt} (h : AreWritable ss) {depth : Nat} {rest : List Line}
    (hrest : Shallow depth rest) : Shallow depth (linesOf depth ss ++ rest) := by
  cases ss with
  | nil => exact hrest
  | cons s ss =>
    obtain ⟨r, rs, hs, rfl⟩ := lines_eq_cons h.1 depth
    rw [linesOf, hs]
    exact Shallow.cons r _

/-- What is found in the lines of a block behind its header, if it is known what is found once a
level is open. -/
theorem layout_block {ss : List Stmt} (h : AreWritable ss) {depth : Nat} {line : Int}
    {rest : List Line} (hrest : Shallow depth rest)
    (hss : layout (depth + 1) line (linesOf (depth + 1) ss ++ rest) =
      laidAll (depth + 1) line ss ++
        layout (depth + 1) (lineBehind line (linesOf (depth + 1) ss)) rest) :
    layout depth line (linesOf (depth + 1) ss ++ rest) =
      laidBlock (depth + 1) line ss ++
        layout depth (lineBehind line (linesOf (depth + 1) ss)) rest := by
  cases ss with
  | nil => rw [linesOf, laidBlock, lineBehind_nil, List.nil_append, List.nil_append]
  | cons s ss =>
    obtain ⟨r, rs, hs, hr⟩ := lines_eq_cons h.1 (depth + 1)
    have hopen : layout depth line (linesOf (depth + 1) (s :: ss) ++ rest) =
        .marker .indent line ::
          layout (depth + 1) line (linesOf (depth + 1) (s :: ss) ++ rest) := by
      rw [linesOf, hs]
      exact layout_deeper hr line _
    rw [hopen, hss, layout_shallower hrest, laidBlock_cons]
    simp only [List.cons_append, List.append_assoc, List.nil_append]

/-- What is found in a line and the block behind it. -/
theorem layout_headed (r : Line) {ss : List Stmt} (h : AreWritable ss) {line : Int}
    {rest : List Line} (hrest : Shallow r.depth rest)
    (hss : layout (r.depth + 1) (line + 1) (linesOf (r.depth + 1) ss ++ rest) =
      laidAll (r.depth + 1) (line + 1) ss ++
        layout (r.depth + 1) (lineBehind (line + 1) (linesOf (r.depth + 1) ss)) rest) :
    layout r.depth line (r :: (linesOf (r.depth + 1) ss ++ rest)) =
      r.tokens.map (Token.onLine line) ++ (laidBlock (r.depth + 1) (line + 1) ss ++
        layout r.depth (lineBehind (line + 1) (linesOf (r.depth + 1) ss)) rest) := by
  rw [layout_same, layout_block h hrest hss]

mutual

/-- What is found in the lines of a statement. -/
theorem layout_lines : ∀ {s : Stmt}, s.IsWritable → ∀ {depth : Nat} {line : Int} {rest : List Line},
    Shallow depth rest → layout depth line (s.lines depth ++ rest) =
      s.laid depth line ++ layout depth (lineBehind line (s.lines depth)) rest
  | .assign _ _, _, depth, line, rest, _ => layout_same ⟨depth, _⟩ line rest
  | .call _ _, _, depth, line, rest, _ => layout_same ⟨depth, _⟩ line rest
  | .ifThen cond body, ⟨_, hb⟩, depth, line, rest, hrest => by
    rw [lines, lineBehind_cons, laid, List.append_assoc]
    exact layout_headed (.header depth .ifWord cond) hb hrest (layout_linesOf hb hrest.succ)
  | .loop cond body, ⟨_, hb⟩, depth, line, rest, hrest => by
    rw [lines, lineBehind_cons, laid, List.append_assoc]
    exact layout_headed (.header depth .whileWord cond) hb hrest (layout_linesOf hb hrest.succ)
  | .ifElse cond body alt, ⟨_, hb, ha⟩, depth, line, rest, hrest => by
    generalize hother : lineBehind (line + 1) (linesOf (depth + 1) body) = other
    have halt : layout depth other (.other depth :: (linesOf (depth + 1) alt ++ rest)) = _ :=
      layout_headed (.other depth) ha hrest (layout_linesOf ha hrest.succ)
    -- the lines from `else` on are what stands behind the first block
    generalize hmore : Line.other depth :: (linesOf (depth + 1) alt ++ rest) = more at halt
    have hshallow : Shallow depth more := by
      rw [← hmore]
      exact Shallow.cons (.other depth) _
    have hbody : layout depth line
        (.header depth .ifWord cond :: (linesOf (depth + 1) body ++ more)) =
        _ := layout_headed (.header depth .ifWord cond) hb hshallow
          (layout_linesOf hb hshallow.succ)
    simp only [lines, laid, lineBehind_cons, lineBehind_append, List.cons_append, List.append_assoc,
      hmore, hbody]
    simp only [Line.header, Line.other] at halt ⊢
    rw [hother, halt]

/-- **What is found in the lines of statements.** -/
theorem layout_linesOf : ∀ {ss : List Stmt}, AreWritable ss → ∀ {depth : Nat} {line : Int}
    {rest : List Line}, Shallow depth rest →
    layout depth line (linesOf depth ss ++ rest) =
      laidAll depth line ss ++ layout depth (lineBehind line (linesOf depth ss)) rest
  | [], _, _, _, _, _ => by rw [linesOf, laidAll, lineBehind_nil, List.nil_append, List.nil_append]
  | s :: ss, ⟨hs, hss⟩, depth, line, rest, hrest => by
    rw [linesOf, List.append_assoc, layout_lines hs (shallow_linesOf hss hrest),
      layout_linesOf hss hrest, laidAll, lineBehind_append, List.append_assoc]

end

end Stmt

end Offside
