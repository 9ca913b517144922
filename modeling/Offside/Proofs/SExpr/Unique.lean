import Offside.Proofs.Editing.Comment
import Offside.Proofs.Grammar.Whole
import Offside.Proofs.SExpr.Form

/-!
# The S-expression determines the program

`Program.sexpr` is injective on the programs of sources, up to positions. Two sources with the same
S-expression are one program in two layouts.

A token of a source is known by its text: the first rune of the text tells the class of the lexeme,
and the text tells the kind and the value. The texts of names, numbers and operators are free of
separators and parentheses. So the tree of a program can be read off its S-expression, and the
program off the tree, all but the positions of the tokens.

* `Lexer.IsRead` is a token that is a lexeme of a source. A token put together by hand may have any
  text, and then neither half is true.
* `Agree` says that tokens with the same text are the same up to their positions, which is what the
  step from a tree to a program needs.

Results:
* `Lexer.unplaced_eq_of_value_eq`: a lexeme is known by its text.
* `Lexer.IsRead.isAtom`: the text of a token that a program keeps is free of separators.
* `isRead_of_parse`: the tokens of a program of a source are lexemes of the source.
* `Expr.form_injective`, `Stmt.form_injective`: a tree stands for one phrase.
* `unplaced_eq_of_sexpr_eq`: programs with the same S-expression are the same up to positions.
* `sexpr_eq_iff_unplaced_eq`: this in both directions, for two sources and two tab widths.
-/

namespace Offside

namespace Lexer

/-! ## Lexemes are known by their texts -/

/-- The token that a lexeme of a class becomes, without its position. -/
def tokenOf (cls : LexemeClass) (value : Text) : Token :=
  match cls with
  | .number => ⟨.number, value, Int64.ofNat (Text.digitsValue value), .unset⟩
  | .word => .plain (wordKind value) value .unset
  | .operator => .plain ((operatorTable.lookup value).getD .eof) value .unset

variable {first : Rune} {rest after lexeme : List Rune} {pos : Position} {t u : Token}

/-- A lexeme that begins like an operator is one. -/
theorem operator_of_readLexeme (h : readLexeme first rest pos = .ok (t, lexeme, after))
    (hc : classOf first = .operator) :
    ∃ kind, readOperator first rest pos = .ok (kind, lexeme, after) ∧
      t = .plain kind (Rune.encode lexeme) pos := by
  unfold readLexeme at h
  rw [hc] at h
  dsimp only at h
  cases ho : readOperator first rest pos with
  | error e => rw [ho] at h; cases h
  | ok x =>
    rw [ho] at h
    cases h
    exact ⟨x.1, rfl, rfl⟩

theorem unplaced_of_readLexeme (h : readLexeme first rest pos = .ok (t, lexeme, after)) :
    t.unplaced = tokenOf (classOf first) t.value := by
  cases hc : classOf first with
  | number =>
    rw [readLexeme, hc] at h
    dsimp only at h
    unfold numberToken at h
    split at h <;> cases h
    rfl
  | word =>
    rw [readLexeme, hc] at h
    cases h
    rfl
  | operator =>
    obtain ⟨kind, hread, rfl⟩ := operator_of_readLexeme h hc
    show Token.plain kind (Rune.encode lexeme) .unset =
      .plain ((operatorTable.lookup (Rune.encode lexeme)).getD .eof) (Rune.encode lexeme) .unset
    rw [(readOperator_spec hread).1, Option.getD_some]

theorem not_stray_of_readOperator {kind : Kind}
    (h : readOperator first rest pos = .ok (kind, lexeme, after)) (b : UInt8) :
    .stray b ∉ lexeme := by
  have hone {o : Option Kind} (hfirst : operatorKind? first = o ∨ pairKind? first = o)
      (ho : o.isSome = true) : first ≠ .stray b := by
    rintro rfl
    rcases hfirst with rfl | rfl <;> cases ho
  unfold readOperator at h
  split at h
  · next k rest' hk =>
    cases h
    simp [(hone (Or.inr hk) rfl).symm]
  · split at h
    · cases h
    · split at h
      · next k hk =>
        cases h
        simp [(hone (Or.inl hk) rfl).symm]
      · cases h

/-- Words and numbers are made of letters, underscores and digits. -/
theorem isNamePart_of_readLexeme (h : readLexeme first rest pos = .ok (t, lexeme, after))
    (hc : classOf first ≠ .operator) : ∀ r ∈ lexeme, r.isNamePart = true := by
  unfold readLexeme at h
  cases hclass : classOf first with
  | number =>
    rw [hclass] at h
    dsimp only at h
    cases hn : numberToken first (Rune.encode (first :: rest.takeWhile Rune.isDigit)) pos with
    | error e => rw [hn] at h; cases h
    | ok u =>
      rw [hn] at h
      cases h
      exact List.forall_mem_cons.mpr
        ⟨Rune.isNamePart_of_isDigit (classOf_eq_number hclass),
          fun r hr => Rune.isNamePart_of_isDigit (List.mem_takeWhile_imp hr)⟩
  | word =>
    rw [hclass] at h
    cases h
    refine List.forall_mem_cons.mpr ⟨?_, fun r hr => List.mem_takeWhile_imp hr⟩
    rw [Rune.isNamePart, classOf_eq_word hclass, Bool.true_or]
  | operator => exact absurd hclass hc

/-- No stray byte belongs to a lexeme. -/
theorem not_stray_of_readLexeme (h : readLexeme first rest pos = .ok (t, lexeme, after))
    (b : UInt8) :
    .stray b ∉ lexeme := by
  by_cases hc : classOf first = .operator
  · obtain ⟨kind, hread, -⟩ := operator_of_readLexeme h hc
    exact not_stray_of_readOperator hread b
  · intro hb
    have hpart := isNamePart_of_readLexeme h hc _ hb
    rw [Rune.isNamePart_stray] at hpart
    cases hpart

/-- A token that is a lexeme of a source. -/
def IsRead (t : Token) : Prop :=
  ∃ first rest pos lexeme after, readLexeme first rest pos = .ok (t, lexeme, after)

/-- **A lexeme is known by its text.** -/
theorem unplaced_eq_of_value_eq (ht : IsRead t) (hu : IsRead u) (h : u.value = t.value) :
    u.unplaced = t.unplaced := by
  obtain ⟨r, rest, p, lexeme, after, ht⟩ := ht
  obtain ⟨r', rest', q, lexeme', after', hu⟩ := hu
  obtain ⟨happ, hvalue, -, hlexeme⟩ := readLexeme_spec ht
  obtain ⟨happ', hvalue', -, -⟩ := readLexeme_spec hu
  obtain ⟨cs, rfl⟩ := Rune.chars_of_not_stray (not_stray_of_readLexeme ht)
  obtain ⟨ds, rfl⟩ := Rune.chars_of_not_stray (not_stray_of_readLexeme hu)
  rw [Rune.encode_chars] at hvalue hvalue'
  -- the runes are the same, and so is the first one
  obtain rfl := Rune.ofChars_injective (hvalue'.symm.trans (h.trans hvalue))
  have hfirst : r' = r := by
    cases ds with
    | nil => exact absurd rfl (hlexeme.ne_nil (by rw [hvalue, Rune.encode_chars]))
    | cons c ds =>
      have hr := (List.cons.inj happ).1
      have hr' := (List.cons.inj happ').1
      rw [← hr, ← hr']
  rw [unplaced_of_readLexeme ht, unplaced_of_readLexeme hu, hfirst, h]

/-- Neither separators nor parentheses stand in words and numbers. -/
theorem isAtom_of_isNamePart {rs : List Rune} (h : ∀ r ∈ rs, r.isNamePart = true) :
    Text.IsAtom (Rune.encode rs) := by
  intro b hb hmem
  obtain ⟨r, hr, hbytes⟩ := List.mem_flatMap.mp hb
  have hpart := h r hr
  obtain ⟨d, hd, hno⟩ : ∃ d : Char, String.utf8EncodeChar d = [b] ∧
      Rune.isNamePart (.char d) = false := by
    simp only [List.mem_cons, List.not_mem_nil, or_false] at hmem
    rcases hmem with rfl | rfl | rfl | rfl
    · exact ⟨'\n', rfl, by decide⟩
    · exact ⟨' ', rfl, by decide⟩
    · exact ⟨')', rfl, by decide⟩
    · exact ⟨'(', rfl, by decide⟩
  cases r with
  | stray a =>
    rw [Rune.isNamePart_stray] at hpart
    cases hpart
  | char c =>
    have hlt : b < 0x80 := by
      simp only [List.mem_cons, List.not_mem_nil, or_false] at hmem
      rcases hmem with rfl | rfl | rfl | rfl <;> decide
    have hc : String.utf8EncodeChar c = String.utf8EncodeChar d :=
      (Rune.utf8EncodeChar_of_mem hbytes hlt).trans hd.symm
    rw [Rune.utf8EncodeChar_injective hc, hno] at hpart
    cases hpart

/-- **The text of a token that a program keeps is free of separators.** -/
theorem IsRead.isAtom (h : IsRead t) (hk : t.kind.isKept = true) : t.value.IsAtom := by
  obtain ⟨first, rest, pos, lexeme, after, h⟩ := h
  obtain ⟨-, hvalue, -, -⟩ := readLexeme_spec h
  by_cases hc : classOf first = .operator
  · have hall : ∀ e ∈ operatorTable, e.2.isKept = true → Text.IsAtom e.1 := by decide
    obtain ⟨kind, hread, rfl⟩ := operator_of_readLexeme h hc
    obtain ⟨before, behind, htable, -⟩ := List.lookup_eq_some_iff.mp (readOperator_spec hread).1
    exact hall (Rune.encode lexeme, kind) (htable ▸ List.mem_append_right _ List.mem_cons_self) hk
  · rw [hvalue]
    exact isAtom_of_isNamePart (isNamePart_of_readLexeme h hc)

/-- The tokens of a course that a program keeps are lexemes. -/
theorem Course.isRead {tab : TabWidth} {s : Scan} {ts : List Token} {e : Option LexicalError}
    (h : Course tab s ts e) : ∀ t ∈ ts, t.kind.isKept = true → IsRead t := by
  have hmarkers {pos : Position} {kinds : List Kind} (hkinds : ∀ k ∈ kinds, k.isMarker = true)
      {t : Token}
      (ht : t ∈ markersAt pos kinds) : t.kind.isKept = false := by
    obtain ⟨k, hk, rfl⟩ := List.mem_map.mp ht
    have hmark := hkinds k hk
    cases k <;> first | rfl | cases hmark
  induction h with
  | finish _ =>
    intro t ht hk
    rcases List.mem_append.mp ht with ht | ht
    · rw [hmarkers (isMarker_dedents _) ht] at hk
      cases hk
    · rw [List.mem_singleton.mp ht] at hk
      cases hk
  | newline _ _ _ _ ih => exact ih
  | line _ _ ha _ ih =>
    intro t ht hk
    rcases List.mem_append.mp ht with ht | ht
    · rw [hmarkers (isMarker_of_adjust ha) ht] at hk
      cases hk
    · exact ih t ht hk
  | lost _ _ _ => exact fun t ht => absurd ht List.not_mem_nil
  | lexeme _ _ _ hread _ ih => exact List.forall_mem_cons.mpr ⟨fun _ => ⟨_, _, _, _, _, hread⟩, ih⟩
  | fault _ _ _ _ => exact fun t ht => absurd ht List.not_mem_nil

end Lexer

open Lexer

/-- The tokens of a program of a source are lexemes of the source, and of the kinds that are
kept. -/
theorem isRead_of_parse {tab : TabWidth} {src : Text} {p : Program} (h : parse tab src = .ok p) :
    ∀ t ∈ Stmt.tokensOf p, IsRead t ∧ t.kind.isKept = true := by
  obtain ⟨ts, hts, hp⟩ := parse_eq_ok.mp h
  intro t ht
  rw [tokensOf_of_parseTokens hp] at ht
  obtain ⟨hstream, hk⟩ := List.mem_filter.mp ht
  have hmem : t ∈ ts := (List.takeWhile_sublist _).subset hstream
  exact ⟨(course_of_tokenize hts).isRead t hmem hk, hk⟩

/-! ## Trees stand for one phrase -/

/-- Tokens with the same text are the same up to their positions. -/
def Agree (ts us : List Token) : Prop :=
  ∀ t ∈ ts, ∀ u ∈ us, u.value = t.value → u.unplaced = t.unplaced

section Agree

variable {ts us vs ws : List Token} {t u : Token}

theorem Agree.mono (h : Agree vs ws) (hts : ts ⊆ vs) (hus : us ⊆ ws) : Agree ts us :=
  fun t ht u hu => h t (hts ht) u (hus hu)

theorem Agree.left (h : Agree (ts ++ vs) (us ++ ws)) : Agree ts us :=
  h.mono (List.subset_append_left _ _) (List.subset_append_left _ _)

theorem Agree.right (h : Agree (ts ++ vs) (us ++ ws)) : Agree vs ws :=
  h.mono (List.subset_append_right _ _) (List.subset_append_right _ _)

theorem Agree.head (h : Agree (t :: ts) (u :: us)) (hv : u.value = t.value) :
    u.unplaced = t.unplaced :=
  h t List.mem_cons_self u List.mem_cons_self hv

theorem Agree.tail (h : Agree (t :: ts) (u :: us)) : Agree ts us :=
  h.mono (List.subset_cons_self t ts) (List.subset_cons_self u us)

end Agree

/-- Operators that are the same up to their positions are of one level. -/
theorem Level.eq_of_unplaced_eq {op op' : Token} {level level' : Level}
    (hop : op'.unplaced = op.unplaced) (hk : level.accepts op.kind = true)
    (hk' : level'.accepts op'.kind = true) : level = level' := by
  have hkinds := congrArg Token.kind hop
  have hkind : op'.kind = op.kind := hkinds
  rw [hkind] at hk'
  exact Level.eq_of_accepts hk hk'

/-- **A tree stands for one expression.** -/
theorem Expr.form_injective {e e' : Expr} (h : e'.form = e.form) (hw : e.IsWhole) (hw' : e'.IsWhole)
    (ha : Agree e.tokens e'.tokens) :
    e'.mapTokens Token.unplaced = e.mapTokens Token.unplaced := by
  induction e generalizing e' with
  | leaf t =>
    cases e' with
    | leaf u => exact congrArg Expr.leaf (ha.head (Form.leaf.inj h))
    | arith _ _ _ => cases h
    | compare _ _ _ => cases h
    | missing => cases h
  | arith left op right ihl ihr =>
    cases e' with
    | leaf u => cases h
    | arith left' op' right' =>
      obtain ⟨hop, hparts⟩ := Form.node.inj h
      obtain ⟨hl, hparts⟩ := List.cons.inj hparts
      obtain ⟨hr, -⟩ := List.cons.inj hparts
      rw [mapTokens, mapTokens, ihl hl hw.1 hw'.1 ha.left, ha.right.head hop,
        ihr hr hw.2.2 hw'.2.2 ha.right.tail]
    | compare left' op' right' =>
      have hop := ha.right.head (Form.node.inj h).1
      rcases hw.2.1 with hk | hk
      · cases Level.eq_of_unplaced_eq hop hk hw'.2.1
      · cases Level.eq_of_unplaced_eq hop hk hw'.2.1
    | missing => cases (Form.node.inj h).2
  | compare left op right ihl ihr =>
    cases e' with
    | leaf u => cases h
    | arith left' op' right' =>
      have hop := ha.right.head (Form.node.inj h).1
      rcases hw'.2.1 with hk | hk
      · cases Level.eq_of_unplaced_eq hop hw.2.1 hk
      · cases Level.eq_of_unplaced_eq hop hw.2.1 hk
    | compare left' op' right' =>
      obtain ⟨hop, hparts⟩ := Form.node.inj h
      obtain ⟨hl, hparts⟩ := List.cons.inj hparts
      obtain ⟨hr, -⟩ := List.cons.inj hparts
      rw [mapTokens, mapTokens, ihl hl hw.1 hw'.1 ha.left, ha.right.head hop,
        ihr hr hw.2.2 hw'.2.2 ha.right.tail]
    | missing => cases (Form.node.inj h).2
  | missing => cases hw

/-- The trees of some arguments stand for one list of arguments. -/
theorem Expr.forms_injective {es es' : List Expr} (h : es'.map Expr.form = es.map Expr.form)
    (hw : ∀ e ∈ es, e.IsWhole) (hw' : ∀ e ∈ es', e.IsWhole)
    (ha : Agree (es.flatMap Expr.tokens) (es'.flatMap Expr.tokens)) :
    es'.map (Expr.mapTokens Token.unplaced) = es.map (Expr.mapTokens Token.unplaced) := by
  induction es generalizing es' with
  | nil =>
    rw [List.map_eq_nil_iff.mp h]
  | cons e es ih =>
    cases es' with
    | nil => cases h
    | cons e' es' =>
      obtain ⟨he, hes⟩ := List.cons.inj h
      rw [List.forall_mem_cons] at hw hw'
      rw [List.map_cons, List.map_cons, Expr.form_injective he hw.1 hw'.1 ha.left,
        ih hes hw.2 hw'.2 ha.right]

namespace Stmt

mutual

/-- **A tree stands for one statement.** -/
theorem form_injective : ∀ {s s' : Stmt}, s'.form = s.form → s.IsWhole → s'.IsWhole →
    Agree s.tokens s'.tokens → s'.mapTokens Token.unplaced = s.mapTokens Token.unplaced
  | .assign target value, s', h, hw, hw', ha => by
    cases s' with
    | assign target' value' =>
      obtain ⟨-, hparts⟩ := Form.node.inj h
      obtain ⟨ht, hparts⟩ := List.cons.inj hparts
      obtain ⟨hv, -⟩ := List.cons.inj hparts
      rw [mapTokens, mapTokens, ha.head (Form.leaf.inj ht), Expr.form_injective hv hw hw' ha.tail]
    | missing => cases hw'
    | _ => exact absurd (Form.node.inj h).1 (by decide)
  | .call name args, s', h, hw, hw', ha => by
    cases s' with
    | call name' args' =>
      obtain ⟨-, hparts⟩ := Form.node.inj h
      obtain ⟨hn, hargs⟩ := List.cons.inj hparts
      rw [mapTokens, mapTokens, ha.head (Form.leaf.inj hn),
        Expr.forms_injective hargs hw hw' ha.tail]
    | missing => cases hw'
    | _ => exact absurd (Form.node.inj h).1 (by decide)
  | .ifThen cond body, s', h, hw, hw', ha => by
    cases s' with
    | ifThen cond' body' =>
      obtain ⟨-, hparts⟩ := Form.node.inj h
      obtain ⟨hc, hparts⟩ := List.cons.inj hparts
      obtain ⟨hb, -⟩ := List.cons.inj hparts
      rw [mapTokens, mapTokens, Expr.form_injective hc hw.1 hw'.1 ha.left,
        forms_injective (Form.node.inj hb).2 hw.2 hw'.2 ha.right]
    | ifElse cond' body' alt' =>
      exact absurd (congrArg List.length (Form.node.inj h).2) (by simp)
    | missing => cases hw'
    | _ => exact absurd (Form.node.inj h).1 (by decide)
  | .ifElse cond body alt, s', h, hw, hw', ha => by
    cases s' with
    | ifElse cond' body' alt' =>
      obtain ⟨-, hparts⟩ := Form.node.inj h
      obtain ⟨hc, hparts⟩ := List.cons.inj hparts
      obtain ⟨hb, hparts⟩ := List.cons.inj hparts
      obtain ⟨halt, -⟩ := List.cons.inj hparts
      rw [mapTokens, mapTokens, Expr.form_injective hc hw.1 hw'.1 ha.left,
        forms_injective (Form.node.inj hb).2 hw.2.1 hw'.2.1 ha.right.left,
        forms_injective (Form.node.inj halt).2 hw.2.2 hw'.2.2 ha.right.right]
    | ifThen cond' body' =>
      exact absurd (congrArg List.length (Form.node.inj h).2) (by simp)
    | missing => cases hw'
    | _ => exact absurd (Form.node.inj h).1 (by decide)
  | .loop cond body, s', h, hw, hw', ha => by
    cases s' with
    | loop cond' body' =>
      obtain ⟨-, hparts⟩ := Form.node.inj h
      obtain ⟨hc, hparts⟩ := List.cons.inj hparts
      obtain ⟨hb, -⟩ := List.cons.inj hparts
      rw [mapTokens, mapTokens, Expr.form_injective hc hw.1 hw'.1 ha.left,
        forms_injective (Form.node.inj hb).2 hw.2 hw'.2 ha.right]
    | missing => cases hw'
    | _ => exact absurd (Form.node.inj h).1 (by decide)
  | .missing, _, _, hw, _, _ => hw.elim

theorem forms_injective : ∀ {ss ss' : List Stmt}, forms ss' = forms ss → AreWhole ss →
    AreWhole ss' → Agree (tokensOf ss) (tokensOf ss') →
    mapAll Token.unplaced ss' = mapAll Token.unplaced ss
  | [], [], _, _, _, _ => rfl
  | [], _ :: _, h, _, _, _ => by cases h
  | _ :: _, [], h, _, _, _ => by cases h
  | s :: ss, s' :: ss', h, hw, hw', ha => by
    obtain ⟨hs, hss⟩ := List.cons.inj h
    rw [mapAll, mapAll, form_injective hs hw.1 hw'.1 ha.left,
      forms_injective hss hw.2 hw'.2 ha.right]

end

end Stmt

/-- **Programs with the same S-expression are the same up to positions.** -/
theorem unplaced_eq_of_sexpr_eq {tab tab' : TabWidth} {src src' : Text} {p p' : Program}
    (hp : parse tab src = .ok p) (hp' : parse tab' src' = .ok p') (h : p'.sexpr = p.sexpr) :
    p'.unplaced = p.unplaced := by
  have hread := isRead_of_parse hp
  have hread' := isRead_of_parse hp'
  have hforms : Stmt.forms p' = Stmt.forms p :=
    Stmt.forms_eq_of_sexpr_eq (fun t ht => (hread' t ht).1.isAtom (hread' t ht).2)
      (fun t ht => (hread t ht).1.isAtom (hread t ht).2) h
  obtain ⟨ts, -, hts⟩ := parse_eq_ok.mp hp
  obtain ⟨us, -, hus⟩ := parse_eq_ok.mp hp'
  exact Stmt.forms_injective hforms (areWhole_of_parseTokens hts) (areWhole_of_parseTokens hus)
    fun t ht u hu hv => unplaced_eq_of_value_eq (hread t ht).1 (hread' u hu).1 hv

/-- **The S-expression determines the program.** Two programs of sources have the same S-expression
if and only if they are the same up to the positions of their tokens: they have the same statements,
with the same nesting and the same blocks, and the same operators, names and numbers. -/
theorem sexpr_eq_iff_unplaced_eq {tab tab' : TabWidth} {src src' : Text} {p p' : Program}
    (hp : parse tab src = .ok p) (hp' : parse tab' src' = .ok p') :
    p'.sexpr = p.sexpr ↔ p'.unplaced = p.unplaced := by
  refine ⟨unplaced_eq_of_sexpr_eq hp hp', fun h => ?_⟩
  have hsexpr (q : Program) : q.unplaced.sexpr = q.sexpr := q.sexpr_relocate fun _ => .unset
  rw [← hsexpr, h, hsexpr]

/-! ## Two layouts of one program -/

/-- A suite on the line of its header, and names that are spelled like the words of
S-expressions. -/
def shortSource : String := "call = 1\nif call: block(call, 2)"

/-- The program of the source. -/
def shortProgram : Program :=
  [.assign (.plain .identifier "call" ⟨0, 1, 1⟩) (.leaf ⟨.number, "1", 1, ⟨7, 1, 8⟩⟩),
   .ifThen (.leaf (.plain .identifier "call" ⟨12, 2, 4⟩))
    [.call (.plain .identifier "block" ⟨18, 2, 10⟩)
      [.leaf (.plain .identifier "call" ⟨24, 2, 16⟩), .leaf ⟨.number, "2", 2, ⟨30, 2, 22⟩⟩]]]

/-- The same with parentheses, a comment, an indented block and a call over two lines. -/
def longSource : String := "call = (1) # c\nif (call):\n\tblock(call,\n 2)"

/-- The program of this source. -/
def longProgram : Program :=
  [.assign (.plain .identifier "call" ⟨0, 1, 1⟩) (.leaf ⟨.number, "1", 1, ⟨8, 1, 9⟩⟩),
   .ifThen (.leaf (.plain .identifier "call" ⟨19, 2, 5⟩))
    [.call (.plain .identifier "block" ⟨27, 3, 2⟩)
      [.leaf (.plain .identifier "call" ⟨33, 3, 8⟩), .leaf ⟨.number, "2", 2, ⟨40, 4, 2⟩⟩]]]

theorem parse_short : parse .standard (Text.ofString shortSource) = .ok shortProgram := by
  have htokens : tokenize .standard (Text.ofString shortSource) = .ok
      [.plain .identifier "call" ⟨0, 1, 1⟩, .plain .assign "=" ⟨5, 1, 6⟩,
       ⟨.number, "1", 1, ⟨7, 1, 8⟩⟩, .plain .ifWord "if" ⟨9, 2, 1⟩,
       .plain .identifier "call" ⟨12, 2, 4⟩, .plain .colon ":" ⟨16, 2, 8⟩,
       .plain .identifier "block" ⟨18, 2, 10⟩, .plain .openParen "(" ⟨23, 2, 15⟩,
       .plain .identifier "call" ⟨24, 2, 16⟩, .plain .comma "," ⟨28, 2, 20⟩,
       ⟨.number, "2", 2, ⟨30, 2, 22⟩⟩, .plain .closeParen ")" ⟨31, 2, 23⟩, .eofAt ⟨32, 2, 24⟩] :=
    tokenize_of_steps 40 (by decide +kernel) (by decide +kernel)
  exact parse_eq_ok.mpr ⟨_, htokens, by decide +kernel⟩

theorem parse_long : parse ⟨4, by decide⟩ (Text.ofString longSource) = .ok longProgram := by
  have htokens : tokenize ⟨4, by decide⟩ (Text.ofString longSource) = .ok
      [.plain .identifier "call" ⟨0, 1, 1⟩, .plain .assign "=" ⟨5, 1, 6⟩,
       .plain .openParen "(" ⟨7, 1, 8⟩, ⟨.number, "1", 1, ⟨8, 1, 9⟩⟩,
       .plain .closeParen ")" ⟨9, 1, 10⟩, .plain .ifWord "if" ⟨15, 2, 1⟩,
       .plain .openParen "(" ⟨18, 2, 4⟩, .plain .identifier "call" ⟨19, 2, 5⟩,
       .plain .closeParen ")" ⟨23, 2, 9⟩, .plain .colon ":" ⟨24, 2, 10⟩,
       .plain .indent [] ⟨27, 3, 2⟩, .plain .identifier "block" ⟨27, 3, 2⟩,
       .plain .openParen "(" ⟨32, 3, 7⟩, .plain .identifier "call" ⟨33, 3, 8⟩,
       .plain .comma "," ⟨37, 3, 12⟩, ⟨.number, "2", 2, ⟨40, 4, 2⟩⟩,
       .plain .closeParen ")" ⟨41, 4, 3⟩, .plain .dedent [] ⟨42, 4, 4⟩, .eofAt ⟨42, 4, 4⟩] :=
    tokenize_of_steps 50 (by decide +kernel) (by decide +kernel)
  exact parse_eq_ok.mpr ⟨_, htokens, by decide +kernel⟩

theorem sexpr_long : longProgram.sexpr = shortProgram.sexpr := by
  decide +kernel

/-- The two layouts spell one program. -/
theorem sexpr_eq_iff_unplaced_eq_long :
    parse .standard (Text.ofString shortSource) = .ok shortProgram ∧
      parse ⟨4, by decide⟩ (Text.ofString longSource) = .ok longProgram ∧
      longProgram.unplaced = shortProgram.unplaced :=
  ⟨parse_short, parse_long, (sexpr_eq_iff_unplaced_eq parse_short parse_long).mp sexpr_long⟩

end Offside
