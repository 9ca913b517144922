import Offside.Program.SExpr
import Offside.Proofs.Grammar.Kept

/-!
# S-expressions as trees

`Program.sexpr` (`String` of the `AST`, specification 3) as the text of a tree, and when a tree can
be read off its text.

What a program is written as is a tree: a leaf is a name or a number, and a node is a word or an
operator with its parts. A node is written in parentheses with a blank in front of each part. If no
blank, line feed or parenthesis stands within a leaf or a word, then the tree can be read off its
text, and the text of a tree ends where it ends: so it does not matter that the number of parts is
not written, or that a name may be spelled like the word of a node.

* `Form` is such a tree, and `Form.text` its text.
* `Text.IsAtom` is the condition on the texts of leaves and words, `Form.Plain` the same for all of
  a tree.
* `Ends` and `Closes` are what may stand behind a tree, and behind the last part of a node.
* `Expr.form`, `Stmt.form` and `Stmt.forms` are the trees of programs.

Results:
* `Form.text_unique`: two trees in front of more text are equal if the texts are, and they end at
  the same place. The induction is on the first tree.
* `Form.behind_unique`: so are two lists of trees.
* `Stmt.text_form`: the S-expression of a statement is the text of a tree.
* `forms_eq_of_sexpr_eq`: programs with the same S-expression have the same trees.
-/

namespace Offside

/-- A tree with words and operators at its nodes. -/
inductive Form where
  | leaf (text : Text)
  | node (head : Text) (parts : List Form)

/-- The opening parenthesis. -/
def Text.opening : UInt8 := 0x28

/-- The closing parenthesis. -/
def Text.closing : UInt8 := 0x29

/-- Neither a separator nor a parenthesis stands in the text. -/
def Text.IsAtom (t : Text) : Prop :=
  ∀ b ∈ t, b ∉ [newline, blank, closing, opening]

instance (t : Text) : Decidable t.IsAtom :=
  List.decidableBAll _ t

namespace Form

mutual

/-- The text of a tree. -/
def text : Form → Text
  | .leaf text => text
  | .node head parts => Text.opening :: (head ++ (behind Text.blank parts ++ [Text.closing]))

/-- The texts of some trees, each behind a separator. -/
def behind (sep : UInt8) : List Form → Text
  | [] => []
  | f :: fs => sep :: (f.text ++ behind sep fs)

end

mutual

/-- The leaves and words of a tree are free of separators and parentheses. -/
def Plain : Form → Prop
  | .leaf text => text.IsAtom
  | .node head parts => head.IsAtom ∧ ArePlain parts

/-- The leaves and words of some trees are free of separators and parentheses. -/
def ArePlain : List Form → Prop
  | [] => True
  | f :: fs => f.Plain ∧ ArePlain fs

end

/-! ## The text determines the tree -/

/-- What may stand behind a tree: a separator, a closing parenthesis, or nothing. -/
def Ends (rest : Text) : Prop :=
  ∀ b ∈ rest.head?, b ∈ [Text.newline, Text.blank, Text.closing]

/-- What may stand behind the last part of a node or the last statement of a program. -/
def Closes (rest : Text) : Prop :=
  ∀ b ∈ rest.head?, b = Text.closing

theorem Closes.ends {rest : Text} (h : Closes rest) : Ends rest := by
  intro b hb
  rw [h b hb]
  decide

theorem ends_behind {sep : UInt8} (hsep : sep ∈ [Text.newline, Text.blank]) {rest : Text}
    (h : Closes rest) (fs : List Form) : Ends (behind sep fs ++ rest) := by
  cases fs with
  | nil => exact h.ends
  | cons f fs =>
    intro b hb
    rw [← Option.some.inj hb]
    exact List.mem_append_left [Text.closing] hsep

/-- No byte of an atom is one that may stand behind it. -/
theorem not_ends_of_isAtom {b : UInt8} {t rest : Text} (h : Text.IsAtom (b :: t)) :
    ¬ Ends (b :: rest) := by
  intro hends
  exact h b List.mem_cons_self (List.mem_append_left [Text.opening] (hends b rfl))

/-- Where an atom ends is known from what it is made of. -/
theorem atom_unique {t u rest rest' : Text} (ht : t.IsAtom) (hu : u.IsAtom) (hrest : Ends rest)
    (hrest' : Ends rest') (h : t ++ rest = u ++ rest') : t = u ∧ rest = rest' := by
  induction t generalizing u with
  | nil =>
    cases u with
    | nil => exact ⟨rfl, h⟩
    | cons b u =>
      rw [List.nil_append] at h
      exact absurd (h ▸ hrest) (not_ends_of_isAtom hu)
  | cons b t ih =>
    cases u with
    | nil =>
      rw [List.nil_append] at h
      exact absurd (h ▸ hrest') (not_ends_of_isAtom ht)
    | cons c u =>
      obtain ⟨rfl, hmore⟩ := List.cons.inj h
      obtain ⟨rfl, hr⟩ := ih (List.forall_mem_cons.mp ht).2 (List.forall_mem_cons.mp hu).2 hmore
      exact ⟨rfl, hr⟩

/-- A tree with a node at its root begins with a parenthesis, which no leaf does. -/
theorem leaf_ne_node {t rest more : Text} (ht : t.IsAtom) (hrest : Ends rest) :
    t ++ rest ≠ Text.opening :: more := by
  intro h
  cases t with
  | nil =>
    rw [List.nil_append] at h
    rw [h] at hrest
    exact absurd (hrest _ rfl) (by decide)
  | cons b t =>
    rw [List.cons_append] at h
    obtain ⟨rfl, -⟩ := List.cons.inj h
    exact ht _ List.mem_cons_self (by decide)

/-- A separator does not close a node. -/
theorem not_closes_of_sep {sep : UInt8} (hsep : sep ∈ [Text.newline, Text.blank]) (rest : Text) :
    ¬ Closes (sep :: rest) := by
  intro h
  rw [h sep rfl] at hsep
  exact absurd hsep (by decide)

mutual

/-- **The text of a tree determines the tree and where it ends.** -/
theorem text_unique : ∀ {f g : Form} {rest rest' : Text}, f.Plain → g.Plain → Ends rest →
    Ends rest' → f.text ++ rest = g.text ++ rest' → f = g ∧ rest = rest'
  | .leaf t, .leaf u, rest, rest', hf, hg, hr, hr', h => by
    obtain ⟨rfl, hrest⟩ := atom_unique hf hg hr hr' h
    exact ⟨rfl, hrest⟩
  | .leaf t, .node head parts, rest, rest', hf, hg, hr, hr', h => by
    exact absurd h (leaf_ne_node hf hr)
  | .node head parts, .leaf u, rest, rest', hf, hg, hr, hr', h => by
    exact absurd h.symm (leaf_ne_node hg hr')
  | .node head parts, .node head' parts', rest, rest', hf, hg, hr, hr', h => by
    simp only [text, List.cons_append, List.append_assoc, List.cons.injEq, true_and,
      List.nil_append] at h
    have hclose (rest : Text) : Closes (Text.closing :: rest) :=
      fun b hb => (Option.some.inj hb).symm
    obtain ⟨rfl, hbehind⟩ := atom_unique hf.1 hg.1 (ends_behind (by decide) (hclose rest) parts)
      (ends_behind (by decide) (hclose rest') parts') h
    obtain ⟨rfl, hrest⟩ := behind_unique (by decide) hf.2 hg.2 (hclose rest) (hclose rest') hbehind
    exact ⟨rfl, (List.cons.inj hrest).2⟩

/-- **The texts of some trees determine the trees**, how many there are, and where they end. -/
theorem behind_unique {sep : UInt8} (hsep : sep ∈ [Text.newline, Text.blank]) :
    ∀ {fs gs : List Form} {rest rest' : Text}, ArePlain fs → ArePlain gs → Closes rest →
      Closes rest' → behind sep fs ++ rest = behind sep gs ++ rest' → fs = gs ∧ rest = rest'
  | [], [], rest, rest', _, _, _, _, h => ⟨rfl, h⟩
  | [], g :: gs, rest, rest', _, _, hr, _, h => by
    rw [behind, List.nil_append, behind, List.cons_append] at h
    exact absurd (h ▸ hr) (not_closes_of_sep hsep _)
  | f :: fs, [], rest, rest', _, _, _, hr', h => by
    rw [behind, behind, List.nil_append, List.cons_append] at h
    exact absurd (h ▸ hr') (not_closes_of_sep hsep _)
  | f :: fs, g :: gs, rest, rest', hf, hg, hr, hr', h => by
    simp only [behind, List.cons_append, List.append_assoc, List.cons.injEq, true_and] at h
    obtain ⟨rfl, hmore⟩ :=
      text_unique hf.1 hg.1 (ends_behind hsep hr fs) (ends_behind hsep hr' gs) h
    obtain ⟨rfl, hrest⟩ := behind_unique hsep hf.2 hg.2 hr hr' hmore
    exact ⟨rfl, hrest⟩

end

/-! ## S-expressions are texts of trees -/

/-- Texts with a separator between them are the first one and the others, each behind a
separator. -/
theorem join_text (sep : UInt8) (t : Text) (fs : List Form) :
    Text.join [sep] (t :: fs.map text) = t ++ behind sep fs := by
  induction fs generalizing t with
  | nil => simp [Text.join, behind]
  | cons f fs ih =>
    have hrest := ih f.text
    rw [Text.join, List.map_cons, List.intercalate_cons_cons]
    rw [Text.join] at hrest
    rw [hrest, behind]
    simp

/-- A node is a list of texts in parentheses. -/
theorem parenthesised_text (head : Text) (parts : List Form) :
    parenthesised (head :: parts.map text) = (node head parts).text := by
  have hsep : Text.ofString " " = [Text.blank] := by decide
  have hopening : Text.ofString "(" = [Text.opening] := by decide
  have hclosing : Text.ofString ")" = [Text.closing] := by decide
  rw [parenthesised, hsep, hopening, hclosing, join_text, text, List.append_assoc,
    List.append_assoc, List.singleton_append]

end Form

open Form (Plain ArePlain)

/-- The tree of an expression. -/
def Expr.form : Expr → Form
  | .leaf token => .leaf token.value
  | .arith left op right | .compare left op right => .node op.value [left.form, right.form]
  | .missing => .node [] []

namespace Stmt

mutual

/-- The tree of a statement. -/
def form : Stmt → Form
  | .assign target value => .node "=" [.leaf target.value, value.form]
  | .call name args => .node "call" (.leaf name.value :: args.map Expr.form)
  | .ifThen cond body => .node "if" [cond.form, .node "block" (forms body)]
  | .ifElse cond body alt =>
    .node "if" [cond.form, .node "block" (forms body), .node "block" (forms alt)]
  | .loop cond body => .node "while" [cond.form, .node "block" (forms body)]
  | .missing => .node [] []

/-- The trees of some statements. -/
def forms : List Stmt → List Form
  | [] => []
  | s :: ss => s.form :: forms ss

end

end Stmt

/-- The S-expression of an expression is the text of its tree. -/
theorem Expr.text_form (e : Expr) : e.form.text = e.sexpr := by
  induction e with
  | leaf token => rfl
  | arith left op right ihl ihr | compare left op right ihl ihr =>
    rw [form, sexpr, ← Form.parenthesised_text, List.map_cons, List.map_cons, List.map_nil, ihl,
      ihr]
  | missing => rfl

namespace Stmt

/-- A block with the trees of its statements. -/
theorem blockOf_text (fs : List Form) : blockOf (fs.map Form.text) = (Form.node "block" fs).text :=
  Form.parenthesised_text "block" fs

mutual

/-- **The S-expression of a statement is the text of its tree.** -/
theorem text_form : ∀ s : Stmt, s.form.text = s.sexpr
  | .assign target value => by
    rw [form, sexpr, ← Form.parenthesised_text, ← value.text_form]
    rfl
  | .call name args => by
    rw [form, sexpr, ← Form.parenthesised_text, List.map_cons, List.map_map,
      List.map_congr_left fun e _ => e.text_form]
    rfl
  | .ifThen cond body => by
    rw [form, sexpr, ← Form.parenthesised_text, ← cond.text_form, ← texts_forms body, blockOf_text]
    rfl
  | .ifElse cond body alt => by
    rw [form, sexpr, ← Form.parenthesised_text, ← cond.text_form, ← texts_forms body,
      ← texts_forms alt, blockOf_text, blockOf_text]
    rfl
  | .loop cond body => by
    rw [form, sexpr, ← Form.parenthesised_text, ← cond.text_form, ← texts_forms body, blockOf_text]
    rfl
  | .missing => rfl

theorem texts_forms : ∀ ss : List Stmt, (forms ss).map Form.text = sexprs ss
  | [] => rfl
  | s :: ss => by
    rw [forms, sexprs, List.map_cons, text_form s, texts_forms ss]

end

end Stmt

/-! ## Trees whose tokens are free of separators -/

/-- The texts of some tokens are free of separators and parentheses. -/
def Atoms (ts : List Token) : Prop :=
  ∀ t ∈ ts, t.value.IsAtom

theorem atoms_append {ts us : List Token} : Atoms (ts ++ us) ↔ Atoms ts ∧ Atoms us :=
  List.forall_mem_append

theorem atoms_cons {t : Token} {ts : List Token} : Atoms (t :: ts) ↔ t.value.IsAtom ∧ Atoms ts :=
  List.forall_mem_cons

theorem Form.arePlain_iff {fs : List Form} : ArePlain fs ↔ ∀ f ∈ fs, f.Plain := by
  induction fs with
  | nil => simp [ArePlain]
  | cons f fs ih => rw [ArePlain, ih, List.forall_mem_cons]

theorem Expr.plain_form {e : Expr} (h : Atoms e.tokens) : e.form.Plain := by
  induction e with
  | leaf token => exact h token (List.mem_singleton_self token)
  | arith left op right ihl ihr | compare left op right ihl ihr =>
    obtain ⟨hl, hop, hr⟩ := (atoms_append.trans (and_congr_right fun _ => atoms_cons)).mp h
    exact ⟨hop, ihl hl, ihr hr, trivial⟩
  | missing => exact ⟨List.forall_mem_nil _, trivial⟩

namespace Stmt

mutual

theorem plain_form : ∀ {s : Stmt}, Atoms s.tokens → s.form.Plain
  | .assign target value, h => by
    obtain ⟨ht, hv⟩ := atoms_cons.mp h
    exact ⟨by decide, ht, value.plain_form hv, trivial⟩
  | .call name args, h => by
    obtain ⟨hn, hargs⟩ := atoms_cons.mp h
    refine ⟨by decide, hn, Form.arePlain_iff.mpr (List.forall_mem_map.mpr fun e he => ?_)⟩
    exact e.plain_form fun t ht => hargs t (List.mem_flatMap.mpr ⟨e, he, ht⟩)
  | .ifThen cond body, h | .loop cond body, h => by
    obtain ⟨hc, hb⟩ := atoms_append.mp h
    exact ⟨by decide, cond.plain_form hc, ⟨by decide, arePlain_forms hb⟩, trivial⟩
  | .ifElse cond body alt, h => by
    obtain ⟨hc, h⟩ := atoms_append.mp h
    obtain ⟨hb, ha⟩ := atoms_append.mp h
    exact ⟨by decide, cond.plain_form hc, ⟨by decide, arePlain_forms hb⟩,
      ⟨by decide, arePlain_forms ha⟩, trivial⟩
  | .missing, _ => ⟨List.forall_mem_nil _, trivial⟩

theorem arePlain_forms : ∀ {ss : List Stmt}, Atoms (tokensOf ss) → ArePlain (forms ss)
  | [], _ => trivial
  | s :: ss, h => by
    obtain ⟨hs, hss⟩ := atoms_append.mp h
    exact ⟨plain_form hs, arePlain_forms hss⟩

end

theorem text_form_ne_nil (s : Stmt) : s.form.text ≠ [] := by
  cases s <;> exact List.cons_ne_nil _ _

/-- The statements of a program are written behind each other with a line feed in between. -/
theorem newline_sexpr (s : Stmt) (ss : List Stmt) : Text.newline :: Program.sexpr (s :: ss) =
    Form.behind Text.newline (forms (s :: ss)) := by
  have hline : Text.ofString "\n" = [Text.newline] := by decide
  rw [Program.sexpr, hline, sexprs, ← texts_forms ss, Form.join_text, forms, Form.behind, text_form]

/-- **Programs with the same S-expression have the same trees.** -/
theorem forms_eq_of_sexpr_eq {p q : Program} (hp : Atoms (tokensOf p)) (hq : Atoms (tokensOf q))
    (h : p.sexpr = q.sexpr) : forms p = forms q := by
  -- a statement takes up some of the line
  have hnil (s : Stmt) (ss : List Stmt) : Program.sexpr (s :: ss) ≠ Program.sexpr [] := by
    intro hs
    have hlines := newline_sexpr s ss
    rw [hs, forms, Form.behind] at hlines
    have hempty : [] = s.form.text ++ Form.behind Text.newline (forms ss) :=
      (List.cons.inj hlines).2
    exact s.text_form_ne_nil (List.append_eq_nil_iff.mp hempty.symm).1
  cases p with
  | nil =>
    cases q with
    | nil => rfl
    | cons s ss => exact absurd h.symm (hnil s ss)
  | cons s ss =>
    cases q with
    | nil => exact absurd h (hnil s ss)
    | cons t ts =>
      have hbehind : Form.behind Text.newline (forms (s :: ss)) ++ [] =
          Form.behind Text.newline (forms (t :: ts)) ++ [] := by
        rw [← newline_sexpr, ← newline_sexpr, h]
      have hend : Form.Closes [] := fun b hb => absurd hb (Option.not_mem_none b)
      exact (Form.behind_unique (by decide) (arePlain_forms hp) (arePlain_forms hq) hend hend
        hbehind).1

end Stmt

end Offside
