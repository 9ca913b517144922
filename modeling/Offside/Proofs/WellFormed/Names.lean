import Mathlib.Data.List.Nodup
import Mathlib.Logic.Function.Basic
import Offside.Frontend
import Offside.Ir.Name
import Offside.Proofs.Grammar.Derivation
import Offside.Proofs.Lexer.Cut
import Offside.Proofs.Render.Legible
import Offside.Proofs.Text.Space
import Offside.Proofs.WellFormed.Code

/-!
# Names that mean one thing

The part of `Module.WellFormed` that is about names as `Ir/Name` prints them.

The name of a block is made of a word for its part of the statement and the number of the statement,
so it is different from the names of all other blocks; it ends in a digit, or is `entry`, and so it
is no name of a slot. The functions that a module declares are called in the program. A name in a
source begins with a letter or an underscore, so no function has the name of the format.

* `Label.stem` is what the name of a block says about its part of the statement; the first seven
  bytes of the name tell it.
* `Stmt.callees` are the names of the functions that a statement calls, and `Declared` says that
  every function of a builder is declared once, has a free name and is one of those.

Results:
* `Label.name_injective`, `Label.name_ne_slot`: names of blocks and slots.
* `Builder.lowerStmts_declared`: the functions that lowering declares are functions that the program
  calls.
* `callees_of_parse`: the functions that a parsed program calls have names of the source, which
  begin with no period.
-/

namespace Offside

/-! ## Numerals -/

/-- A digit is found again from its byte. -/
theorem Text.ofNat_chars (n : Nat) :
    (Text.ofNat n).map (fun byte => Char.ofNat byte.toNat) = Nat.toDigits 10 n := by
  unfold Text.ofNat
  rw [List.map_map, List.map_congr_left (g := id), List.map_id]
  intro c hc
  have hd : c.isDigit = true := Nat.isDigit_of_mem_toDigits (by decide) (by decide) hc
  have hle : c.val.toNat ≤ 57 := (Char.isDigit_iff_toNat.mp hd).2
  have hbyte : c.val.toUInt8.toNat = c.toNat := by
    rw [UInt32.toNat_toUInt8]
    exact Nat.mod_eq_of_lt (by omega)
  rw [Function.comp_apply, hbyte, Char.ofNat_toNat]
  rfl

theorem Text.ofNat_injective : Function.Injective Text.ofNat := by
  intro m n h
  have hm := Nat.ofDigitChars_toDigits (b := 10) (n := m) (by decide) (by decide)
  have hn := Nat.ofDigitChars_toDigits (b := 10) (n := n) (by decide) (by decide)
  rw [← Text.ofNat_chars, h, Text.ofNat_chars] at hm
  exact hm.symm.trans hn

namespace Ir

/-! ## Blocks and slots -/

/-- What the name of a block says about its part of the statement. -/
def Label.stem : Label → Text
  | entry => "entry"
  | ifThen _ => "if.then."
  | ifElse _ => "if.else."
  | ifEnd _ => "if.end."
  | whileCond _ => "while.cond."
  | whileBody _ => "while.body."
  | whileEnd _ => "while.end."

/-- Seven bytes of the name of a block tell its part of the statement. -/
theorem Label.take_name (ℓ : Label) : ℓ.name.take 7 = ℓ.stem.take 7 := by
  cases ℓ <;> rfl

theorem Label.name_injective : Function.Injective Label.name := by
  intro ℓ ℓ' h
  have hstem : ℓ.stem.take 7 = ℓ'.stem.take 7 := by
    rw [← take_name, h, take_name]
  cases ℓ <;> cases ℓ' <;> first
    | rfl
    | exact congrArg _ (Text.ofNat_injective (List.append_cancel_left h))
    | exact absurd hstem (by simp only [stem]; decide)

/-- A numeral ends in a digit. -/
theorem getLast?_ofNat (n : Nat) : ∃ byte, (Text.ofNat n).getLast? = some byte ∧ byte ≤ 0x39 := by
  have hne : Text.ofNat n ≠ [] := by
    simp [Text.ofNat, Nat.toDigits_ne_nil]
  obtain ⟨byte, hb⟩ := Option.isSome_iff_exists.mp (List.getLast?_isSome.mpr hne)
  refine ⟨byte, hb, ?_⟩
  obtain ⟨c, hc, rfl⟩ := List.mem_map.mp (List.mem_of_getLast? hb)
  have hd : c.isDigit = true := Nat.isDigit_of_mem_toDigits (by decide) (by decide) hc
  have hle : c.val.toNat ≤ 57 := (Char.isDigit_iff_toNat.mp hd).2
  rw [UInt8.le_iff_toNat_le, UInt32.toNat_toUInt8, Nat.mod_eq_of_lt (by omega)]
  exact hle

theorem Label.getLast?_name (ℓ : Label) : ∃ byte, ℓ.name.getLast? = some byte ∧ byte ≠ 0x72 := by
  cases ℓ with
  | entry => exact ⟨0x79, rfl, by decide⟩
  | _ n =>
    obtain ⟨byte, hb, hle⟩ := getLast?_ofNat n
    refine ⟨byte, ?_, ?_⟩
    · unfold name
      rw [List.getLast?_append, hb, Option.some_or]
    · rintro rfl
      exact absurd hle (by decide)

/-- The name of a block is no name of a slot. -/
theorem Label.name_ne_slot (ℓ : Label) (v : Text) : ℓ.name ≠ v ++ Text.ofString ".addr" := by
  intro h
  obtain ⟨byte, hb, hne⟩ := ℓ.getLast?_name
  rw [h, List.getLast?_append, show (Text.ofString ".addr").getLast? = some 0x72 from rfl,
    Option.some_or] at hb
  exact hne (Option.some.inj hb).symm

end Ir

/-! ## Functions -/

namespace Stmt

mutual

/-- The names of the functions that a statement calls. -/
def callees : Stmt → List Text
  | .call name _ => [name.value]
  | .ifThen _ body | .loop _ body => calleesOf body
  | .ifElse _ body alt => calleesOf body ++ calleesOf alt
  | .assign _ _ | .missing => []

/-- The names of the functions that some statements call. -/
def calleesOf : List Stmt → List Text
  | [] => []
  | s :: ss => s.callees ++ calleesOf ss

end

end Stmt

namespace Ir

/-- Every function is declared once, its name is free, and it is one of those that are called. -/
structure Declared (callees : List Text) (externals : Lookup Nat) : Prop where
  nodup : externals.names.Nodup
  free : ∀ name ∈ externals.names, name ≠ printName ∧ name ∉ reservedNames
  called : ∀ name ∈ externals.names, name ∈ callees

theorem Declared.set {callees : List Text} {externals : Lookup Nat} (h : Declared callees externals)
    {name : Text} (hfree : name ≠ printName ∧ name ∉ reservedNames) (hm : name ∈ callees)
    (n : Nat) :
    Declared callees (externals.set name n) := by
  have hnames := externals.names_set name n
  by_cases hin : name ∈ externals.names
  · rw [if_pos hin] at hnames
    exact ⟨hnames ▸ h.nodup, hnames ▸ h.free, hnames ▸ h.called⟩
  · rw [if_neg hin] at hnames
    refine ⟨?_, ?_, ?_⟩
    · rw [hnames, ← List.concat_eq_append]
      exact h.nodup.concat hin
    · rw [hnames]
      exact List.forall_mem_append.mpr ⟨h.free, List.forall_mem_singleton.mpr hfree⟩
    · rw [hnames]
      exact List.forall_mem_append.mpr ⟨h.called, List.forall_mem_singleton.mpr hm⟩

namespace Builder

variable {b b' : Builder} {callees : List Text}

/-- A call declares its function unless that is the one that prints. -/
theorem declared_declare (h : Declared callees b.externals) {name : Text}
    (hr : name ∉ reservedNames) (hm : name ∈ callees) (n : Nat) :
    Declared callees (b.declare name n).2.externals := by
  unfold declare
  split
  · exact h
  · rename_i hnone
    have hp : name ≠ printName := by
      rintro rfl
      exact absurd hnone (by simp [arity?])
    exact h.set ⟨hp, hr⟩ hm n

theorem lowerCall_declared {name : Token} {args : List Expr} (h : Declared callees b.externals)
    (hm : name.value ∈ callees) (hl : b.lowerCall name args = .ok b') :
    Declared callees b'.externals := by
  obtain ⟨hr, -, xs, b₁, h₁, rfl⟩ := lowerCall_parts hl
  have hd := declared_declare h hr hm args.length
  rw [← lowerExprs_externals h₁] at hd
  split
  · exact hd
  · exact hd

mutual

/-- **A statement declares functions that it calls.** -/
theorem lowerStmt_declared : ∀ {s : Stmt} {b b' : Builder}, Declared callees b.externals →
    s.callees ⊆ callees → b.lowerStmt s = .ok b' → Declared callees b'.externals
  | .assign target e, b, b', h, _, hl => by
    obtain ⟨x, b₁, h₁, rfl⟩ := lowerStmt_assign hl
    have hsame : (b₁.ensureSlot target.value).externals = b.externals := by
      rw [← lowerExpr_externals h₁]
      unfold ensureSlot
      split
      · rfl
      · rfl
    show Declared callees (b₁.ensureSlot target.value).externals
    rwa [hsame]
  | .call name args, b, b', h, hs, hl => lowerCall_declared h (hs (by simp [Stmt.callees])) hl
  | .ifThen cond body, b, b', h, hs, hl => by
    obtain ⟨bit, b₁, b₂, n, h₁, -, h₂, rfl⟩ := lowerStmt_ifThen hl
    rw [← lowerCond_externals h₁] at h
    have hd₂ : Declared callees b₂.externals :=
      lowerStmts_declared (b := (b₁.fork _ _).enter _) h hs h₂
    exact hd₂
  | .ifElse cond body alt, b, b', h, hs, hl => by
    obtain ⟨bit, b₁, b₂, b₃, n, h₁, -, h₂, h₃, rfl⟩ := lowerStmt_ifElse hl
    rw [← lowerCond_externals h₁] at h
    simp only [Stmt.callees, List.append_subset] at hs
    have hd₂ : Declared callees b₂.externals :=
      lowerStmts_declared (b := (b₁.fork _ _).enter _) h hs.1 h₂
    have hd₃ : Declared callees b₃.externals :=
      lowerStmts_declared (b := (b₂.leave _).enter _) hd₂ hs.2 h₃
    exact hd₃
  | .loop cond body, b, b', h, hs, hl => by
    obtain ⟨bit, b₁, b₂, n, -, h₁, h₂, rfl⟩ := lowerStmt_loop hl
    have hd₁ : Declared callees b₁.externals := by
      rw [lowerCond_externals h₁]
      exact h
    have hd₂ : Declared callees b₂.externals :=
      lowerStmts_declared (b := (b₁.leave _).enter _) hd₁ hs h₂
    exact hd₂
  | .missing, b, b', _, _, hl => by
    unfold lowerStmt at hl
    exact absurd hl (by simp)

/-- **Statements declare functions that they call.** -/
theorem lowerStmts_declared : ∀ {ss : List Stmt} {b b' : Builder}, Declared callees b.externals →
    Stmt.calleesOf ss ⊆ callees → b.lowerStmts ss = .ok b' → Declared callees b'.externals
  | [], b, b', h, _, hl => by
    obtain rfl := Except.ok.inj hl
    exact h
  | s :: ss, b, b', h, hs, hl => by
    obtain ⟨b₁, h₁, h₂⟩ := lowerStmts_cons hl
    simp only [Stmt.calleesOf, List.append_subset] at hs
    exact lowerStmts_declared (lowerStmt_declared h hs.1 h₁) hs.2 h₂

end

end Builder

end Ir

/-! ## The names in a source -/

namespace Grammar

mutual

/-- A statement calls functions whose names are among its tokens. -/
theorem Statement.callees : ∀ (s : Statement), ∀ name ∈ s.stmt.callees,
    ∃ t ∈ s.tokens, t.kind = .identifier ∧ t.value = name
  | .assign target sign value, name, h => by
    exact absurd h (by simp [Statement.stmt, Stmt.callees])
  | .call callee opening args closing, name, h => by
    obtain rfl : name = callee.token.value := by
      simpa [Statement.stmt, Stmt.callees] using h
    exact ⟨callee.token, by simp [Statement.tokens], callee.kind_eq, rfl⟩
  | .ifThen word cond colon body, name, h => by
    obtain ⟨t, ht, hname⟩ := Suite.callees body name h
    exact ⟨t, by simp [Statement.tokens, ht], hname⟩
  | .ifElse word cond colon body other colon' alt, name, h => by
    rcases List.mem_append.mp h with h | h
    · obtain ⟨t, ht, hname⟩ := Suite.callees body name h
      exact ⟨t, by simp [Statement.tokens, ht], hname⟩
    · obtain ⟨t, ht, hname⟩ := Suite.callees alt name h
      exact ⟨t, by simp [Statement.tokens, ht], hname⟩
  | .loop word cond colon body, name, h => by
    obtain ⟨t, ht, hname⟩ := Suite.callees body name h
    exact ⟨t, by simp [Statement.tokens, ht], hname⟩

theorem Suite.callees : ∀ (s : Suite), ∀ name ∈ Stmt.calleesOf s.stmts,
    ∃ t ∈ s.tokens, t.kind = .identifier ∧ t.value = name
  | .inline items, name, h => Items.callees items name h
  | .indented indent items dedent, name, h => by
    obtain ⟨t, ht, hname⟩ := Items.callees items name h
    exact ⟨t, by simp [Suite.tokens, ht], hname⟩

theorem Items.callees : ∀ (s : Items), ∀ name ∈ Stmt.calleesOf s.stmts,
    ∃ t ∈ s.tokens, t.kind = .identifier ∧ t.value = name
  | .nil, name, h => by
    exact absurd h (by simp [Items.stmts, Stmt.calleesOf])
  | .colon token more, name, h => by
    obtain ⟨t, ht, hname⟩ := Items.callees more name h
    exact ⟨t, by simp [Items.tokens, ht], hname⟩
  | .stmt s more, name, h => by
    rcases List.mem_append.mp h with h | h
    · obtain ⟨t, ht, hname⟩ := Statement.callees s name h
      exact ⟨t, by simp [Items.tokens, ht], hname⟩
    · obtain ⟨t, ht, hname⟩ := Items.callees more name h
      exact ⟨t, by simp [Items.tokens, ht], hname⟩

end

end Grammar

namespace Lexer

/-- The tokens of a cut are lexemes of its runes. -/
theorem Cut.isLexeme {offset stop : Int} {rs unread : List Rune} {ts : List Token}
    (h : Cut offset rs ts stop unread) {t : Token} (ht : t ∈ ts) :
    ∃ lexeme after, IsLexeme lexeme after t ∧ t.value = Rune.encode lexeme := by
  induction h with
  | stop _ => exact absurd ht (by simp)
  | lexeme _ hl hv _ _ ih =>
    rcases List.mem_cons.mp ht with rfl | ht
    · exact ⟨_, _, hl, hv⟩
    · exact ih ht

/-- A name begins with a letter or an underscore. -/
theorem IsLexeme.name {lexeme after : List Rune} {t : Token} (h : IsLexeme lexeme after t)
    (hk : t.kind = .identifier) :
    ∃ first more, lexeme = first :: more ∧ first.isNameStart = true := by
  cases h with
  | word runes starts parts kind ends => exact ⟨_, _, runes, starts⟩
  | number runes digits kind value ends =>
    rw [hk] at kind
    exact absurd kind (by decide)
  | operator kind ends =>
    rw [hk] at kind
    obtain ⟨l₁, l₂, hl, -⟩ := List.lookup_eq_some_iff.mp kind
    have hm : (t.value, Kind.identifier) ∈ operatorTable := by
      rw [hl]
      simp
    have hno : Kind.identifier ∉ operatorTable.map Prod.snd := by decide
    exact absurd (List.mem_map_of_mem hm) hno

end Lexer

open Lexer

/-- A letter or an underscore has no byte that is a period. -/
theorem Rune.head?_bytes {r : Rune} (h : r.isNameStart = true) (rest : Text) :
    (r.bytes ++ rest).head? ≠ some 0x2E := by
  intro hhead
  have hmem : 0x2E ∈ r.bytes := by
    rw [List.head?_append_of_ne_nil _ (by
      intro hnil
      have := r.width_pos
      rw [← r.length_bytes, hnil] at this
      exact absurd this (by simp))] at hhead
    exact List.mem_of_head? hhead
  cases r with
  | stray b =>
    have hpart : isNamePart (.stray b) = true := by
      rw [isNamePart, h]
      rfl
    rw [isNamePart_stray] at hpart
    exact absurd hpart (by decide)
  | char c =>
    have hdot : String.utf8EncodeChar c = String.utf8EncodeChar '.' :=
      Rune.utf8EncodeChar_of_mem hmem (by decide)
    rw [Rune.utf8EncodeChar_injective hdot] at h
    exact absurd h (by decide)

/-- The names among the tokens of a source begin with no period. -/
theorem head?_of_tokenize {tab : TabWidth} {src : Text} {ts : List Token}
    (h : tokenize tab src = .ok ts) {t : Token} (ht : t ∈ streamOf ts) (hk : t.kind = .identifier) :
    t.value.head? ≠ some 0x2E := by
  obtain ⟨stop, unread, hcut, -⟩ := (course_of_tokenize h).cut
  have hmem : t ∈ lexemesOf ts := List.mem_filter.mpr ⟨ht, by rw [hk]; rfl⟩
  obtain ⟨lexeme, after, hl, hv⟩ := hcut.isLexeme hmem
  obtain ⟨first, more, rfl, hstart⟩ := hl.name hk
  rw [hv, Rune.encode_cons]
  exact Rune.head?_bytes hstart _

/-- **The functions that a parsed program calls** have names that begin with no period. -/
theorem callees_of_parse {tab : TabWidth} {src : Text} {program : Program}
    (h : parse tab src = .ok program) :
    ∀ name ∈ Stmt.calleesOf program, name.head? ≠ some 0x2E := by
  obtain ⟨ts, hts, hp⟩ := parse_eq_ok.mp h
  obtain ⟨d, rfl⟩ := derivation_of_parseTokens hp
  intro name hname
  obtain ⟨t, ht, hk, rfl⟩ := Grammar.Items.callees d.items name hname
  rw [d.tokens_eq] at ht
  exact head?_of_tokenize hts ht hk

end Offside
