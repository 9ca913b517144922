import Offside.Lexer.Gap
import Offside.Text.Quoted

/-!
# Settings

Model of the configuration and its checks (specification, 9.3): `Config`, `Default`, `Validate` and
`LexerOptions`.

What a user may choose: how wide a tab is, which target the IR names, and how a syntax tree is
shown.

* `Settings` has the three fields of the three sections of a configuration. `Settings.standard` is
  `Default`: the standard tab width, no target, and S-expressions.
* `Settings.check` is `Validate`, which looks at the tab width first. `Settings.Invalid` has the two
  refusals, and `Invalid.message` their texts, each of which names the field it is about.
* `Settings.tab` is `LexerOptions` with the option carried out: the tab width that the lexer gets.

Results:
* `Settings.check_eq_ok_iff`: settings are admitted if and only if the tab width is positive and the
  format is known, and they are admitted unchanged.
* `Settings.columns_tab`: the tab width of admitted settings is the one that was chosen, so the
  option is never ignored.
-/

namespace Offside

/-- The choices of a user. -/
structure Settings where
  /-- How many columns a tab leads to a multiple of. -/
  tabWidth : Int64
  /-- The target that the IR names; none if empty. -/
  targetTriple : Text
  /-- How a syntax tree is shown. -/
  format : Text
  deriving DecidableEq, Repr

namespace Settings

/-- A tree as S-expressions. -/
def sexprFormat : Text := "sexpr"

/-- A tree with all its fields. -/
def dumpFormat : Text := "go"

/-- The settings without any choice (`Default`). -/
def standard : Settings := ⟨TabWidth.standard.columns, [], sexprFormat⟩

/-- Why settings are not admitted. -/
inductive Invalid where
  | tabWidth (columns : Int64)
  | format (name : Text)
  deriving DecidableEq, Repr

/-- The wording of a refusal. -/
def Invalid.message : Invalid → Text
  | tabWidth columns => "lexer.tab_width must be positive, got " ++ Text.ofInt64 columns
  | format name =>
    "output.format must be " ++ sexprFormat ++ " or " ++ dumpFormat ++ ", got " ++ name.quote

/-- Whether a tree can be shown in a format. -/
def knowsFormat (name : Text) : Bool :=
  name == sexprFormat || name == dumpFormat

/-- Admits or refuses settings (`Validate`). The tab width is looked at first. -/
def check (s : Settings) : Except Invalid Settings :=
  if s.tabWidth ≤ 0 then .error (.tabWidth s.tabWidth)
  else if knowsFormat s.format then .ok s
  else .error (.format s.format)

/-- The tab width for the lexer. -/
def tab (s : Settings) : TabWidth :=
  .ofWishes [s.tabWidth]

theorem check_eq_ok_iff {s t : Settings} :
    s.check = .ok t ↔ t = s ∧ 0 < s.tabWidth ∧ knowsFormat s.format = true := by
  unfold check
  by_cases hw : s.tabWidth ≤ 0
  · have hn : ¬ 0 < s.tabWidth := fun h => Int64.not_le.mpr h hw
    rw [if_pos hw]
    exact ⟨fun h => (by cases h), fun h => absurd h.2.1 hn⟩
  · rw [if_neg hw]
    by_cases hf : knowsFormat s.format = true
    · rw [if_pos hf]
      exact ⟨fun h => ⟨(Except.ok.inj h).symm, Int64.not_le.mp hw, hf⟩, fun h => h.1 ▸ rfl⟩
    · rw [if_neg hf]
      exact ⟨fun h => (by cases h), fun h => absurd h.2.2 hf⟩

theorem columns_tab {s t : Settings} (h : s.check = .ok t) : t.tab.columns = s.tabWidth := by
  obtain ⟨rfl, hw, -⟩ := check_eq_ok_iff.mp h
  simp [tab, TabWidth.ofWishes, TabWidth.orElse, hw]

end Settings

end Offside
