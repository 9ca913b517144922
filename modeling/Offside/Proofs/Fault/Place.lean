import Offside.Proofs.Fault.Fails
import Offside.Proofs.Grammar.Member

/-!
# The token at fault

Where `SyntaxError` points to, seen from where the parser's cursor stands.

Reading stops in front of the token that does not fit, with one exception: behind a name it looks
one token ahead before it moves on, so there the token behind the place is at fault.
`SyntaxError.place` is the place of the token in either case.

The second half is about what may stand behind a phrase. `Shortens` says that a stream ends at once,
or has the same next token as another one; what the grammar asks of the tokens behind a phrase is
not lost then. So a stream can be cut off in front of the token at fault, or right behind it.

Results:
* `Blames.here`, `Blames.behindName`, `Blames.after`: reading stops behind some tokens and shows the
  next one.
* `Statement.Fits.shorten`, `Suite.Fits.shorten`, `Items.Fits.shorten`: what the grammar asks of the
  tokens behind a phrase it asks of the next token only, and it asks nothing if there is none.
-/

namespace Offside

/-! ## The place of the token at fault -/

/-- **The place of the token at fault.** Where an equals sign or a parenthesis was wanted behind a
name, reading stopped in front of the name. -/
def SyntaxError.place (e : SyntaxError) (stop : Cursor) : Cursor :=
  if e.expected = [.assign, .openParen] then stop.advance else stop

/-- Reading stops behind some tokens and shows the next one. -/
structure Blames (c : Cursor) (before : List Token) (e : SyntaxError) (stop : Cursor) : Prop where
  passes : c.Passes before (e.place stop)
  got : (e.place stop).cur = e.got

namespace Blames

variable {c c' stop : Cursor} {before ts : List Token} {e : SyntaxError}

theorem here (h : e.expected ≠ [.assign, .openParen]) (hg : stop.cur = e.got) :
    Blames stop [] e stop where
  passes := by
    rw [SyntaxError.place, if_neg h]
    exact .refl stop
  got := by
    rw [SyntaxError.place, if_neg h]
    exact hg

/-- A token that was expected is missed where the next one stands. -/
theorem expect {kind : Kind} (h : Fails (c.expect kind) e stop) : Blames c [] e stop := by
  obtain ⟨-, rfl, rfl⟩ := Fails.expect_iff.mp h
  exact here (by simp [SyntaxError.wrongKind]) rfl

/-- A token that begins no construct is at fault where it stands. -/
theorem wrongStart (c : Cursor) (rule : Text) : Blames c [] (.wrongStart c.cur rule) c :=
  here (by simp [SyntaxError.wrongStart]) rfl

/-- Behind a name the next token is at fault. -/
theorem behindName (h : c.cur.kind ≠ .eof) :
    Blames c [c.cur] (.wrongKind c.advance.cur [.assign, .openParen]) c where
  passes := .token h
  got := rfl

/-- Tokens that were read stand in front of what was read later. -/
theorem after (hp : c.Passes ts c') (h : Blames c' before e stop) :
    Blames c (ts ++ before) e stop where
  passes := hp.trans h.passes
  got := h.got

/-- The next token of the stream is the one at fault. -/
theorem nextKind_eq (h : Blames c before e stop) : nextKind (e.place stop).stream = e.got.kind := by
  rw [(e.place stop).nextKind_stream, h.got]

end Blames

/-! ## Other tokens behind a phrase -/

/-- The stream `rest'` ends at once, or it has the same next token as `rest`. -/
def Shortens (rest rest' : List Token) : Prop :=
  rest' = [] ∨ rest'.head? = rest.head?

theorem Shortens.nil (rest : List Token) : Shortens rest [] :=
  Or.inl rfl

theorem Shortens.same (t : Token) (rest rest' : List Token) : Shortens (t :: rest) (t :: rest') :=
  Or.inr rfl

theorem Shortens.append {rest rest' : List Token} (h : Shortens rest rest') (ts : List Token) :
    Shortens (ts ++ rest) (ts ++ rest') := by
  cases ts with
  | nil => exact h
  | cons t ts => exact .same t _ _

theorem Shortens.of_nil {rest' : List Token} (h : Shortens [] rest') : rest' = [] := by
  rcases h with h | h
  · exact h
  · cases rest' with
    | nil => rfl
    | cons t ts => exact absurd h nofun

theorem Shortens.ne {rest rest' : List Token} {k : Kind} (h : Shortens rest rest') (hk : k ≠ .eof)
    (hr : nextKind rest ≠ k) : nextKind rest' ≠ k := by
  rcases h with rfl | h
  · exact hk.symm
  · cases rest' with
    | nil => exact hk.symm
    | cons t ts =>
      obtain ⟨us, rfl⟩ := List.head?_eq_some_iff.mp h.symm
      exact hr

theorem Shortens.ends {rest rest' : List Token} {extent : Extent} {line : Int}
    (h : Shortens rest rest') (he : extent.Ends line rest) : extent.Ends line rest' := by
  rcases h with rfl | h
  · trivial
  · cases rest' with
    | nil => trivial
    | cons t ts =>
      obtain ⟨us, rfl⟩ := List.head?_eq_some_iff.mp h.symm
      exact he

namespace Grammar

mutual

theorem Statement.Fits.shorten : ∀ (t : Statement) {rest rest' : List Token}, t.Fits rest →
    Shortens rest rest' → t.Fits rest'
  | .assign _ _ _, _, _, _, _ => trivial
  | .call _ _ _ _, _, _, _, _ => trivial
  | .ifThen _ _ _ body, _, _, h, hr =>
    ⟨Suite.Fits.shorten body h.1 hr, hr.ne nofun h.2⟩
  | .ifElse _ _ _ body _ _ alt, _, _, h, hr =>
    ⟨Suite.Fits.shorten body h.1 (.same _ _ _), Suite.Fits.shorten alt h.2 hr⟩
  | .loop _ _ _ body, _, _, h, hr => Suite.Fits.shorten body h hr

/-- **A suite fits in front of a stream that is cut behind its next token or in front of it.** -/
theorem Suite.Fits.shorten : ∀ (t : Suite) {line : Int} {rest rest' : List Token},
    t.Fits line rest → Shortens rest rest' → t.Fits line rest'
  | .inline items, _, _, _, h, hr => Items.Fits.shorten items h hr
  | .indented _ items dedent, _, _, _, h, hr =>
    ⟨Items.Fits.shorten items h.1 (hr.append _), fun hd => by
      rw [h.2 hd] at hr
      exact hr.of_nil⟩

/-- **The same for some items.** -/
theorem Items.Fits.shorten : ∀ (t : Items) {extent : Extent} {line : Int} {rest rest' : List Token},
    t.Fits extent line rest → Shortens rest rest' → t.Fits extent line rest'
  | .nil, _, _, _, _, h, hr => hr.ends h
  | .colon _ more, _, _, _, _, h, hr => ⟨h.1, Items.Fits.shorten more h.2 hr⟩
  | .stmt s more, _, _, _, _, h, hr =>
    ⟨h.1, Statement.Fits.shorten s h.2.1 (hr.append _), Items.Fits.shorten more h.2.2 hr⟩

end

end Grammar

end Offside
