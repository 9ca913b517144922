import Offside.Lexer.Basic

/-!
# The token stream of a lexer

Model of `NextToken` and `Tokenize` (`next_token` and `tokenize` of the specification, 4.1).

A lexer delivers its tokens one at a time. It takes steps only while it has nothing to deliver. Once
the source is used up it delivers the end of the source for ever; once it has met an error it
answers with that error for ever.

* `fill` is the loop of `NextToken`, which runs the state functions while no token is pending.
* `next` is `NextToken`: a pending token, or the error that the lexer stopped at, or the end of the
  source at the place where the lexer stands.
* `readAll` is `Tokenize`. It answers the tokens with the end of the source last, or the first
  error, and also the lexer as it is left, which a later call begins with.
* `tokenize` runs a new lexer over a source (`Frontend.Tokenize`).

The loops end by `work` and by `load`, so none of the functions takes fuel.

Results:
* `fill_load_le`: the steps that are taken before a delivery do not raise the load.
* `next_load_lt`: every delivered token other than the end of the source lowers the load, so the
  stream is finite.
-/

namespace Offside

namespace Lexer

/-- Takes steps until a token can be delivered or the lexer has stopped. -/
def fill (l : Lexer) : Lexer :=
  if l.pending = [] ∧ l.mode.isActive = true then l.step.fill else l
termination_by l.work
decreasing_by
  rename_i h
  exact l.step_work_lt h.2

/-- The next token, and the lexer behind it (`NextToken`). -/
def next (l : Lexer) : Except LexicalError Token × Lexer :=
  let l := l.fill
  match l.pending with
  | t :: ts => (.ok t, { l with pending := ts })
  | [] =>
    match l.mode with
    | .failed e => (.error e, l)
    | _ => (.ok (.eofAt l.pos), l)

theorem fill_load_le (l : Lexer) : l.fill.load ≤ l.load := by
  fun_induction fill l with
  | case1 l h ih => exact Nat.le_of_lt (Nat.lt_of_le_of_lt ih (l.step_load_lt h.2))
  | case2 l h => exact Nat.le_refl _

/-- Every delivered token other than the end of the source lowers the load. -/
theorem next_load_lt {l l' : Lexer} {t : Token} (h : l.next = (.ok t, l'))
    (ht : t.kind ≠ .eof) : l'.load < l.load := by
  have hle := l.fill_load_le
  unfold next at h
  cases hp : l.fill.pending with
  | nil =>
    simp only [hp] at h
    split at h <;> cases h
    exact absurd rfl ht
  | cons u us =>
    simp only [hp, Prod.mk.injEq, Except.ok.injEq] at h
    obtain ⟨-, rfl⟩ := h
    simp only [load, owed, work, hp, List.length_cons] at hle ⊢
    omega

/-- All tokens that are left, up to the end of the source (`Tokenize`). -/
def readAll (l : Lexer) : Except LexicalError (List Token) × Lexer :=
  match _h : l.next with
  | (.error e, l') => (.error e, l')
  | (.ok t, l') =>
    if t.kind = .eof then (.ok [t], l')
    else
      match l'.readAll with
      | (.ok ts, l'') => (.ok (t :: ts), l'')
      | (.error e, l'') => (.error e, l'')
termination_by l.load
decreasing_by
  rename_i ht
  exact next_load_lt _h ht

end Lexer

/-- The tokens of a source, the end of the source last. -/
def tokenize (tab : TabWidth) (src : Text) : Except LexicalError (List Token) :=
  (Lexer.ofSource tab src).readAll.1

end Offside
