import Offside.Frontend
import Offside.Proofs.Lexer.Run
import Offside.Proofs.Lowering.Offence

/-!
# Who is to blame when lowering fails

Every error of the code generator on a program that was read carries the name and position of an
identifier of the source (`UndefinedError`, `ArityError`, `ReservedError`; specification, 4.4 and
7).

What is read from a source lies in the domain of lowering: nothing is missing in it, its leaves are
numbers and names, and its operators are those of their levels. So lowering can only fail for the
way in which names are used. Every use of a name in the program is made with a token of the source,
and that token is an identifier; it is the one that the error names.

* `Use.NamedIn` says that a use is made with an identifier among some tokens, and `Named` that all
  of some uses are.
* `LowerError.Blames` says that an error is one of the three and has the text and the position of a
  token.

Results:
* `Derivation.uses_named`: the uses of names in a program are made with identifiers of its stream.
  It is proved by induction on the derivation, one case for each rule.
* `offence?_blames`: an offence has the name and the position of the token it is made with.
* `lower_blames_identifier`: what is read from a source is lowered, or it fails with an undefined
  variable, a wrong number of arguments or a reserved name, at an identifier of the source.
-/

namespace Offside

/-- The use is made with an identifier that is one of some tokens. Nothing is asked of a write,
which is never at fault. -/
def Use.NamedIn (ts : List Token) : Use → Prop
  | .read token => token.kind = .identifier ∧ token ∈ ts
  | .write _ => True
  | .call name _ => name.kind = .identifier ∧ name ∈ ts

theorem Use.NamedIn.mono {ts us : List Token} (hsub : ts ⊆ us) :
    ∀ {use : Use}, use.NamedIn ts → use.NamedIn us
  | .read _, h => ⟨h.1, hsub h.2⟩
  | .write _, _ => trivial
  | .call _ _, h => ⟨h.1, hsub h.2⟩

/-- An operator reads what its operands read. -/
theorem Level.combine_uses (level : Level) (left : Expr) (op : Token) (right : Expr) :
    (level.combine left op right).uses = left.uses ++ right.uses := by
  cases level <;> rfl

namespace Grammar

/-! ## Uses are made with identifiers -/

/-- All of some uses are made with identifiers among some tokens. -/
def Named (uses : List Use) (ts : List Token) : Prop :=
  ∀ use ∈ uses, use.NamedIn ts

section Named

variable {us vs : List Use} {ts ts' : List Token}

theorem named_nil : Named [] ts :=
  fun _ h => absurd h List.not_mem_nil

theorem Named.mono (h : Named us ts) (hsub : ts ⊆ ts') : Named us ts' :=
  fun use hu => (h use hu).mono hsub

theorem Named.behind (h : Named us ts) (t : Token) : Named us (t :: ts) :=
  h.mono (List.subset_cons_self t ts)

/-- Uses in two phrases, one behind the other. -/
theorem Named.append (hu : Named us ts) (hv : Named vs ts') : Named (us ++ vs) (ts ++ ts') := by
  intro use h
  rcases List.mem_append.mp h with h | h
  · exact (hu use h).mono (List.subset_append_left _ _)
  · exact (hv use h).mono (List.subset_append_right _ _)

end Named

mutual

theorem Chain.uses_named : ∀ {level : Level} (t : Chain level), Named t.expr.uses t.tokens
  | _, .mk first more => more.uses_named_fold first.uses_named

theorem Operand.uses_named : ∀ {level : Level} (t : Operand level), Named t.expr.uses t.tokens
  | _, .sum chain => chain.uses_named
  | _, .product chain => chain.uses_named
  | _, .number t => by
    rw [Operand.expr, Expr.uses, if_neg (by simp [t.kind_eq])]
    exact named_nil
  | _, .name t => by
    rw [Operand.expr, Expr.uses, if_pos t.kind_eq]
    intro use hu
    obtain rfl := List.mem_singleton.mp hu
    exact ⟨t.kind_eq, List.mem_singleton_self _⟩
  | _, .group opening inner closing =>
    (inner.uses_named.mono (List.subset_append_left _ _)).behind opening.token

/-- Further operands are read behind those of the expression in front of them. -/
theorem Tail.uses_named_fold : ∀ {level : Level} (t : Tail level) {left : Expr}
    {front : List Token}, Named left.uses front → Named (t.fold left).uses (front ++ t.tokens)
  | _, .nil, left, front, h => by
    rwa [Tail.tokens, List.append_nil]
  | level, .cons op right more, left, front, h => by
    have hcombined : Named (level.combine left op.token right.expr).uses
        (front ++ op.token :: right.tokens) := by
      rw [Level.combine_uses]
      exact h.append (right.uses_named.behind op.token)
    have hall := more.uses_named_fold hcombined
    rwa [List.append_assoc] at hall

end

theorem Args.uses_named (t : Args) : Named (t.exprs.flatMap Expr.uses) t.tokens := by
  cases t with
  | none => exact named_nil
  | some first more =>
    rw [Args.exprs, List.flatMap_cons]
    refine first.uses_named.append fun use hu => ?_
    obtain ⟨_, harg, hu⟩ := List.mem_flatMap.mp hu
    obtain ⟨⟨comma, arg⟩, hmem, rfl⟩ := List.mem_map.mp harg
    exact (arg.uses_named.behind comma.token use hu).mono fun u hu =>
      List.mem_flatMap.mpr ⟨_, hmem, hu⟩

/-- The uses in a header and in what stands behind it. -/
theorem header_uses_named {k : Kind} (word : Terminal k) (cond : Chain .comparison)
    (colon : Terminal .colon) {us : List Use} {ts : List Token} (h : Named us ts) :
    Named (cond.expr.uses ++ us) (word.token :: (cond.tokens ++ colon.token :: ts)) :=
  (cond.uses_named.append (h.behind colon.token)).behind word.token

mutual

theorem Statement.uses_named : ∀ t : Statement, Named t.stmt.uses t.tokens
  | .assign target sign value => by
    have hwrite : Named [.write target.token.value] [] := by
      intro use hu
      obtain rfl := List.mem_singleton.mp hu
      trivial
    have hall := value.uses_named.append hwrite
    rw [List.append_nil] at hall
    exact (hall.behind sign.token).behind target.token
  | .call name opening args closing => by
    intro use hu
    rcases List.mem_cons.mp hu with rfl | hu
    · exact ⟨name.kind_eq, List.mem_cons_self⟩
    · have hargs := args.uses_named.mono (List.subset_append_left _ [closing.token])
      exact (hargs.behind opening.token).behind name.token use hu
  | .ifThen word cond colon body => header_uses_named word cond colon body.uses_named
  | .ifElse word cond colon body other colon' alt =>
    header_uses_named word cond colon
      (body.uses_named.append ((alt.uses_named.behind colon'.token).behind other.token))
  | .loop word cond colon body => header_uses_named word cond colon body.uses_named

theorem Suite.uses_named : ∀ t : Suite, Named (Stmt.usesOf t.stmts) t.tokens
  | .inline items => items.uses_named
  | .indented indent items _ =>
    (items.uses_named.mono (List.subset_append_left _ _)).behind indent.token

theorem Items.uses_named : ∀ t : Items, Named (Stmt.usesOf t.stmts) t.tokens
  | .nil => named_nil
  | .colon token more => more.uses_named.behind token.token
  | .stmt s more => s.uses_named.append more.uses_named

end

/-- **The uses of names in a program are made with identifiers of its stream.** -/
theorem Derivation.uses_named {stream : List Token} (d : Derivation stream) :
    Named (Stmt.usesOf d.items.stmts) stream := by
  have h := d.items.uses_named
  rwa [d.tokens_eq] at h

end Grammar

namespace Ir

/-! ## Offences are made with identifiers -/

/-- The error blames a token: it is about a variable without a value, a wrong number of arguments or
a reserved name, and has the text and the position of the token. -/
def LowerError.Blames (e : LowerError) (name : Token) : Prop :=
  e = .undefined name.value name.pos ∨ e = .reserved name.value name.pos ∨
    ∃ want got, e = .arity name.value name.pos want got

/-- An offence blames the token that the use is made with. -/
theorem offence?_blames {before : List Use} {use : Use} {e : LowerError} {ts : List Token}
    (h : offence? before use = some e) (hn : use.NamedIn ts) :
    ∃ name ∈ ts, name.kind = .identifier ∧ e.Blames name := by
  cases use with
  | read token =>
    rw [offence?] at h
    split at h
    · cases h
    · exact ⟨token, hn.2, hn.1, Or.inl (Option.some.inj h).symm⟩
  | write v => cases h
  | call name argCount =>
    refine ⟨name, hn.2, hn.1, ?_⟩
    by_cases hres : name.value ∈ reservedNames
    · rw [offence?, if_pos hres] at h
      exact Or.inr (Or.inl (Option.some.inj h).symm)
    · rw [offence?_call before hres] at h
      split at h
      · cases h
      · exact Or.inr (Or.inr ⟨_, _, (Option.some.inj h).symm⟩)

/-- Lowering a program that is read from tokens succeeds or blames an identifier among them. -/
theorem lower_of_parseTokens (options : Options) {ts : List Token} {program : Program}
    (h : parseTokens ts = .ok program) :
    (∃ m, lower options program = .ok m) ∨ ∃ e, lower options program = .error e ∧
      ∃ name ∈ ts, name.kind = .identifier ∧ e.Blames name := by
  obtain ⟨d, rfl⟩ := derivation_of_parseTokens h
  have hagrees := Builder.lowerStmts_agrees Builder.knows_start (areWhole_of_parseTokens h)
  cases hfirst : firstOffence? [] (Stmt.usesOf d.items.stmts) with
  | none => exact Or.inl (lower_eq_ok.mpr (hagrees.eq_ok_iff.mpr hfirst))
  | some e =>
    refine Or.inr ⟨e, lower_eq_error.mpr (hagrees.eq_error_iff.mpr hfirst), ?_⟩
    obtain ⟨us, use, vs, huses, -, hoffence⟩ := firstOffence?_eq_some.mp hfirst
    have huse : use ∈ Stmt.usesOf d.items.stmts := huses ▸ by simp
    have hstream : streamOf ts ⊆ ts := (List.takeWhile_prefix _).subset
    exact offence?_blames hoffence ((d.uses_named use huse).mono hstream)

/-- **What is read from a source can be lowered, or an identifier of the source is to blame.** The
program of a source is lowered, or lowering fails with a variable that has no value, a wrong number
of arguments or a reserved name. The error has the text and the position of an identifier among the
tokens of the source. -/
theorem lower_blames_identifier (options : Options) {tab : TabWidth} {src : Text}
    {program : Program} (h : parse tab src = .ok program) :
    (∃ m, lower options program = .ok m) ∨ ∃ ts name, tokenize tab src = .ok ts ∧ name ∈ ts ∧
      name.kind = .identifier ∧
      (lower options program = .error (.undefined name.value name.pos) ∨
        lower options program = .error (.reserved name.value name.pos) ∨
        ∃ want got, lower options program = .error (.arity name.value name.pos want got)) := by
  obtain ⟨ts, hts, hp⟩ := parse_eq_ok.mp h
  refine (lower_of_parseTokens options hp).imp_right ?_
  rintro ⟨e, he, name, hmem, hk, hblames⟩
  refine ⟨ts, name, hts, hmem, hk, ?_⟩
  rcases hblames with rfl | rfl | ⟨want, got, rfl⟩
  · exact Or.inl he
  · exact Or.inr (Or.inl he)
  · exact Or.inr (Or.inr ⟨want, got, he⟩)

/-- A variable that is read in front of its first assignment. -/
def earlyReadSource : String := "print(x)\nx = 1"

/-- The program of the source. -/
def earlyRead : Program :=
  [.call (.plain .identifier "print" ⟨0, 1, 1⟩) [.leaf (.plain .identifier "x" ⟨6, 1, 7⟩)],
   .assign (.plain .identifier "x" ⟨9, 2, 1⟩) (.leaf ⟨.number, "1", 1, ⟨13, 2, 5⟩⟩)]

theorem parse_earlyRead : parse .standard (Text.ofString earlyReadSource) = .ok earlyRead := by
  have htokens : tokenize .standard (Text.ofString earlyReadSource) = .ok
      [.plain .identifier "print" ⟨0, 1, 1⟩, .plain .openParen "(" ⟨5, 1, 6⟩,
       .plain .identifier "x" ⟨6, 1, 7⟩, .plain .closeParen ")" ⟨7, 1, 8⟩,
       .plain .identifier "x" ⟨9, 2, 1⟩, .plain .assign "=" ⟨11, 2, 3⟩,
       ⟨.number, "1", 1, ⟨13, 2, 5⟩⟩, .eofAt ⟨14, 2, 6⟩] :=
    tokenize_of_steps 40 (by decide +kernel) (by decide +kernel)
  exact parse_eq_ok.mpr ⟨_, htokens, by decide +kernel⟩

/-- An identifier of that source is to blame, since it is not lowered. -/
theorem lower_blames_earlyRead :
    parse .standard (Text.ofString earlyReadSource) = .ok earlyRead ∧
      ∃ ts name, tokenize .standard (Text.ofString earlyReadSource) = .ok ts ∧ name ∈ ts ∧
        name.kind = .identifier ∧
        (lower ⟨[], []⟩ earlyRead = .error (.undefined name.value name.pos) ∨
          lower ⟨[], []⟩ earlyRead = .error (.reserved name.value name.pos) ∨
          ∃ want got, lower ⟨[], []⟩ earlyRead = .error (.arity name.value name.pos want got)) := by
  refine ⟨parse_earlyRead, (lower_blames_identifier ⟨[], []⟩ parse_earlyRead).resolve_left ?_⟩
  rw [lower_eq_ok, (Builder.lowerStmts_agrees Builder.knows_start
    (areWhole_of_parseTokens (parse_eq_ok.mp parse_earlyRead).choose_spec.2)).eq_ok_iff]
  decide

end Ir

end Offside
