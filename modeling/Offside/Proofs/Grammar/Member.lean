import Mathlib.Data.List.Nodup
import Offside.Proofs.Grammar.Derivation

/-!
# The members of blocks

Which statements a block holds, and what stands around each of them. This is the part of the matter
of `Proofs/Grammar/Indentation` that is about derivations alone.

Every statement of a derivation is a direct member of the program or of a suite. `Items.members`
lists them with the places of their first tokens. The indent markers that are open in front of a
place are counted from the tokens alone (`openAt`).

* `Container` is what a statement is a direct member of, and `Member` a statement with its container
  and the place of its first token.
* `Seat` is what stands around a member: the tokens in front, the items behind it in the same
  container, and the tokens behind these. `Seated` adds what is known of the line of a member of an
  inline suite, and of the indent markers open in front of any other member.
* `Ready` is what is known in front of some items, and what each item in turn preserves.

Results:
* `Statement.balanced`, `Items.balanced`: a phrase that does not end the stream closes what it
  opens.
* `Items.seated`: what stands around a member. In the program and in an indented suite, the
  innermost open indent marker is that of the suite. In an inline suite, a member begins on the line
  of the token in front of it.
* `Items.members_sorted`, `Items.member_unique`: members begin at different places, in the order of
  the list.
-/

namespace Offside

/-! ## Open indent markers -/

/-- The open indent markers behind one more token, which stands at place `i`. -/
def openStep (stack : List Nat) (i : Nat) (t : Token) : List Nat :=
  match t.kind with
  | .indent => i :: stack
  | .dedent => stack.tail
  | _ => stack

/-- The places of the open indent markers behind some tokens, the first of which stands at place
`i`; the innermost one comes first. -/
def openAfter (stack : List Nat) (i : Nat) : List Token → List Nat
  | [] => stack
  | t :: ts => openAfter (openStep stack i t) (i + 1) ts

/-- The places of the indent markers that are open behind the first tokens of a stream. -/
def openAt (before : List Token) : List Nat :=
  openAfter [] 0 before

theorem openAfter_append (stack : List Nat) (i : Nat) (ts us : List Token) :
    openAfter stack i (ts ++ us) = openAfter (openAfter stack i ts) (i + ts.length) us := by
  induction ts generalizing stack i with
  | nil => rfl
  | cons t ts ih =>
    rw [List.cons_append, openAfter, openAfter, ih, List.length_cons, Nat.add_assoc, Nat.add_comm 1]

theorem openAt_append (before ts : List Token) :
    openAt (before ++ ts) = openAfter (openAt before) before.length ts := by
  rw [openAt, openAfter_append, Nat.zero_add]
  rfl

theorem openStep_plain {t : Token} (h : t.kind.isMarker = false) (stack : List Nat) (i : Nat) :
    openStep stack i t = stack := by
  unfold openStep
  split
  · next hk => rw [hk] at h; exact absurd h nofun
  · next hk => rw [hk] at h; exact absurd h nofun
  · rfl

/-- Only markers open and close anything. -/
theorem openAfter_plain {ts : List Token} (h : ∀ t ∈ ts, t.kind.isMarker = false)
    (stack : List Nat) (i : Nat) : openAfter stack i ts = stack := by
  induction ts generalizing i with
  | nil => rfl
  | cons t ts ih =>
    rw [openAfter, openStep_plain (h t List.mem_cons_self)]
    exact ih (fun u hu => h u (List.mem_cons_of_mem t hu)) (i + 1)

namespace Grammar

/-! ## Markers stand only around suites -/

theorem Terminal.plain {k : Kind} (t : Terminal k) (h : k.isMarker = false) :
    t.token.kind.isMarker = false := by
  rw [t.kind_eq]
  exact h

theorem Operator.plain {level : Level} (op : Operator level) :
    op.token.kind.isMarker = false := by
  have h := op.accepted
  cases hk : op.token.kind with
  | indent => rw [hk] at h; cases level <;> exact absurd h nofun
  | dedent => rw [hk] at h; cases level <;> exact absurd h nofun
  | _ => rfl

mutual

theorem Chain.plain : ∀ {level : Level} (t : Chain level), ∀ u ∈ t.tokens, u.kind.isMarker = false
  | _, .mk first more, u, hu =>
    (List.mem_append.mp hu).elim (first.plain u) (more.plain u)

theorem Operand.plain : ∀ {level : Level} (t : Operand level),
    ∀ u ∈ t.tokens, u.kind.isMarker = false
  | _, .sum chain, u, hu => chain.plain u hu
  | _, .product chain, u, hu => chain.plain u hu
  | _, .number t, u, hu => by
    obtain rfl := List.mem_singleton.mp hu
    exact t.plain rfl
  | _, .name t, u, hu => by
    obtain rfl := List.mem_singleton.mp hu
    exact t.plain rfl
  | _, .group opening inner closing, u, hu => by
    rcases List.mem_cons.mp hu with rfl | hu
    · exact opening.plain rfl
    · rcases List.mem_append.mp hu with hu | hu
      · exact inner.plain u hu
      · obtain rfl := List.mem_singleton.mp hu
        exact closing.plain rfl

theorem Tail.plain : ∀ {level : Level} (t : Tail level), ∀ u ∈ t.tokens, u.kind.isMarker = false
  | _, .nil, u, hu => absurd hu List.not_mem_nil
  | _, .cons op right more, u, hu => by
    rcases List.mem_cons.mp hu with rfl | hu
    · exact op.plain
    · exact (List.mem_append.mp hu).elim (right.plain u) (more.plain u)

end

theorem Args.plain (t : Args) : ∀ u ∈ t.tokens, u.kind.isMarker = false := by
  intro u hu
  cases t with
  | none => exact absurd hu List.not_mem_nil
  | some first more =>
    rcases List.mem_append.mp hu with hu | hu
    · exact first.plain u hu
    · obtain ⟨⟨comma, arg⟩, -, hu⟩ := List.mem_flatMap.mp hu
      rcases List.mem_cons.mp hu with rfl | hu
      · exact comma.plain rfl
      · exact arg.plain u hu

/-- The tokens of a header. -/
def header {k : Kind} (word : Terminal k) (cond : Chain .comparison) (colon : Terminal .colon) :
    List Token :=
  word.token :: (cond.tokens ++ [colon.token])

theorem header_append {k : Kind} (word : Terminal k) (cond : Chain .comparison)
    (colon : Terminal .colon) (ts : List Token) :
    word.token :: (cond.tokens ++ colon.token :: ts) = header word cond colon ++ ts := by
  simp [header]

theorem header_plain {k : Kind} (word : Terminal k) (cond : Chain .comparison)
    (colon : Terminal .colon) (hk : k.isMarker = false) :
    ∀ u ∈ header word cond colon, u.kind.isMarker = false := by
  intro u hu
  rcases List.mem_cons.mp hu with rfl | hu
  · exact word.plain hk
  · rcases List.mem_append.mp hu with hu | hu
    · exact cond.plain u hu
    · obtain rfl := List.mem_singleton.mp hu
      exact colon.plain rfl

mutual

/-- A statement that does not end the stream closes what it opens. -/
theorem Statement.balanced : ∀ (t : Statement) {rest : List Token}, t.Fits rest → rest ≠ [] →
    ∀ stack i, openAfter stack i t.tokens = stack
  | .assign target sign value, rest, _, _, stack, i => by
    refine openAfter_plain (fun u hu => ?_) stack i
    rcases List.mem_cons.mp hu with rfl | hu
    · exact target.plain rfl
    · rcases List.mem_cons.mp hu with rfl | hu
      · exact sign.plain rfl
      · exact value.plain u hu
  | .call name opening args closing, rest, _, _, stack, i => by
    refine openAfter_plain (fun u hu => ?_) stack i
    rcases List.mem_cons.mp hu with rfl | hu
    · exact name.plain rfl
    · rcases List.mem_cons.mp hu with rfl | hu
      · exact opening.plain rfl
      · rcases List.mem_append.mp hu with hu | hu
        · exact args.plain u hu
        · obtain rfl := List.mem_singleton.mp hu
          exact closing.plain rfl
  | .ifThen word cond colon body, rest, hfit, hr, stack, i => by
    rw [Statement.tokens, header_append, openAfter_append,
      openAfter_plain (header_plain word cond colon rfl)]
    exact body.balanced hfit.1 hr stack _
  | .ifElse word cond colon body other colon' alt, rest, hfit, hr, stack, i => by
    rw [Statement.tokens, header_append, openAfter_append,
      openAfter_plain (header_plain word cond colon rfl), openAfter_append,
      body.balanced hfit.1 (by simp), openAfter, openStep_plain (other.plain rfl), openAfter,
      openStep_plain (colon'.plain rfl)]
    exact alt.balanced hfit.2 hr stack _
  | .loop word cond colon body, rest, hfit, hr, stack, i => by
    rw [Statement.tokens, header_append, openAfter_append,
      openAfter_plain (header_plain word cond colon rfl)]
    exact body.balanced hfit hr stack _

theorem Suite.balanced : ∀ (t : Suite) {line : Int} {rest : List Token}, t.Fits line rest →
    rest ≠ [] → ∀ stack i, openAfter stack i t.tokens = stack
  | .inline items, _, _, hfit, hr, stack, i => items.balanced hfit hr stack i
  | .indented indent items none, _, _, hfit, hr, _, _ => absurd (hfit.2 rfl) hr
  | .indented indent items (some dedent), _, rest, hfit, _, stack, i => by
    have hopen : openStep stack i indent.token = i :: stack := by
      simp [openStep, indent.kind_eq]
    have hclose : ∀ j, openStep (i :: stack) j dedent.token = stack := by
      simp [openStep, dedent.kind_eq]
    rw [Suite.tokens, openAfter, hopen, openAfter_append, items.balanced hfit.1 (by simp [closing])]
    simp [closing, openAfter, hclose]

theorem Items.balanced : ∀ (t : Items) {extent : Extent} {line : Int} {rest : List Token},
    t.Fits extent line rest → rest ≠ [] → ∀ stack i, openAfter stack i t.tokens = stack
  | .nil, _, _, _, _, _, _, _ => rfl
  | .colon token more, _, _, _, hfit, hr, stack, i => by
    rw [Items.tokens, openAfter, openStep_plain (token.plain rfl)]
    exact more.balanced hfit.2 hr stack (i + 1)
  | .stmt s more, _, _, _, hfit, hr, stack, i => by
    rw [Items.tokens, openAfter_append, s.balanced hfit.2.1 (by simp [hr])]
    exact more.balanced hfit.2.2 hr stack _

end

/-! ## Members -/

/-- What a statement is a direct member of. A suite is known by the place of the token behind the
colon of its header. -/
inductive Container where
  | program
  | inline (start : Nat)
  | indented (start : Nat)
  deriving DecidableEq, Repr

/-- Whether the statements follow a colon on its line. -/
def Container.isInline : Container → Bool
  | inline _ => true
  | _ => false

/-- The block of the innermost open indent marker, or the program if none is open. -/
def home : List Nat → Container
  | [] => .program
  | i :: _ => .indented i

theorem home_not_inline (stack : List Nat) : (home stack).isInline = false := by
  cases stack <;> rfl

/-- A statement of a derivation. -/
structure Member where
  container : Container
  /-- The place of the first token. -/
  start : Nat
  stmt : Statement

/-- The place behind the last token. -/
def Member.stop (m : Member) : Nat :=
  m.start + m.stmt.tokens.length

mutual

/-- The statements inside a statement whose first token stands at place `i`. -/
def Statement.members : Statement → Nat → List Member
  | .assign _ _ _, _ => []
  | .call _ _ _ _, _ => []
  | .ifThen word cond colon body, i => body.members (i + (header word cond colon).length)
  | .ifElse word cond colon body _ _ alt, i =>
    let j := i + (header word cond colon).length
    body.members j ++ alt.members (j + body.tokens.length + 2)
  | .loop word cond colon body, i => body.members (i + (header word cond colon).length)

/-- The statements inside a suite whose first token stands at place `i`. -/
def Suite.members : Suite → Nat → List Member
  | .inline items, i => items.members (.inline i) i
  | .indented _ items _, i => items.members (.indented i) (i + 1)

/-- The statements among and inside some items that stand in a container from place `i` on. -/
def Items.members : Items → Container → Nat → List Member
  | .nil, _, _ => []
  | .colon _ more, k, i => more.members k (i + 1)
  | .stmt s more, k, i =>
    ⟨k, i, s⟩ :: (s.members i ++ more.members k (i + s.tokens.length))

end

/-! ## What stands around a member -/

/-- One of some inline members ends at a place with a dedent marker. -/
def EndsInline (all : List Member) (i : Nat) : Prop :=
  ∃ m ∈ all, m.container.isInline = true ∧ m.stop = i ∧
    ∃ t ∈ m.stmt.tokens.getLast?, t.kind = .dedent

/-- The line of the next token is taken by a token in front that is no marker, or an inline member
ends here with a dedent marker. -/
def Taken (all : List Member) (before : List Token) (line : Int) : Prop :=
  (∃ t ∈ before, t.kind.isMarker = false ∧ t.pos.line = line) ∨ EndsInline all before.length

/-- What stands around a member: the tokens in front, the items behind it in the same container,
and the tokens behind these. -/
structure Seat (all : List Member) (stream : List Token) (m : Member) (before : List Token)
    (extent : Extent) (more : Items) (rest : List Token) : Prop where
  stream_eq : stream = before ++ (m.stmt.tokens ++ (more.tokens ++ rest))
  start_eq : m.start = before.length
  fits : more.Fits extent (lineAfter 0 (before ++ m.stmt.tokens)) rest
  siblings : ∀ m' ∈ more.members m.container m.stop, m' ∈ all
  inline : m.container.isInline = true → extent = .inline
  /-- The tokens in front of a member of an inline suite. -/
  taken : m.container.isInline = true → Taken all before m.stmt.first.pos.line
  /-- The tokens in front of a member of the program or an indented suite. -/
  home_eq : m.container.isInline = false → home (openAt before) = m.container

/-- A member has its seat in a stream. -/
def Seated (all : List Member) (stream : List Token) (m : Member) : Prop :=
  ∃ before extent more rest, Seat all stream m before extent more rest

/-- What is known in front of some items of a container. -/
structure Ready (all : List Member) (k : Container) (extent : Extent) (pre : List Token) :
    Prop where
  inline : k.isInline = true → extent = .inline ∧ Taken all pre (lineAfter 0 pre)
  home_eq : k.isInline = false → home (openAt pre) = k

theorem lineAfter_getLast {ts : List Token} {t : Token} (h : ts.getLast? = some t) (line : Int) :
    lineAfter line ts = t.pos.line := by
  obtain ⟨us, rfl⟩ := List.getLast?_eq_some_iff.mp h
  rw [lineAfter_append]
  rfl

/-- Behind a token that is no marker its line is taken. -/
theorem taken_of_plain (all : List Member) {pre : List Token} {t : Token}
    (h : pre.getLast? = some t) (ht : t.kind.isMarker = false) :
    Taken all pre (lineAfter 0 pre) :=
  Or.inl ⟨t, List.mem_of_getLast? h, ht, (lineAfter_getLast h 0).symm⟩

/-- Behind a member of an inline suite the line is taken, unless the member ends with a dedent
marker. An indent marker is not the last token of a statement that something follows. -/
theorem taken_of_member {all : List Member} {pre rest : List Token} {s : Statement} {k : Container}
    (hfit : s.Fits rest) (hr : rest ≠ []) (hk : k.isInline = true)
    (hm : ⟨k, pre.length, s⟩ ∈ all) :
    Taken all (pre ++ s.tokens) (lineAfter 0 (pre ++ s.tokens)) := by
  obtain ⟨ts, hts⟩ := s.tokens_eq
  obtain ⟨t, ht⟩ : ∃ t, s.tokens.getLast? = some t := by
    rw [hts]
    exact ⟨_, List.getLast?_cons⟩
  have hlast : (pre ++ s.tokens).getLast? = some t := by
    rw [List.getLast?_append, ht, Option.some_or]
  cases hmark : t.kind.isMarker with
  | false => exact taken_of_plain all hlast hmark
  | true =>
    refine Or.inr ⟨_, hm, hk, by simp [Member.stop], t, ht, ?_⟩
    cases hkind : t.kind with
    | dedent => rfl
    | indent =>
      obtain ⟨us, hus⟩ := List.getLast?_eq_some_iff.mp ht
      have hb := s.balanced hfit hr [] 0
      rw [hus, openAfter_append] at hb
      simp [openAfter, openStep, hkind] at hb
    | _ => rw [hkind] at hmark; exact absurd hmark nofun

theorem Items.tokens_ne_nil {t : Items} {k : Container} {i : Nat} {m : Member}
    (h : m ∈ t.members k i) : t.tokens ≠ [] := by
  cases t with
  | nil => exact absurd h List.not_mem_nil
  | colon token more => exact List.cons_ne_nil _ _
  | stmt s more =>
    obtain ⟨ts, hts⟩ := s.tokens_eq
    rw [Items.tokens, hts]
    exact List.cons_ne_nil _ _

theorem header_getLast {k : Kind} (word : Terminal k) (cond : Chain .comparison)
    (colon : Terminal .colon) (pre : List Token) :
    (pre ++ header word cond colon).getLast? = some colon.token := by
  simp [header, List.getLast?_append, List.getLast?_cons]

mutual

/-- The members inside a statement have their seats. -/
theorem Statement.seated : ∀ (s : Statement) {all : List Member} {pre rest : List Token},
    s.Fits rest → (∀ m ∈ s.members pre.length, m ∈ all) →
    ∀ m ∈ s.members pre.length, Seated all (pre ++ (s.tokens ++ rest)) m
  | .assign _ _ _, _, _, _, _, _, m, hm => absurd hm List.not_mem_nil
  | .call _ _ _ _, _, _, _, _, _, m, hm => absurd hm List.not_mem_nil
  | .ifThen word cond colon body, all, pre, rest, hfit, hall, m, hm => by
    rw [Statement.tokens, header_append, List.append_assoc, ← List.append_assoc pre]
    rw [Statement.members, ← List.length_append] at hm hall
    have hlast := header_getLast word cond colon pre
    exact body.seated (by rw [lineAfter_getLast hlast]; exact hfit.1)
      hlast (colon.plain rfl) hall m hm
  | .ifElse word cond colon body other colon' alt, all, pre, rest, hfit, hall, m, hm => by
    simp only [Statement.members, List.mem_append] at hm hall
    rcases hm with hm | hm
    · have hpre : pre ++ ((Statement.ifElse word cond colon body other colon' alt).tokens ++ rest) =
          (pre ++ header word cond colon) ++
            (body.tokens ++ other.token :: colon'.token :: (alt.tokens ++ rest)) := by
        simp [Statement.tokens, header]
      rw [hpre]
      rw [← List.length_append] at hm hall
      have hlast := header_getLast word cond colon pre
      exact body.seated (by rw [lineAfter_getLast hlast]; exact hfit.1) hlast (colon.plain rfl)
        (fun m hm => hall m (Or.inl hm)) m hm
    · have hpre : pre ++ ((Statement.ifElse word cond colon body other colon' alt).tokens ++ rest) =
          (pre ++ (header word cond colon ++ body.tokens ++ [other.token, colon'.token])) ++
            (alt.tokens ++ rest) := by
        simp [Statement.tokens, header]
      have hlen : pre.length + (header word cond colon).length + body.tokens.length + 2 =
          (pre ++ (header word cond colon ++ body.tokens ++
            [other.token, colon'.token])).length := by
        simp only [List.length_append, List.length_cons, List.length_nil]
        omega
      have hlast : (pre ++ (header word cond colon ++ body.tokens ++
          [other.token, colon'.token])).getLast? = some colon'.token := by
        simp [List.getLast?_append]
      rw [hpre]
      rw [hlen] at hm hall
      exact alt.seated (by rw [lineAfter_getLast hlast]; exact hfit.2) hlast (colon'.plain rfl)
        (fun m hm => hall m (Or.inr hm)) m hm
  | .loop word cond colon body, all, pre, rest, hfit, hall, m, hm => by
    rw [Statement.tokens, header_append, List.append_assoc, ← List.append_assoc pre]
    rw [Statement.members, ← List.length_append] at hm hall
    have hlast := header_getLast word cond colon pre
    exact body.seated (by rw [lineAfter_getLast hlast]; exact hfit)
      hlast (colon.plain rfl) hall m hm

theorem Suite.seated : ∀ (t : Suite) {all : List Member} {pre rest : List Token} {u : Token},
    t.Fits (lineAfter 0 pre) rest → pre.getLast? = some u → u.kind.isMarker = false →
    (∀ m ∈ t.members pre.length, m ∈ all) →
    ∀ m ∈ t.members pre.length, Seated all (pre ++ (t.tokens ++ rest)) m
  | .inline items, all, pre, rest, u, hfit, hlast, hu, hall, m, hm =>
    items.seated hfit ⟨fun _ => ⟨rfl, taken_of_plain all hlast hu⟩,
      fun hk => absurd hk (by simp [Container.isInline])⟩ hall m hm
  | .indented indent items dedent, all, pre, rest, u, hfit, hlast, hu, hall, m, hm => by
    have hpre : pre ++ ((Suite.indented indent items dedent).tokens ++ rest) =
        (pre ++ [indent.token]) ++ (items.tokens ++ (closing dedent ++ rest)) := by
      simp [Suite.tokens]
    have hlen : pre.length + 1 = (pre ++ [indent.token]).length := by simp
    have hlast' : (pre ++ [indent.token]).getLast? = some indent.token := by simp
    rw [hpre]
    rw [Suite.members, hlen] at hm hall
    refine items.seated (by rw [lineAfter_getLast hlast']; exact hfit.1)
      ⟨fun hk => absurd hk (by simp [Container.isInline]), fun _ => ?_⟩ hall m hm
    rw [openAt_append]
    simp [openAfter, openStep, indent.kind_eq, home]

/-- **Every member has its seat.** -/
theorem Items.seated : ∀ (t : Items) {all : List Member} {k : Container} {extent : Extent}
    {pre rest : List Token}, t.Fits extent (lineAfter 0 pre) rest → Ready all k extent pre →
    (∀ m ∈ t.members k pre.length, m ∈ all) →
    ∀ m ∈ t.members k pre.length, Seated all (pre ++ (t.tokens ++ rest)) m
  | .nil, _, _, _, _, _, _, _, _, m, hm => absurd hm List.not_mem_nil
  | .colon token more, all, k, extent, pre, rest, hfit, hready, hall, m, hm => by
    have hpre : pre ++ ((Items.colon token more).tokens ++ rest) =
        (pre ++ [token.token]) ++ (more.tokens ++ rest) := by
      simp [Items.tokens]
    have hlen : pre.length + 1 = (pre ++ [token.token]).length := by simp
    have hlast : (pre ++ [token.token]).getLast? = some token.token := by simp
    rw [hpre]
    rw [Items.members, hlen] at hm hall
    refine more.seated (by rw [lineAfter_getLast hlast]; exact hfit.2) ⟨fun hk => ?_, fun hk => ?_⟩
      hall m hm
    · exact ⟨(hready.inline hk).1, taken_of_plain all hlast (token.plain rfl)⟩
    · rw [openAt_append, openAfter, openStep_plain (token.plain rfl)]
      exact hready.home_eq hk
  | .stmt s more, all, k, extent, pre, rest, hfit, hready, hall, m, hm => by
    rw [Items.tokens, List.append_assoc]
    simp only [Items.members, List.mem_cons, List.mem_append] at hm hall
    rcases hm with rfl | hm | hm
    · refine ⟨pre, extent, more, rest, rfl, rfl, ?_, fun m' hm' => hall m' (Or.inr (Or.inr hm')),
        fun hk => (hready.inline hk).1, fun hk => ?_, hready.home_eq⟩
      · rw [lineAfter_append]
        exact hfit.2.2
      · obtain ⟨hextent, htaken⟩ := hready.inline hk
        rw [hfit.1 hextent]
        exact htaken
    · exact s.seated hfit.2.1 (fun m hm => hall m (Or.inr (Or.inl hm))) m hm
    · have hrest : more.tokens ++ rest ≠ [] := by
        have := Items.tokens_ne_nil hm
        simp [this]
      rw [← List.length_append] at hm hall
      rw [← List.append_assoc]
      refine more.seated (by rw [lineAfter_append]; exact hfit.2.2) ⟨fun hk => ?_, fun hk => ?_⟩
        (fun m hm => hall m (Or.inr (Or.inr hm))) m hm
      · exact ⟨(hready.inline hk).1, taken_of_member hfit.2.1 hrest hk (hall _ (Or.inl rfl))⟩
      · rw [openAt_append, s.balanced hfit.2.1 hrest]
        exact hready.home_eq hk

end

/-! ## Members begin at different places -/

mutual

theorem Statement.members_range : ∀ (s : Statement) {i : Nat}, ∀ m ∈ s.members i,
    i < m.start ∧ m.start < i + s.tokens.length
  | .assign _ _ _, _, m, hm => absurd hm List.not_mem_nil
  | .call _ _ _ _, _, m, hm => absurd hm List.not_mem_nil
  | .ifThen word cond colon body, i, m, hm => by
    obtain ⟨h₁, h₂⟩ := body.members_range m hm
    simp only [Statement.tokens, header, List.length_cons, List.length_append, List.length_nil] at *
    omega
  | .ifElse word cond colon body other colon' alt, i, m, hm => by
    rcases List.mem_append.mp hm with hm | hm
    · obtain ⟨h₁, h₂⟩ := body.members_range m hm
      simp only [Statement.tokens, header, List.length_cons, List.length_append,
        List.length_nil] at *
      omega
    · obtain ⟨h₁, h₂⟩ := alt.members_range m hm
      simp only [Statement.tokens, header, List.length_cons, List.length_append,
        List.length_nil] at *
      omega
  | .loop word cond colon body, i, m, hm => by
    obtain ⟨h₁, h₂⟩ := body.members_range m hm
    simp only [Statement.tokens, header, List.length_cons, List.length_append, List.length_nil] at *
    omega

theorem Suite.members_range : ∀ (t : Suite) {i : Nat}, ∀ m ∈ t.members i,
    i ≤ m.start ∧ m.start < i + t.tokens.length
  | .inline items, i, m, hm => items.members_range m hm
  | .indented indent items dedent, i, m, hm => by
    obtain ⟨h₁, h₂⟩ := items.members_range m hm
    simp only [Suite.tokens, List.length_cons, List.length_append]
    omega

theorem Items.members_range : ∀ (t : Items) {k : Container} {i : Nat}, ∀ m ∈ t.members k i,
    i ≤ m.start ∧ m.start < i + t.tokens.length
  | .nil, _, _, m, hm => absurd hm List.not_mem_nil
  | .colon token more, k, i, m, hm => by
    obtain ⟨h₁, h₂⟩ := more.members_range m hm
    simp only [Items.tokens, List.length_cons]
    omega
  | .stmt s more, k, i, m, hm => by
    obtain ⟨ts, hts⟩ := s.tokens_eq
    have hpos : 0 < s.tokens.length := by simp [hts]
    simp only [Items.members, List.mem_cons, List.mem_append] at hm
    simp only [Items.tokens, List.length_append]
    rcases hm with rfl | hm | hm
    · simp only
      omega
    · obtain ⟨h₁, h₂⟩ := s.members_range m hm
      omega
    · obtain ⟨h₁, h₂⟩ := more.members_range m hm
      omega

end

mutual

theorem Statement.members_sorted : ∀ (s : Statement) (i : Nat),
    (s.members i).Pairwise fun a b => a.start < b.start
  | .assign _ _ _, _ => List.Pairwise.nil
  | .call _ _ _ _, _ => List.Pairwise.nil
  | .ifThen _ _ _ body, _ => body.members_sorted _
  | .ifElse _ _ _ body _ _ alt, _ => by
    refine List.pairwise_append.mpr ⟨body.members_sorted _, alt.members_sorted _, ?_⟩
    intro a ha b hb
    have h₁ := (body.members_range a ha).2
    have h₂ := (alt.members_range b hb).1
    omega
  | .loop _ _ _ body, _ => body.members_sorted _

theorem Suite.members_sorted : ∀ (t : Suite) (i : Nat),
    (t.members i).Pairwise fun a b => a.start < b.start
  | .inline items, i => items.members_sorted _ i
  | .indented _ items _, i => items.members_sorted _ (i + 1)

/-- **Members are listed in the order of their first tokens.** -/
theorem Items.members_sorted : ∀ (t : Items) (k : Container) (i : Nat),
    (t.members k i).Pairwise fun a b => a.start < b.start
  | .nil, _, _ => List.Pairwise.nil
  | .colon _ more, k, i => more.members_sorted k (i + 1)
  | .stmt s more, k, i => by
    have hs : ∀ b ∈ s.members i, i < b.start ∧ b.start < i + s.tokens.length := s.members_range
    have hmore : ∀ b ∈ more.members k (i + s.tokens.length), i + s.tokens.length ≤ b.start :=
      fun b hb => (more.members_range b hb).1
    obtain ⟨ts, hts⟩ := s.tokens_eq
    have hpos : 0 < s.tokens.length := by simp [hts]
    refine List.pairwise_cons.mpr ⟨fun b hb => ?_, List.pairwise_append.mpr
      ⟨s.members_sorted i, more.members_sorted k _, fun a ha b hb => ?_⟩⟩
    · rcases List.mem_append.mp hb with hb | hb
      · exact (hs b hb).1
      · have := hmore b hb
        show i < b.start
        omega
    · have h₁ := (hs a ha).2
      have h₂ := hmore b hb
      omega

end

/-- A place is the start of one member at most. -/
theorem Items.member_unique {t : Items} {k : Container} {i : Nat} {m m' : Member}
    (h : m ∈ t.members k i) (h' : m' ∈ t.members k i) (hs : m.start = m'.start) : m = m' := by
  have hnodup : ((t.members k i).map Member.start).Nodup :=
    List.pairwise_map.mpr ((t.members_sorted k i).imp fun hlt => Nat.ne_of_lt hlt)
  exact List.inj_on_of_nodup_map hnodup h h' hs

end Grammar

end Offside
