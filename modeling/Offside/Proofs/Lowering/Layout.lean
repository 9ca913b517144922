import Offside.Proofs.Lowering.Statement

/-!
# Where the code of a program ends up

Where in the finished module the code of each statement stands, and where control goes from there.

Lowering works on a builder that grows. What matters for a run is the finished builder, so each
state of the builder on the way is read against the last one: `At b F k t` says that in the finished
builder `F` the block that `b` is in goes on with the code `k` and the terminator `t`.

`Follows F k t ss` says that code and terminator were made for the statements `ss`, up to the end of
the program. It follows the statements and not the blocks, so a loop does not lead around in a
circle: its back edge is a constructor of its own.

* `At.of_appends`, `At.of_ensureSlot`, `At.of_leave` and `At.of_fork` read off where code stands
  from what was done to the builder behind it.
* `Fills` says that a block and those behind it hold the code of some statements, from which control
  goes on to another block.

Results:
* `At.unique`: a block goes on in one way.
* `assign_at`, `call_at`, `ifThen_at`, `ifElse_at`, `loop_at`: the code in front of a statement.
* `lowerStmts_follows`: the code of a program follows the program, by induction on the statements.
-/

namespace Offside.Ir.Builder

open Offside.Meaning

/-- In the end, the block that `b` is in goes on with the code `k` and the terminator `t`. -/
def At (b F : Builder) (k : List Instr) (t : Terminator) : Prop :=
  ∃ blk blk', b.block? b.current = some blk ∧ F.block? b.current = some blk' ∧
    blk'.body = blk.body ++ k ∧ blk'.exit = some t

variable {b b' f F : Builder} {k k' is : List Instr} {t t' : Terminator}

namespace At

theorem unique (h : At b F k t) (h' : At b F k' t') : k = k' ∧ t = t' := by
  obtain ⟨blk, blk', hb, hF, hbody, hexit⟩ := h
  obtain ⟨blk₁, blk₁', hb₁, hF₁, hbody₁, hexit₁⟩ := h'
  obtain rfl := Option.some.inj (hb.symm.trans hb₁)
  obtain rfl := Option.some.inj (hF.symm.trans hF₁)
  refine ⟨List.append_cancel_left (hbody.symm.trans hbody₁), ?_⟩
  exact Option.some.inj (hexit.symm.trans hexit₁)

theorem of_appends (h : Appends b is b') (hat : At b' F k t) : At b F (is ++ k) t := by
  obtain ⟨blk, blk', hb, hF, hbody, hexit⟩ := hat
  rw [h.current] at hb hF
  have hb' : (b.emitTo b.current is).block? b.current = some blk := by
    rw [h.eq] at hb
    exact hb
  rw [block?_emitTo, if_pos rfl] at hb'
  obtain ⟨blk₀, h₀, rfl⟩ := Option.map_eq_some_iff.mp hb'
  refine ⟨blk₀, blk', h₀, hF, ?_, hexit⟩
  rw [hbody, List.append_assoc]

theorem of_emit {instr : Instr} (hat : At (b.emit instr) F k t) : At b F (instr :: k) t := by
  obtain ⟨blk, blk', hb, hF, hbody, hexit⟩ := hat
  change (b.emitTo b.current [instr]).block? b.current = some blk at hb
  rw [block?_emitTo, if_pos rfl] at hb
  obtain ⟨blk₀, h₀, rfl⟩ := Option.map_eq_some_iff.mp hb
  refine ⟨blk₀, blk', h₀, hF, ?_, hexit⟩
  rw [hbody, List.append_assoc]
  rfl

theorem of_ensureSlot {v : Text} (hat : At (b.ensureSlot v) F k t) :
    ∃ vs, At b F (reserve vs ++ k) t := by
  by_cases hv : v ∈ b.slots
  · rw [ensureSlot_of_mem hv] at hat
    exact ⟨[], hat⟩
  · obtain ⟨blk, blk', hb, hF, hbody, hexit⟩ := hat
    rw [ensureSlot_of_not_mem hv] at hb hF
    change (b.emitTo .entry (reserve [v])).block? b.current = some blk at hb
    rw [block?_emitTo] at hb
    split at hb
    · obtain ⟨blk₀, h₀, rfl⟩ := Option.map_eq_some_iff.mp hb
      refine ⟨[v], blk₀, blk', h₀, hF, ?_, hexit⟩
      rw [hbody, List.append_assoc]
    · exact ⟨[], blk, blk', hb, hF, hbody, hexit⟩

/-- A block that is left gets nothing but slots made at the end of `entry`. -/
theorem of_left {blk : Block} (hb : b.block? b.current = some blk)
    (hf : f.block? b.current = some { blk with exit := some t }) (hc : Completes f F) :
    ∃ vs, At b F (reserve vs) t ∧ (b.current ≠ .entry → vs = []) := by
  obtain ⟨blk', hF, -, hk⟩ := hc _ _ hf
  obtain ⟨hexit, vs, hbody, hvs⟩ := hk (by simp)
  refine ⟨vs, ⟨blk, blk', hb, hF, hbody, hexit⟩, fun hne => hvs ?_⟩
  show blk.label ≠ .entry
  rw [block?_label hb]
  exact hne

/-- Behind the last statement of a block other than `entry` stands its terminator. -/
theorem of_leave (hb : Sound b) (hc : Completes (b.leave t) F) (hne : b.current ≠ .entry) :
    At b F [] t := by
  obtain ⟨blk, hblk, -⟩ := hb.isOpen
  have hf : (b.leave t).block? b.current = some { blk with exit := some t } := by
    rw [block?_leave, if_pos rfl, hblk]
    rfl
  obtain ⟨vs, hat, hvs⟩ := of_left hblk hf hc
  rw [hvs hne] at hat
  exact hat

/-- Nothing stands behind the last statement of a program. -/
theorem last (hb : Sound b) (t : Terminator) : At b (b.leave t) [] t := by
  obtain ⟨blk, hblk, -⟩ := hb.isOpen
  refine ⟨blk, { blk with exit := some t }, hblk, ?_, (List.append_nil _).symm, rfl⟩
  rw [block?_leave, if_pos rfl, hblk]
  rfl

theorem of_fork (labels : List Label) (hb : Sound b) (hc : Completes (b.fork labels t) F) :
    ∃ vs, At b F (reserve vs) t := by
  obtain ⟨blk, hblk, -⟩ := hb.isOpen
  obtain ⟨vs, hat, -⟩ := of_left hblk (fork_current labels t hblk) hc
  exact ⟨vs, hat⟩

/-- A vacant block ends up with all the code that follows. -/
theorem vacant {ℓ : Label} (hv : b.Vacant ℓ) (h : At (b.enter ℓ) F k t) :
    F.block? ℓ = some ⟨ℓ, k, some t⟩ := by
  obtain ⟨blk, ⟨l, body, exit⟩, hb, hF, hbody, hexit⟩ := h
  obtain rfl := Option.some.inj (hb.symm.trans hv)
  obtain rfl : l = ℓ := block?_label hF
  simp only [List.nil_append] at hbody hexit
  rw [hbody, hexit] at hF
  exact hF

/-- The slots that a builder knows are made before the code that it adds next. -/
theorem slots {v : Text} (h : At b F k t) (hb : Formed b) (hF : Formed F) (hc : Completes b F)
    (hv : v ∈ b.slots) : v ∈ F.slots ∧ v ∉ allocated k := by
  obtain ⟨blk, blk', hblk, hblk', hbody, -⟩ := h
  obtain ⟨e, he, hes⟩ := hb.entry
  obtain ⟨e', he', ⟨code, hcode⟩, -⟩ := hc _ _ he
  obtain ⟨e₁, he₁, hes'⟩ := hF.entry
  obtain rfl := Option.some.inj (he'.symm.trans he₁)
  rw [← hcode, allocated_append, hes] at hes'
  refine ⟨hes' ▸ List.mem_append_left _ hv, ?_⟩
  by_cases hcur : b.current = .entry
  · rw [hcur] at hblk hblk'
    obtain rfl := Option.some.inj (hblk.symm.trans he)
    obtain rfl := Option.some.inj (hblk'.symm.trans he')
    obtain rfl : code = k := List.append_cancel_left (hcode.trans hbody)
    have hn := hF.nodup
    rw [← hes', List.nodup_append] at hn
    exact fun hk => hn.2.2 v hv v hk rfl
  · have hp := hF.plain _ _ hcur hblk'
    rw [hbody, allocated_append, List.append_eq_nil_iff] at hp
    rw [hp.2]
    exact List.not_mem_nil

end At

/-- Code and terminator that were made for some statements, up to the end of the program. -/
inductive Follows (F : Builder) : List Instr → Terminator → List Stmt → Prop where
  | done : Follows F [] .ret []
  | jump {ℓ : Label} {k : List Instr} {t : Terminator} {ss : List Stmt} (inner : ℓ ≠ .entry)
      (block : F.block? ℓ = some ⟨ℓ, k, some t⟩) (next : Follows F k t ss) :
      Follows F [] (.jump ℓ) ss
  | stmt {b b' : Builder} {s : Stmt} {rest : List Stmt} {k k' : List Instr} {t t' : Terminator}
      (sound : Sound b) (lowers : b.lowerStmt s = .ok b') (completes : Completes b' F)
      (here : At b F k t) (behind : At b' F k' t') (next : Follows F k' t' rest) :
      Follows F k t (s :: rest)
  /-- From the end of a loop's block back to its condition. -/
  | again {b b' : Builder} {cond : Expr} {body rest : List Stmt} {k' : List Instr} {t' : Terminator}
      (sound : Sound b) (lowers : b.lowerStmt (.loop cond body) = .ok b')
      (completes : Completes b' F) (behind : At b' F k' t') (next : Follows F k' t' rest) :
      Follows F [] (.jump (.whileCond (b.labels + 1))) (.loop cond body :: rest)

/-- The block with a given label was made for some statements, up to the end of the program. -/
def Leads (F : Builder) (ℓ : Label) (ss : List Stmt) : Prop :=
  ℓ ≠ .entry ∧ ∃ k t, F.block? ℓ = some ⟨ℓ, k, some t⟩ ∧ Follows F k t ss

theorem Leads.jump {ℓ : Label} {ss : List Stmt} (h : Leads F ℓ ss) : Follows F [] (.jump ℓ) ss := by
  obtain ⟨hne, k, t, hblk, hk⟩ := h
  exact Follows.jump hne hblk hk

/-- In the end, the block `ℓ` and those behind it hold the code of some statements, from which
control goes on to `ℓ'`. -/
def Fills (F : Builder) (ℓ : Label) (body : List Stmt) (ℓ' : Label) : Prop :=
  ∃ f b, Arm f ℓ body b ∧ Completes (b.leave (.jump ℓ')) F

/-! ## The code of each kind of statement -/

/-- Some code makes no slots and leaves the value of `f` in an operand. -/
def Yields (vars : List Text) (is : List Instr) (x : Operand) (f : Store → Option Value) : Prop :=
  allocated is = [] ∧ ∀ env blocks, ∃ lo hi, Computes env blocks vars lo hi is x f

section Shapes

variable {cond : Expr} {body alt rest : List Stmt}

/-- The code of an assignment computes the word and stores it, perhaps making slots before. -/
theorem assign_at {target : Token} {e : Expr} (h : b.lowerStmt (.assign target e) = .ok b')
    (hat : At b' F k' t') :
    ∃ is vs x, At b F (is ++ (reserve vs ++ .store x target.value :: k')) t' ∧
      target.value ∈ b'.slots ∧ Yields b.slots is x fun σ => (value σ e).map .word := by
  obtain ⟨x, b₁, h₁, rfl⟩ := lowerStmt_assign h
  obtain ⟨is, ha, hc⟩ := lowerExpr_computes h₁
  obtain ⟨vs, hvs⟩ := At.of_ensureSlot hat.of_emit
  exact ⟨is, vs, x, At.of_appends ha hvs, mem_ensureSlot b₁ target.value, ha.plain,
    fun env blocks => ⟨_, _, hc env blocks⟩⟩

/-- The code of a call computes the arguments and shows the call. -/
theorem call_at {name : Token} {args : List Expr} (h : b.lowerStmt (.call name args) = .ok b')
    (hat : At b' F k' t') :
    ∃ is xs instr, At b F (is ++ instr :: k') t' ∧ Shows instr name.value xs ∧
      allocated is = [] ∧ allocated [instr] = [] ∧ ∀ env blocks, ∃ lo hi,
        ComputesAll env blocks b.slots lo hi is xs fun σ => values σ args := by
  obtain ⟨b₁, is, xs, instr, ha, ha', hs, hc⟩ := lowerCall_computes h
  refine ⟨is, xs, instr, At.of_appends ha (At.of_appends ha' hat), hs, ha.plain, ha'.plain,
    fun env blocks => ?_⟩
  obtain ⟨lo, hlo⟩ := hc env blocks
  exact ⟨lo, _, hlo⟩

/-- A conditional without an alternative branches to its block or behind itself. -/
theorem ifThen_at (hb : Sound b) (h : b.lowerStmt (.ifThen cond body) = .ok b')
    (hc : Completes b' F) (hat : At b' F k' t') :
    ∃ is vs bit n, At b F (is ++ reserve vs) (.branch bit (.ifThen n) (.ifEnd n)) ∧
      Yields b.slots is bit (fun σ => (holds σ cond).map .bit) ∧
      Fills F (.ifThen n) body (.ifEnd n) ∧ F.block? (.ifEnd n) = some ⟨.ifEnd n, k', some t'⟩ := by
  obtain ⟨bit, b₁, b₂, n, h₁, hb₁, -, harm, rfl, hv⟩ :=
    ifThen_parts (fun hs h => lowerStmts_sound hs h) hb h
  obtain ⟨is, ha, hcomp⟩ := lowerCond_computes h₁
  have hc₂ : Completes (b₂.leave (.jump (.ifEnd n))) F := hc
  obtain ⟨vs, hvs⟩ := At.of_fork _ hb₁ ((harm.completes _).trans hc₂)
  exact ⟨is, vs, bit, n, At.of_appends ha hvs,
    ⟨ha.plain, fun env blocks => ⟨_, _, hcomp env blocks⟩⟩,
    ⟨_, b₂, harm, hc₂⟩, hat.vacant hv⟩

/-- A conditional with an alternative branches to one of its blocks. -/
theorem ifElse_at (hb : Sound b) (h : b.lowerStmt (.ifElse cond body alt) = .ok b')
    (hc : Completes b' F) (hat : At b' F k' t') :
    ∃ is vs bit n, At b F (is ++ reserve vs) (.branch bit (.ifThen n) (.ifElse n)) ∧
      Yields b.slots is bit (fun σ => (holds σ cond).map .bit) ∧
      Fills F (.ifThen n) body (.ifEnd n) ∧ Fills F (.ifElse n) alt (.ifEnd n) ∧
      F.block? (.ifEnd n) = some ⟨.ifEnd n, k', some t'⟩ := by
  obtain ⟨bit, b₁, b₂, b₃, n, h₁, hb₁, -, harm₂, harm₃, rfl, hv⟩ :=
    ifElse_parts (fun hs h => lowerStmts_sound hs h) (fun hs h => lowerStmts_sound hs h) hb h
  obtain ⟨is, ha, hcomp⟩ := lowerCond_computes h₁
  have hc₃ : Completes (b₃.leave (.jump (.ifEnd n))) F := hc
  have hc₂ := (harm₃.completes (.jump (.ifEnd n))).trans hc₃
  obtain ⟨vs, hvs⟩ := At.of_fork _ hb₁ ((harm₂.completes _).trans hc₂)
  exact ⟨is, vs, bit, n, At.of_appends ha hvs,
    ⟨ha.plain, fun env blocks => ⟨_, _, hcomp env blocks⟩⟩,
    ⟨_, b₂, harm₂, hc₂⟩, ⟨_, b₃, harm₃, hc₃⟩, hat.vacant hv⟩

/-- A loop jumps to its condition, which branches to its block or behind the loop. -/
theorem loop_at (hb : Sound b) (h : b.lowerStmt (.loop cond body) = .ok b')
    (hc : Completes b' F) (hat : At b' F k' t') :
    ∃ is vs bit n, n = b.labels + 1 ∧ At b F (reserve vs) (.jump (.whileCond n)) ∧
      F.block? (.whileCond n) =
        some ⟨.whileCond n, is, some (.branch bit (.whileBody n) (.whileEnd n))⟩ ∧
      Yields b.slots is bit (fun σ => (holds σ cond).map .bit) ∧
      Fills F (.whileBody n) body (.whileCond n) ∧
      F.block? (.whileEnd n) = some ⟨.whileEnd n, k', some t'⟩ := by
  obtain ⟨bit, f, b₁, b₂, n, hn, rfl, hf, hvc, h₁, hs₁, hx₁, harm, rfl, hv⟩ :=
    loop_parts (fun hs h => lowerStmts_sound hs h) hb h
  obtain ⟨is, ha, hcomp⟩ := lowerCond_computes h₁
  have hc₂ : Completes (b₂.leave (.jump (.whileCond n))) F := hc
  have hc₁ := (harm.completes (.jump (.whileCond n))).trans hc₂
  obtain ⟨vs, hvs⟩ := At.of_fork _ hb ((completes_visit hf hvc hs₁ hx₁ _).trans hc₁)
  have hat₁ := At.of_leave hs₁ hc₁ (hx₁.current_ne_entry hf (by simp))
  have hcond := (At.of_appends ha hat₁).vacant hvc
  rw [List.append_nil] at hcond
  exact ⟨is, vs, bit, n, hn, hvs, hcond,
    ⟨ha.plain, fun env blocks => ⟨_, _, hcomp env blocks⟩⟩,
    ⟨_, b₂, harm, hc₂⟩, hat.vacant hv⟩

end Shapes

/-! ## The code of several statements -/

/-- Every statement leaves the place where it starts with code and a terminator. -/
theorem lowerStmt_at {s : Stmt} (hb : Sound b) (h : b.lowerStmt s = .ok b') (hc : Completes b' F)
    (hat : At b' F k' t') : ∃ k t, At b F k t := by
  cases s with
  | assign target e =>
    obtain ⟨is, vs, x, hk, -⟩ := assign_at h hat
    exact ⟨_, _, hk⟩
  | call name args =>
    obtain ⟨is, xs, instr, hk, -⟩ := call_at h hat
    exact ⟨_, _, hk⟩
  | ifThen cond body =>
    obtain ⟨is, vs, bit, n, hk, -⟩ := ifThen_at hb h hc hat
    exact ⟨_, _, hk⟩
  | ifElse cond body alt =>
    obtain ⟨is, vs, bit, n, hk, -⟩ := ifElse_at hb h hc hat
    exact ⟨_, _, hk⟩
  | loop cond body =>
    obtain ⟨is, vs, bit, n, -, hk, -⟩ := loop_at hb h hc hat
    exact ⟨_, _, hk⟩
  | missing =>
    unfold lowerStmt at h
    exact absurd h (by simp)

/-- **The code of some statements follows them**, and then whatever stands behind. -/
theorem lowerStmts_follows {rest : List Stmt} (hrest : Follows F k' t' rest) :
    ∀ {ss : List Stmt} {b b' : Builder}, Sound b → b.lowerStmts ss = .ok b' → Completes b' F →
      At b' F k' t' → ∃ k t, At b F k t ∧ Follows F k t (ss ++ rest)
  | [], b, b', _, h, _, hat => by
    obtain rfl := Except.ok.inj h
    exact ⟨k', t', hat, hrest⟩
  | s :: ss, b, b', hb, h, hc, hat => by
    obtain ⟨b₁, h₁, h₂⟩ := lowerStmts_cons h
    obtain ⟨hs₁, hx₁⟩ := lowerStmt_sound hb h₁
    obtain ⟨-, hx₂⟩ := lowerStmts_sound hs₁ h₂
    obtain ⟨k₁, t₁, hat₁, hf₁⟩ := lowerStmts_follows hrest hs₁ h₂ hc hat
    have hc₁ := (hx₂.completes hs₁).trans hc
    obtain ⟨k, t, hk⟩ := lowerStmt_at hb h₁ hc₁ hat₁
    exact ⟨k, t, hk, Follows.stmt hb h₁ hc₁ hk hat₁ hf₁⟩

theorem Fills.leads {ℓ ℓ' : Label} {body rest : List Stmt} (h : Fills F ℓ body ℓ')
    (hrest : Follows F [] (.jump ℓ') rest) : Leads F ℓ (body ++ rest) := by
  obtain ⟨f, b, harm, hc⟩ := h
  have hat := At.of_leave harm.sound hc harm.current_ne_entry
  have hc' := (harm.sound.completes_leave (.jump ℓ')).trans hc
  obtain ⟨k, t, hk, hf⟩ := lowerStmts_follows hrest harm.enter_sound harm.lowers hc' hat
  exact ⟨harm.inner, k, t, hk.vacant harm.vacant, hf⟩

end Offside.Ir.Builder
