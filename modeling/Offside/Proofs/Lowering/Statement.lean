import Offside.Proofs.Lowering.Expression

/-!
# The blocks of a statement

What `lowerStmt` does to a builder, for each kind of statement: `assignment`, `functionCall`,
`ifStatement` and `whileStatement` of the code generator.

The lowering of each kind of statement is first taken apart into its steps (`lowerStmt_ifThen` and
so on). A conditional and a loop create their blocks, and enter and fill these one after another.
That a vacant block is entered and filled with the code of some statements is an `Arm`; what an arm
does to the other blocks is said once, and `ifThen_parts`, `ifElse_parts` and `loop_parts` put a
statement together from its condition and its arms.

Results:
* `Arm.keepsAt`, `Arm.completes`: an arm keeps the other blocks.
* `ifThen_parts`, `ifElse_parts`, `loop_parts`: what a statement with blocks of its own is made of.
* `lowerStmt_sound`, `lowerStmts_sound`: lowering keeps a builder sound and only extends it. The
  induction is on the statement, with a hypothesis for its blocks.
-/

namespace Offside.Ir.Builder

open Offside.Meaning

/-! ## The parts of a statement -/

theorem lowerStmt_assign {b b' : Builder} {target : Token} {e : Expr}
    (h : b.lowerStmt (.assign target e) = .ok b') :
    ∃ x b₁, b.lowerExpr e = .ok (x, b₁) ∧
      b' = (b₁.ensureSlot target.value).emit (.store x target.value) := by
  unfold lowerStmt at h
  obtain ⟨⟨x, b₁⟩, h₁, h⟩ := bind_eq_ok.mp h
  exact ⟨x, b₁, h₁, (Except.ok.inj h).symm⟩

theorem lowerStmt_ifThen {b b' : Builder} {cond : Expr} {body : List Stmt}
    (h : b.lowerStmt (.ifThen cond body) = .ok b') :
    ∃ bit b₁ b₂ n, b.lowerCond cond = .ok (bit, b₁) ∧ n = b₁.labels + 1 ∧
      ((b₁.fork [.ifThen n, .ifEnd n] (.branch bit (.ifThen n) (.ifEnd n))).enter
        (.ifThen n)).lowerStmts body = .ok b₂ ∧
      b' = (b₂.leave (.jump (.ifEnd n))).enter (.ifEnd n) := by
  unfold lowerStmt at h
  obtain ⟨⟨bit, b₁⟩, h₁, h⟩ := bind_eq_ok.mp h
  obtain ⟨b₂, h₂, h⟩ := bind_eq_ok.mp h
  exact ⟨bit, b₁, b₂, b₁.labels + 1, h₁, rfl, h₂, (Except.ok.inj h).symm⟩

theorem lowerStmt_ifElse {b b' : Builder} {cond : Expr} {body alt : List Stmt}
    (h : b.lowerStmt (.ifElse cond body alt) = .ok b') :
    ∃ bit b₁ b₂ b₃ n, b.lowerCond cond = .ok (bit, b₁) ∧ n = b₁.labels + 1 ∧
      ((b₁.fork [.ifThen n, .ifElse n, .ifEnd n] (.branch bit (.ifThen n) (.ifElse n))).enter
        (.ifThen n)).lowerStmts body = .ok b₂ ∧
      ((b₂.leave (.jump (.ifEnd n))).enter (.ifElse n)).lowerStmts alt = .ok b₃ ∧
      b' = (b₃.leave (.jump (.ifEnd n))).enter (.ifEnd n) := by
  unfold lowerStmt at h
  obtain ⟨⟨bit, b₁⟩, h₁, h⟩ := bind_eq_ok.mp h
  obtain ⟨b₂, h₂, h⟩ := bind_eq_ok.mp h
  obtain ⟨b₃, h₃, h⟩ := bind_eq_ok.mp h
  exact ⟨bit, b₁, b₂, b₃, b₁.labels + 1, h₁, rfl, h₂, h₃, (Except.ok.inj h).symm⟩

theorem lowerStmt_loop {b b' : Builder} {cond : Expr} {body : List Stmt}
    (h : b.lowerStmt (.loop cond body) = .ok b') :
    ∃ bit b₁ b₂ n, n = b.labels + 1 ∧
      ((b.fork [.whileCond n, .whileBody n, .whileEnd n] (.jump (.whileCond n))).enter
        (.whileCond n)).lowerCond cond = .ok (bit, b₁) ∧
      ((b₁.leave (.branch bit (.whileBody n) (.whileEnd n))).enter
        (.whileBody n)).lowerStmts body = .ok b₂ ∧
      b' = (b₂.leave (.jump (.whileCond n))).enter (.whileEnd n) := by
  unfold lowerStmt at h
  obtain ⟨⟨bit, b₁⟩, h₁, h⟩ := bind_eq_ok.mp h
  obtain ⟨b₂, h₂, h⟩ := bind_eq_ok.mp h
  exact ⟨bit, b₁, b₂, b.labels + 1, rfl, h₁, h₂, (Except.ok.inj h).symm⟩

theorem lowerStmts_cons {b b' : Builder} {s : Stmt} {ss : List Stmt}
    (h : b.lowerStmts (s :: ss) = .ok b') :
    ∃ b₁, b.lowerStmt s = .ok b₁ ∧ b₁.lowerStmts ss = .ok b' := by
  unfold lowerStmts at h
  exact bind_eq_ok.mp h

/-! ## Filling the blocks of a statement -/

/-- The vacant block `ℓ` of `f` is entered and filled with the code of some statements. -/
structure Arm (f : Builder) (ℓ : Label) (body : List Stmt) (b : Builder) : Prop where
  formed : Formed f
  vacant : f.Vacant ℓ
  inner : ℓ ≠ .entry
  lowers : (f.enter ℓ).lowerStmts body = .ok b
  sound : Sound b
  grows : Extends (f.enter ℓ) b

namespace Arm

variable {f b : Builder} {ℓ : Label} {body : List Stmt}

theorem enter_sound (h : Arm f ℓ body b) : Sound (f.enter ℓ) :=
  h.formed.enter_vacant h.vacant

theorem keepsAt (h : Arm f ℓ body b) {ℓ' : Label} (hne : ℓ' ≠ ℓ) (t : Terminator) :
    KeepsAt ℓ' f (b.leave t) :=
  keepsAt_visit h.grows hne t

theorem completes (h : Arm f ℓ body b) (t : Terminator) : Completes f (b.leave t) :=
  completes_visit h.formed h.vacant h.sound h.grows t

theorem current_ne_entry (h : Arm f ℓ body b) : b.current ≠ .entry :=
  h.grows.current_ne_entry h.formed h.inner

end Arm

/-- What lowering some statements is known to do. -/
def Lowers (body : List Stmt) : Prop :=
  ∀ {b b' : Builder}, Sound b → b.lowerStmts body = .ok b' → Sound b' ∧ Extends b b'

section Parts

variable {b b' : Builder} {cond : Expr} {body alt : List Stmt}

/-- A conditional without an alternative is the code of its condition and one arm. -/
theorem ifThen_parts (ih : Lowers body) (hb : Sound b)
    (h : b.lowerStmt (.ifThen cond body) = .ok b') :
    ∃ bit b₁ b₂ n, b.lowerCond cond = .ok (bit, b₁) ∧ Sound b₁ ∧ n = b₁.labels + 1 ∧
      Arm (b₁.fork [.ifThen n, .ifEnd n] (.branch bit (.ifThen n) (.ifEnd n))) (.ifThen n) body b₂ ∧
      b' = (b₂.leave (.jump (.ifEnd n))).enter (.ifEnd n) ∧ b'.Vacant (.ifEnd n) := by
  obtain ⟨bit, b₁, b₂, n, h₁, hn, h₂, rfl⟩ := lowerStmt_ifThen h
  obtain ⟨is, ha, -⟩ := lowerCond_computes h₁
  have hb₁ := ha.sound hb
  have hnum : ∀ ℓ ∈ [Label.ifThen n, .ifEnd n], ℓ.number = b₁.labels + 1 := by
    simp [Label.number, hn]
  have hf := hb₁.formed_fork _ (.branch bit (.ifThen n) (.ifEnd n)) hnum
  have hv := fun ℓ hm => hb₁.vacant_fork _ (.branch bit (.ifThen n) (.ifEnd n)) (ℓ := ℓ) hm hnum
  have hin := hv (.ifThen n) (by simp)
  obtain ⟨hs₂, hx₂⟩ := ih (hf.enter_vacant hin) h₂
  have harm : Arm _ (.ifThen n) body b₂ := ⟨hf, hin, by simp, h₂, hs₂, hx₂⟩
  refine ⟨bit, b₁, b₂, n, h₁, hb₁, hn, harm, rfl, ?_⟩
  exact (harm.keepsAt (by simp) _).vacant (by simp) (hv (.ifEnd n) (by simp))

/-- A conditional with an alternative is the code of its condition and two arms. -/
theorem ifElse_parts (ih : Lowers body) (ih' : Lowers alt) (hb : Sound b)
    (h : b.lowerStmt (.ifElse cond body alt) = .ok b') :
    ∃ bit b₁ b₂ b₃ n, b.lowerCond cond = .ok (bit, b₁) ∧ Sound b₁ ∧ n = b₁.labels + 1 ∧
      Arm (b₁.fork [.ifThen n, .ifElse n, .ifEnd n] (.branch bit (.ifThen n) (.ifElse n)))
        (.ifThen n) body b₂ ∧
      Arm (b₂.leave (.jump (.ifEnd n))) (.ifElse n) alt b₃ ∧
      b' = (b₃.leave (.jump (.ifEnd n))).enter (.ifEnd n) ∧ b'.Vacant (.ifEnd n) := by
  obtain ⟨bit, b₁, b₂, b₃, n, h₁, hn, h₂, h₃, rfl⟩ := lowerStmt_ifElse h
  obtain ⟨is, ha, -⟩ := lowerCond_computes h₁
  have hb₁ := ha.sound hb
  have hnum : ∀ ℓ ∈ [Label.ifThen n, .ifElse n, .ifEnd n], ℓ.number = b₁.labels + 1 := by
    simp [Label.number, hn]
  have hf := hb₁.formed_fork _ (.branch bit (.ifThen n) (.ifElse n)) hnum
  have hv := fun ℓ hm => hb₁.vacant_fork _ (.branch bit (.ifThen n) (.ifElse n)) (ℓ := ℓ) hm hnum
  have hin := hv (.ifThen n) (by simp)
  obtain ⟨hs₂, hx₂⟩ := ih (hf.enter_vacant hin) h₂
  have harm₂ : Arm _ (.ifThen n) body b₂ := ⟨hf, hin, by simp, h₂, hs₂, hx₂⟩
  have hf₂ := hs₂.toFormed.leave (.jump (.ifEnd n))
  have hin₂ := (harm₂.keepsAt (by simp) (.jump (.ifEnd n))).vacant (by simp)
    (hv (.ifElse n) (by simp))
  obtain ⟨hs₃, hx₃⟩ := ih' (hf₂.enter_vacant hin₂) h₃
  have harm₃ : Arm _ (.ifElse n) alt b₃ := ⟨hf₂, hin₂, by simp, h₃, hs₃, hx₃⟩
  refine ⟨bit, b₁, b₂, b₃, n, h₁, hb₁, hn, harm₂, harm₃, rfl, ?_⟩
  exact ((harm₂.keepsAt (by simp) _).trans (harm₃.keepsAt (by simp) _)).vacant (by simp)
    (hv (.ifEnd n) (by simp))

/-- A loop is the code of its condition in a block of its own and one arm. -/
theorem loop_parts (ih : Lowers body) (hb : Sound b)
    (h : b.lowerStmt (.loop cond body) = .ok b') :
    ∃ bit f b₁ b₂ n, n = b.labels + 1 ∧
      f = b.fork [.whileCond n, .whileBody n, .whileEnd n] (.jump (.whileCond n)) ∧
      Formed f ∧ f.Vacant (.whileCond n) ∧ (f.enter (.whileCond n)).lowerCond cond = .ok (bit, b₁) ∧
      Sound b₁ ∧ Extends (f.enter (.whileCond n)) b₁ ∧
      Arm (b₁.leave (.branch bit (.whileBody n) (.whileEnd n))) (.whileBody n) body b₂ ∧
      b' = (b₂.leave (.jump (.whileCond n))).enter (.whileEnd n) ∧ b'.Vacant (.whileEnd n) := by
  obtain ⟨bit, b₁, b₂, n, hn, h₁, h₂, rfl⟩ := lowerStmt_loop h
  have hnum : ∀ ℓ ∈ [Label.whileCond n, .whileBody n, .whileEnd n], ℓ.number = b.labels + 1 := by
    simp [Label.number, hn]
  have hf := hb.formed_fork _ (.jump (.whileCond n)) hnum
  have hv := fun ℓ hm => hb.vacant_fork _ (.jump (.whileCond n)) (ℓ := ℓ) hm hnum
  have hin := hv (.whileCond n) (by simp)
  obtain ⟨is, ha, -⟩ := lowerCond_computes h₁
  have hs₁ := ha.sound (hf.enter_vacant hin)
  have hf₁ := hs₁.toFormed.leave (.branch bit (.whileBody n) (.whileEnd n))
  have hin₁ := (keepsAt_visit ha.extends (by simp)
    (.branch bit (.whileBody n) (.whileEnd n))).vacant (by simp) (hv (.whileBody n) (by simp))
  obtain ⟨hs₂, hx₂⟩ := ih (hf₁.enter_vacant hin₁) h₂
  have harm : Arm _ (.whileBody n) body b₂ := ⟨hf₁, hin₁, by simp, h₂, hs₂, hx₂⟩
  refine ⟨bit, _, b₁, b₂, n, hn, rfl, hf, hin, h₁, hs₁, ha.extends, harm, rfl, ?_⟩
  exact ((keepsAt_visit ha.extends (by simp) _).trans (harm.keepsAt (by simp) _)).vacant (by simp)
    (hv (.whileEnd n) (by simp))

end Parts

/-! ## Lowering extends the builder -/

mutual

/-- **Lowering a statement keeps the builder sound and extends it.** -/
theorem lowerStmt_sound : ∀ {s : Stmt} {b b' : Builder}, Sound b → b.lowerStmt s = .ok b' →
    Sound b' ∧ Extends b b'
  | .assign target e, b, b', hb, h => by
    obtain ⟨x, b₁, h₁, rfl⟩ := lowerStmt_assign h
    obtain ⟨is, ha, -⟩ := lowerExpr_computes h₁
    have hs := (ha.sound hb).ensureSlot target.value
    exact ⟨hs.emitTo rfl, (ha.extends.trans (extends_ensureSlot b₁ target.value)).trans
      (extends_emitTo _ _)⟩
  | .call name args, b, b', hb, h => by
    obtain ⟨b₁, is, xs, instr, ha, ha', -⟩ := lowerCall_computes h
    exact ⟨(ha.trans ha').sound hb, (ha.trans ha').extends⟩
  | .ifThen cond body, b, b', hb, h => by
    obtain ⟨bit, b₁, b₂, n, h₁, hb₁, hn, harm, rfl, hv⟩ :=
      ifThen_parts (fun hs h => lowerStmts_sound hs h) hb h
    obtain ⟨is, ha, -⟩ := lowerCond_computes h₁
    refine ⟨(harm.sound.toFormed.leave _).enter_vacant hv,
      ha.extends.trans (extends_fork [.ifThen n, .ifEnd n] (.branch bit (.ifThen n) (.ifEnd n))
        (fun ℓ blk hblk => ?_) ?_)⟩
    · exact harm.keepsAt (hb₁.ne_of_block? (ℓ := .ifThen n) hn hblk) _
    · exact hb₁.fresh (.ifEnd n) (by simp [Label.number, hn])
  | .ifElse cond body alt, b, b', hb, h => by
    obtain ⟨bit, b₁, b₂, b₃, n, h₁, hb₁, hn, harm₂, harm₃, rfl, hv⟩ :=
      ifElse_parts (fun hs h => lowerStmts_sound hs h) (fun hs h => lowerStmts_sound hs h) hb h
    obtain ⟨is, ha, -⟩ := lowerCond_computes h₁
    refine ⟨(harm₃.sound.toFormed.leave _).enter_vacant hv,
      ha.extends.trans (extends_fork [.ifThen n, .ifElse n, .ifEnd n]
        (.branch bit (.ifThen n) (.ifElse n)) (fun ℓ blk hblk => ?_) ?_)⟩
    · exact (harm₂.keepsAt (hb₁.ne_of_block? (ℓ := .ifThen n) hn hblk) _).trans
        (harm₃.keepsAt (hb₁.ne_of_block? (ℓ := .ifElse n) hn hblk) _)
    · exact hb₁.fresh (.ifEnd n) (by simp [Label.number, hn])
  | .loop cond body, b, b', hb, h => by
    obtain ⟨bit, f, b₁, b₂, n, hn, rfl, hf, hvc, h₁, hs₁, hx₁, harm, rfl, hv⟩ :=
      loop_parts (fun hs h => lowerStmts_sound hs h) hb h
    refine ⟨(harm.sound.toFormed.leave _).enter_vacant hv,
      extends_fork [.whileCond n, .whileBody n, .whileEnd n] (.jump (.whileCond n))
        (fun ℓ blk hblk => ?_) ?_⟩
    · exact (keepsAt_visit hx₁ (hb.ne_of_block? (ℓ := .whileCond n) hn hblk) _).trans
        (harm.keepsAt (hb.ne_of_block? (ℓ := .whileBody n) hn hblk) _)
    · exact hb.fresh (.whileEnd n) (by simp [Label.number, hn])
  | .missing, b, b', _, h => by
    unfold lowerStmt at h
    exact absurd h (by simp)

/-- **Lowering statements keeps the builder sound and extends it.** -/
theorem lowerStmts_sound : ∀ {ss : List Stmt} {b b' : Builder}, Sound b →
    b.lowerStmts ss = .ok b' → Sound b' ∧ Extends b b'
  | [], b, b', hb, h => by
    obtain rfl := Except.ok.inj h
    exact ⟨hb, Extends.refl b⟩
  | s :: ss, b, b', hb, h => by
    obtain ⟨b₁, h₁, h₂⟩ := lowerStmts_cons h
    obtain ⟨hs₁, hx₁⟩ := lowerStmt_sound hb h₁
    obtain ⟨hs₂, hx₂⟩ := lowerStmts_sound hs₁ h₂
    exact ⟨hs₂, hx₁.trans hx₂⟩

end

end Offside.Ir.Builder
