import Mathlib.Logic.Relation
import Offside.Proofs.Lowering.Statement
import Offside.Proofs.WellFormed.Basic

/-!
# The ways between the blocks

The part of `Module.WellFormed` that is about terminators, for every builder on the way of
`lowerStmts`.

Lowering a statement creates its blocks at once and fills them one after another. The blocks that
are still to come are *pending*: they are empty, and perhaps nothing leads to them yet.
`Wired b pending` says that all other blocks but the current one are left, that control stays within
the blocks, and that they can be reached. Going on in a pending block takes it off the list.

* `exit?` is how the block with a given label is left, and `Goes` and `Reached` are the ways that
  lead from `entry`.
* `Retains` says that blocks that are left stay left in the same way, so a way that is open stays
  open.
* `Covers` is a terminator that leads to blocks that are there, and not back to `entry`.

Results:
* `Wired.goto`: control goes on from the current block, and lowering in a pending one.
* `Wired.fork`: a statement creates its blocks, and control goes on in the first of them.
* `lowerStmt_wired`, `lowerStmts_wired`: lowering keeps a builder `Wired`, with the same blocks
  pending. The induction is on the statement.
-/

namespace Offside.Ir.Builder

open Offside.Meaning

variable {b b' : Builder} {ℓ ℓ' : Label} {t : Terminator} {pending : List Label}

/-! ## Ways -/

/-- How the block with a given label is left. An open block is left in no way. -/
def exit? (b : Builder) (ℓ : Label) : Option (Option Terminator) :=
  (b.block? ℓ).map Block.exit

theorem exit?_emitTo (b : Builder) (ℓ ℓ' : Label) (is : List Instr) :
    (b.emitTo ℓ is).exit? ℓ' = b.exit? ℓ' := by
  unfold exit?
  rw [block?_emitTo]
  split
  · rw [Option.map_map]
    rfl
  · rfl

theorem exit?_ensureSlot (b : Builder) (v : Text) (ℓ : Label) :
    (b.ensureSlot v).exit? ℓ = b.exit? ℓ := by
  by_cases hv : v ∈ b.slots
  · rw [ensureSlot_of_mem hv]
  · rw [ensureSlot_of_not_mem hv]
    exact b.exit?_emitTo .entry ℓ (reserve [v])

theorem Appends.exit? {is : List Instr} (h : Appends b is b') (ℓ : Label) :
    b'.exit? ℓ = b.exit? ℓ := by
  rw [h.eq]
  exact b.exit?_emitTo b.current ℓ is

theorem exit?_leave (b : Builder) (t : Terminator) (ℓ : Label) :
    (b.leave t).exit? ℓ = if ℓ = b.current then (b.exit? ℓ).map fun _ => some t else b.exit? ℓ := by
  unfold exit?
  rw [block?_leave]
  split
  · rw [Option.map_map, Option.map_map]
    rfl
  · rfl

theorem exit?_leave_ne_none (he : b.exit? ℓ ≠ none) (t : Terminator) :
    (b.leave t).exit? ℓ ≠ none := by
  rw [exit?_leave]
  split
  · simpa using he
  · exact he

/-- When the current block is left, all others stay as they are. -/
theorem exit?_leave_cases (hopen : b.exit? b.current = some none) {x : Option Terminator}
    (h : (b.leave t).exit? ℓ = some x) :
    ℓ = b.current ∧ x = some t ∨ ℓ ≠ b.current ∧ b.exit? ℓ = some x := by
  rw [exit?_leave] at h
  by_cases hc : ℓ = b.current
  · rw [if_pos hc, hc, hopen] at h
    exact Or.inl ⟨hc, (Option.some.inj h).symm⟩
  · rw [if_neg hc] at h
    exact Or.inr ⟨hc, h⟩

theorem exit?_addBlocks (b : Builder) (labels : List Label) (ℓ : Label) :
    (b.addBlocks labels).exit? ℓ = (b.exit? ℓ).or (if ℓ ∈ labels then some none else none) := by
  unfold exit?
  rw [block?_addBlocks]
  cases b.block? ℓ with
  | some blk => rfl
  | none =>
    simp only [Option.none_or, Option.map_none]
    split
    · rfl
    · rfl

/-- A block that is there now was there before, or it is one of the new ones and open. -/
theorem exit?_addBlocks_cases {labels : List Label} (hnew : ∀ ℓ ∈ labels, b.exit? ℓ = none)
    {x : Option Terminator} (h : (b.addBlocks labels).exit? ℓ = some x) :
    b.exit? ℓ = some x ∨ ℓ ∈ labels ∧ x = none := by
  rw [exit?_addBlocks] at h
  by_cases hm : ℓ ∈ labels
  · rw [hnew ℓ hm, Option.none_or, if_pos hm] at h
    exact Or.inr ⟨hm, (Option.some.inj h).symm⟩
  · rw [if_neg hm, Option.or_none] at h
    exact Or.inl h

theorem exit?_addBlocks_ne_none (he : b.exit? ℓ ≠ none) (labels : List Label) :
    (b.addBlocks labels).exit? ℓ ≠ none := by
  obtain ⟨x, hx⟩ := Option.ne_none_iff_exists'.mp he
  rw [exit?_addBlocks, hx, Option.some_or]
  simp

theorem Sound.exit?_current (h : Sound b) : b.exit? b.current = some none := by
  obtain ⟨blk, hb, hopen⟩ := h.isOpen
  unfold exit?
  rw [hb, Option.map_some, hopen]

/-- Control can go from one block to another. -/
def Goes (b : Builder) (ℓ ℓ' : Label) : Prop :=
  ∃ t, b.exit? ℓ = some (some t) ∧ ℓ' ∈ t.targets

/-- Control can go from `entry` to a block. -/
def Reached (b : Builder) (ℓ : Label) : Prop :=
  Relation.ReflTransGen b.Goes .entry ℓ

/-- Blocks that are left stay left in the same way. -/
def Retains (b b' : Builder) : Prop :=
  ∀ ℓ t, b.exit? ℓ = some (some t) → b'.exit? ℓ = some (some t)

theorem Completes.retains (h : Completes b b') : Retains b b' := by
  intro ℓ t he
  obtain ⟨blk, hb, hexit⟩ := Option.map_eq_some_iff.mp he
  obtain ⟨blk', hb', -, hkeeps⟩ := h ℓ blk hb
  unfold exit?
  rw [hb', Option.map_some, (hkeeps (by rw [hexit]; simp)).1, hexit]

theorem retains_leave (hopen : b.exit? b.current = some none) (t : Terminator) :
    Retains b (b.leave t) := by
  intro ℓ t' he
  rw [exit?_leave, if_neg, he]
  rintro rfl
  rw [hopen] at he
  exact absurd (Option.some.inj he) (by simp)

theorem retains_addBlocks (b : Builder) (labels : List Label) : Retains b (b.addBlocks labels) := by
  intro ℓ t he
  rw [exit?_addBlocks, he, Option.some_or]

/-- Ways stay open, because blocks that are left stay left. -/
theorem Reached.mono (h : b.Reached ℓ) (hr : Retains b b') : b'.Reached ℓ := by
  refine Relation.ReflTransGen.mono (fun ℓ₁ ℓ₂ hg => ?_) _ _ h
  obtain ⟨t, he, ht⟩ := hg
  exact ⟨t, hr ℓ₁ t he, ht⟩

/-- From the current block control goes on to where it is left for. -/
theorem Reached.leave (h : b.Reached b.current) (hopen : b.exit? b.current = some none)
    (hℓ : ℓ ∈ t.targets) : (b.leave t).Reached ℓ := by
  refine (h.mono (retains_leave hopen t)).tail ⟨t, ?_, hℓ⟩
  rw [exit?_leave, if_pos rfl, hopen]
  rfl

/-! ## Builders whose blocks are connected -/

/-- A terminator leads to blocks that are there, and not back to `entry`. -/
def Covers (b : Builder) (t : Terminator) : Prop :=
  t ≠ .ret ∧ ∀ ℓ ∈ t.targets, ℓ ≠ .entry ∧ b.exit? ℓ ≠ none

theorem Covers.mono (h : b.Covers t) (hb : ∀ ℓ, b.exit? ℓ ≠ none → b'.exit? ℓ ≠ none) :
    b'.Covers t :=
  ⟨h.1, fun ℓ hℓ => ⟨(h.2 ℓ hℓ).1, hb ℓ (h.2 ℓ hℓ).2⟩⟩

/-- What is true of the blocks between two statements. -/
structure Wired (b : Builder) (pending : List Label) : Prop where
  /-- Only the current block and the pending ones are open. -/
  opens : ∀ ℓ, b.exit? ℓ = some none → ℓ = b.current ∨ ℓ ∈ pending
  leads : ∀ ℓ t, b.exit? ℓ = some (some t) → b.Covers t
  reached : ∀ ℓ, b.exit? ℓ ≠ none → ℓ ∈ pending ∨ b.Reached ℓ
  here : b.Reached b.current

theorem exit?_start (h : start.exit? ℓ ≠ none) : ℓ = .entry := by
  cases ℓ with
  | entry => rfl
  | _ => exact absurd (by simp [exit?, block?, start]) h

theorem wired_start : Wired start [] where
  opens := fun ℓ h => Or.inl (exit?_start (by rw [h]; simp))
  leads := by
    intro ℓ t h
    obtain rfl := exit?_start (by rw [h]; simp : start.exit? ℓ ≠ none)
    exact absurd h (by simp [exit?, block?, start])
  reached := by
    intro ℓ h
    obtain rfl := exit?_start h
    exact Or.inr Relation.ReflTransGen.refl
  here := Relation.ReflTransGen.refl

namespace Wired

/-- Code that is added changes nothing about the ways. -/
theorem same (h : Wired b pending) (he : ∀ ℓ, b'.exit? ℓ = b.exit? ℓ)
    (hc : b'.current = b.current) : Wired b' pending := by
  have hexit : b'.exit? = b.exit? := funext he
  have hreach : b'.Reached = b.Reached := by
    unfold Reached Goes
    rw [hexit]
  have hcovers : b'.Covers = b.Covers := by
    unfold Covers
    rw [hexit]
  refine ⟨?_, ?_, ?_, ?_⟩
  · rw [hexit, hc]
    exact h.opens
  · rw [hexit, hcovers]
    exact h.leads
  · rw [hexit, hreach]
    exact h.reached
  · rw [hreach, hc]
    exact h.here

theorem appends {is : List Instr} (h : Wired b pending) (ha : Appends b is b') :
    Wired b' pending :=
  h.same ha.exit? ha.current

/-- New blocks are pending. -/
theorem addBlocks (h : Wired b pending) {labels : List Label}
    (hnew : ∀ ℓ ∈ labels, b.exit? ℓ = none) : Wired (b.addBlocks labels) (labels ++ pending) := by
  have hreach : ∀ ℓ, b.Reached ℓ → (b.addBlocks labels).Reached ℓ :=
    fun ℓ hr => hr.mono (b.retains_addBlocks labels)
  refine ⟨fun ℓ he => ?_, fun ℓ t he => ?_, fun ℓ he => ?_, hreach _ h.here⟩
  · rcases exit?_addBlocks_cases hnew he with he | ⟨hm, -⟩
    · exact (h.opens ℓ he).imp_right (List.mem_append_right labels)
    · exact Or.inr (List.mem_append_left pending hm)
  · rcases exit?_addBlocks_cases hnew he with he | ⟨-, habs⟩
    · exact (h.leads ℓ t he).mono fun ℓ' hℓ' => exit?_addBlocks_ne_none hℓ' labels
    · exact absurd habs (by simp)
  · obtain ⟨x, hx⟩ := Option.ne_none_iff_exists'.mp he
    rcases exit?_addBlocks_cases hnew hx with he | ⟨hm, -⟩
    · exact (h.reached ℓ (by rw [he]; simp)).imp (List.mem_append_right labels) (hreach ℓ)
    · exact Or.inl (List.mem_append_left pending hm)

/-- **Control goes on** from the current block, and lowering in a pending one. -/
theorem goto (h : Wired b (ℓ :: pending)) (hopen : b.exit? b.current = some none)
    (ht : b.Covers t) (hr : (b.leave t).Reached ℓ) : Wired ((b.leave t).enter ℓ) pending := by
  have hcovers : ∀ t', b.Covers t' → ((b.leave t).enter ℓ).Covers t' :=
    fun t' ht' => ht'.mono fun ℓ' hℓ' => exit?_leave_ne_none hℓ' t
  refine ⟨fun ℓ' he => ?_, fun ℓ' t' he => ?_, fun ℓ' he => ?_, hr⟩
  · rcases exit?_leave_cases hopen he with ⟨-, habs⟩ | ⟨hne, he⟩
    · exact absurd habs (by simp)
    · rcases h.opens ℓ' he with habs | hm
      · exact absurd habs hne
      · exact List.mem_cons.mp hm
  · rcases exit?_leave_cases hopen he with ⟨-, he⟩ | ⟨-, he⟩
    · obtain rfl := Option.some.inj he
      exact hcovers _ ht
    · exact hcovers t' (h.leads ℓ' t' he)
  · have he' : b.exit? ℓ' ≠ none := by
      obtain ⟨x, hx⟩ := Option.ne_none_iff_exists'.mp he
      rcases exit?_leave_cases hopen hx with ⟨rfl, -⟩ | ⟨-, he⟩
      · rw [hopen]
        simp
      · rw [he]
        simp
    rcases h.reached ℓ' he' with hm | hr'
    · rcases List.mem_cons.mp hm with rfl | hm
      · exact Or.inr hr
      · exact Or.inl hm
    · exact Or.inr (Reached.mono hr' (retains_leave hopen t))

/-- The current block stays open when blocks are created. -/
theorem exit?_addBlocks_current (hs : Sound b) (labels : List Label) :
    (b.nextLabel.2.addBlocks labels).exit? b.current = some none := by
  rw [exit?_addBlocks]
  show (b.exit? b.current).or _ = _
  rw [hs.exit?_current, Option.some_or]

/-- The blocks that a statement branches to can be reached. -/
theorem reached_fork (h : Wired b pending) (hs : Sound b) (labels : List Label)
    (hℓ : ℓ ∈ t.targets) : (b.fork labels t).Reached ℓ := by
  refine Reached.leave ?_ (exit?_addBlocks_current hs labels) hℓ
  exact Reached.mono (b := b.nextLabel.2) h.here (b.nextLabel.2.retains_addBlocks labels)

/-- A statement creates its blocks, and control goes on in the first of them. -/
theorem fork (h : Wired b pending) (hs : Sound b) {rest : List Label}
    (hn : ∀ ℓ' ∈ ℓ :: rest, ℓ'.number = b.labels + 1) (hret : t ≠ .ret)
    (ht : ∀ ℓ' ∈ t.targets, ℓ' ∈ ℓ :: rest) (hℓ : ℓ ∈ t.targets) :
    Wired ((b.fork (ℓ :: rest) t).enter ℓ) (rest ++ pending) := by
  have hnew : ∀ ℓ' ∈ ℓ :: rest, b.nextLabel.2.exit? ℓ' = none := by
    intro ℓ' hm
    have hnone := hs.fresh ℓ' (by have := hn ℓ' hm; omega)
    show (b.block? ℓ').map Block.exit = none
    rw [hnone]
    rfl
  have hw : Wired (b.nextLabel.2.addBlocks (ℓ :: rest)) (ℓ :: (rest ++ pending)) :=
    (h.same (fun _ => rfl) rfl : Wired b.nextLabel.2 pending).addBlocks hnew
  refine hw.goto (exit?_addBlocks_current hs _) ⟨hret, fun ℓ' hℓ' => ⟨?_, ?_⟩⟩
    (h.reached_fork hs _ hℓ)
  · rintro rfl
    exact absurd (hn _ (ht _ hℓ')) (by simp [Label.number])
  · rw [exit?_addBlocks, hnew ℓ' (ht ℓ' hℓ'), if_pos (ht ℓ' hℓ')]
    simp

end Wired

/-! ## Lowering keeps the blocks connected -/

theorem Extends.exit?_ne_none (h : Extends b b') (he : b.exit? ℓ ≠ none) : b'.exit? ℓ ≠ none := by
  obtain ⟨x, hx⟩ := Option.ne_none_iff_exists'.mp he
  obtain ⟨blk, hb, -⟩ := Option.map_eq_some_iff.mp hx
  obtain ⟨blk', hb', -⟩ := h.persists hb
  unfold exit?
  rw [hb']
  simp

theorem Sound.exit?_fork_ne_none (h : Sound b) {labels : List Label} (t : Terminator)
    (hm : ℓ ∈ labels) (hn : ∀ ℓ ∈ labels, ℓ.number = b.labels + 1) :
    (b.fork labels t).exit? ℓ ≠ none := by
  have hv := h.vacant_fork labels t hm hn
  unfold Vacant at hv
  unfold exit?
  rw [hv]
  simp

/-- **An arm is left** for a block that was there before, and lowering goes on in a pending one. -/
theorem Arm.goto {f : Builder} {body : List Stmt} {back next : Label} (harm : Arm f ℓ body b)
    (hw : Wired b (next :: pending)) (hback : f.exit? back ≠ none) (hne : back ≠ .entry)
    (hr : (b.leave (.jump back)).Reached next) :
    Wired ((b.leave (.jump back)).enter next) pending := by
  have hthere : b.exit? back ≠ none := harm.grows.exit?_ne_none hback
  refine hw.goto harm.sound.exit?_current ⟨by simp, fun ℓ' hℓ' => ?_⟩ hr
  obtain rfl : ℓ' = back := by simpa [Terminator.targets] using hℓ'
  exact ⟨hne, hthere⟩

/-- At the end of an arm control goes on to the block for which the arm is left. -/
theorem Arm.reached {f : Builder} {body : List Stmt} (harm : Arm f ℓ body b)
    (hw : Wired b pending) (next : Label) : (b.leave (.jump next)).Reached next :=
  Reached.leave hw.here harm.sound.exit?_current (by simp [Terminator.targets])

mutual

/-- **Lowering a statement keeps the blocks connected.** -/
theorem lowerStmt_wired : ∀ {s : Stmt} {b b' : Builder} {pending : List Label}, Sound b →
    Wired b pending → b.lowerStmt s = .ok b' → Wired b' pending
  | .assign target e, b, b', pending, hs, h, hl => by
    obtain ⟨x, b₁, h₁, rfl⟩ := lowerStmt_assign hl
    obtain ⟨is, ha, -⟩ := lowerExpr_computes h₁
    have hslot := (h.appends ha).same (b₁.exit?_ensureSlot target.value)
      (b₁.ensureSlot_current target.value)
    exact hslot.same (fun ℓ => exit?_emitTo _ _ ℓ _) rfl
  | .call name args, b, b', pending, hs, h, hl => by
    obtain ⟨b₁, is, xs, instr, ha, ha', -⟩ := lowerCall_computes hl
    exact (h.appends ha).appends ha'
  | .ifThen cond body, b, b', pending, hs, h, hl => by
    obtain ⟨bit, b₁, b₂, n, h₁, hs₁, hn, harm, rfl, -⟩ :=
      ifThen_parts (fun hs h => lowerStmts_sound hs h) hs hl
    obtain ⟨is, ha, -⟩ := lowerCond_computes h₁
    have hnum : ∀ ℓ ∈ [Label.ifThen n, .ifEnd n], ℓ.number = b₁.labels + 1 := by
      simp [Label.number, hn]
    have hw := (h.appends ha).fork hs₁ (t := .branch bit (.ifThen n) (.ifEnd n)) hnum (by simp)
      (by simp [Terminator.targets]) (by simp [Terminator.targets])
    have hw₂ := lowerStmts_wired harm.enter_sound hw harm.lowers
    exact harm.goto hw₂ (hs₁.exit?_fork_ne_none _ (by simp) hnum) (by simp)
      (harm.reached hw₂ (.ifEnd n))
  | .ifElse cond body alt, b, b', pending, hs, h, hl => by
    obtain ⟨bit, b₁, b₂, b₃, n, h₁, hs₁, hn, harm₂, harm₃, rfl, -⟩ :=
      ifElse_parts (fun hs h => lowerStmts_sound hs h) (fun hs h => lowerStmts_sound hs h) hs hl
    obtain ⟨is, ha, -⟩ := lowerCond_computes h₁
    have hnum : ∀ ℓ ∈ [Label.ifThen n, .ifElse n, .ifEnd n], ℓ.number = b₁.labels + 1 := by
      simp [Label.number, hn]
    have hw := (h.appends ha).fork hs₁ (t := .branch bit (.ifThen n) (.ifElse n)) hnum (by simp)
      (by simp [Terminator.targets]) (by simp [Terminator.targets])
    have hw₂ := lowerStmts_wired harm₂.enter_sound hw harm₂.lowers
    have hend : (b₁.fork [.ifThen n, .ifElse n, .ifEnd n]
        (.branch bit (.ifThen n) (.ifElse n))).exit? (.ifEnd n) ≠ none :=
      hs₁.exit?_fork_ne_none _ (by simp) hnum
    -- the other arm was reached by the branch, and this way is still open
    have helse : (b₂.leave (.jump (.ifEnd n))).Reached (.ifElse n) :=
      ((h.appends ha).reached_fork hs₁ _ (by simp [Terminator.targets])).mono
        (harm₂.completes (.jump (.ifEnd n))).retains
    have hw₃ := lowerStmts_wired harm₃.enter_sound (harm₂.goto hw₂ hend (by simp) helse)
      harm₃.lowers
    have hend₂ := exit?_leave_ne_none (harm₂.grows.exit?_ne_none hend) (.jump (.ifEnd n))
    exact harm₃.goto hw₃ hend₂ (by simp) (harm₃.reached hw₃ (.ifEnd n))
  | .loop cond body, b, b', pending, hs, h, hl => by
    obtain ⟨bit, f, b₁, b₂, n, hn, rfl, hf, hv, h₁, hs₁, hx₁, harm, rfl, -⟩ :=
      loop_parts (fun hs h => lowerStmts_sound hs h) hs hl
    obtain ⟨is, ha, -⟩ := lowerCond_computes h₁
    have hnum : ∀ ℓ ∈ [Label.whileCond n, .whileBody n, .whileEnd n], ℓ.number = b.labels + 1 := by
      simp [Label.number, hn]
    have hthere : ∀ ℓ ∈ [Label.whileCond n, .whileBody n, .whileEnd n], b₁.exit? ℓ ≠ none :=
      fun ℓ hm => hx₁.exit?_ne_none (hs.exit?_fork_ne_none _ hm hnum)
    have hw := h.fork hs (t := .jump (.whileCond n)) hnum (by simp) (by simp [Terminator.targets])
      (by simp [Terminator.targets])
    have hw₁ := hw.appends ha
    have hbody := Reached.leave (t := .branch bit (.whileBody n) (.whileEnd n)) (ℓ := .whileBody n)
      hw₁.here hs₁.exit?_current (by simp [Terminator.targets])
    have hend := Reached.leave (t := .branch bit (.whileBody n) (.whileEnd n)) (ℓ := .whileEnd n)
      hw₁.here hs₁.exit?_current (by simp [Terminator.targets])
    have hw₁' := hw₁.goto hs₁.exit?_current
      ⟨by simp, by simp [Terminator.targets, hthere]⟩ hbody
    have hw₂ := lowerStmts_wired harm.enter_sound hw₁' harm.lowers
    -- the way past the loop was open since its condition
    exact harm.goto hw₂ (exit?_leave_ne_none (hthere (.whileCond n) (by simp)) _) (by simp)
      (hend.mono (harm.completes (.jump (.whileCond n))).retains)
  | .missing, b, b', _, _, _, hl => by
    unfold lowerStmt at hl
    exact absurd hl (by simp)

/-- **Lowering statements keeps the blocks connected.** -/
theorem lowerStmts_wired : ∀ {ss : List Stmt} {b b' : Builder} {pending : List Label}, Sound b →
    Wired b pending → b.lowerStmts ss = .ok b' → Wired b' pending
  | [], b, b', _, _, h, hl => by
    obtain rfl := Except.ok.inj hl
    exact h
  | s :: ss, b, b', _, hs, h, hl => by
    obtain ⟨b₁, h₁, h₂⟩ := lowerStmts_cons hl
    exact lowerStmts_wired (lowerStmt_sound hs h₁).1 (lowerStmt_wired hs h h₁) h₂

end

end Offside.Ir.Builder
