import Mathlib.Data.List.Nodup
import Mathlib.Data.List.Perm.Basic
import Offside.Proofs.Lowering.Statement
import Offside.Proofs.WellFormed.Basic

/-!
# The code in the blocks

The part of `Module.WellFormed` that is about instructions, for every builder on the way of
`lowerStmts`.

Lowering adds to a block one instruction at a time, and a slot together with its zero. `Block.Sane`
says what is true of a block at all times, and `Coded` what is true of all blocks of a builder:
values are made before they are used, results have numbers of their own, slots are made before they
are used, and calls fit the functions that are declared. Every way in which a builder changes keeps
this, so lowering does.

* `Settled` says of the code of `entry` that slots are set to zero as soon as they are made, and
  both before they are used.
* `Instr.Fits` is a call that fits the functions declared so far. A later declaration does not spoil
  it, for a function is declared once.
* `Has` says that a value of some type is there at the end of the current block, and `Makes` that
  some code leaves such a value.

Results:
* `Coded.emit`, `Coded.leave`, `Coded.fork`, `Coded.ensureSlot`, `Coded.declare`: each way in which
  a builder changes keeps what is true of its code.
* `lowerExpr_makes`, `lowerCond_makes`: the code of an expression leaves a word at hand, the code of
  a condition a bit. The induction is on the expression.
* `lowerStmt_coded`, `lowerStmts_coded`: lowering keeps a builder `Coded`. The induction is on the
  statement, with a hypothesis for its blocks.
-/

namespace Offside.Ir

/-! ## Places in code -/

section Places

variable {code more before : List Instr} {i j : Instr} {v : Text}

theorem Stands.append (h : Stands code before i) (more : List Instr) :
    Stands (code ++ more) before i := by
  obtain ⟨behind, rfl⟩ := h
  exact ⟨behind ++ more, by rw [List.append_assoc, List.cons_append]⟩

theorem stands_last (code : List Instr) (i : Instr) : Stands (code ++ [i]) code i :=
  ⟨[], rfl⟩

/-- A place in code that got one instruction longer is an old one or the last one. -/
theorem stands_concat (h : Stands (code ++ [j]) before i) :
    Stands code before i ∨ before = code ∧ i = j := by
  obtain ⟨behind, h⟩ := h
  rcases List.append_eq_append_iff.mp h with ⟨mid, rfl, hmid⟩ | ⟨mid, rfl, hmid⟩
  · cases mid with
    | nil =>
      obtain ⟨rfl, -⟩ := List.cons.inj hmid
      exact Or.inr ⟨List.append_nil code, rfl⟩
    | cons k mid =>
      obtain ⟨-, hnil⟩ := List.cons.inj hmid
      exact absurd hnil (by simp)
  · cases mid with
    | nil =>
      obtain ⟨rfl, -⟩ := List.cons.inj hmid
      exact Or.inr ⟨(List.append_nil before).symm, rfl⟩
    | cons k mid =>
      obtain ⟨rfl, -⟩ := List.cons.inj hmid
      exact Or.inl ⟨mid, rfl⟩

theorem Stands.mem (h : Stands code before i) : i ∈ code := by
  obtain ⟨behind, rfl⟩ := h
  simp

theorem Reserves.append (h : Reserves code v) (more : List Instr) : Reserves (code ++ more) v := by
  obtain ⟨before, behind, rfl⟩ := h
  exact ⟨before, behind ++ more, by simp⟩

theorem reserves_reserve (code : List Instr) (v : Text) : Reserves (code ++ reserve [v]) v :=
  ⟨code, [], rfl⟩

/-- What has a type in some code has it behind longer code. -/
theorem Operand.HasTy.append {x : Operand} {ty : Ty} (h : x.HasTy code ty) (more : List Instr) :
    x.HasTy (code ++ more) ty := by
  cases x with
  | const w => exact h
  | reg id =>
    show (id, ty) ∈ defined (code ++ more)
    unfold defined
    rw [List.flatMap_append]
    exact List.mem_append_left _ h

theorem Operand.HasTy.of_prefix {x : Operand} {ty : Ty} (h : x.HasTy code ty) (hp : code <+: more) :
    x.HasTy more ty := by
  obtain ⟨rest, rfl⟩ := hp
  exact h.append rest

theorem hasTy_last (code : List Instr) {id : Nat} (hi : i.dst? = some id) :
    (Operand.reg id).HasTy (code ++ [i]) i.ty := by
  show (id, i.ty) ∈ defined (code ++ [i])
  simp [defined, hi]

end Places

/-! ## The code of one block -/

/-- Slots are set to zero as soon as they are made, and both before they are used. -/
structure Settled (code : List Instr) : Prop where
  made : ∀ before v, Stands code before (.alloca v) →
    Stands code (before ++ [.alloca v]) (.store (.const 0) v)
  used : ∀ before i v, Stands code before i → i.touches = some v →
    Clears before i v ∨ Reserves before v

namespace Settled

variable {code : List Instr}

theorem nil : Settled [] where
  made := by
    intro before v h
    exact absurd h.mem (by simp)
  used := by
    intro before i v h
    exact absurd h.mem (by simp)

theorem concat (h : Settled code) {i : Instr} (hi : i.allocates = none)
    (hv : ∀ v, i.touches = some v → Reserves code v) : Settled (code ++ [i]) where
  made := by
    intro before v hs
    rcases stands_concat hs with hs | ⟨-, rfl⟩
    · exact (h.made before v hs).append [i]
    · exact absurd hi (by simp [Instr.allocates])
  used := by
    intro before j v hs hj
    rcases stands_concat hs with hs | ⟨rfl, rfl⟩
    · exact h.used before j v hs hj
    · exact Or.inr (hv v hj)

theorem reserve (h : Settled code) (v : Text) : Settled (code ++ reserve [v]) := by
  have hsplit : code ++ Ir.reserve [v] = code ++ [.alloca v] ++ [.store (.const 0) v] := by
    simp [Ir.reserve]
  rw [hsplit]
  refine ⟨fun before u hs => ?_, fun before i u hs hu => ?_⟩
  · rcases stands_concat hs with hs | ⟨-, habs⟩
    · rcases stands_concat hs with hs | ⟨rfl, he⟩
      · exact ((h.made before u hs).append _).append _
      · obtain rfl := Instr.alloca.inj he
        exact stands_last _ _
    · exact absurd habs (by simp)
  · rcases stands_concat hs with hs | ⟨rfl, rfl⟩
    · rcases stands_concat hs with hs | ⟨-, rfl⟩
      · exact h.used before i u hs hu
      · exact absurd hu (by simp [Instr.touches])
    · obtain rfl := Option.some.inj hu
      exact Or.inl ⟨rfl, code, rfl⟩

end Settled

/-- A call fits the functions declared so far. -/
def Instr.Fits (externals : Lookup Nat) : Instr → Prop
  | print args => args.length = 1
  | call _ callee args => externals.get? callee = some args.length
  | _ => True

/-- The type of the value that an operation makes. -/
def BinaryOp.ty : BinaryOp → Ty
  | arith _ => .word
  | compare _ => .bit

theorem BinaryOp.ty_arith {k : Kind} :
    ∀ op ∈ (arithOp? k).map BinaryOp.arith, op.ty = .word := by
  intro op h
  obtain ⟨instr, -, rfl⟩ := Option.map_eq_some_iff.mp h
  rfl

theorem BinaryOp.ty_compare {k : Kind} :
    ∀ op ∈ (pred? k).map BinaryOp.compare, op.ty = .bit := by
  intro op h
  obtain ⟨pred, -, rfl⟩ := Option.map_eq_some_iff.mp h
  rfl

/-- What is true of a block at all times, given the slots and the functions there are. -/
structure Block.Sane (slots : List Text) (externals : Lookup Nat) (blk : Block) : Prop where
  typed : blk.Typed
  touches : ∀ i ∈ blk.body, ∀ v, i.touches = some v → v ∈ slots
  calls : ∀ i ∈ blk.body, i.Fits externals
  entry : blk.label = .entry → Settled blk.body ∧ ∀ v ∈ slots, Reserves blk.body v

namespace Block.Sane

variable {slots : List Text} {externals externals' : Lookup Nat} {blk : Block}

theorem vacant (slots : List Text) (externals : Lookup Nat) {ℓ : Label} (hne : ℓ ≠ .entry) :
    Block.Sane slots externals ⟨ℓ, [], none⟩ where
  typed := ⟨fun before i hs => absurd hs.mem (by simp), fun t ht => absurd ht (by simp)⟩
  touches := by simp
  calls := by simp
  entry := fun h => absurd h hne

/-- A block stays sane when another function is declared. -/
theorem declare (h : blk.Sane slots externals)
    (hp : ∀ i : Instr, i.Fits externals → i.Fits externals') : blk.Sane slots externals' where
  typed := h.typed
  touches := h.touches
  calls := fun i hi => hp i (h.calls i hi)
  entry := h.entry

theorem leave (h : blk.Sane slots externals) {t : Terminator}
    (ht : ∀ x ∈ t.operands, x.1.HasTy blk.body x.2) :
    Block.Sane slots externals { blk with exit := some t } where
  typed := by
    refine ⟨h.typed.body, fun t' ht' => ?_⟩
    obtain rfl := Option.some.inj ht'
    exact ht
  touches := h.touches
  calls := h.calls
  entry := h.entry

/-- The code of a block is typed when an instruction is added whose values are there. -/
theorem typed_concat (h : blk.Typed) {i : Instr} (hi : ∀ x ∈ i.operands, x.1.HasTy blk.body x.2) :
    Block.Typed { blk with body := blk.body ++ [i] } where
  body := by
    intro before j hs
    rcases stands_concat hs with hs | ⟨rfl, rfl⟩
    · exact h.body before j hs
    · exact hi
  exit := fun t ht x hx => (h.exit t ht x hx).append [i]

theorem emit (h : blk.Sane slots externals) {i : Instr}
    (hx : ∀ x ∈ i.operands, x.1.HasTy blk.body x.2) (ha : i.allocates = none)
    (hv : ∀ v, i.touches = some v → v ∈ slots) (hp : i.Fits externals) :
    Block.Sane slots externals { blk with body := blk.body ++ [i] } where
  typed := typed_concat h.typed hx
  touches := by
    intro j hj
    rcases List.mem_append.mp hj with hj | hj
    · exact h.touches j hj
    · obtain rfl := List.mem_singleton.mp hj
      exact hv
  calls := by
    intro j hj
    rcases List.mem_append.mp hj with hj | hj
    · exact h.calls j hj
    · obtain rfl := List.mem_singleton.mp hj
      exact hp
  entry := by
    intro hl
    obtain ⟨hs, hr⟩ := h.entry hl
    exact ⟨hs.concat ha fun v hj => hr v (hv v hj), fun v hm => (hr v hm).append [i]⟩

/-- The block `entry` stays sane when a slot is made at its end. -/
theorem reserve (h : blk.Sane slots externals) (v : Text) :
    Block.Sane (slots ++ [v]) externals { blk with body := blk.body ++ Ir.reserve [v] } where
  typed := by
    have ha := typed_concat (i := .alloca v) h.typed (by simp [Instr.operands])
    have hs := typed_concat (i := .store (.const 0) v) ha (by
      simp [Instr.operands, Operand.HasTy])
    simpa [Ir.reserve] using hs
  touches := by
    intro i hi u hu
    rcases List.mem_append.mp hi with hi | hi
    · exact List.mem_append_left _ (h.touches i hi u hu)
    · obtain rfl | rfl : i = .alloca v ∨ i = .store (.const 0) v := by simpa [Ir.reserve] using hi
      · exact absurd hu (by simp [Instr.touches])
      · obtain rfl := Option.some.inj hu
        simp
  calls := by
    intro i hi
    rcases List.mem_append.mp hi with hi | hi
    · exact h.calls i hi
    · obtain rfl | rfl : i = .alloca v ∨ i = .store (.const 0) v := by simpa [Ir.reserve] using hi
      · trivial
      · trivial
  entry := by
    intro hl
    obtain ⟨hs, hr⟩ := h.entry hl
    refine ⟨hs.reserve v, fun u hu => ?_⟩
    rcases List.mem_append.mp hu with hu | hu
    · exact (hr u hu).append _
    · obtain rfl := List.mem_singleton.mp hu
      exact reserves_reserve blk.body u

/-- The other blocks stay sane as well. -/
theorem grow (h : blk.Sane slots externals) (hne : blk.label ≠ .entry) (v : Text) :
    Block.Sane (slots ++ [v]) externals blk where
  typed := h.typed
  touches := fun i hi u hu => List.mem_append_left _ (h.touches i hi u hu)
  calls := h.calls
  entry := fun hl => absurd hl hne

end Block.Sane

/-! ## The results of all blocks -/

/-- Code that is added to one block adds its results to those of all blocks. -/
theorem results_insert {blocks : List Block} {ℓ : Label} (is : List Instr)
    (hn : (blocks.map Block.label).Nodup) (hℓ : ℓ ∈ blocks.map Block.label) :
    (results (blocks.map fun blk =>
      if blk.label = ℓ then { blk with body := blk.body ++ is } else blk)).Perm
      (is.filterMap Instr.dst? ++ results blocks) := by
  induction blocks with
  | nil => exact absurd hℓ (by simp)
  | cons blk rest ih =>
    rw [List.map_cons, List.nodup_cons] at hn
    unfold results at ih ⊢
    rw [List.map_cons, List.flatMap_cons, List.flatMap_cons]
    by_cases h : blk.label = ℓ
    · have hrest : rest.map (fun blk =>
          if blk.label = ℓ then { blk with body := blk.body ++ is } else blk) = rest := by
        rw [List.map_congr_left (g := id), List.map_id]
        intro blk' hm
        rw [if_neg]
        · rfl
        · rintro rfl
          exact hn.1 (h ▸ List.mem_map_of_mem hm)
      rw [hrest, if_pos h, List.filterMap_append, ← List.append_assoc]
      exact List.perm_append_comm.append_right _
    · rw [if_neg h]
      have hℓ' : ℓ ∈ rest.map Block.label := by
        rcases List.mem_cons.mp hℓ with e | hm
        · exact absurd e.symm h
        · exact hm
      refine ((ih hn.2 hℓ').append_left _).trans ?_
      rw [← List.append_assoc, ← List.append_assoc]
      exact List.perm_append_comm.append_right _

namespace Builder

/-! ## The code of all blocks -/

theorem block?_of_mem {b : Builder} {blk : Block} (hn : (b.blocks.map Block.label).Nodup)
    (hm : blk ∈ b.blocks) : b.block? blk.label = some blk := by
  have hsome : (b.block? blk.label).isSome = true := by
    unfold block?
    rw [List.find?_isSome]
    exact ⟨blk, hm, by simp⟩
  obtain ⟨blk', hb⟩ := Option.isSome_iff_exists.mp hsome
  have hm' : blk' ∈ b.blocks := List.mem_of_find?_eq_some hb
  rw [hb, List.inj_on_of_nodup_map hn hm' hm (block?_label hb)]

/-- What is true of the code of a builder at all times. -/
structure Coded (b : Builder) : Prop where
  labels : (b.blocks.map Block.label).Nodup
  results : (results b.blocks).Nodup
  /-- Numbers of results that are still to come are unused. -/
  below : ∀ id ∈ Ir.results b.blocks, id < b.regs
  sane : ∀ blk ∈ b.blocks, blk.Sane b.slots b.externals

/-- A value of some type is there at the end of the current block. -/
def Has (b : Builder) (x : Operand) (ty : Ty) : Prop :=
  ∃ blk, b.block? b.current = some blk ∧ x.HasTy blk.body ty

theorem coded_start : Coded start where
  labels := by simp [start]
  results := by simp [start, Ir.results]
  below := by simp [start, Ir.results]
  sane := by
    intro blk hm
    obtain rfl := List.mem_singleton.mp hm
    refine ⟨⟨fun before i hs => absurd hs.mem (by simp), fun t ht => absurd ht (by simp)⟩,
      by simp, by simp, fun _ => ⟨Settled.nil, by simp [start]⟩⟩

variable {b b' : Builder} {x : Operand} {ty : Ty}

theorem has_const (hb : Sound b) (w : Int64) : b.Has (.const w) .word := by
  obtain ⟨blk, hblk, -⟩ := hb.isOpen
  exact ⟨blk, hblk, rfl⟩

/-- A value stays at hand as long as the current block only gets longer. -/
theorem Has.mono (h : b.Has x ty) (hx : Extends b b') (hc : b'.current = b.current) :
    b'.Has x ty := by
  obtain ⟨blk, hb, ht⟩ := h
  obtain ⟨blk', hb', hp⟩ := hx.longer blk hb
  exact ⟨blk', by rw [hc, hb'], ht.of_prefix hp⟩

theorem Has.appends {is : List Instr} (h : b.Has x ty) (ha : Appends b is b') : b'.Has x ty :=
  h.mono ha.extends ha.current

/-- A change of one block keeps the labels. -/
theorem map_label_modifyBlock (b : Builder) (ℓ : Label) {f : Block → Block}
    (hf : ∀ blk, (f blk).label = blk.label) :
    (b.modifyBlock ℓ f).blocks.map Block.label = b.blocks.map Block.label := by
  unfold modifyBlock
  rw [List.map_map]
  refine List.map_congr_left fun blk _ => ?_
  simp only [Function.comp_apply]
  split
  · exact hf blk
  · rfl

namespace Coded

theorem labels_modifyBlock (h : Coded b) (ℓ : Label) {f : Block → Block}
    (hf : ∀ blk, (f blk).label = blk.label) :
    ((b.modifyBlock ℓ f).blocks.map Block.label).Nodup := by
  rw [b.map_label_modifyBlock ℓ hf]
  exact h.labels

/-- What is true of all blocks stays true if the block that is changed keeps it. -/
theorem forall_modifyBlock {P : Block → Prop} {ℓ : Label} {f : Block → Block}
    (hold : ∀ blk ∈ b.blocks, blk.label ≠ ℓ → P blk)
    (hnew : ∀ blk ∈ b.blocks, blk.label = ℓ → P (f blk)) :
    ∀ blk ∈ (b.modifyBlock ℓ f).blocks, P blk := by
  intro blk hm
  obtain ⟨blk₀, hm₀, rfl⟩ := List.mem_map.mp hm
  by_cases he : blk₀.label = ℓ
  · rw [if_pos he]
    exact hnew blk₀ hm₀ he
  · rw [if_neg he]
    exact hold blk₀ hm₀ he

theorem mem_labels (hb : b.block? b.current ≠ none) : b.current ∈ b.blocks.map Block.label := by
  obtain ⟨blk, hblk⟩ := Option.ne_none_iff_exists'.mp hb
  rw [← block?_label hblk]
  exact List.mem_map_of_mem (List.mem_of_find?_eq_some hblk)

/-- The current block is the only one with its label. -/
theorem eq_current (h : Coded b) {blk blk' : Block} (hm : blk ∈ b.blocks)
    (hl : blk.label = b.current) (hb : b.block? b.current = some blk') : blk = blk' := by
  have := block?_of_mem h.labels hm
  rw [hl, hb] at this
  exact (Option.some.inj this).symm

/-- **One more instruction.** Its values are at hand, and its result has the next number. -/
theorem emit (h : Coded b) (hs : Sound b) {i : Instr} {n : Nat}
    (hx : ∀ x ∈ i.operands, b.Has x.1 x.2) (ha : i.allocates = none)
    (hv : ∀ v, i.touches = some v → v ∈ b.slots) (hp : i.Fits b.externals)
    (hi : ∀ id, i.dst? = some id → b.regs ≤ id ∧ id < n) (hn : b.regs ≤ n) :
    Coded { b.emit i with regs := n } := by
  obtain ⟨cur, hcur, -⟩ := hs.isOpen
  have hperm := results_insert [i] h.labels (mem_labels (by rw [hcur]; simp))
  refine { labels := h.labels_modifyBlock _ fun _ => rfl, results := ?_, below := ?_, sane := ?_ }
  · refine hperm.nodup_iff.mpr ?_
    cases hd : i.dst? with
    | none => simpa [hd] using h.results
    | some id =>
      have hid : id ∉ Ir.results b.blocks := fun hm => by
        have := h.below id hm
        have := hi id hd
        omega
      simpa [hd] using ⟨hid, h.results⟩
  · intro id hm
    rcases List.mem_append.mp (hperm.mem_iff.mp hm) with hm | hm
    · exact (hi id (by simpa using hm)).2
    · exact Nat.lt_of_lt_of_le (h.below id hm) hn
  · refine forall_modifyBlock (fun blk hm _ => h.sane blk hm) fun blk hm hl => ?_
    obtain rfl := h.eq_current hm hl hcur
    refine (h.sane blk hm).emit (fun x hxi => ?_) ha hv hp
    obtain ⟨blk', hb', ht⟩ := hx x hxi
    obtain rfl := Option.some.inj (hcur.symm.trans hb')
    exact ht

theorem leave (h : Coded b) {t : Terminator} (ht : ∀ x ∈ t.operands, b.Has x.1 x.2) :
    Coded (b.leave t) := by
  have hres : Ir.results (b.leave t).blocks = Ir.results b.blocks := by
    unfold Builder.leave modifyBlock Ir.results
    rw [List.flatMap_map]
    congr 1
    funext blk
    split
    · rfl
    · rfl
  refine { labels := h.labels_modifyBlock _ fun _ => rfl, results := ?_, below := ?_, sane := ?_ }
  · rw [hres]
    exact h.results
  · rw [hres]
    exact h.below
  · refine forall_modifyBlock (fun blk hm _ => h.sane blk hm) fun blk hm hl => ?_
    refine (h.sane blk hm).leave fun x hxt => ?_
    obtain ⟨blk', hb', hty⟩ := ht x hxt
    rw [h.eq_current hm hl hb']
    exact hty

theorem enter (h : Coded b) (ℓ : Label) : Coded (b.enter ℓ) :=
  ⟨h.labels, h.results, h.below, h.sane⟩

/-- New blocks are empty, and their labels are new. -/
theorem addBlocks (h : Coded b) {labels : List Label} (hn : labels.Nodup)
    (hnew : ∀ ℓ ∈ labels, ℓ ≠ .entry ∧ b.block? ℓ = none) : Coded (b.addBlocks labels) := by
  have hres : Ir.results (b.addBlocks labels).blocks = Ir.results b.blocks := by
    simp [Builder.addBlocks, Ir.results, List.flatMap_append, List.flatMap_map]
  refine { labels := ?_, results := ?_, below := ?_, sane := ?_ }
  · have hmap : (b.addBlocks labels).blocks.map Block.label =
        b.blocks.map Block.label ++ labels := by
      simp [Builder.addBlocks, Function.comp_def]
    rw [hmap, List.nodup_append]
    refine ⟨h.labels, hn, fun ℓ hℓ ℓ' hℓ' => ?_⟩
    rintro rfl
    obtain ⟨blk, hm, rfl⟩ := List.mem_map.mp hℓ
    have := block?_of_mem h.labels hm
    rw [(hnew _ hℓ').2] at this
    exact absurd this (by simp)
  · rw [hres]
    exact h.results
  · rw [hres]
    exact h.below
  · intro blk hm
    rcases List.mem_append.mp hm with hm | hm
    · exact h.sane blk hm
    · obtain ⟨ℓ, hℓ, rfl⟩ := List.mem_map.mp hm
      exact Block.Sane.vacant _ _ (hnew ℓ hℓ).1

/-- A statement branches off with a value that is at hand. -/
theorem fork (h : Coded b) (hs : Sound b) (labels : List Label) {t : Terminator}
    (hn : labels.Nodup) (hnum : ∀ ℓ ∈ labels, ℓ.number = b.labels + 1)
    (ht : ∀ x ∈ t.operands, b.Has x.1 x.2) : Coded (b.fork labels t) := by
  have hnext : Coded b.nextLabel.2 := ⟨h.labels, h.results, h.below, h.sane⟩
  refine (hnext.addBlocks hn fun ℓ hℓ => ⟨?_, hs.fresh ℓ (by have := hnum ℓ hℓ; omega)⟩).leave ?_
  · rintro rfl
    exact absurd (hnum _ hℓ) (by simp [Label.number])
  · intro x hx
    obtain ⟨blk, hb, hty⟩ := ht x hx
    refine ⟨blk, ?_, hty⟩
    rw [block?_addBlocks]
    show (b.block? b.current).or _ = _
    rw [hb]
    rfl

/-- **A new slot** is made and set to zero at the end of `entry`. -/
theorem ensureSlot (h : Coded b) (hs : Sound b) (v : Text) : Coded (b.ensureSlot v) := by
  by_cases hv : v ∈ b.slots
  · rw [ensureSlot_of_mem hv]
    exact h
  · rw [ensureSlot_of_not_mem hv]
    have hentry : Label.entry ∈ b.blocks.map Block.label := by
      obtain ⟨blk, hb, -⟩ := hs.entry
      rw [← block?_label hb]
      exact List.mem_map_of_mem (List.mem_of_find?_eq_some hb)
    have hperm := results_insert (reserve [v]) h.labels hentry
    have hnone : (reserve [v]).filterMap Instr.dst? = [] := rfl
    rw [hnone, List.nil_append] at hperm
    refine { labels := h.labels_modifyBlock _ fun _ => rfl,
             results := hperm.nodup_iff.mpr h.results,
             below := fun id hm => h.below id (hperm.mem_iff.mp hm), sane := ?_ }
    exact forall_modifyBlock (fun blk hm hne => (h.sane blk hm).grow hne v)
      fun blk hm _ => (h.sane blk hm).reserve v

/-- A function that is declared now was not called before. -/
theorem declare (h : Coded b) (name : Text) (n : Nat) : Coded (b.declare name n).2 := by
  unfold Builder.declare
  split
  · exact h
  · rename_i hnone
    refine ⟨h.labels, h.results, h.below, fun blk hm => (h.sane blk hm).declare fun i hi => ?_⟩
    cases i with
    | call dst callee args =>
      have hne : callee ≠ name := by
        rintro rfl
        unfold arity? at hnone
        split at hnone
        · exact absurd hnone (by simp)
        · change b.externals.get? callee = _ at hi
          rw [hnone] at hi
          exact absurd hi (by simp)
      exact (Lookup.get?_set_of_ne _ _ hne).trans hi
    | _ => exact hi

end Coded

/-! ## The code of expressions -/

/-! ### Functions

The code of an expression declares no function. -/

theorem lowerLeaf_externals {token : Token} (h : b.lowerLeaf token = .ok (x, b')) :
    b'.externals = b.externals := by
  unfold lowerLeaf at h
  split at h
  · obtain ⟨-, rfl⟩ := Prod.mk.inj (Except.ok.inj h)
    rfl
  · split at h
    · obtain ⟨-, rfl⟩ := Prod.mk.inj (Except.ok.inj h)
      rfl
    · exact absurd h (by simp)
  · exact absurd h (by simp)

theorem lowerBinary_externals {op? : Option BinaryOp} {unknown : LowerError} {y z : Operand}
    (h : b.lowerBinary op? unknown x y = .ok (z, b')) : b'.externals = b.externals := by
  cases op? with
  | none => cases h
  | some op =>
    obtain ⟨-, rfl⟩ := Prod.mk.inj (Except.ok.inj h)
    rfl

theorem lowerExpr_externals {e : Expr} {b b' : Builder} {x : Operand}
    (h : b.lowerExpr e = .ok (x, b')) : b'.externals = b.externals := by
  induction e generalizing b b' x with
  | leaf token => exact lowerLeaf_externals h
  | arith left op right ihl ihr =>
    unfold lowerExpr at h
    obtain ⟨⟨x₁, b₁⟩, h₁, h⟩ := bind_eq_ok.mp h
    obtain ⟨⟨x₂, b₂⟩, h₂, h⟩ := bind_eq_ok.mp h
    exact (lowerBinary_externals h).trans ((ihr h₂).trans (ihl h₁))
  | compare left op right ihl ihr =>
    unfold lowerExpr at h
    obtain ⟨⟨x₁, b₁⟩, h₁, h⟩ := bind_eq_ok.mp h
    obtain ⟨⟨x₂, b₂⟩, h₂, h⟩ := bind_eq_ok.mp h
    obtain ⟨⟨bit, b₃⟩, h₃, h⟩ := bind_eq_ok.mp h
    obtain ⟨-, rfl⟩ := Prod.mk.inj (Except.ok.inj h)
    have h₃' : b₃.externals = b₂.externals := lowerBinary_externals h₃
    exact h₃'.trans ((ihr h₂).trans (ihl h₁))
  | missing =>
    unfold lowerExpr at h
    exact absurd h (by simp)

theorem lowerExprs_externals : ∀ {es : List Expr} {b b' : Builder} {xs : List Operand},
    b.lowerExprs es = .ok (xs, b') → b'.externals = b.externals
  | [], b, b', xs, h => by
    obtain ⟨-, rfl⟩ := Prod.mk.inj (Except.ok.inj h)
    rfl
  | e :: es, b, b', xs, h => by
    unfold lowerExprs at h
    obtain ⟨⟨x, b₁⟩, h₁, h⟩ := bind_eq_ok.mp h
    obtain ⟨⟨xs', b₂⟩, h₂, h⟩ := bind_eq_ok.mp h
    obtain ⟨-, rfl⟩ := Prod.mk.inj (Except.ok.inj h)
    exact (lowerExprs_externals h₂).trans (lowerExpr_externals h₁)

theorem nonzero_externals {e : Expr} {b₁ : Builder} {z : Operand} (h₁ : b.lowerExpr e = .ok (x, b₁))
    (h : b₁.emitResult (.compare · .ne x (.const 0)) = (z, b')) : b'.externals = b.externals := by
  have hsame := lowerExpr_externals h₁
  obtain ⟨-, rfl⟩ := Prod.mk.inj h
  exact hsame

theorem lowerCond_externals {cond : Expr} {z : Operand} (h : b.lowerCond cond = .ok (z, b')) :
    b'.externals = b.externals := by
  cases cond with
  | compare left op right =>
    unfold lowerCond at h
    obtain ⟨⟨x₁, b₁⟩, h₁, h⟩ := bind_eq_ok.mp h
    obtain ⟨⟨x₂, b₂⟩, h₂, h⟩ := bind_eq_ok.mp h
    exact (lowerBinary_externals h).trans ((lowerExpr_externals h₂).trans (lowerExpr_externals h₁))
  | leaf token =>
    obtain ⟨⟨x, b₁⟩, h₁, h⟩ := bind_eq_ok.mp h
    exact nonzero_externals h₁ (Except.ok.inj h)
  | arith left op right =>
    obtain ⟨⟨x, b₁⟩, h₁, h⟩ := bind_eq_ok.mp h
    exact nonzero_externals h₁ (Except.ok.inj h)
  | missing =>
    obtain ⟨⟨x, b₁⟩, h₁, h⟩ := bind_eq_ok.mp h
    exact nonzero_externals h₁ (Except.ok.inj h)

/-! ### Values -/

theorem Has.of_dst {i : Instr} {n : Nat} (hs : Sound b) (hi : i.dst? = some b.regs) :
    Has { b.emit i with regs := n } (.reg b.regs) i.ty := by
  obtain ⟨blk, hb, -⟩ := hs.isOpen
  refine ⟨{ blk with body := blk.body ++ [i] }, ?_, hasTy_last blk.body hi⟩
  show (b.emitTo b.current [i]).block? b.current = _
  rw [block?_emitTo, if_pos rfl, hb]
  rfl

/-- Some code leaves a value of some type at hand, and what was at hand before. -/
structure Makes (b b' : Builder) (x : Operand) (ty : Ty) : Prop where
  sound : Sound b'
  coded : Coded b'
  has : b'.Has x ty
  keeps : ∀ {y ty}, b.Has y ty → b'.Has y ty

theorem Makes.after {b₀ : Builder} {y : Operand} {ty' : Ty} (h : Makes b b' x ty)
    (h₀ : Makes b₀ b y ty') : Makes b₀ b' x ty :=
  ⟨h.sound, h.coded, h.has, fun hy => h.keeps (h₀.keeps hy)⟩

/-- **An instruction with a result** leaves it at hand. -/
theorem emitResult_makes {f : Nat → Instr} (hs : Sound b) (h : Coded b)
    (hr : b.emitResult f = (x, b')) (hd : (f b.regs).dst? = some b.regs)
    (ha : (f b.regs).allocates = none) (hx : ∀ y ∈ (f b.regs).operands, b.Has y.1 y.2)
    (hv : ∀ v, (f b.regs).touches = some v → v ∈ b.slots) (hp : (f b.regs).Fits b.externals) :
    Makes b b' x (f b.regs).ty := by
  obtain ⟨-, -, happ⟩ := Appends.emitResult hr ha
  obtain ⟨rfl, rfl⟩ := Prod.mk.inj hr
  have hc : Coded { b.emit (f b.regs) with regs := b.regs + 1 } := by
    refine h.emit hs hx ha hv hp (fun id hid => ?_) (Nat.le_succ _)
    obtain rfl := Option.some.inj (hd.symm.trans hid)
    exact ⟨Nat.le_refl _, Nat.lt_succ_self _⟩
  exact ⟨happ.sound hs, hc, Has.of_dst hs hd, fun hy => hy.appends happ⟩

theorem lowerLeaf_makes {token : Token} (hs : Sound b) (h : Coded b)
    (hl : b.lowerLeaf token = .ok (x, b')) : Makes b b' x .word := by
  unfold lowerLeaf at hl
  split at hl
  · obtain ⟨rfl, rfl⟩ := Prod.mk.inj (Except.ok.inj hl)
    exact ⟨hs, h, has_const hs _, fun hy => hy⟩
  · split at hl
    · rename_i hmem
      exact emitResult_makes hs h (Except.ok.inj hl) rfl rfl (by simp [Instr.operands])
        (by simpa [Instr.touches] using hmem) trivial
    · exact absurd hl (by simp)
  · exact absurd hl (by simp)

/-- An operation on two words that are at hand leaves its value at hand. -/
theorem lowerBinary_makes {op? : Option BinaryOp} {unknown : LowerError} {y z : Operand} {ty : Ty}
    (hs : Sound b) (h : Coded b) (hx : b.Has x .word) (hy : b.Has y .word)
    (hty : ∀ op ∈ op?, op.ty = ty) (hl : b.lowerBinary op? unknown x y = .ok (z, b')) :
    Makes b b' z ty := by
  cases op? with
  | none => cases hl
  | some op =>
    have hmakes := emitResult_makes hs h (Except.ok.inj hl)
    rw [← hty op rfl]
    cases op <;>
      exact hmakes rfl rfl (by simp [BinaryOp.instr, Instr.operands, hx, hy])
        (by simp [BinaryOp.instr, Instr.touches]) trivial

/-- **The code of an expression leaves a word at hand.** -/
theorem lowerExpr_makes {e : Expr} {b b' : Builder} {x : Operand} (hs : Sound b) (h : Coded b)
    (hl : b.lowerExpr e = .ok (x, b')) : Makes b b' x .word := by
  induction e generalizing b b' x with
  | leaf token => exact lowerLeaf_makes hs h hl
  | arith left op right ihl ihr =>
    unfold lowerExpr at hl
    obtain ⟨⟨x₁, b₁⟩, h₁, hl⟩ := bind_eq_ok.mp hl
    obtain ⟨⟨x₂, b₂⟩, h₂, hl⟩ := bind_eq_ok.mp hl
    have m₁ := ihl hs h h₁
    have m₂ := ihr m₁.sound m₁.coded h₂
    have m₃ := lowerBinary_makes m₂.sound m₂.coded (m₂.keeps m₁.has) m₂.has BinaryOp.ty_arith hl
    exact (m₃.after m₂).after m₁
  | compare left op right ihl ihr =>
    unfold lowerExpr at hl
    obtain ⟨⟨x₁, b₁⟩, h₁, hl⟩ := bind_eq_ok.mp hl
    obtain ⟨⟨x₂, b₂⟩, h₂, hl⟩ := bind_eq_ok.mp hl
    obtain ⟨⟨bit, b₃⟩, h₃, hl⟩ := bind_eq_ok.mp hl
    have m₁ := ihl hs h h₁
    have m₂ := ihr m₁.sound m₁.coded h₂
    have m₃ := lowerBinary_makes m₂.sound m₂.coded (m₂.keeps m₁.has) m₂.has BinaryOp.ty_compare h₃
    have m₄ : Makes b₃ b' x .word :=
      emitResult_makes m₃.sound m₃.coded (Except.ok.inj hl) rfl rfl
        (by simp [Instr.operands, m₃.has]) (by simp [Instr.touches]) trivial
    exact ((m₄.after m₃).after m₂).after m₁
  | missing =>
    unfold lowerExpr at hl
    exact absurd hl (by simp)

/-- A condition that is no comparison is compared with zero. -/
theorem nonzero_makes {e : Expr} {b₁ : Builder} {z : Operand} (hs : Sound b) (h : Coded b)
    (h₁ : b.lowerExpr e = .ok (x, b₁))
    (hl : b₁.emitResult (.compare · .ne x (.const 0)) = (z, b')) : Makes b b' z .bit := by
  have m₁ := lowerExpr_makes hs h h₁
  have m₂ : Makes b₁ b' z .bit :=
    emitResult_makes m₁.sound m₁.coded hl rfl rfl
      (by simp [Instr.operands, m₁.has, has_const m₁.sound]) (by simp [Instr.touches]) trivial
  exact m₂.after m₁

/-- **The code of a condition leaves a bit at hand.** -/
theorem lowerCond_makes {cond : Expr} {z : Operand} (hs : Sound b) (h : Coded b)
    (hl : b.lowerCond cond = .ok (z, b')) : Makes b b' z .bit := by
  cases cond with
  | compare left op right =>
    unfold lowerCond at hl
    obtain ⟨⟨x₁, b₁⟩, h₁, hl⟩ := bind_eq_ok.mp hl
    obtain ⟨⟨x₂, b₂⟩, h₂, hl⟩ := bind_eq_ok.mp hl
    have m₁ := lowerExpr_makes hs h h₁
    have m₂ := lowerExpr_makes m₁.sound m₁.coded h₂
    have m₃ := lowerBinary_makes m₂.sound m₂.coded (m₂.keeps m₁.has) m₂.has BinaryOp.ty_compare hl
    exact (m₃.after m₂).after m₁
  | leaf token =>
    obtain ⟨⟨x, b₁⟩, h₁, hl⟩ := bind_eq_ok.mp hl
    exact nonzero_makes hs h h₁ (Except.ok.inj hl)
  | arith left op right =>
    obtain ⟨⟨x, b₁⟩, h₁, hl⟩ := bind_eq_ok.mp hl
    exact nonzero_makes hs h h₁ (Except.ok.inj hl)
  | missing =>
    obtain ⟨⟨x, b₁⟩, h₁, hl⟩ := bind_eq_ok.mp hl
    exact nonzero_makes hs h h₁ (Except.ok.inj hl)

/-- The code of several expressions leaves a word for each of them at hand. -/
theorem lowerExprs_makes : ∀ {es : List Expr} {b b' : Builder} {xs : List Operand}, Sound b →
    Coded b → b.lowerExprs es = .ok (xs, b') → xs.length = es.length ∧ Sound b' ∧ Coded b' ∧
      (∀ x ∈ xs, b'.Has x .word) ∧ ∀ {y ty}, b.Has y ty → b'.Has y ty
  | [], b, b', xs, hs, h, hl => by
    obtain ⟨rfl, rfl⟩ := Prod.mk.inj (Except.ok.inj hl)
    exact ⟨rfl, hs, h, by simp, fun hy => hy⟩
  | e :: es, b, b', xs, hs, h, hl => by
    unfold lowerExprs at hl
    obtain ⟨⟨x, b₁⟩, h₁, hl⟩ := bind_eq_ok.mp hl
    obtain ⟨⟨xs', b₂⟩, h₂, hl⟩ := bind_eq_ok.mp hl
    obtain ⟨rfl, rfl⟩ := Prod.mk.inj (Except.ok.inj hl)
    have m₁ := lowerExpr_makes hs h h₁
    obtain ⟨hlen, hs₂, hc₂, hxs, hkeep⟩ := lowerExprs_makes m₁.sound m₁.coded h₂
    refine ⟨by rw [List.length_cons, hlen, List.length_cons], hs₂, hc₂, fun y hy => ?_,
      fun hy => hkeep (m₁.keeps hy)⟩
    rcases List.mem_cons.mp hy with rfl | hy
    · exact hkeep m₁.has
    · exact hxs y hy

/-! ## The code of statements -/

/-- The parts of a call: its function is declared, its arguments are computed and then passed. -/
theorem lowerCall_parts {name : Token} {args : List Expr} (h : b.lowerCall name args = .ok b') :
    name.value ∉ reservedNames ∧ (b.declare name.value args.length).1 = args.length ∧
      ∃ xs b₁, (b.declare name.value args.length).2.lowerExprs args = .ok (xs, b₁) ∧
        b' = if name.value = printName then b₁.emit (.print xs)
          else (b₁.emitResult (.call · name.value xs)).2 := by
  unfold lowerCall at h
  split at h
  · exact absurd h (by simp)
  · rename_i hres
    generalize b.declare name.value args.length = d at h ⊢
    obtain ⟨arity, b₀⟩ := d
    simp only at h
    split at h
    · exact absurd h (by simp)
    · rename_i harity
      obtain ⟨⟨xs, b₁⟩, h₁, h⟩ := bind_eq_ok.mp h
      refine ⟨by simpa using hres, not_not.mp harity, xs, b₁, h₁, ?_⟩
      split at h
      · rename_i hp
        rw [if_pos hp]
        exact (Except.ok.inj h).symm
      · rename_i hp
        rw [if_neg hp]
        exact (Except.ok.inj h).symm

theorem declare_get? (b : Builder) {name : Text} (hp : name ≠ printName) (n : Nat) :
    (b.declare name n).2.externals.get? name = some (b.declare name n).1 := by
  unfold declare
  split
  · rename_i arity ha
    unfold arity? at ha
    rw [if_neg hp] at ha
    exact ha
  · exact Lookup.get?_set_self _ _ _

theorem declare_print (b : Builder) (n : Nat) : (b.declare printName n).1 = 1 := by
  simp [declare, arity?]

theorem lowerCall_coded {name : Token} {args : List Expr} (hs : Sound b) (h : Coded b)
    (hl : b.lowerCall name args = .ok b') : Coded b' := by
  obtain ⟨-, harity, xs, b₁, h₁, rfl⟩ := lowerCall_parts hl
  have hsd := (Meaning.declare_appends b name.value args.length).sound hs
  obtain ⟨hlen, hs₁, hc₁, hxs, -⟩ :=
    lowerExprs_makes hsd (h.declare name.value args.length) h₁
  have hops : ∀ x ∈ xs.map fun x => (x, Ty.word), b₁.Has x.1 x.2 := by
    intro x hx
    obtain ⟨y, hy, rfl⟩ := List.mem_map.mp hx
    exact hxs y hy
  split
  · rename_i hp
    rw [hp, declare_print] at harity
    exact hc₁.emit (n := b₁.regs) hs₁ hops rfl (by simp [Instr.touches])
      (show xs.length = 1 by rw [hlen, ← harity]) (by simp [Instr.dst?]) (Nat.le_refl _)
  · rename_i hp
    have hget : b₁.externals.get? name.value = some xs.length := by
      rw [lowerExprs_externals h₁, b.declare_get? hp, harity, hlen]
    exact (emitResult_makes (f := (.call · name.value xs)) hs₁ hc₁ rfl rfl rfl hops
      (by simp [Instr.touches]) hget).coded

mutual

/-- **Lowering a statement keeps what is true of the code.** -/
theorem lowerStmt_coded : ∀ {s : Stmt} {b b' : Builder}, Sound b → Coded b →
    b.lowerStmt s = .ok b' → Coded b'
  | .assign target e, b, b', hs, h, hl => by
    obtain ⟨x, b₁, h₁, rfl⟩ := lowerStmt_assign hl
    have m₁ := lowerExpr_makes hs h h₁
    have hx := m₁.has.mono (extends_ensureSlot b₁ target.value) (b₁.ensureSlot_current target.value)
    exact (m₁.coded.ensureSlot m₁.sound target.value).emit (n := (b₁.ensureSlot target.value).regs)
      (m₁.sound.ensureSlot target.value) (by simpa [Instr.operands] using hx) rfl
      (by simpa [Instr.touches] using mem_ensureSlot b₁ target.value) trivial
      (by simp [Instr.dst?]) (Nat.le_refl _)
  | .call name args, b, b', hs, h, hl => lowerCall_coded hs h hl
  | .ifThen cond body, b, b', hs, h, hl => by
    obtain ⟨bit, b₁, b₂, n, h₁, hs₁, hn, harm, rfl, -⟩ :=
      ifThen_parts (fun hs h => lowerStmts_sound hs h) hs hl
    have m₁ := lowerCond_makes hs h h₁
    have hf := m₁.coded.fork hs₁ [.ifThen n, .ifEnd n]
      (t := .branch bit (.ifThen n) (.ifEnd n)) (by simp) (by simp [Label.number, hn])
      (by simpa [Terminator.operands] using m₁.has)
    have hc₂ := lowerStmts_coded harm.enter_sound (hf.enter (.ifThen n)) harm.lowers
    exact (hc₂.leave (by simp [Terminator.operands])).enter _
  | .ifElse cond body alt, b, b', hs, h, hl => by
    obtain ⟨bit, b₁, b₂, b₃, n, h₁, hs₁, hn, harm₂, harm₃, rfl, -⟩ :=
      ifElse_parts (fun hs h => lowerStmts_sound hs h) (fun hs h => lowerStmts_sound hs h) hs hl
    have m₁ := lowerCond_makes hs h h₁
    have hf := m₁.coded.fork hs₁ [.ifThen n, .ifElse n, .ifEnd n]
      (t := .branch bit (.ifThen n) (.ifElse n)) (by simp) (by simp [Label.number, hn])
      (by simpa [Terminator.operands] using m₁.has)
    have hc₂ := lowerStmts_coded harm₂.enter_sound (hf.enter (.ifThen n)) harm₂.lowers
    have hc₃ := lowerStmts_coded harm₃.enter_sound
      ((hc₂.leave (by simp [Terminator.operands])).enter (.ifElse n)) harm₃.lowers
    exact (hc₃.leave (by simp [Terminator.operands])).enter _
  | .loop cond body, b, b', hs, h, hl => by
    obtain ⟨bit, f, b₁, b₂, n, hn, rfl, hf, hv, h₁, -, -, harm, rfl, -⟩ :=
      loop_parts (fun hs h => lowerStmts_sound hs h) hs hl
    have hcf := h.fork hs [.whileCond n, .whileBody n, .whileEnd n]
      (t := .jump (.whileCond n)) (by simp) (by simp [Label.number, hn])
      (by simp [Terminator.operands])
    have m₁ := lowerCond_makes (hf.enter_vacant hv) (hcf.enter _) h₁
    have hc₁ := m₁.coded.leave (t := .branch bit (.whileBody n) (.whileEnd n))
      (by simpa [Terminator.operands] using m₁.has)
    have hc₂ := lowerStmts_coded harm.enter_sound (hc₁.enter (.whileBody n)) harm.lowers
    exact (hc₂.leave (by simp [Terminator.operands])).enter _
  | .missing, b, b', _, _, hl => by
    unfold lowerStmt at hl
    exact absurd hl (by simp)

/-- **Lowering statements keeps what is true of the code.** -/
theorem lowerStmts_coded : ∀ {ss : List Stmt} {b b' : Builder}, Sound b → Coded b →
    b.lowerStmts ss = .ok b' → Coded b'
  | [], b, b', _, h, hl => by
    obtain rfl := Except.ok.inj hl
    exact h
  | s :: ss, b, b', hs, h, hl => by
    obtain ⟨b₁, h₁, h₂⟩ := lowerStmts_cons hl
    exact lowerStmts_coded (lowerStmt_sound hs h₁).1 (lowerStmt_coded hs h h₁) h₂

end

end Builder

end Offside.Ir
