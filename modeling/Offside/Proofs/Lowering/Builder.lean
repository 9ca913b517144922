import Mathlib.Data.List.Nodup
import Offside.Ir.Lower

/-!
# How the blocks of a module grow

What the operations of `Ir/Builder` do to the blocks, and how a builder behind a lowering is related
to the one in front of it.

Lowering adds to the current block and creates new blocks; it never touches what is left behind,
with one exception: the slot of a variable is made at the end of the block `entry`, also when that
block is already left. Three relations say so.

* `Block.Keeps`: a block is as it was, except for slots made at the end of `entry`.
* `Extends b b'`: the blocks of `b` other than the current one are kept, and the current one only
  got longer. This is what lowering a statement does (`Proofs/Lowering/Statement`).
* `Completes b b'`: every block of `b` is there and no shorter, and a block that has its terminator
  is kept. This also holds between the inner states of a lowering and its end.

A builder between two statements is `Sound`: the current block is open, labels that are still to
come are unused, and the slots made in `entry` are those the builder knows. `Formed` is the part of
this that also holds inside of a statement.

A conditional and a loop create their blocks and leave the current one at once; that is `fork`,
which both share.

Results:
* `block?_emitTo`, `block?_leave`, `block?_addBlocks`: a block behind each change of a builder.
* `Extends.trans`, `Extends.completes`: the relations along a lowering.
* `Sound.emitTo`, `Sound.ensureSlot`, `Sound.formed_fork`: each change keeps a builder sound, or
  what it is inside of a statement.
* `extends_emitTo`, `extends_ensureSlot`, `extends_fork`: each change extends the builder.
* `keepsAt_visit`, `completes_visit`: filling a vacant block and leaving it keeps the others.
-/

namespace Offside.Ir

theorem bind_eq_ok {ε α β : Type} {x : Except ε α} {f : α → Except ε β} {r : β} :
    (x >>= f) = .ok r ↔ ∃ a, x = .ok a ∧ f a = .ok r := by
  cases x with
  | error e => simp [bind, Except.bind]
  | ok a => simp [bind, Except.bind]

/-- The number of the statement that a block belongs to; zero for `entry`. -/
def Label.number : Label → Nat
  | entry => 0
  | ifThen n | ifElse n | ifEnd n | whileCond n | whileBody n | whileEnd n => n

/-- The code that makes the slots of some variables. -/
def reserve (vars : List Text) : List Instr :=
  vars.flatMap fun v => [.alloca v, .store (.const 0) v]

theorem reserve_append (vs ws : List Text) : reserve (vs ++ ws) = reserve vs ++ reserve ws := by
  simp [reserve]

/-- The variable whose slot an instruction makes. -/
def Instr.allocates : Instr → Option Text
  | alloca v => some v
  | _ => none

/-- The variables whose slots are made in some code, in order. -/
def allocated (code : List Instr) : List Text :=
  code.filterMap Instr.allocates

theorem allocated_append (c d : List Instr) : allocated (c ++ d) = allocated c ++ allocated d :=
  List.filterMap_append

theorem BinaryOp.instr_allocates (op : BinaryOp) (dst : Nat) (x y : Operand) :
    (op.instr dst x y).allocates = none := by
  cases op <;> rfl

/-! ## Blocks that are kept -/

/-- The block is as it was, except for slots made at the end of `entry`. -/
def Block.Keeps (old new : Block) : Prop :=
  new.exit = old.exit ∧
    ∃ vars, new.body = old.body ++ reserve vars ∧ (old.label ≠ .entry → vars = [])

theorem Block.Keeps.refl (blk : Block) : blk.Keeps blk :=
  ⟨rfl, [], by simp [reserve], fun _ => rfl⟩

theorem Block.Keeps.trans {a b c : Block} (hl : b.label = a.label) (h : a.Keeps b)
    (h' : b.Keeps c) : a.Keeps c := by
  obtain ⟨he, vs, hb, hv⟩ := h
  obtain ⟨he', ws, hb', hw⟩ := h'
  refine ⟨he'.trans he, vs ++ ws, ?_, fun hne => ?_⟩
  · rw [hb', hb, reserve_append, List.append_assoc]
  · rw [hv hne, hw (hl ▸ hne)]
    rfl

theorem Block.Keeps.isPrefix {a b : Block} (h : a.Keeps b) : a.body <+: b.body := by
  obtain ⟨-, vs, hb, -⟩ := h
  rw [hb]
  exact List.prefix_append _ _

namespace Builder

/-- The block with a given label. -/
def block? (b : Builder) (label : Label) : Option Block :=
  b.blocks.find? fun block => block.label = label

/-- The block with a given label is there, empty and open. -/
def Vacant (b : Builder) (label : Label) : Prop :=
  b.block? label = some ⟨label, [], none⟩

theorem block?_label {b : Builder} {ℓ : Label} {blk : Block} (h : b.block? ℓ = some blk) :
    blk.label = ℓ := by
  have := List.find?_some h
  simpa using this

theorem block?_modifyBlock (b : Builder) (ℓ ℓ' : Label) {f : Block → Block}
    (hf : ∀ blk, (f blk).label = blk.label) :
    (b.modifyBlock ℓ f).block? ℓ' = if ℓ' = ℓ then (b.block? ℓ').map f else b.block? ℓ' := by
  have hp : ((fun blk : Block => decide (blk.label = ℓ')) ∘
      fun blk => if blk.label = ℓ then f blk else blk) = fun blk => decide (blk.label = ℓ') := by
    funext blk
    simp only [Function.comp_apply]
    split
    · rw [hf]
    · rfl
  unfold modifyBlock block?
  rw [List.find?_map, hp]
  cases h : b.blocks.find? fun blk => decide (blk.label = ℓ') with
  | none => simp
  | some blk =>
    have hl : blk.label = ℓ' := block?_label h
    simp only [Option.map_some, hl]
    split <;> rfl

theorem block?_emitTo (b : Builder) (ℓ ℓ' : Label) (is : List Instr) :
    (b.emitTo ℓ is).block? ℓ' =
      if ℓ' = ℓ then (b.block? ℓ').map fun blk => { blk with body := blk.body ++ is }
      else b.block? ℓ' :=
  b.block?_modifyBlock ℓ ℓ' fun _ => rfl

theorem block?_leave (b : Builder) (ℓ : Label) (t : Terminator) :
    (b.leave t).block? ℓ =
      if ℓ = b.current then (b.block? ℓ).map fun blk => { blk with exit := some t }
      else b.block? ℓ :=
  b.block?_modifyBlock b.current ℓ fun _ => rfl

theorem find?_vacant (labels : List Label) (ℓ : Label) :
    (labels.map fun label => (⟨label, [], none⟩ : Block)).find? (fun blk => blk.label = ℓ) =
      if ℓ ∈ labels then some ⟨ℓ, [], none⟩ else none := by
  induction labels with
  | nil => rfl
  | cons l ls ih =>
    rw [List.map_cons, List.find?_cons]
    by_cases h : l = ℓ
    · simp [h]
    · have h' : ℓ ≠ l := fun e => h e.symm
      simp [h, h', ih]

theorem block?_addBlocks (b : Builder) (labels : List Label) (ℓ : Label) :
    (b.addBlocks labels).block? ℓ =
      (b.block? ℓ).or (if ℓ ∈ labels then some ⟨ℓ, [], none⟩ else none) := by
  unfold addBlocks block?
  rw [List.find?_append, find?_vacant]

/-! ## What is kept between two builders -/

/-- The block with a given label is kept. -/
def KeepsAt (ℓ : Label) (b b' : Builder) : Prop :=
  ∀ blk, b.block? ℓ = some blk → ∃ blk', b'.block? ℓ = some blk' ∧ blk.Keeps blk'

/-- Every block is there and no shorter, and one that has its terminator is kept. -/
def Completes (b b' : Builder) : Prop :=
  ∀ ℓ blk, b.block? ℓ = some blk → ∃ blk', b'.block? ℓ = some blk' ∧ blk.body <+: blk'.body ∧
    (blk.exit ≠ none → blk.Keeps blk')

/-- What the lowering of a statement does to the blocks. -/
structure Extends (b b' : Builder) : Prop where
  /-- The current block only got longer. -/
  longer : ∀ blk, b.block? b.current = some blk →
    ∃ blk', b'.block? b.current = some blk' ∧ blk.body <+: blk'.body
  /-- The other blocks are kept. -/
  others : ∀ ℓ, ℓ ≠ b.current → KeepsAt ℓ b b'
  /-- Lowering goes on in the same block or in a new one. -/
  now : b'.current = b.current ∨ b.block? b'.current = none

theorem Completes.trans {a b c : Builder} (h : Completes a b) (h' : Completes b c) :
    Completes a c := by
  intro ℓ blk hb
  obtain ⟨blk₁, hb₁, hp₁, hk₁⟩ := h ℓ blk hb
  obtain ⟨blk₂, hb₂, hp₂, hk₂⟩ := h' ℓ blk₁ hb₁
  refine ⟨blk₂, hb₂, hp₁.trans hp₂, fun hne => ?_⟩
  have hk := hk₁ hne
  have hl : blk₁.label = blk.label := (block?_label hb₁).trans (block?_label hb).symm
  exact hk.trans hl (hk₂ (by rw [hk.1]; exact hne))

theorem KeepsAt.trans {ℓ : Label} {a b c : Builder} (h : KeepsAt ℓ a b) (h' : KeepsAt ℓ b c) :
    KeepsAt ℓ a c := by
  intro blk hb
  obtain ⟨blk₁, hb₁, hk₁⟩ := h blk hb
  obtain ⟨blk₂, hb₂, hk₂⟩ := h' blk₁ hb₁
  exact ⟨blk₂, hb₂, hk₁.trans ((block?_label hb₁).trans (block?_label hb).symm) hk₂⟩

/-- A block other than `entry` is kept as it is, so a vacant one stays vacant. -/
theorem KeepsAt.vacant {ℓ : Label} {a b : Builder} (h : KeepsAt ℓ a b) (hne : ℓ ≠ .entry)
    (hv : a.Vacant ℓ) : b.Vacant ℓ := by
  obtain ⟨⟨l, body, exit⟩, hb, hexit, vs, hbody, hvs⟩ := h _ hv
  obtain rfl : l = ℓ := block?_label hb
  obtain rfl : vs = [] := hvs hne
  simp only at hexit hbody
  rw [hexit, hbody] at hb
  exact hb

theorem Extends.refl (b : Builder) : Extends b b where
  longer := fun blk h => ⟨blk, h, List.prefix_rfl⟩
  others := fun _ _ blk h => ⟨blk, h, Block.Keeps.refl blk⟩
  now := Or.inl rfl

/-- A block that is there is not the new current block, unless it was the current one. -/
theorem Extends.current_ne {b b' : Builder} (h : Extends b b') {ℓ : Label} {blk : Block}
    (hne : ℓ ≠ b.current) (hb : b.block? ℓ = some blk) : ℓ ≠ b'.current := by
  rintro rfl
  rcases h.now with e | e
  · exact hne e
  · rw [hb] at e
    exact absurd e (by simp)

/-- Blocks do not disappear. -/
theorem Extends.persists {b b' : Builder} (h : Extends b b') {ℓ : Label} {blk : Block}
    (hb : b.block? ℓ = some blk) : ∃ blk', b'.block? ℓ = some blk' ∧ blk.body <+: blk'.body := by
  by_cases hc : ℓ = b.current
  · subst hc
    exact h.longer blk hb
  · obtain ⟨blk', hb', hk⟩ := h.others ℓ hc blk hb
    exact ⟨blk', hb', hk.isPrefix⟩

theorem Extends.trans {a b c : Builder} (h : Extends a b) (h' : Extends b c) : Extends a c where
  longer := by
    intro blk hb
    obtain ⟨blk₁, hb₁, hp₁⟩ := h.longer blk hb
    obtain ⟨blk₂, hb₂, hp₂⟩ := h'.persists hb₁
    exact ⟨blk₂, hb₂, hp₁.trans hp₂⟩
  others := by
    intro ℓ hne blk hb
    exact (h.others ℓ hne).trans (h'.others ℓ (h.current_ne hne hb)) blk hb
  now := by
    rcases h'.now with e | e
    · rw [e]
      exact h.now
    · right
      cases hb : a.block? c.current with
      | none => rfl
      | some blk =>
        obtain ⟨blk', hb', -⟩ := h.persists hb
        rw [hb'] at e
        exact absurd e (by simp)

/-! ## Well-formed builders -/

/-- What is true of a builder at all times. -/
structure Formed (b : Builder) : Prop where
  /-- Labels with numbers that are not taken yet are unused. -/
  fresh : ∀ ℓ, b.labels < ℓ.number → b.block? ℓ = none
  /-- The slots made in `entry` are those the builder knows. -/
  entry : ∃ blk, b.block? .entry = some blk ∧ allocated blk.body = b.slots
  /-- Slots are made nowhere else. -/
  plain : ∀ ℓ blk, ℓ ≠ .entry → b.block? ℓ = some blk → allocated blk.body = []
  nodup : b.slots.Nodup

/-- What is true of a builder between two statements. -/
structure Sound (b : Builder) : Prop extends Formed b where
  isOpen : ∃ blk, b.block? b.current = some blk ∧ blk.exit = none

theorem sound_start : Sound start where
  fresh := by
    intro ℓ h
    cases ℓ <;> simp_all [start, block?, Label.number]
  entry := ⟨_, rfl, rfl⟩
  plain := by
    intro ℓ blk hne hb
    cases ℓ <;> simp_all [start, block?]
  nodup := List.nodup_nil
  isOpen := ⟨_, rfl, rfl⟩

theorem Extends.completes {b b' : Builder} (h : Extends b b') (hb : Sound b) : Completes b b' := by
  intro ℓ blk hblk
  by_cases hc : ℓ = b.current
  · subst hc
    obtain ⟨blk', hb', hp⟩ := h.longer blk hblk
    obtain ⟨blk₀, h₀, hopen⟩ := hb.isOpen
    rw [hblk] at h₀
    obtain rfl := Option.some.inj h₀
    exact ⟨blk', hb', hp, fun hne => absurd hopen hne⟩
  · obtain ⟨blk', hb', hk⟩ := h.others ℓ hc blk hblk
    exact ⟨blk', hb', hk.isPrefix, fun _ => hk⟩

/-! ### Adding instructions -/

theorem Formed.emitTo {b : Builder} (h : Formed b) (ℓ : Label) {is : List Instr}
    (hi : allocated is = []) : Formed (b.emitTo ℓ is) where
  fresh := by
    intro ℓ' hlt
    rw [block?_emitTo, h.fresh ℓ' hlt]
    simp
  entry := by
    obtain ⟨blk, hb, ha⟩ := h.entry
    rw [block?_emitTo, hb]
    split
    · exact ⟨_, rfl, by rw [allocated_append, hi, ha, List.append_nil]; rfl⟩
    · exact ⟨_, rfl, ha⟩
  plain := by
    intro ℓ' blk hne hb
    rw [block?_emitTo] at hb
    split at hb
    · obtain ⟨blk₀, h₀, rfl⟩ := Option.map_eq_some_iff.mp hb
      rw [allocated_append, hi, h.plain ℓ' blk₀ hne h₀]
      rfl
    · exact h.plain ℓ' blk hne hb
  nodup := h.nodup

theorem Sound.emitTo {b : Builder} (h : Sound b) {is : List Instr} (hi : allocated is = []) :
    Sound (b.emitTo b.current is) where
  toFormed := h.toFormed.emitTo b.current hi
  isOpen := by
    obtain ⟨blk, hb, hopen⟩ := h.isOpen
    refine ⟨{ blk with body := blk.body ++ is }, ?_, hopen⟩
    show (b.emitTo b.current is).block? b.current = _
    rw [block?_emitTo, if_pos rfl, hb]
    rfl

theorem extends_emitTo (b : Builder) (is : List Instr) : Extends b (b.emitTo b.current is) where
  longer := by
    intro blk hb
    refine ⟨{ blk with body := blk.body ++ is }, ?_, List.prefix_append _ _⟩
    rw [block?_emitTo, if_pos rfl, hb]
    rfl
  others := by
    intro ℓ hne blk hb
    exact ⟨blk, by rw [block?_emitTo, if_neg hne, hb], Block.Keeps.refl blk⟩
  now := Or.inl rfl

/-! ### Making a slot -/

theorem ensureSlot_of_mem {b : Builder} {var : Text} (h : var ∈ b.slots) :
    b.ensureSlot var = b := by
  unfold ensureSlot
  rw [if_pos (by simpa using h)]

theorem ensureSlot_of_not_mem {b : Builder} {var : Text} (h : var ∉ b.slots) :
    b.ensureSlot var =
      { b.emitTo .entry (reserve [var]) with slots := b.slots ++ [var] } := by
  unfold ensureSlot
  rw [if_neg (by simpa using h)]
  rfl

theorem ensureSlot_current (b : Builder) (var : Text) : (b.ensureSlot var).current = b.current := by
  unfold ensureSlot
  split <;> rfl

theorem mem_ensureSlot (b : Builder) (var : Text) : var ∈ (b.ensureSlot var).slots := by
  by_cases h : var ∈ b.slots
  · rw [ensureSlot_of_mem h]
    exact h
  · rw [ensureSlot_of_not_mem h]
    exact List.mem_append_right _ List.mem_cons_self

theorem Sound.ensureSlot {b : Builder} (h : Sound b) (var : Text) : Sound (b.ensureSlot var) := by
  by_cases hv : var ∈ b.slots
  · rw [ensureSlot_of_mem hv]
    exact h
  · rw [ensureSlot_of_not_mem hv]
    refine { fresh := ?_, entry := ?_, plain := ?_, nodup := ?_, isOpen := ?_ }
    · intro ℓ hlt
      show (b.emitTo .entry (reserve [var])).block? ℓ = none
      rw [block?_emitTo, h.fresh ℓ hlt]
      simp
    · obtain ⟨blk, hb, ha⟩ := h.entry
      refine ⟨{ blk with body := blk.body ++ reserve [var] }, ?_, ?_⟩
      · show (b.emitTo .entry (reserve [var])).block? .entry = _
        rw [block?_emitTo, if_pos rfl, hb]
        rfl
      · show allocated (blk.body ++ reserve [var]) = b.slots ++ [var]
        rw [allocated_append, ha]
        rfl
    · intro ℓ blk hne hb
      change (b.emitTo .entry (reserve [var])).block? ℓ = some blk at hb
      rw [block?_emitTo, if_neg hne] at hb
      exact h.plain ℓ blk hne hb
    · show (b.slots ++ [var]).Nodup
      rw [List.nodup_append]
      refine ⟨h.nodup, List.nodup_singleton var, fun a ha c hc => ?_⟩
      rw [List.mem_singleton.mp hc]
      rintro rfl
      exact hv ha
    · obtain ⟨blk, hb, hopen⟩ := h.isOpen
      show ∃ blk, (b.emitTo .entry (reserve [var])).block? b.current = some blk ∧ blk.exit = none
      rw [block?_emitTo, hb]
      split
      · exact ⟨_, rfl, hopen⟩
      · exact ⟨_, rfl, hopen⟩

theorem extends_ensureSlot (b : Builder) (var : Text) : Extends b (b.ensureSlot var) := by
  by_cases hv : var ∈ b.slots
  · rw [ensureSlot_of_mem hv]
    exact Extends.refl b
  · have hblock : ∀ ℓ blk, b.block? ℓ = some blk →
        ∃ blk', (b.ensureSlot var).block? ℓ = some blk' ∧ blk.Keeps blk' := by
      intro ℓ blk hb
      rw [ensureSlot_of_not_mem hv]
      show ∃ blk', (b.emitTo .entry (reserve [var])).block? ℓ = some blk' ∧ blk.Keeps blk'
      rw [block?_emitTo, hb]
      split
      · rename_i he
        refine ⟨_, rfl, rfl, [var], rfl, fun hne => absurd ?_ hne⟩
        rw [block?_label hb, he]
      · exact ⟨blk, rfl, Block.Keeps.refl blk⟩
    refine { longer := ?_, others := fun ℓ _ => hblock ℓ, now := Or.inl (b.ensureSlot_current var) }
    intro blk hb
    obtain ⟨blk', hb', hk⟩ := hblock _ blk hb
    exact ⟨blk', hb', hk.isPrefix⟩

/-! ### Leaving a block -/

theorem Formed.leave {b : Builder} (h : Formed b) (t : Terminator) : Formed (b.leave t) where
  fresh := by
    intro ℓ hlt
    rw [block?_leave, h.fresh ℓ hlt]
    simp
  entry := by
    obtain ⟨blk, hb, ha⟩ := h.entry
    rw [block?_leave, hb]
    split
    · exact ⟨_, rfl, ha⟩
    · exact ⟨_, rfl, ha⟩
  plain := by
    intro ℓ blk hne hb
    rw [block?_leave] at hb
    split at hb
    · obtain ⟨blk₀, h₀, rfl⟩ := Option.map_eq_some_iff.mp hb
      exact h.plain ℓ blk₀ hne h₀
    · exact h.plain ℓ blk hne hb
  nodup := h.nodup

theorem keepsAt_leave {b : Builder} {ℓ : Label} (t : Terminator) (hne : ℓ ≠ b.current) :
    KeepsAt ℓ b (b.leave t) := by
  intro blk hb
  exact ⟨blk, by rw [block?_leave, if_neg hne, hb], Block.Keeps.refl blk⟩

theorem Sound.completes_leave {b : Builder} (h : Sound b) (t : Terminator) :
    Completes b (b.leave t) := by
  intro ℓ blk hb
  by_cases hc : ℓ = b.current
  · obtain ⟨blk₀, h₀, hopen⟩ := h.isOpen
    rw [← hc, hb] at h₀
    obtain rfl := Option.some.inj h₀
    refine ⟨{ blk with exit := some t }, ?_, List.prefix_rfl, fun hne => absurd hopen hne⟩
    rw [block?_leave, if_pos hc, hb]
    rfl
  · obtain ⟨blk', hb', hk⟩ := keepsAt_leave t hc blk hb
    exact ⟨blk', hb', hk.isPrefix, fun _ => hk⟩

/-! ### Branching off -/

/-- Creates the blocks of a statement and leaves the current one. -/
def fork (b : Builder) (labels : List Label) (t : Terminator) : Builder :=
  (b.nextLabel.2.addBlocks labels).leave t

section Fork

variable {b : Builder} (labels : List Label) (t : Terminator)

theorem block?_fork (b : Builder) (ℓ : Label) :
    (b.fork labels t).block? ℓ =
      if ℓ = b.current then
        ((b.block? ℓ).or (if ℓ ∈ labels then some ⟨ℓ, [], none⟩ else none)).map
          fun blk => { blk with exit := some t }
      else (b.block? ℓ).or (if ℓ ∈ labels then some ⟨ℓ, [], none⟩ else none) := by
  unfold fork
  rw [block?_leave, block?_addBlocks]
  rfl

theorem fork_current {blk : Block} (hb : b.block? b.current = some blk) :
    (b.fork labels t).block? b.current = some { blk with exit := some t } := by
  rw [block?_fork, if_pos rfl, hb]
  rfl

theorem keepsAt_fork {ℓ : Label} (hne : ℓ ≠ b.current) : KeepsAt ℓ b (b.fork labels t) := by
  intro blk hb
  exact ⟨blk, by rw [block?_fork, if_neg hne, hb]; rfl, Block.Keeps.refl blk⟩

/-- A label of the next number is no label of a block that is there. -/
theorem Formed.ne_of_block? (h : Formed b) {ℓ ℓ' : Label} {blk : Block}
    (hn : ℓ.number = b.labels + 1) (hb : b.block? ℓ' = some blk) : ℓ' ≠ ℓ := by
  rintro rfl
  rw [h.fresh ℓ' (by omega)] at hb
  exact absurd hb (by simp)

theorem Sound.vacant_fork (h : Sound b) {ℓ : Label} (hm : ℓ ∈ labels)
    (hn : ∀ ℓ ∈ labels, ℓ.number = b.labels + 1) : (b.fork labels t).Vacant ℓ := by
  obtain ⟨blk, hb, -⟩ := h.isOpen
  have hnum := hn ℓ hm
  have hne : ℓ ≠ b.current := fun e => h.ne_of_block? hnum hb e.symm
  unfold Vacant
  rw [block?_fork, if_neg hne, h.fresh ℓ (by omega), if_pos hm]
  rfl

theorem Sound.formed_fork (h : Sound b) (hn : ∀ ℓ ∈ labels, ℓ.number = b.labels + 1) :
    Formed (b.fork labels t) := by
  unfold fork
  apply Formed.leave
  refine { fresh := ?_, entry := ?_, plain := ?_, nodup := h.nodup }
  · intro ℓ hlt
    change b.labels + 1 < ℓ.number at hlt
    rw [block?_addBlocks]
    change (b.block? ℓ).or _ = none
    have hmem : ℓ ∉ labels := fun hm => by
      have := hn ℓ hm
      omega
    rw [h.fresh ℓ (by omega), if_neg hmem]
    rfl
  · obtain ⟨blk, hb, ha⟩ := h.entry
    refine ⟨blk, ?_, ha⟩
    rw [block?_addBlocks]
    change (b.block? .entry).or _ = _
    rw [hb]
    rfl
  · intro ℓ blk hne hb
    rw [block?_addBlocks] at hb
    change (b.block? ℓ).or _ = _ at hb
    cases h₀ : b.block? ℓ with
    | some blk₀ =>
      rw [h₀] at hb
      obtain rfl := Option.some.inj hb
      exact h.plain ℓ blk₀ hne h₀
    | none =>
      rw [h₀, Option.none_or] at hb
      split at hb
      · rw [← Option.some.inj hb]
        rfl
      · exact absurd hb (by simp)

/-- A statement that branches off extends the builder if what follows keeps the old blocks. -/
theorem extends_fork {b' : Builder}
    (hk : ∀ ℓ blk, b.block? ℓ = some blk → KeepsAt ℓ (b.fork labels t) b')
    (hnow : b.block? b'.current = none) : Extends b b' where
  longer := by
    intro blk hb
    obtain ⟨blk', hb', hkeep⟩ := hk _ blk hb _ (fork_current labels t hb)
    exact ⟨blk', hb', hkeep.isPrefix⟩
  others := by
    intro ℓ hne blk hb
    exact (keepsAt_fork labels t hne).trans (hk ℓ blk hb) blk hb
  now := Or.inr hnow

end Fork

/-! ### Filling a block of a statement -/

section Visit

variable {b b' : Builder} {ℓ : Label}

theorem Formed.enter_vacant (h : Formed b) (hv : b.Vacant ℓ) : Sound (b.enter ℓ) where
  toFormed := ⟨h.fresh, h.entry, h.plain, h.nodup⟩
  isOpen := ⟨_, hv, rfl⟩

/-- Filling a vacant block and leaving it keeps the other blocks. -/
theorem keepsAt_visit (hx : Extends (b.enter ℓ) b') {ℓ' : Label} (hne : ℓ' ≠ ℓ)
    (t : Terminator) : KeepsAt ℓ' b (b'.leave t) := by
  intro blk hb
  have hk : KeepsAt ℓ' b b' := hx.others ℓ' hne
  have hcur : ℓ' ≠ b'.current := hx.current_ne (b := b.enter ℓ) hne hb
  exact hk.trans (keepsAt_leave t hcur) blk hb

theorem completes_visit (h : Formed b) (hv : b.Vacant ℓ) (hs : Sound b')
    (hx : Extends (b.enter ℓ) b') (t : Terminator) : Completes b (b'.leave t) :=
  Completes.trans (b := b') (hx.completes (h.enter_vacant hv)) (hs.completes_leave t)

/-- A block that is filled first is not the one that lowering is in afterwards, unless it is the
same. -/
theorem Extends.current_ne_entry (h : Formed b) (hx : Extends (b.enter ℓ) b') (hne : ℓ ≠ .entry) :
    b'.current ≠ .entry := by
  obtain ⟨blk, hb, -⟩ := h.entry
  exact fun e => hx.current_ne (b := b.enter ℓ) (ℓ := .entry) (Ne.symm hne) hb e.symm

end Visit

end Builder

end Offside.Ir
