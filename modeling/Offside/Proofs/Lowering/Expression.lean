import Offside.Proofs.Lowering.Builder
import Offside.Proofs.Meaning.Machine

/-!
# The code of an expression

`lowerExpr`, `lowerCond`, `lowerExprs` and `lowerCall`, which are `expression`, `condition`, and the
two parts of `functionCall`, against the meaning of expressions.

The code of an expression is added to the current block and does nothing else to the builder
(`Appends`). Run on a machine whose slots hold the words of a store, it leaves the value of the
expression in its operand, and faults if there is none (`Computes`). Its results have numbers of
their own, so values that were computed before stay as they are.

* `Holds` says that the slots of some variables hold the words of a store.
* `Computes` is put together as code is: `Computes.const` for a number, `Computes.load` for a
  variable, `Computes.unary` and `Computes.binary` for one more instruction behind one operand or
  two.
* `applied` is the value that an operation makes of two words. Arithmetic and comparisons are one
  case: their instructions differ in the operation, and what it means is in `applied_arith` and
  `applied_compare`.

Results:
* `perform_instr`: the instruction of an operation makes its value, or faults.
* `lowerExpr_computes`: the code of an expression computes its word.
* `lowerCond_computes`: the code of a condition computes a bit that tells whether it holds.
* `lowerExprs_computes`: the code of several expressions computes all their words.
* `lowerCall_computes`: the code of a call computes the arguments and ends in one instruction, which
  shows the call.
-/

namespace Offside.Ir

namespace Builder

theorem emitTo_nil (b : Builder) (ℓ : Label) : b.emitTo ℓ [] = b := by
  unfold emitTo modifyBlock
  have h : (fun blk : Block => if blk.label = ℓ then { blk with body := blk.body ++ [] } else blk) =
      id := by
    funext blk
    simp
  rw [h, List.map_id]

theorem emitTo_emitTo (b : Builder) (ℓ : Label) (is js : List Instr) :
    (b.emitTo ℓ is).emitTo ℓ js = b.emitTo ℓ (is ++ js) := by
  unfold emitTo modifyBlock
  simp only [List.map_map, mk.injEq, and_self, and_true]
  congr 1
  funext blk
  by_cases h : blk.label = ℓ
  · simp [h, List.append_assoc]
  · simp [h]

/-- `b'` is `b` with some code added to the current block, and perhaps more functions declared. -/
structure Appends (b : Builder) (is : List Instr) (b' : Builder) : Prop where
  eq : b' = { b.emitTo b.current is with regs := b'.regs, externals := b'.externals }
  regs_le : b.regs ≤ b'.regs
  /-- The code makes no slots. -/
  plain : allocated is = []

namespace Appends

variable {b b' b'' : Builder} {is js : List Instr}

theorem refl (b : Builder) : Appends b [] b where
  eq := by rw [emitTo_nil]
  regs_le := Nat.le_refl _
  plain := rfl

theorem current (h : Appends b is b') : b'.current = b.current := by
  rw [h.eq]
  rfl

theorem slots (h : Appends b is b') : b'.slots = b.slots := by
  rw [h.eq]
  rfl

theorem trans (h : Appends b is b') (h' : Appends b' js b'') : Appends b (is ++ js) b'' where
  eq := by
    rw [h'.eq, h.current, ← emitTo_emitTo]
    conv => lhs; rw [h.eq]
    rfl
  regs_le := Nat.le_trans h.regs_le h'.regs_le
  plain := by rw [allocated_append, h.plain, h'.plain]; rfl

theorem emitResult {f : Nat → Instr} {x : Operand} (h : b.emitResult f = (x, b'))
    (hf : (f b.regs).allocates = none) :
    x = .reg b.regs ∧ b'.regs = b.regs + 1 ∧ Appends b [f b.regs] b' := by
  obtain ⟨rfl, rfl⟩ := Prod.mk.inj h
  refine ⟨rfl, rfl, rfl, Nat.le_succ _, ?_⟩
  simp [allocated, hf]

theorem sound (h : Appends b is b') (hb : Sound b) : Sound b' := by
  have hs := hb.emitTo h.plain
  rw [h.eq]
  exact ⟨⟨hs.fresh, hs.entry, hs.plain, hs.nodup⟩, hs.isOpen⟩

theorem «extends» (h : Appends b is b') : Extends b b' := by
  have hx := extends_emitTo b is
  rw [h.eq]
  exact ⟨hx.longer, hx.others, hx.now⟩

end Appends

end Builder

/-- An operand whose value is known once the results below `n` are. -/
def Operand.Below (n : Nat) : Operand → Prop
  | .const _ => True
  | .reg id => id < n

end Offside.Ir

namespace Offside.Meaning

open Offside.Ir

theorem Regs.value?_congr {regs regs' : Regs} {n : Nat} {x : Operand} (hx : x.Below n)
    (h : ∀ id < n, regs' id = regs id) : regs'.value? x = regs.value? x := by
  cases x with
  | const w => rfl
  | reg id => exact h id hx

theorem Regs.word?_eq {regs : Regs} {x : Operand} {w : Int64}
    (h : regs.value? x = some (.word w)) : regs.word? x = some w := by
  unfold Regs.word?
  rw [h]

theorem Regs.bit?_eq {regs : Regs} {x : Operand} {b : Bool}
    (h : regs.value? x = some (.bit b)) : regs.bit? x = some b := by
  unfold Regs.bit?
  rw [h]

@[simp] theorem Regs.set_self (regs : Regs) (dst : Nat) (v : Value) :
    regs.set dst v dst = some v := by
  simp [Regs.set]

theorem Regs.set_of_ne (regs : Regs) {dst id : Nat} (v : Value) (h : id ≠ dst) :
    regs.set dst v id = regs id := by
  simp [Regs.set, h]

/-- The slots of some variables hold the words of a store. -/
def Holds (vars : List Text) (σ : Store) (m : Machine) : Prop :=
  ∀ v ∈ vars, m.slots v = some (some (σ v))

variable {env : List Event → Int64} {blocks : List Block}

theorem step_code {m : Machine} {i : Instr} {k : List Instr} (h : m.code = i :: k) :
    (target env blocks).step m = m.perform env k i := by
  show m.step env blocks = _
  unfold Machine.step
  rw [h]

/-- Faulting after some steps is faulting. -/
theorem Process.Faults.of_reaches {σ ε : Type} {P : Process σ ε} {s s' : σ} {E : List ε}
    (h : P.Reaches s s') (hf : P.Faults s' E) : P.Faults s E := by
  obtain ⟨u, hu, hrest⟩ := hf
  exact ⟨u, Relation.ReflTransGen.trans h hu, hrest⟩

/-! ## Code that computes a value -/

/-- Some code, whose results are numbered from `lo` up to `hi`, leaves the value of `f` in an
operand, and faults where `f` has none. -/
structure Computes (env : List Event → Int64) (blocks : List Block) (vars : List Text)
    (lo hi : Nat) (is : List Instr) (x : Operand) (f : Store → Option Value) : Prop where
  le : lo ≤ hi
  below : x.Below hi
  runs : ∀ {m : Machine} {k : List Instr} {σ : Store} {v : Value}, m.code = is ++ k →
    Holds vars σ m → f σ = some v →
    ∃ regs : Regs, (target env blocks).Reaches m { m with code := k, regs := regs } ∧
      (∀ id < lo, regs id = m.regs id) ∧ regs.value? x = some v
  faults : ∀ {m : Machine} {k : List Instr} {σ : Store}, m.code = is ++ k → Holds vars σ m →
    f σ = none → (target env blocks).Faults m m.events

namespace Computes

variable {vars : List Text} {lo mid hi : Nat} {is js : List Instr} {x y : Operand}

theorem const (env : List Event → Int64) (blocks : List Block) (vars : List Text) (n : Nat)
    (w : Int64) : Computes env blocks vars n n [] (.const w) fun _ => some (.word w) where
  le := Nat.le_refl n
  below := trivial
  runs := by
    intro m k σ v hm _ hv
    refine ⟨m.regs, ?_, fun _ _ => rfl, hv⟩
    rw [List.nil_append] at hm
    rw [← hm]
    exact Relation.ReflTransGen.refl
  faults := by
    intro m k σ _ _ hv
    exact absurd hv (by simp)

/-- An instruction that takes its operand from a slot. -/
theorem load (env : List Event → Int64) (blocks : List Block) {var : Text} (n : Nat)
    (hv : var ∈ vars) :
    Computes env blocks vars n (n + 1) [.load n var] (.reg n) fun σ => some (.word (σ var)) where
  le := Nat.le_succ n
  below := Nat.lt_succ_self n
  runs := by
    intro m k σ v hm hσ hval
    obtain rfl := Option.some.inj hval
    refine ⟨m.regs.set n (.word (σ var)), ?_, fun id hid => ?_, Regs.set_self _ _ _⟩
    · apply Relation.ReflTransGen.single
      show (target env blocks).step m = _
      rw [step_code hm]
      simp only [Machine.perform, hσ var hv]
      rfl
    · exact Regs.set_of_ne _ _ (Nat.ne_of_lt hid)
  faults := by
    intro m k σ _ _ hval
    exact absurd hval (by simp)

/-- One more instruction that makes another value of the one computed so far. -/
theorem unary {f : Store → Option Value} {i : Instr} {h : Value → Value}
    (hx : Computes env blocks vars lo hi is x f)
    (hdo : ∀ {m : Machine} {k : List Instr} {σ : Store} {v : Value}, f σ = some v →
      m.regs.value? x = some v → m.perform env k i = .next (m.put k hi (h v))) :
    Computes env blocks vars lo (hi + 1) (is ++ [i]) (.reg hi) fun σ => (f σ).map h where
  le := Nat.le_succ_of_le hx.le
  below := Nat.lt_succ_self hi
  runs := by
    intro m k σ v hm hσ hval
    obtain ⟨v₀, hf, rfl⟩ := Option.map_eq_some_iff.mp hval
    rw [List.append_assoc] at hm
    obtain ⟨regs, hr, hkeep, hv₀⟩ := hx.runs hm hσ hf
    refine ⟨regs.set hi (h v₀), ?_, fun id hid => ?_, Regs.set_self _ _ _⟩
    · refine Relation.ReflTransGen.tail hr ?_
      show (target env blocks).step _ = _
      rw [step_code (k := k) rfl]
      exact hdo hf hv₀
    · rw [Regs.set_of_ne _ _ (by have := hx.le; omega)]
      exact hkeep id hid
  faults := by
    intro m k σ hm hσ hval
    rw [List.append_assoc] at hm
    exact hx.faults hm hσ (Option.map_eq_none_iff.mp hval)

section Binary

variable {left right : Store → Option Int64}
  (hx : Computes env blocks vars lo mid is x fun σ => (left σ).map .word)
  (hy : Computes env blocks vars mid hi js y fun σ => (right σ).map .word)

include hx hy

/-- Two words that are computed one after the other are both there when what follows is reached. -/
theorem reaches_both {m : Machine} {k : List Instr} {σ : Store} {a b : Int64}
    (hm : m.code = is ++ (js ++ k)) (hσ : Holds vars σ m) (ha : left σ = some a)
    (hb : right σ = some b) :
    ∃ regs : Regs, (target env blocks).Reaches m { m with code := k, regs := regs } ∧
      (∀ id < lo, regs id = m.regs id) ∧ regs.word? x = some a ∧ regs.word? y = some b := by
  obtain ⟨regs₁, hr₁, hk₁, hv₁⟩ := hx.runs hm hσ (by rw [ha]; rfl)
  obtain ⟨regs₂, hr₂, hk₂, hv₂⟩ :=
    hy.runs (m := { m with code := js ++ k, regs := regs₁ }) rfl hσ (by rw [hb]; rfl)
  refine ⟨regs₂, Relation.ReflTransGen.trans hr₁ hr₂, fun id hid => ?_, ?_, Regs.word?_eq hv₂⟩
  · rw [hk₂ id (Nat.lt_of_lt_of_le hid hx.le)]
    exact hk₁ id hid
  · apply Regs.word?_eq
    rw [Regs.value?_congr hx.below hk₂]
    exact hv₁

/-- Two words are computed one after the other, and an instruction makes a value of them. -/
theorem binary {i : Instr} {h : Int64 → Int64 → Option Value}
    (hdo : ∀ {m : Machine} {k : List Instr} {a b : Int64}, m.regs.word? x = some a →
      m.regs.word? y = some b → m.perform env k i =
        match h a b with
        | some v => .next (m.put k hi v)
        | none => .faulted) :
    Computes env blocks vars lo (hi + 1) (is ++ js ++ [i]) (.reg hi) fun σ =>
      (left σ).bind fun a => (right σ).bind fun b => h a b where
  le := Nat.le_succ_of_le (Nat.le_trans hx.le hy.le)
  below := Nat.lt_succ_self hi
  runs := by
    intro m k σ v hm hσ hval
    obtain ⟨a, ha, hval⟩ := Option.bind_eq_some_iff.mp hval
    obtain ⟨b, hb, hval⟩ := Option.bind_eq_some_iff.mp hval
    rw [List.append_assoc, List.append_assoc] at hm
    obtain ⟨regs, hr, hkeep, hwx, hwy⟩ := reaches_both hx hy hm hσ ha hb
    refine ⟨regs.set hi v, ?_, fun id hid => ?_, Regs.set_self _ _ _⟩
    · refine Relation.ReflTransGen.tail hr ?_
      show (target env blocks).step _ = _
      rw [step_code (k := k) rfl, hdo hwx hwy, hval]
      rfl
    · rw [Regs.set_of_ne _ _ (by have := hx.le; have := hy.le; omega)]
      exact hkeep id hid
  faults := by
    intro m k σ hm hσ hval
    rw [List.append_assoc, List.append_assoc] at hm
    cases ha : left σ with
    | none => exact hx.faults hm hσ (by rw [ha]; rfl)
    | some a =>
      cases hb : right σ with
      | none =>
        obtain ⟨regs₁, hr₁, -, -⟩ := hx.runs hm hσ (by rw [ha]; rfl)
        exact Process.Faults.of_reaches hr₁
          (hy.faults (m := { m with code := js ++ ([i] ++ k), regs := regs₁ }) rfl hσ
            (by rw [hb]; rfl))
      | some b =>
        obtain ⟨regs, hr, -, hwx, hwy⟩ := reaches_both hx hy hm hσ ha hb
        simp only [ha, hb, Option.bind_some] at hval
        refine ⟨_, hr, ?_, rfl⟩
        rw [step_code (k := k) rfl, hdo hwx hwy, hval]

end Binary

end Computes

/-! ## The code of expressions and conditions -/

/-- The value that an operation makes of two words, if it makes one. -/
def applied : BinaryOp → Int64 → Int64 → Option Value
  | .arith op, x, y => (computed op x y).map .word
  | .compare pred, x, y => some (.bit (tested pred x y))

/-- The instruction of an operation makes its value, or faults. -/
theorem perform_instr {m : Machine} {k : List Instr} {x y : Operand} {a c : Int64} {dst : Nat}
    (op : BinaryOp) (hx : m.regs.word? x = some a) (hy : m.regs.word? y = some c) :
    m.perform env k (op.instr dst x y) =
      match applied op a c with
      | some v => .next (m.put k dst v)
      | none => .faulted := by
  cases op with
  | arith op =>
    simp only [BinaryOp.instr, Machine.perform, hx, hy, applied]
    cases computed op a c <;> rfl
  | compare pred => simp only [BinaryOp.instr, Machine.perform, hx, hy, applied]

/-- The operation for an arithmetic operator makes the word that the operator means. -/
theorem applied_arith {k : Kind} {op : BinaryOp} (h : op ∈ (arithOp? k).map .arith) (x y : Int64) :
    applied op x y = (arithmetic k x y).map .word := by
  obtain ⟨instr, hi, rfl⟩ := Option.map_eq_some_iff.mp h
  cases k <;> simp only [arithOp?, Option.some.injEq, reduceCtorEq] at hi <;> subst hi <;> rfl

/-- The operation for a comparison makes the bit that tells whether it holds. -/
theorem applied_compare {k : Kind} {op : BinaryOp} (h : op ∈ (pred? k).map .compare)
    (x y : Int64) : applied op x y = (comparison k x y).map .bit := by
  obtain ⟨pred, hp, rfl⟩ := Option.map_eq_some_iff.mp h
  cases k <;> simp only [pred?, Option.some.injEq, reduceCtorEq] at hp <;> subst hp <;> rfl

theorem lowerLeaf_computes {b b' : Builder} {token : Token} {x : Operand}
    (h : b.lowerLeaf token = .ok (x, b')) :
    ∃ is, b.Appends is b' ∧ ∀ env blocks,
      Computes env blocks b.slots b.regs b'.regs is x
        fun σ => (value σ (.leaf token)).map .word := by
  unfold Builder.lowerLeaf at h
  split at h
  · rename_i hk
    obtain ⟨rfl, rfl⟩ := Prod.mk.inj (Except.ok.inj h)
    refine ⟨[], Builder.Appends.refl b, fun env blocks => ?_⟩
    simp only [value, hk, Option.map_some]
    exact Computes.const env blocks b.slots b.regs token.num
  · rename_i hk
    split at h
    · rename_i hmem
      obtain ⟨rfl, hregs, ha⟩ := Builder.Appends.emitResult (Except.ok.inj h) rfl
      refine ⟨_, ha, fun env blocks => ?_⟩
      simp only [value, hk, Option.map_some, hregs]
      exact Computes.load env blocks b.regs (by simpa using hmem)
    · exact absurd h (by simp)
  · exact absurd h (by simp)

section Operators

variable {b b₁ b₂ b' : Builder} {is js : List Instr} {x y z : Operand} {op : Token}
  {left right : Store → Option Int64}

/-- **An operation behind its two operands.** -/
theorem lowerBinary_computes {op? : Option BinaryOp} {unknown : LowerError}
    (ha₁ : b.Appends is b₁) (ha₂ : b₁.Appends js b₂)
    (h₁ : ∀ env blocks, Computes env blocks b.slots b.regs b₁.regs is x fun σ =>
      (left σ).map .word)
    (h₂ : ∀ env blocks, Computes env blocks b₁.slots b₁.regs b₂.regs js y fun σ =>
      (right σ).map .word)
    (h : b₂.lowerBinary op? unknown x y = .ok (z, b')) :
    ∃ op ∈ op?, ∃ is', b.Appends is' b' ∧ ∀ env blocks,
      Computes env blocks b.slots b.regs b'.regs is' z fun σ =>
        (left σ).bind fun a => (right σ).bind fun c => applied op a c := by
  cases op? with
  | none => cases h
  | some op =>
    obtain ⟨rfl, hregs, ha₃⟩ :=
      Builder.Appends.emitResult (Except.ok.inj h) (op.instr_allocates b₂.regs x y)
    refine ⟨op, rfl, _, (ha₁.trans ha₂).trans ha₃, fun env blocks => ?_⟩
    have hy := h₂ env blocks
    rw [ha₁.slots] at hy
    rw [hregs]
    exact (h₁ env blocks).binary hy fun hwx hwy => perform_instr op hwx hwy

end Operators

/-- **The code of an expression computes its word.** -/
theorem lowerExpr_computes {e : Expr} {b b' : Builder} {x : Operand}
    (h : b.lowerExpr e = .ok (x, b')) :
    ∃ is, b.Appends is b' ∧ ∀ env blocks,
      Computes env blocks b.slots b.regs b'.regs is x fun σ => (value σ e).map .word := by
  induction e generalizing b b' x with
  | leaf token => exact lowerLeaf_computes h
  | arith left op right ihl ihr =>
    unfold Builder.lowerExpr at h
    obtain ⟨⟨x₁, b₁⟩, h₁, h⟩ := bind_eq_ok.mp h
    obtain ⟨⟨x₂, b₂⟩, h₂, h⟩ := bind_eq_ok.mp h
    obtain ⟨is, ha₁, hc₁⟩ := ihl h₁
    obtain ⟨js, ha₂, hc₂⟩ := ihr h₂
    obtain ⟨o, ho, is', ha, hc⟩ := lowerBinary_computes ha₁ ha₂ hc₁ hc₂ h
    refine ⟨is', ha, fun env blocks => ?_⟩
    simp only [value, Option.bind_eq_bind, Option.map_bind, Function.comp_def, ← applied_arith ho]
    exact hc env blocks
  | compare left op right ihl ihr =>
    unfold Builder.lowerExpr at h
    obtain ⟨⟨x₁, b₁⟩, h₁, h⟩ := bind_eq_ok.mp h
    obtain ⟨⟨x₂, b₂⟩, h₂, h⟩ := bind_eq_ok.mp h
    obtain ⟨⟨bit, b₃⟩, h₃, h⟩ := bind_eq_ok.mp h
    obtain ⟨is, ha₁, hc₁⟩ := ihl h₁
    obtain ⟨js, ha₂, hc₂⟩ := ihr h₂
    obtain ⟨o, ho, ks, ha₃, hc₃⟩ := lowerBinary_computes ha₁ ha₂ hc₁ hc₂ h₃
    obtain ⟨rfl, hregs, ha₄⟩ := Builder.Appends.emitResult (Except.ok.inj h) rfl
    refine ⟨_, ha₃.trans ha₄, fun env blocks => ?_⟩
    have hbit : ∀ σ, ((value σ left).bind fun a => (value σ right).bind fun c => applied o a c) =
        ((value σ left).bind fun a => (value σ right).bind fun c =>
          comparison op.kind a c).map .bit := by
      intro σ
      simp only [Option.map_bind, Function.comp_def, applied_compare ho]
    simp only [hbit] at hc₃
    rw [hregs]
    have hz := (hc₃ env blocks).unary (i := .widen b₃.regs bit)
      (h := fun v => match v with
        | .bit c => .word (wordOf c)
        | .word w => .word w) (by
        intro m k σ v hv hval
        obtain ⟨c, -, rfl⟩ := Option.map_eq_some_iff.mp hv
        simp only [Machine.perform, Regs.bit?_eq hval])
    have hf : ∀ σ, (value σ (.compare left op right)).map Value.word =
        (((value σ left).bind fun a => (value σ right).bind fun c =>
          comparison op.kind a c).map Value.bit).map fun v => match v with
            | .bit c => .word (wordOf c)
            | .word w => .word w := by
      intro σ
      simp only [value, Option.bind_eq_bind, Option.map_bind, Option.map_map, Function.comp_def]
    simp only [hf]
    exact hz
  | missing =>
    unfold Builder.lowerExpr at h
    exact absurd h (by simp)

theorem wordOf_ne_zero (c : Bool) : decide (wordOf c ≠ 0) = c := by
  cases c <;> rfl

/-- Whether a word is not zero, as a bit. -/
def nonzero : Value → Value
  | .word w => .bit (decide (w ≠ 0))
  | .bit c => .bit c

/-- A condition that is no comparison is compared with zero. -/
theorem nonzero_computes {e : Expr} {b b₁ b' : Builder} {x z : Operand}
    (h₁ : b.lowerExpr e = .ok (x, b₁))
    (h : b₁.emitResult (.compare · .ne x (.const 0)) = (z, b')) :
    ∃ is, b.Appends is b' ∧ ∀ env blocks,
      Computes env blocks b.slots b.regs b'.regs is z fun σ => (holds σ e).map .bit := by
  obtain ⟨is, ha₁, hc₁⟩ := lowerExpr_computes h₁
  obtain ⟨rfl, hregs, ha₂⟩ := Builder.Appends.emitResult h rfl
  refine ⟨_, ha₁.trans ha₂, fun env blocks => ?_⟩
  rw [hregs]
  have hz := (hc₁ env blocks).unary (i := .compare b₁.regs .ne x (.const 0))
    (h := nonzero) (by
      intro m k σ v hv hval
      obtain ⟨w, -, rfl⟩ := Option.map_eq_some_iff.mp hv
      have h0 : m.regs.word? (.const 0) = some 0 := rfl
      simp only [Machine.perform, Regs.word?_eq hval, h0, tested, nonzero])
  simp only [holds, Option.map_map, Function.comp_def, nonzero] at hz ⊢
  exact hz

/-- **The code of a condition computes whether it holds.** -/
theorem lowerCond_computes {cond : Expr} {b b' : Builder} {z : Operand}
    (h : b.lowerCond cond = .ok (z, b')) :
    ∃ is, b.Appends is b' ∧ ∀ env blocks,
      Computes env blocks b.slots b.regs b'.regs is z fun σ => (holds σ cond).map .bit := by
  cases cond with
  | compare left op right =>
    unfold Builder.lowerCond at h
    obtain ⟨⟨x₁, b₁⟩, h₁, h⟩ := bind_eq_ok.mp h
    obtain ⟨⟨x₂, b₂⟩, h₂, h⟩ := bind_eq_ok.mp h
    obtain ⟨is, ha₁, hc₁⟩ := lowerExpr_computes h₁
    obtain ⟨js, ha₂, hc₂⟩ := lowerExpr_computes h₂
    obtain ⟨o, ho, ks, ha, hc⟩ := lowerBinary_computes ha₁ ha₂ hc₁ hc₂ h
    refine ⟨ks, ha, fun env blocks => ?_⟩
    have hf : ∀ σ, (holds σ (.compare left op right)).map .bit =
        (value σ left).bind fun a => (value σ right).bind fun c => applied o a c := by
      intro σ
      simp only [holds, value, Option.bind_eq_bind, Option.map_bind, Option.map_map,
        Function.comp_def, wordOf_ne_zero, applied_compare ho]
    simp only [hf]
    exact hc env blocks
  | leaf token =>
    obtain ⟨⟨x, b₁⟩, h₁, h⟩ := bind_eq_ok.mp h
    exact nonzero_computes h₁ (Except.ok.inj h)
  | arith left op right =>
    obtain ⟨⟨x, b₁⟩, h₁, h⟩ := bind_eq_ok.mp h
    exact nonzero_computes h₁ (Except.ok.inj h)
  | missing =>
    obtain ⟨⟨x, b₁⟩, h₁, h⟩ := bind_eq_ok.mp h
    exact nonzero_computes h₁ (Except.ok.inj h)

/-! ## The code of several expressions -/

/-- Some code leaves the words of `f` in operands, and faults where `f` has none. -/
structure ComputesAll (env : List Event → Int64) (blocks : List Block) (vars : List Text)
    (lo hi : Nat) (is : List Instr) (xs : List Operand) (f : Store → Option (List Int64)) :
    Prop where
  le : lo ≤ hi
  runs : ∀ {m : Machine} {k : List Instr} {σ : Store} {ws : List Int64}, m.code = is ++ k →
    Holds vars σ m → f σ = some ws →
    ∃ regs : Regs, (target env blocks).Reaches m { m with code := k, regs := regs } ∧
      (∀ id < lo, regs id = m.regs id) ∧ regs.words? xs = some ws
  faults : ∀ {m : Machine} {k : List Instr} {σ : Store}, m.code = is ++ k → Holds vars σ m →
    f σ = none → (target env blocks).Faults m m.events

theorem ComputesAll.nil (env : List Event → Int64) (blocks : List Block) (vars : List Text)
    (n : Nat) : ComputesAll env blocks vars n n [] [] fun _ => some [] where
  le := Nat.le_refl n
  runs := by
    intro m k σ ws hm _ hw
    refine ⟨m.regs, ?_, fun _ _ => rfl, hw⟩
    rw [List.nil_append] at hm
    rw [← hm]
    exact Relation.ReflTransGen.refl
  faults := by
    intro m k σ _ _ hw
    exact absurd hw (by simp)

theorem ComputesAll.cons {vars : List Text} {lo mid hi : Nat} {is js : List Instr} {x : Operand}
    {xs : List Operand} {f : Store → Option Int64} {g : Store → Option (List Int64)}
    (hx : Computes env blocks vars lo mid is x fun σ => (f σ).map .word)
    (hxs : ComputesAll env blocks vars mid hi js xs g) :
    ComputesAll env blocks vars lo hi (is ++ js) (x :: xs) fun σ =>
      (f σ).bind fun w => (g σ).bind fun ws => some (w :: ws) where
  le := Nat.le_trans hx.le hxs.le
  runs := by
    intro m k σ ws hm hσ hw
    obtain ⟨w, hf, hw⟩ := Option.bind_eq_some_iff.mp hw
    obtain ⟨ws', hg, hw⟩ := Option.bind_eq_some_iff.mp hw
    obtain rfl := Option.some.inj hw
    rw [List.append_assoc] at hm
    obtain ⟨regs₁, hr₁, hk₁, hv₁⟩ := hx.runs hm hσ (by rw [hf]; rfl)
    obtain ⟨regs₂, hr₂, hk₂, hv₂⟩ :=
      hxs.runs (m := { m with code := js ++ k, regs := regs₁ }) rfl hσ hg
    refine ⟨regs₂, Relation.ReflTransGen.trans hr₁ hr₂, fun id hid => ?_, ?_⟩
    · rw [hk₂ id (Nat.lt_of_lt_of_le hid hx.le)]
      exact hk₁ id hid
    · have hwx : regs₂.word? x = some w := by
        apply Regs.word?_eq
        rw [Regs.value?_congr hx.below hk₂]
        exact hv₁
      simp only [Regs.words?, hwx, hv₂, Option.bind_eq_bind, Option.bind_some, Option.pure_def]
  faults := by
    intro m k σ hm hσ hw
    rw [List.append_assoc] at hm
    cases hf : f σ with
    | none => exact hx.faults hm hσ (by rw [hf]; rfl)
    | some w =>
      obtain ⟨regs₁, hr₁, -, -⟩ := hx.runs hm hσ (by rw [hf]; rfl)
      have hg : g σ = none := by
        cases hg : g σ with
        | none => rfl
        | some ws => rw [hf, hg] at hw; exact absurd hw (by simp)
      exact Process.Faults.of_reaches hr₁
        (hxs.faults (m := { m with code := js ++ k, regs := regs₁ }) rfl hσ hg)

/-- **The code of several expressions computes their words.** -/
theorem lowerExprs_computes : ∀ {es : List Expr} {b b' : Builder} {xs : List Operand},
    b.lowerExprs es = .ok (xs, b') → ∃ is, b.Appends is b' ∧ ∀ env blocks,
      ComputesAll env blocks b.slots b.regs b'.regs is xs fun σ => values σ es
  | [], b, b', xs, h => by
    obtain ⟨rfl, rfl⟩ := Prod.mk.inj (Except.ok.inj h)
    exact ⟨[], Builder.Appends.refl b, fun env blocks => ComputesAll.nil env blocks b.slots b.regs⟩
  | e :: es, b, b', xs, h => by
    unfold Builder.lowerExprs at h
    obtain ⟨⟨x, b₁⟩, h₁, h⟩ := bind_eq_ok.mp h
    obtain ⟨⟨xs', b₂⟩, h₂, h⟩ := bind_eq_ok.mp h
    obtain ⟨rfl, rfl⟩ := Prod.mk.inj (Except.ok.inj h)
    obtain ⟨is, ha₁, hc₁⟩ := lowerExpr_computes h₁
    obtain ⟨js, ha₂, hc₂⟩ := lowerExprs_computes h₂
    refine ⟨is ++ js, ha₁.trans ha₂, fun env blocks => ?_⟩
    have hc₂' := hc₂ env blocks
    rw [ha₁.slots] at hc₂'
    exact ComputesAll.cons (hc₁ env blocks) hc₂'

/-! ## The code of a call -/

theorem declare_appends (b : Builder) (name : Text) (n : Nat) :
    b.Appends [] (b.declare name n).2 := by
  unfold Builder.declare
  split
  · exact Builder.Appends.refl b
  · refine ⟨?_, Nat.le_refl _, rfl⟩
    rw [Builder.emitTo_nil]

/-- An instruction shows a call of a function with the words of some operands. -/
def Shows (instr : Instr) (callee : Text) (xs : List Operand) : Prop :=
  ∀ env (m : Machine) k ws, m.regs.words? xs = some ws → ∃ regs : Regs,
    m.perform env k instr =
      .next { m with code := k, regs := regs, events := m.events ++ [⟨callee, ws⟩] }

/-- **The code of a call** computes the arguments and then shows the call. -/
theorem lowerCall_computes {b b' : Builder} {name : Token} {args : List Expr}
    (h : b.lowerCall name args = .ok b') :
    ∃ b₁ is xs instr, b.Appends is b₁ ∧ b₁.Appends [instr] b' ∧ Shows instr name.value xs ∧
      ∀ env blocks, ∃ lo, ComputesAll env blocks b.slots lo b₁.regs is xs
        fun σ => values σ args := by
  unfold Builder.lowerCall at h
  split at h
  · exact absurd h (by simp)
  · have hd := declare_appends b name.value args.length
    generalize b.declare name.value args.length = d at h hd
    obtain ⟨arity, b₀⟩ := d
    simp only at h hd
    split at h
    · exact absurd h (by simp)
    · obtain ⟨⟨xs, b₁⟩, h₁, h⟩ := bind_eq_ok.mp h
      obtain ⟨is, ha, hc⟩ := lowerExprs_computes h₁
      rw [hd.slots] at hc
      simp only at h
      split at h
      · rename_i hp
        obtain rfl := Except.ok.inj h
        refine ⟨b₁, is, xs, .print xs, hd.trans ha, ⟨rfl, Nat.le_refl _, rfl⟩, ?_,
          fun env blocks => ⟨_, hc env blocks⟩⟩
        intro env m k ws hws
        refine ⟨m.regs, ?_⟩
        simp only [Machine.perform, hws, hp]
        rfl
      · obtain rfl := Except.ok.inj h
        refine ⟨b₁, is, xs, .call b₁.regs name.value xs, hd.trans ha, ⟨rfl, Nat.le_succ _, rfl⟩, ?_,
          fun env blocks => ⟨_, hc env blocks⟩⟩
        intro env m k ws hws
        exact ⟨_, by simp only [Machine.perform, hws]; rfl⟩

end Offside.Meaning
