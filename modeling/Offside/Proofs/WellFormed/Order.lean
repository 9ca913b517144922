import Offside.Proofs.Lowering.Offence
import Offside.Proofs.WellFormed.Module

/-!
# The order of what lowering makes

In which order `Ir.lower` makes slots, functions and blocks, and so in which order they are printed,
told from the program alone.

Slots, functions and blocks are made while a program is lowered, wherever it needs them first: the
slots in `entry`, from inside of every statement, and the blocks of a statement before those of the
statements in it. So their order is that of the program.

* `targetsOf` and `functionsOf` list the variables that are given values and the functions that are
  called, each where it is met first. They are computed from the uses of names in a program
  (`Stmt.usesOf`).
* `Fork` is a statement with blocks of its own, `Stmt.forksOf` lists these in program order, and
  `Fork.labelsOf` their blocks, numbered from one on.
* `Ordered` says that a builder has made what some uses and statements need, in their order.

Results:
* `Ordered.write`, `Ordered.call`, `Ordered.fork`: a slot, a function and the blocks of a statement
  are made behind those that are there.
* `lowerStmt_ordered`, `lowerStmts_ordered`: lowering keeps a builder in the order of the program.
* `lower_follows`: the slots, functions and blocks of a module follow the program.
-/

namespace Offside

/-! ## What a program needs -/

/-- The variable that a use gives a value to. -/
def Use.target? : Use → Option Text
  | .write name => some name
  | _ => none

/-- The function that a use calls, unless it is the one that prints, and the number of arguments. -/
def Use.call? : Use → Option (Text × Nat)
  | .call name argCount => if name.value = Ir.printName then none else some (name.value, argCount)
  | _ => none

/-- The variables that are given values, each where it is given one for the first time. -/
def targetsOf (uses : List Use) : List Text :=
  (uses.filterMap Use.target?).eraseDups

/-- The first call of each function. -/
def firstCalls : List (Text × Nat) → List (Text × Nat)
  | [] => []
  | call :: calls => call :: (firstCalls calls).filter fun other => other.1 ≠ call.1

/-- The functions that are called, each where it is called for the first time, with the number of
arguments there. -/
def functionsOf (uses : List Use) : List (Text × Nat) :=
  firstCalls (uses.filterMap Use.call?)

/-- A statement with blocks of its own. -/
inductive Fork where
  | ifThen
  | ifElse
  | loop
  deriving DecidableEq, Repr

/-- The blocks of a statement, given its number. -/
def Fork.labels (n : Nat) : Fork → List Ir.Label
  | ifThen => [.ifThen n, .ifEnd n]
  | ifElse => [.ifThen n, .ifElse n, .ifEnd n]
  | loop => [.whileCond n, .whileBody n, .whileEnd n]

/-- The blocks of some statements, which are numbered from one on. -/
def Fork.labelsOf (forks : List Fork) : List Ir.Label :=
  (forks.zipIdx 1).flatMap fun (fork, n) => fork.labels n

namespace Stmt

mutual

/-- The statements with blocks of their own in a statement, in program order. -/
def forks : Stmt → List Fork
  | .ifThen _ body => .ifThen :: forksOf body
  | .ifElse _ body alt => .ifElse :: (forksOf body ++ forksOf alt)
  | .loop _ body => .loop :: forksOf body
  | .assign _ _ | .call _ _ | .missing => []

/-- The statements with blocks of their own in some statements. -/
def forksOf : List Stmt → List Fork
  | [] => []
  | s :: ss => s.forks ++ forksOf ss

end

end Stmt

/-! ### One more use, and one more statement -/

theorem targetsOf_append {uses more : List Use} (h : more.filterMap Use.target? = []) :
    targetsOf (uses ++ more) = targetsOf uses := by
  rw [targetsOf, List.filterMap_append, h, List.append_nil, targetsOf]

theorem functionsOf_append {uses more : List Use} (h : more.filterMap Use.call? = []) :
    functionsOf (uses ++ more) = functionsOf uses := by
  rw [functionsOf, List.filterMap_append, h, List.append_nil, functionsOf]

theorem targetsOf_concat (uses : List Use) (v : Text) :
    targetsOf (uses ++ [.write v]) =
      if v ∈ targetsOf uses then targetsOf uses else targetsOf uses ++ [v] := by
  have hlast : [Use.write v].filterMap Use.target? = [v] := rfl
  unfold targetsOf
  rw [List.filterMap_append, hlast, List.eraseDups_append]
  by_cases h : v ∈ uses.filterMap Use.target?
  · have hold : [v].removeAll (uses.filterMap Use.target?) = [] := by
      rw [List.removeAll, List.filter_cons_of_neg (by simpa using h), List.filter_nil]
    rw [hold, if_pos (List.mem_eraseDups.mpr h)]
    simp
  · have hnew : [v].removeAll (uses.filterMap Use.target?) = [v] := by
      rw [List.removeAll, List.filter_cons_of_pos (by simpa using h), List.filter_nil]
    rw [hnew, if_neg (mt List.mem_eraseDups.mp h)]
    rfl

theorem mem_firstCalls_cons {c : Text × Nat} {calls : List (Text × Nat)} {name : Text} :
    name ∈ (firstCalls (c :: calls)).map Prod.fst ↔
      name = c.1 ∨ name ∈ (firstCalls calls).map Prod.fst := by
  by_cases hc : name = c.1
  · simp [firstCalls, hc]
  · simp [firstCalls, hc]

theorem firstCalls_concat (calls : List (Text × Nat)) (call : Text × Nat) :
    firstCalls (calls ++ [call]) =
      if call.1 ∈ (firstCalls calls).map Prod.fst then firstCalls calls
      else firstCalls calls ++ [call] := by
  induction calls with
  | nil => rfl
  | cons c calls ih =>
    rw [List.cons_append, firstCalls, ih]
    by_cases hm : call.1 ∈ (firstCalls calls).map Prod.fst
    · rw [if_pos hm, if_pos (mem_firstCalls_cons.mpr (Or.inr hm)), firstCalls]
    · rw [if_neg hm, List.filter_append]
      by_cases hc : call.1 = c.1
      · rw [if_pos (mem_firstCalls_cons.mpr (Or.inl hc)),
          List.filter_cons_of_neg (by simpa using hc),
          List.filter_nil, List.append_nil, firstCalls]
      · rw [if_neg fun h => (mem_firstCalls_cons.mp h).elim hc hm,
          List.filter_cons_of_pos (by simpa using hc), List.filter_nil, firstCalls,
          List.cons_append]

theorem functionsOf_concat (uses : List Use) (name : Token) (n : Nat) :
    functionsOf (uses ++ [.call name n]) =
      if name.value = Ir.printName ∨ name.value ∈ (functionsOf uses).map Prod.fst
      then functionsOf uses
      else functionsOf uses ++ [(name.value, n)] := by
  by_cases hp : name.value = Ir.printName
  · have hlast : [Use.call name n].filterMap Use.call? = [] :=
      List.filterMap_cons_none (if_pos hp)
    rw [if_pos (Or.inl hp), functionsOf_append hlast]
  · have hlast : [Use.call name n].filterMap Use.call? = [(name.value, n)] :=
      List.filterMap_cons_some (if_neg hp)
    rw [functionsOf, List.filterMap_append, hlast, firstCalls_concat]
    simp only [hp, false_or]
    rfl

theorem Fork.labelsOf_concat (forks : List Fork) (fork : Fork) :
    labelsOf (forks ++ [fork]) = labelsOf forks ++ fork.labels (forks.length + 1) := by
  simp [labelsOf, List.zipIdx_append, Nat.add_comm]

/-- The uses of an expression are reads. -/
theorem Expr.isRead_of_mem_uses {e : Expr} {use : Use} (h : use ∈ e.uses) :
    ∃ token, use = .read token := by
  induction e with
  | leaf token =>
    unfold Expr.uses at h
    split at h
    · exact ⟨token, List.mem_singleton.mp h⟩
    · exact absurd h (by simp)
  | arith left op right ihl ihr => exact (List.mem_append.mp h).elim ihl ihr
  | compare left op right ihl ihr => exact (List.mem_append.mp h).elim ihl ihr
  | missing => exact absurd h (by simp [Expr.uses])

/-! ## What a builder has made -/

namespace Ir.Builder

open Offside.Meaning

variable {b b' : Builder} {uses : List Use} {forks : List Fork}

/-- The slots, the functions and the blocks of a builder are those that some uses and statements
need, in their order. -/
structure Ordered (b : Builder) (uses : List Use) (forks : List Fork) : Prop where
  slots : b.slots = targetsOf uses
  externals : b.externals.entries = functionsOf uses
  labels : b.labels = forks.length
  blocks : b.blocks.map Block.label = .entry :: Fork.labelsOf forks

theorem ordered_start : Ordered start [] [] :=
  ⟨rfl, rfl, rfl, rfl⟩

namespace Ordered

/-- Code that is added to a block. -/
theorem emitTo (h : Ordered b uses forks) (ℓ : Label) (is : List Instr) :
    Ordered (b.emitTo ℓ is) uses forks :=
  ⟨h.slots, h.externals, h.labels, Eq.trans (b.map_label_modifyBlock ℓ (by intro; rfl)) h.blocks⟩

theorem leave (h : Ordered b uses forks) (t : Terminator) : Ordered (b.leave t) uses forks :=
  ⟨h.slots, h.externals, h.labels, Eq.trans (b.map_label_modifyBlock _ (by intro; rfl)) h.blocks⟩

theorem enter (h : Ordered b uses forks) (ℓ : Label) : Ordered (b.enter ℓ) uses forks :=
  ⟨h.slots, h.externals, h.labels, h.blocks⟩

theorem appends {is : List Instr} (h : Ordered b uses forks) (ha : Appends b is b')
    (he : b'.externals = b.externals) : Ordered b' uses forks := by
  have hemit := h.emitTo b.current is
  rw [ha.eq, he]
  exact ⟨hemit.slots, hemit.externals, hemit.labels, hemit.blocks⟩

/-- Reads need nothing. -/
theorem reads {more : List Use} (h : Ordered b uses forks)
    (hr : ∀ use ∈ more, ∃ token, use = .read token) : Ordered b (uses ++ more) forks where
  slots := by
    have hnone : more.filterMap Use.target? = [] := by
      refine List.filterMap_eq_nil_iff.mpr fun use hu => ?_
      obtain ⟨token, rfl⟩ := hr use hu
      rfl
    rw [targetsOf_append hnone]
    exact h.slots
  externals := by
    have hnone : more.filterMap Use.call? = [] := by
      refine List.filterMap_eq_nil_iff.mpr fun use hu => ?_
      obtain ⟨token, rfl⟩ := hr use hu
      rfl
    rw [functionsOf_append hnone]
    exact h.externals
  labels := h.labels
  blocks := h.blocks

/-- The slot of a variable is made where the variable is given a value for the first time. -/
theorem write (h : Ordered b uses forks) (v : Text) :
    Ordered (b.ensureSlot v) (uses ++ [.write v]) forks := by
  have hfun : functionsOf (uses ++ [.write v]) = functionsOf uses := functionsOf_append rfl
  by_cases hv : v ∈ b.slots
  · rw [ensureSlot_of_mem hv]
    refine ⟨?_, hfun ▸ h.externals, h.labels, h.blocks⟩
    rw [targetsOf_concat, if_pos (h.slots ▸ hv)]
    exact h.slots
  · rw [ensureSlot_of_not_mem hv]
    have hemit := h.emitTo .entry (reserve [v])
    refine ⟨?_, hfun ▸ hemit.externals, hemit.labels, hemit.blocks⟩
    rw [targetsOf_concat, if_neg (h.slots ▸ hv)]
    exact congrArg (· ++ [v]) h.slots

/-- A function is declared where it is called for the first time, unless it is the one that prints.
-/
theorem call (h : Ordered b uses forks) (name : Token) (n : Nat) :
    Ordered (b.declare name.value n).2 (uses ++ [.call name n]) forks := by
  have htargets : targetsOf (uses ++ [.call name n]) = targetsOf uses := targetsOf_append rfl
  have harity : b.arity? name.value = none ↔
      ¬ (name.value = printName ∨ name.value ∈ (functionsOf uses).map Prod.fst) := by
    unfold arity?
    rw [← h.externals]
    by_cases hp : name.value = printName
    · simp [hp]
    · rw [if_neg hp, Lookup.get?_eq_none_iff, Lookup.names]
      simp only [hp, false_or]
  unfold declare
  split
  · next arity ha =>
    have hknown := not_not.mp (mt harity.mpr (by simp [ha]))
    refine ⟨htargets ▸ h.slots, ?_, h.labels, h.blocks⟩
    rw [functionsOf_concat, if_pos hknown]
    exact h.externals
  · next ha =>
    have hnew := harity.mp ha
    refine ⟨htargets ▸ h.slots, ?_, h.labels, h.blocks⟩
    rw [functionsOf_concat, if_neg hnew]
    rw [← h.externals] at hnew ⊢
    exact Lookup.entries_set_of_not_mem n (not_or.mp hnew).2

/-- The blocks of a statement are made behind those that are there. -/
theorem fork {n : Nat} (h : Ordered b uses forks) (f : Fork) (hn : n = b.labels + 1)
    (t : Terminator) :
    Ordered (b.fork (f.labels n) t) uses (forks ++ [f]) := by
  unfold Builder.fork
  apply Ordered.leave
  refine ⟨h.slots, h.externals, ?_, ?_⟩
  · show b.labels + 1 = _
    rw [h.labels, List.length_append, List.length_singleton]
  · have hnew : (b.nextLabel.2.addBlocks (f.labels n)).blocks =
        b.blocks ++ (f.labels n).map fun label => ⟨label, [], none⟩ := rfl
    rw [hnew, List.map_append, h.blocks, List.map_map, Fork.labelsOf_concat, ← h.labels, ← hn,
      List.cons_append]
    exact congrArg _ (congrArg _ (List.map_id _))

end Ordered

/-! ## What lowering makes -/

theorem lowerExpr_ordered {e : Expr} {x : Operand} (h : Ordered b uses forks)
    (hl : b.lowerExpr e = .ok (x, b')) : Ordered b' (uses ++ e.uses) forks := by
  obtain ⟨is, ha, -⟩ := lowerExpr_computes hl
  exact (h.appends ha (lowerExpr_externals hl)).reads fun _ => Expr.isRead_of_mem_uses

theorem lowerCond_ordered {cond : Expr} {x : Operand} (h : Ordered b uses forks)
    (hl : b.lowerCond cond = .ok (x, b')) : Ordered b' (uses ++ cond.uses) forks := by
  obtain ⟨is, ha, -⟩ := lowerCond_computes hl
  exact (h.appends ha (lowerCond_externals hl)).reads fun _ => Expr.isRead_of_mem_uses

theorem lowerCall_ordered {name : Token} {args : List Expr} (h : Ordered b uses forks)
    (hl : b.lowerCall name args = .ok b') :
    Ordered b' (uses ++ (.call name args.length :: args.flatMap Expr.uses)) forks := by
  obtain ⟨-, -, xs, b₁, h₁, rfl⟩ := lowerCall_parts hl
  obtain ⟨is, ha, -⟩ := lowerExprs_computes h₁
  have hargs : Ordered b₁ (uses ++ (.call name args.length :: args.flatMap Expr.uses)) forks := by
    rw [← List.singleton_append, ← List.append_assoc]
    refine ((h.call name args.length).appends ha (lowerExprs_externals h₁)).reads fun use hu => ?_
    obtain ⟨e, -, he⟩ := List.mem_flatMap.mp hu
    exact Expr.isRead_of_mem_uses he
  split
  · exact hargs.emitTo b₁.current _
  · have hemit := hargs.emitTo b₁.current [.call b₁.regs name.value xs]
    exact ⟨hemit.slots, hemit.externals, hemit.labels, hemit.blocks⟩

mutual

/-- **Lowering a statement keeps the order of the program.** -/
theorem lowerStmt_ordered : ∀ {s : Stmt} {b b' : Builder} {uses : List Use} {forks : List Fork},
    Ordered b uses forks → b.lowerStmt s = .ok b' → Ordered b' (uses ++ s.uses) (forks ++ s.forks)
  | .assign target e, b, b', uses, forks, h, hl => by
    obtain ⟨x, b₁, h₁, rfl⟩ := lowerStmt_assign hl
    rw [Stmt.uses, Stmt.forks, List.append_nil, ← List.append_assoc]
    exact ((lowerExpr_ordered h h₁).write target.value).emitTo _ _
  | .call name args, b, b', uses, forks, h, hl => by
    rw [Stmt.uses, Stmt.forks, List.append_nil]
    exact lowerCall_ordered h hl
  | .ifThen cond body, b, b', uses, forks, h, hl => by
    obtain ⟨bit, b₁, b₂, n, h₁, hn, h₂, rfl⟩ := lowerStmt_ifThen hl
    rw [Stmt.uses, Stmt.forks, ← List.append_assoc, ← List.singleton_append, ← List.append_assoc]
    have hfork := (lowerCond_ordered h h₁).fork .ifThen hn (.branch bit (.ifThen n) (.ifEnd n))
    exact ((lowerStmts_ordered (hfork.enter _) h₂).leave _).enter _
  | .ifElse cond body alt, b, b', uses, forks, h, hl => by
    obtain ⟨bit, b₁, b₂, b₃, n, h₁, hn, h₂, h₃, rfl⟩ := lowerStmt_ifElse hl
    rw [Stmt.uses, Stmt.forks, ← List.append_assoc, ← List.append_assoc, ← List.singleton_append,
      ← List.append_assoc, ← List.append_assoc]
    have hfork := (lowerCond_ordered h h₁).fork .ifElse hn (.branch bit (.ifThen n) (.ifElse n))
    have hbody := (lowerStmts_ordered (hfork.enter _) h₂).leave (.jump (.ifEnd n))
    exact ((lowerStmts_ordered (hbody.enter _) h₃).leave _).enter _
  | .loop cond body, b, b', uses, forks, h, hl => by
    obtain ⟨bit, b₁, b₂, n, hn, h₁, h₂, rfl⟩ := lowerStmt_loop hl
    rw [Stmt.uses, Stmt.forks, ← List.append_assoc, ← List.singleton_append, ← List.append_assoc]
    have hfork := h.fork .loop hn (.jump (.whileCond n))
    have hcond := (lowerCond_ordered (hfork.enter _) h₁).leave
        (.branch bit (.whileBody n) (.whileEnd n))
    exact ((lowerStmts_ordered (hcond.enter _) h₂).leave _).enter _
  | .missing, b, b', uses, forks, _, hl => by
    unfold lowerStmt at hl
    exact absurd hl (by simp)

/-- **Lowering statements keeps the order of the program.** -/
theorem lowerStmts_ordered : ∀ {ss : List Stmt} {b b' : Builder} {uses : List Use}
    {forks : List Fork},
    Ordered b uses forks → b.lowerStmts ss = .ok b' →
    Ordered b' (uses ++ Stmt.usesOf ss) (forks ++ Stmt.forksOf ss)
  | [], b, b', uses, forks, h, hl => by
    obtain rfl := Except.ok.inj hl
    rwa [Stmt.usesOf, Stmt.forksOf, List.append_nil, List.append_nil]
  | s :: ss, b, b', uses, forks, h, hl => by
    obtain ⟨b₁, h₁, h₂⟩ := lowerStmts_cons hl
    rw [Stmt.usesOf, Stmt.forksOf, ← List.append_assoc, ← List.append_assoc]
    exact lowerStmts_ordered (lowerStmt_ordered h h₁) h₂

end

end Ir.Builder

/-! ## What a module is made of -/

namespace Ir

open Builder

/-- The instructions that make slots are printed with the names of the slots. -/
theorem render_allocas (order : List Nat) (code : List Instr) :
    (code.filter fun i => i.allocates.isSome).map (Instr.render order) =
      (allocated code).map fun v => "%" ++ ident (v ++ ".addr") ++ " = alloca i64" := by
  induction code with
  | nil => rfl
  | cons i code ih =>
    cases i with
    | alloca v => exact congrArg _ ih
    | _ => exact ih

/-- If all slots are made in the first block, its slots are those of all blocks. -/
theorem allocated_blocks {blocks : List Block} {labels : List Label} {vs : List Text}
    (hl : blocks.map Block.label = .entry :: labels) (hn : (blocks.map Block.label).Nodup)
    (hs : ∀ blk ∈ blocks, allocated blk.body = if blk.label = .entry then vs else []) :
    allocated (blocks.flatMap Block.body) = vs := by
  obtain ⟨entry, rest, rfl, he, -⟩ := List.map_eq_cons_iff.mp hl
  rw [List.map_cons, List.nodup_cons, he] at hn
  have hrest : allocated (rest.flatMap Block.body) = [] := by
    refine List.filterMap_eq_nil_iff.mpr fun i hi => ?_
    obtain ⟨blk, hm, hib⟩ := List.mem_flatMap.mp hi
    have hne : blk.label ≠ .entry := fun h => hn.1 (h ▸ List.mem_map_of_mem hm)
    have hnone := hs blk (List.mem_cons_of_mem _ hm)
    rw [if_neg hne] at hnone
    exact List.filterMap_eq_nil_iff.mp hnone i hib
  rw [List.flatMap_cons, allocated_append, hs entry List.mem_cons_self, if_pos he, hrest,
    List.append_nil]

/-- **A module follows a program**: its slots, functions and blocks are those that the program
needs, in the order in which it needs them first. -/
structure Module.Follows (m : Module) (program : Program) : Prop where
  /-- One slot for each variable that is given a value. They are made in `entry`. -/
  slots : ∀ blk ∈ m.blocks, allocated blk.body =
    if blk.label = .entry then targetsOf (Stmt.usesOf program) else []
  /-- Each slot is set to zero at once. -/
  zeroed : ∀ blk ∈ m.blocks, ∀ before v, Stands blk.body before (.alloca v) →
    Stands blk.body (before ++ [.alloca v]) (.store (.const 0) v)
  /-- The slots in the text of `main`. -/
  named : ∀ order, ((m.blocks.flatMap Block.body).filter fun i => i.allocates.isSome).map
      (Instr.render order) =
    (targetsOf (Stmt.usesOf program)).map fun v => "%" ++ ident (v ++ ".addr") ++ " = alloca i64"
  /-- Behind the functions of every module, one for each that is called. It takes as many words as
  its first call passes. -/
  functions : m.funcs = [.print, .printf, .main m.blocks] ++
    (functionsOf (Stmt.usesOf program)).map fun (name, argCount) => .external name argCount
  /-- The blocks of each statement, behind `entry`. -/
  blocks : m.blocks.map Block.label = .entry :: Fork.labelsOf (Stmt.forksOf program)

/-- **The module of a program follows it.** -/
theorem lower_follows {options : Options} {program : Program} {m : Module}
    (h : lower options program = .ok m) : m.Follows program := by
  unfold lower at h
  obtain ⟨b, hb, h⟩ := bind_eq_ok.mp h
  obtain rfl := Except.ok.inj h
  have hf : Finished b :=
    ⟨(lowerStmts_sound sound_start hb).1, lowerStmts_coded sound_start coded_start hb,
      lowerStmts_wired sound_start wired_start hb⟩
  have ho : Ordered (b.leave .ret) (Stmt.usesOf program) (Stmt.forksOf program) :=
    (lowerStmts_ordered ordered_start hb).leave .ret
  have hslots : ∀ blk ∈ (b.leave .ret).blocks, allocated blk.body =
      if blk.label = .entry then targetsOf (Stmt.usesOf program) else [] := by
    intro blk hm
    have hblock := block?_of_mem hf.leave_coded.labels hm
    split
    · next he =>
      obtain ⟨entry, hentry, ha⟩ := hf.leave_formed.entry
      rw [he, hentry] at hblock
      rw [← Option.some.inj hblock, ha, ho.slots]
    · next he => exact hf.leave_formed.plain _ blk he hblock
  refine ⟨hslots, fun blk hm before v hs => (hf.made hm hs).2, fun order => ?_, ?_, ho.blocks⟩
  · rw [render_allocas, allocated_blocks ho.blocks hf.leave_coded.labels hslots]
  · show _ ++ b.externals.entries.map _ = _
    rw [show b.externals.entries = _ from ho.externals]

/-! ## Statements within statements -/

/-- A loop around a conditional, with a variable and functions that are met first inside of it:

```
x = 1
while x:
    if x: f(x, 2)
    else: y = x
    g()
f(y, x)
print(y)
```
-/
def nestedProgram : Program :=
  let name (text : Text) : Token := .plain .identifier text ⟨0, 1, 1⟩
  let number (text : Text) (value : Int64) : Expr := .leaf ⟨.number, text, value, ⟨0, 1, 1⟩⟩
  let x : Expr := .leaf (name "x")
  let y : Expr := .leaf (name "y")
  [.assign (name "x") (number "1" 1),
   .loop x
    [.ifElse x [.call (name "f") [x, number "2" 2]] [.assign (name "y") x],
     .call (name "g") []],
   .call (name "f") [y, x],
   .call (name "print") [y]]

/-- The module of the program follows it. -/
theorem lower_follows_nested :
    targetsOf (Stmt.usesOf nestedProgram) = ["x", "y"] ∧
      functionsOf (Stmt.usesOf nestedProgram) = [(Text.ofString "f", 2), (Text.ofString "g", 0)] ∧
      Fork.labelsOf (Stmt.forksOf nestedProgram) =
        [.whileCond 1, .whileBody 1, .whileEnd 1, .ifThen 2, .ifElse 2, .ifEnd 2] ∧
      ∃ m, lower ⟨[], []⟩ nestedProgram = .ok m ∧ m.Follows nestedProgram := by
  have hok : (lower ⟨[], []⟩ nestedProgram).isOk = true := by decide +kernel
  cases hm : lower ⟨[], []⟩ nestedProgram with
  | error e =>
    rw [hm] at hok
    cases hok
  | ok m => exact ⟨by decide, by decide, by decide, m, rfl, lower_follows hm⟩

end Ir

end Offside
