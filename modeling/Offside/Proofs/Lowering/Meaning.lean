import Offside.Proofs.Lowering.Layout

/-!
# Lowering keeps the meaning of a program

`Ir.lower` is correct: the module of a program (`Proofs/Meaning/Machine`) does what the program does
(`Proofs/Meaning/Source`).

A program and its module run side by side. Between two statements the machine stands in front of
code that follows the statements still to be done (`Follows`), and the slots hold the words of the
store, except for those that are made later in the block `entry`: their variables were not assigned
yet and are zero (`Memory`). A slot is made once, before the first jump, so a variable that is first
assigned inside a loop is not cleared again in each round.

* `Matches` is the relation of the two runs, and `Answers` says that from some place on the machine
  does what a step of the program does.
* `choose_answers` is the code that decides between two blocks, which a conditional with one block
  or two and a loop share.

Results:
* `run_reserve`: the code that makes slots does nothing else.
* `follows_advance`: what one statement does, its code does, with at least one step.
* `lower_correct`: a program and its module finish with the same events, fault after the same
  events, run on together and show the same stretches of events, in both directions and whatever the
  external functions answer.

Out of scope: what `print` writes for its word; it is an event like any other call.
-/

namespace Offside.Meaning

open Offside.Ir Offside.Ir.Builder

/-! ## Memory -/

/-- The slots of some variables hold the words of a store, except for those that are made in the
code still to come. -/
structure Memory (vars : List Text) (k : List Instr) (σ : Store)
    (slots : Text → Option (Option Int64)) : Prop where
  nodup : (allocated k).Nodup
  made : ∀ v ∈ vars, v ∉ allocated k → slots v = some (some (σ v))
  /-- A variable without a slot was not assigned yet. -/
  pending : ∀ v ∈ allocated k, σ v = 0

namespace Memory

variable {vars : List Text} {k k' : List Instr} {σ : Store}
  {slots : Text → Option (Option Int64)}

/-- Only the slots that are still to be made matter. -/
theorem congr (h : Memory vars k σ slots) (hk : allocated k' = allocated k) :
    Memory vars k' σ slots where
  nodup := by rw [hk]; exact h.nodup
  made := by rw [hk]; exact h.made
  pending := by rw [hk]; exact h.pending

theorem plain_append {is : List Instr} (h : Memory vars (is ++ k) σ slots)
    (hi : allocated is = []) : Memory vars k σ slots := by
  apply h.congr
  rw [allocated_append, hi, List.nil_append]

/-- An assignment to a variable that has its slot. -/
theorem set (h : Memory vars k σ slots) {var : Text} (hv : var ∉ allocated k) (w : Int64) :
    Memory vars k (σ.set var w) fun v => if v = var then some (some w) else slots v where
  nodup := h.nodup
  made := by
    intro v hmem hnew
    by_cases hvar : v = var
    · rw [if_pos hvar, hvar, Store.set_self]
    · rw [if_neg hvar, Store.set_of_ne σ w hvar]
      exact h.made v hmem hnew
  pending := by
    intro v hmem
    have hne : v ≠ var := fun e => hv (e ▸ hmem)
    rw [Store.set_of_ne σ w hne]
    exact h.pending v hmem

end Memory

theorem allocated_reserve (v : Text) (vs : List Text) (k : List Instr) :
    allocated (reserve (v :: vs) ++ k) = v :: allocated (reserve vs ++ k) := rfl

section Run

variable {env : List Event → Int64} {blocks : List Block}

/-- The code that makes slots does nothing else. -/
theorem run_reserve {vars : List Text} {σ : Store} {k : List Instr} :
    ∀ {vs : List Text} {m : Machine}, m.code = reserve vs ++ k →
      Memory vars (reserve vs ++ k) σ m.slots →
      ∃ slots, (target env blocks).Reaches m { m with code := k, slots := slots } ∧
        Memory vars k σ slots
  | [], m, hm, hmem => by
    refine ⟨m.slots, ?_, hmem⟩
    change m.code = k at hm
    rw [← hm]
    exact Relation.ReflTransGen.refl
  | v :: vs, m, hm, hmem => by
    have hnodup := hmem.nodup
    rw [allocated_reserve, List.nodup_cons] at hnodup
    -- the slot is made and holds zero, as the variable does
    have h₁ : (target env blocks).Step m
        (m.write (.store (.const 0) v :: (reserve vs ++ k)) v none) :=
      step_code hm
    have h₂ : (target env blocks).Step (m.write (.store (.const 0) v :: (reserve vs ++ k)) v none)
        { m with code := reserve vs ++ k,
                 slots := fun u => if u = v then some (some 0) else m.slots u } := by
      show (target env blocks).step _ = _
      rw [step_code (k := reserve vs ++ k) rfl]
      have hw : m.regs.word? (.const 0) = some 0 := rfl
      simp only [Machine.perform, Machine.write, hw, if_true, Verdict.next.injEq]
      congr 1
      funext u
      split <;> rfl
    have hmem' : Memory vars (reserve vs ++ k) σ
        fun u => if u = v then some (some 0) else m.slots u := by
      refine ⟨hnodup.2, fun u hu hnew => ?_, fun u hu => ?_⟩
      · by_cases huv : u = v
        · rw [if_pos huv, huv, hmem.pending v (by rw [allocated_reserve]; exact List.mem_cons_self)]
        · rw [if_neg huv]
          refine hmem.made u hu ?_
          rw [allocated_reserve, List.mem_cons]
          exact fun h => h.elim huv hnew
      · exact hmem.pending u (by rw [allocated_reserve]; exact List.mem_cons_of_mem v hu)
    obtain ⟨slots, hr, hfin⟩ := run_reserve
      (m := { m with code := reserve vs ++ k,
                     slots := fun u => if u = v then some (some 0) else m.slots u }) rfl hmem'
    exact ⟨slots, Relation.ReflTransGen.head h₁ (Relation.ReflTransGen.head h₂ hr), hfin⟩

end Run

/-! ## Program and machine side by side -/

/-- The machine stands where the program does. -/
structure Matches (F : Builder) (s : State) (m : Machine) : Prop where
  follows : ∃ t, m.exit = some t ∧ Follows F m.code t s.todo
  memory : Memory F.slots m.code s.store m.slots
  events : s.events = m.events

/-- From `m` on, the machine does what a step of the program does. -/
def Answers (env : List Event → Int64) (F : Builder) (m : Machine) : Verdict State → Prop
  | .next s => ∃ m', Relation.TransGen (target env F.blocks).Step m m' ∧ Matches F s m'
  | .finished => (target env F.blocks).Finishes m m.events
  | .faulted => (target env F.blocks).Faults m m.events
  | .stuck => False

section Steps

variable {env : List Event → Int64} {F b b' : Builder} {m m' : Machine} {σ : Store}
  {k k' is : List Instr} {t t' : Terminator} {ss ss' rest : List Stmt} {ℓ : Label}

/-- Steps that show nothing may come before. -/
theorem Answers.of_reaches {v : Verdict State} (h : (target env F.blocks).Reaches m m')
    (he : m'.events = m.events) (ha : Answers env F m' v) : Answers env F m v := by
  cases v with
  | next s =>
    obtain ⟨m'', hgo, hR⟩ := ha
    exact ⟨m'', Relation.TransGen.trans_right h hgo, hR⟩
  | finished =>
    obtain ⟨m'', hgo, hfin, hev⟩ := ha
    exact ⟨m'', Relation.ReflTransGen.trans h hgo, hfin, hev.trans he⟩
  | faulted =>
    obtain ⟨m'', hgo, hfin, hev⟩ := ha
    exact ⟨m'', Relation.ReflTransGen.trans h hgo, hfin, hev.trans he⟩
  | stuck => exact ha

theorem goto_eq (h : F.block? ℓ = some ⟨ℓ, k, some t⟩) (m : Machine) :
    m.goto F.blocks ℓ = .next { m with code := k, exit := some t } := by
  unfold Machine.goto
  unfold block? at h
  rw [h]

theorem step_jump (hm : m.code = []) (hexit : m.exit = some (.jump ℓ))
    (h : F.block? ℓ = some ⟨ℓ, k, some t⟩) :
    (target env F.blocks).Step m { m with code := k, exit := some t } := by
  show m.step env F.blocks = _
  unfold Machine.step
  rw [hm, hexit]
  exact goto_eq h m

/-- Memory is as it should be when control enters a block other than `entry`. -/
theorem Memory.enter (hmem : Memory F.slots [] σ m.slots) (hF : Formed F) (hne : ℓ ≠ .entry)
    (h : F.block? ℓ = some ⟨ℓ, k, some t⟩) : Memory F.slots k σ m.slots :=
  hmem.congr (hF.plain ℓ _ hne h)

theorem Memory.holds (hmem : Memory F.slots k σ m.slots) (hF : Formed F) (hb : Formed b)
    (hc : Completes b F) (hat : At b F k t) : Holds b.slots σ m := by
  intro v hv
  obtain ⟨hmade, hnew⟩ := hat.slots hb hF hc hv
  exact hmem.made v hmade hnew

/-- **Code that decides between two blocks** does what a choice between statements does. -/
theorem choose_answers {vs : List Text} {bit : Operand} {yes no : Label} {cond : Expr} {s : State}
    (hF : Formed F) (hm : m.code = is ++ reserve vs) (hexit : m.exit = some (.branch bit yes no))
    (hcond : Yields b.slots is bit fun σ => (holds σ cond).map .bit) (hσ : Holds b.slots s.store m)
    (hmem : Memory F.slots m.code s.store m.slots) (hev : s.events = m.events)
    (hyes : Leads F yes ss) (hno : Leads F no ss') :
    Answers env F m (s.choose cond ss ss') := by
  obtain ⟨hplain, hcomp⟩ := hcond
  obtain ⟨lo, hi, hcomp⟩ := hcomp env F.blocks
  unfold State.choose
  cases hc : holds s.store cond with
  | none =>
    exact hcomp.faults hm hσ (by simp [hc])
  | some c =>
    obtain ⟨regs, hr, -, hbit⟩ := hcomp.runs hm hσ (v := .bit c) (by simp [hc])
    rw [hm] at hmem
    obtain ⟨slots, hr', hmem'⟩ :=
      run_reserve (k := []) (m := { m with code := reserve vs, regs := regs })
        (List.append_nil _).symm (by
          rw [List.append_nil]
          exact hmem.plain_append hplain)
    have hpath := Relation.ReflTransGen.trans hr hr'
    -- the terminator goes to the block that the bit selects
    have hend : ∀ {ℓ : Label} {ss : List Stmt}, Leads F ℓ ss → (if c then yes else no) = ℓ →
        ∃ m', Relation.TransGen (target env F.blocks).Step m m' ∧
          Matches F { s with todo := ss } m' := by
      rintro ℓ ss ⟨hne, k, t, hblk, hk⟩ hℓ
      refine ⟨⟨k, some t, regs, slots, m.events⟩, Relation.TransGen.tail' hpath ?_,
        ⟨t, rfl, hk⟩, Memory.enter (m := { m with slots := slots }) hmem' hF hne hblk, hev⟩
      show Machine.step env F.blocks ⟨[], m.exit, regs, slots, m.events⟩ = _
      unfold Machine.step
      simp only [hexit, Regs.bit?_eq hbit, hℓ]
      exact goto_eq hblk _
    cases c with
    | true => exact hend hyes rfl
    | false => exact hend hno rfl

/-- The code of an assignment changes one slot. -/
theorem assign_answers {var : Text} {vs : List Text} {x : Operand} {e : Expr}
    (hm : m.code = is ++ (reserve vs ++ .store x var :: k')) (hexit : m.exit = some t')
    (hval : Yields b.slots is x fun σ => (value σ e).map .word) (hσ : Holds b.slots σ m)
    (hmem : Memory F.slots m.code σ m.slots) (hvar : var ∈ F.slots ∧ var ∉ allocated k')
    (hnext : Follows F k' t' rest) :
    Answers env F m (match value σ e with
      | some w => .next ⟨rest, σ.set var w, m.events⟩
      | none => .faulted) := by
  obtain ⟨hplain, hcomp⟩ := hval
  obtain ⟨lo, hi, hcomp⟩ := hcomp env F.blocks
  cases hv : value σ e with
  | none => exact hcomp.faults hm hσ (by simp [hv])
  | some w =>
    obtain ⟨regs, hr, -, hx⟩ := hcomp.runs hm hσ (v := .word w) (by simp [hv])
    rw [hm] at hmem
    obtain ⟨slots, hr', hmem'⟩ :=
      run_reserve (m := { m with code := reserve vs ++ .store x var :: k', regs := regs }) rfl
        (hmem.plain_append hplain)
    have hmem'' : Memory F.slots k' σ slots := hmem'.congr rfl
    refine ⟨⟨k', m.exit, regs, fun v => if v = var then some (some w) else slots v, m.events⟩,
      Relation.TransGen.tail' (Relation.ReflTransGen.trans hr hr') ?_,
      ⟨t', hexit, hnext⟩, hmem''.set hvar.2 w, rfl⟩
    show Machine.step env F.blocks ⟨.store x var :: k', m.exit, regs, slots, m.events⟩ = _
    simp only [Machine.step, Machine.perform, Regs.word?_eq hx, hmem''.made var hvar.1 hvar.2]
    rfl

/-- The code of a call shows it. -/
theorem call_answers {name : Text} {xs : List Operand} {instr : Instr} {args : List Expr}
    (hm : m.code = is ++ instr :: k') (hexit : m.exit = some t') (hshow : Shows instr name xs)
    (hplain : allocated is = []) (hplain' : allocated [instr] = [])
    (hcomp : ∃ lo hi, ComputesAll env F.blocks b.slots lo hi is xs fun σ => values σ args)
    (hσ : Holds b.slots σ m) (hmem : Memory F.slots m.code σ m.slots)
    (hnext : Follows F k' t' rest) :
    Answers env F m (match values σ args with
      | some ws => .next ⟨rest, σ, m.events ++ [⟨name, ws⟩]⟩
      | none => .faulted) := by
  obtain ⟨lo, hi, hcomp⟩ := hcomp
  cases hv : values σ args with
  | none => exact hcomp.faults hm hσ hv
  | some ws =>
    obtain ⟨regs, hr, -, hxs⟩ := hcomp.runs hm hσ hv
    obtain ⟨regs', hdo⟩ :=
      hshow env { m with code := instr :: k', regs := regs } k' ws hxs
    rw [hm] at hmem
    exact ⟨_, Relation.TransGen.tail' hr hdo, ⟨t', hexit, hnext⟩,
      (hmem.plain_append hplain).plain_append hplain', rfl⟩

/-- From the jump to its condition on, the code of a loop does what the loop does. -/
theorem loop_answers {cond : Expr} {body : List Stmt} (hF : Formed F) (hb : Sound b)
    (h : b.lowerStmt (.loop cond body) = .ok b') (hc : Completes b' F) (hat : At b' F k' t')
    (hnext : Follows F k' t' rest) (hm : m.code = [])
    (hexit : m.exit = some (.jump (.whileCond (b.labels + 1))))
    (hmem : Memory F.slots [] σ m.slots) :
    Answers env F m (State.step ⟨.loop cond body :: rest, σ, m.events⟩) := by
  obtain ⟨is, vs, bit, n, hn, hhere, hblk, hcond, hfill, hend⟩ := loop_at hb h hc hat
  have hcb := ((lowerStmt_sound hb h).2.completes hb).trans hc
  rw [← hn] at hexit
  have hmem' : Memory F.slots is σ m.slots := hmem.enter hF (by simp) hblk
  refine Answers.of_reaches (Relation.ReflTransGen.single (step_jump hm hexit hblk)) rfl ?_
  have hcode : is = is ++ reserve [] := (List.append_nil is).symm
  refine choose_answers (b := b) hF hcode rfl hcond (fun v hv => ?_)
    hmem' rfl (hfill.leads ?_) ⟨by simp, k', t', hend, hnext⟩
  · refine hmem'.made v (hhere.slots hb.toFormed hF hcb hv).1 ?_
    rw [hcond.1]
    exact List.not_mem_nil
  · rw [hn]
    exact Follows.again hb h hc hat hnext

/-- **What one statement does, its code does**, with at least one step. -/
theorem follows_advance (hF : Formed F) (h : Follows F k t ss) (hm : m.code = k)
    (hexit : m.exit = some t) (hmem : Memory F.slots k σ m.slots) :
    Answers env F m (State.step ⟨ss, σ, m.events⟩) := by
  induction h generalizing m with
  | done =>
    refine ⟨m, Relation.ReflTransGen.refl, ?_, rfl⟩
    show m.step env F.blocks = _
    unfold Machine.step
    rw [hm, hexit]
  | @jump ℓ k t ss hne hblk _ ih =>
    exact Answers.of_reaches (Relation.ReflTransGen.single (step_jump hm hexit hblk)) rfl
      (ih rfl rfl (hmem.enter hF hne hblk))
  | @again b b' cond body rest k' t' hb hl hc hat hnext _ =>
    exact loop_answers hF hb hl hc hat hnext hm hexit hmem
  | @stmt b b' s rest k k' t t' hb hl hc hhere hat hnext _ =>
    have hb' := (lowerStmt_sound hb hl).1
    have hcb := ((lowerStmt_sound hb hl).2.completes hb).trans hc
    have hσ : Holds b.slots σ m := hmem.holds hF hb.toFormed hcb hhere
    cases s with
    | assign var e =>
      obtain ⟨is, vs, x, hk, hvar, hval⟩ := assign_at hl hat
      obtain ⟨rfl, rfl⟩ := hhere.unique hk
      exact assign_answers hm hexit hval hσ (hm ▸ hmem) (hat.slots hb'.toFormed hF hc hvar) hnext
    | call name args =>
      obtain ⟨is, xs, instr, hk, hshow, hp, hp', hcomp⟩ := call_at hl hat
      obtain ⟨rfl, rfl⟩ := hhere.unique hk
      exact call_answers hm hexit hshow hp hp' (hcomp env F.blocks) hσ (hm ▸ hmem) hnext
    | ifThen cond body =>
      obtain ⟨is, vs, bit, n, hk, hcond, hfill, hend⟩ := ifThen_at hb hl hc hat
      obtain ⟨rfl, rfl⟩ := hhere.unique hk
      have hrest : Leads F (.ifEnd n) rest := ⟨by simp, k', t', hend, hnext⟩
      exact choose_answers hF hm hexit hcond hσ (hm ▸ hmem) rfl (hfill.leads hrest.jump) hrest
    | ifElse cond body alt =>
      obtain ⟨is, vs, bit, n, hk, hcond, hfill, hfill', hend⟩ := ifElse_at hb hl hc hat
      obtain ⟨rfl, rfl⟩ := hhere.unique hk
      have hrest : Leads F (.ifEnd n) rest := ⟨by simp, k', t', hend, hnext⟩
      exact choose_answers hF hm hexit hcond hσ (hm ▸ hmem) rfl (hfill.leads hrest.jump)
        (hfill'.leads hrest.jump)
    | loop cond body =>
      obtain ⟨is, vs, bit, n, hn, hk, -⟩ := loop_at hb hl hc hat
      obtain ⟨rfl, rfl⟩ := hhere.unique hk
      have happ : m.code = reserve vs ++ [] := hm.trans (List.append_nil _).symm
      obtain ⟨slots, hr, hmem'⟩ := run_reserve happ (by rw [List.append_nil]; exact hmem)
      exact Answers.of_reaches hr rfl
        (loop_answers (m := { m with code := [], slots := slots }) hF hb
        hl hc hat hnext rfl (hn ▸ hexit) hmem')
    | missing =>
      unfold lowerStmt at hl
      exact absurd hl (by simp)

end Steps

/-! ## Whole runs -/

/-- The machine comes to stand where the program does without showing anything. -/
def Comes (env : List Event → Int64) (F : Builder) (s : State) (m : Machine) : Prop :=
  ∃ m', (target env F.blocks).Reaches m m' ∧ m'.events = m.events ∧ Matches F s m'

theorem Comes.answers {env : List Event → Int64} {F : Builder} {s : State} {m : Machine}
    (hF : Formed F) (h : Comes env F s m) : Answers env F m s.step := by
  obtain ⟨m', hr, he, ⟨t, hexit, hf⟩, hmem, hev⟩ := h
  obtain ⟨todo, store, events⟩ := s
  obtain rfl : events = m'.events := hev
  exact Answers.of_reaches hr he (follows_advance hF hf rfl hexit hmem)

theorem simulation (env : List Event → Int64) {F : Builder} (hF : Formed F) :
    Simulation source (target env F.blocks) (Comes env F) where
  events := by
    rintro s m ⟨m', -, he, hR⟩
    exact hR.events.trans he
  next := by
    intro s m s' h hs
    have ha := h.answers hF
    change s.step = .next s' at hs
    rw [hs] at ha
    obtain ⟨m', hgo, hR⟩ := ha
    exact ⟨m', hgo, m', Relation.ReflTransGen.refl, rfl, hR⟩
  finished := by
    intro s m h hs
    have ha := h.answers hF
    change s.step = .finished at hs
    rw [hs] at ha
    obtain ⟨m', -, he, hR⟩ := h
    show (target env F.blocks).Finishes m s.events
    rw [hR.events.trans he]
    exact ha
  faulted := by
    intro s m h hs
    have ha := h.answers hF
    change s.step = .faulted at hs
    rw [hs] at ha
    obtain ⟨m', -, he, hR⟩ := h
    show (target env F.blocks).Faults m s.events
    rw [hR.events.trans he]
    exact ha
  stuck := fun {s} {_} _ => s.step_ne_stuck

/-- The machine comes to the start of the program when it enters `entry`. -/
theorem comes_start (env : List Event → Int64) {program : Program} {b : Builder}
    (h : start.lowerStmts program = .ok b) :
    Formed (b.leave .ret) ∧ Comes env (b.leave .ret) (.start program) .start := by
  obtain ⟨hb, -⟩ := lowerStmts_sound sound_start h
  have hF := hb.toFormed.leave .ret
  obtain ⟨k, t, hat, hf⟩ := lowerStmts_follows Follows.done sound_start h
    (hb.completes_leave .ret) (At.last hb .ret)
  rw [List.append_nil] at hf
  have hentry : (b.leave .ret).block? .entry = some ⟨.entry, k, some t⟩ :=
    At.vacant (b := start) rfl hat
  obtain ⟨blk, hblk, hslots⟩ := hF.entry
  obtain rfl := Option.some.inj (hblk.symm.trans hentry)
  refine ⟨hF, { Machine.start with code := k, exit := some t },
    Relation.ReflTransGen.single (step_jump rfl rfl hentry), rfl, ⟨t, rfl, hf⟩, ?_, rfl⟩
  -- all slots are still to be made
  refine ⟨?_, fun v hv hnew => ?_, fun _ _ => rfl⟩
  · rw [hslots]
    exact hF.nodup
  · exact absurd (hslots ▸ hv) hnew

/-- **Lowering keeps the meaning of a program.** A program and its module finish with the same
events, fault after the same events, run on together and show the same stretches of events, whatever
the called functions answer. -/
theorem lower_correct {options : Options} {program : Program} {m : Ir.Module}
    (h : lower options program = .ok m) (env : List Event → Int64) :
    (∀ E, source.Finishes (.start program) E ↔ (target env m.blocks).Finishes .start E) ∧
      (∀ E, source.Faults (.start program) E ↔ (target env m.blocks).Faults .start E) ∧
      (source.RunsOn (.start program) ↔ (target env m.blocks).RunsOn .start) ∧
      ∀ E, source.Shows (.start program) E ↔ (target env m.blocks).Shows .start E := by
  obtain ⟨b, hb, h⟩ := bind_eq_ok.mp h
  obtain rfl := Except.ok.inj h
  obtain ⟨hF, hstart⟩ := comes_start env hb
  exact (simulation env hF).agree hstart

/-- A variable that is printed and counted down from two to zero. -/
def countdown : Program :=
  let x : Token := .plain .identifier "x" .unset
  let number (n : Int64) : Expr := .leaf ⟨.number, .ofInt64 n, n, .unset⟩
  [.assign x (number 2),
   .loop (.leaf x)
    [.call (.plain .identifier "print" .unset) [.leaf x],
     .assign x (.arith (.leaf x) (.plain .minus "-" .unset) (number 1))]]

/-- The module of a program with a loop shows what the program says and comes to its end. -/
theorem lower_correct_countdown : ∃ m, lower ⟨[], []⟩ countdown = .ok m ∧ ∀ env,
    (target env m.blocks).Finishes .start [⟨"print", [2]⟩, ⟨"print", [1]⟩] := by
  obtain ⟨m, hm⟩ : ∃ m, lower ⟨[], []⟩ countdown = .ok m := ⟨_, rfl⟩
  refine ⟨m, hm, fun env => ((lower_correct hm env).1 _).mp ?_⟩
  -- an assignment, two rounds of three steps and the test that ends the loop
  refine ⟨_, .head rfl (.head rfl (.head rfl (.head rfl (.head rfl (.head rfl (.head rfl
    (.head rfl .refl))))))), rfl, rfl⟩

end Offside.Meaning
