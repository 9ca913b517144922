import Offside.Proofs.WellFormed.Code
import Offside.Proofs.WellFormed.Graph
import Offside.Proofs.WellFormed.Names

/-!
# Lowered programs are well-formed

`Ir.lower` makes modules that are `Module.WellFormed`.

A builder from which nothing is pending is left with the end of `main`. What was true of its code
(`Proofs/WellFormed/Code`), its ways (`Proofs/WellFormed/Graph`) and its names
(`Proofs/WellFormed/Names`) is what makes the module well-formed.

* `Finished` is a builder that has lowered all statements. Its lemmas have the conditions on a
  module one by one: control, slots, names.

Results:
* `exit_cases`: a block of the finished module is the last one, which leaves `main`, or it was left
  before.
* `globals_nodup`: the functions that are declared have other names than those of every module.
* `lower_wellFormed`: the module of a parsed program is well-formed.

Out of scope: programs put together by hand. A function with the name of the output format would
make a module in which a name means two things.
-/

namespace Offside.Ir

open Builder

section Finished

variable {b : Builder} {blk : Block} {ℓ ℓ' : Label}

/-- A builder that has lowered all statements. -/
structure Finished (b : Builder) : Prop where
  sound : Sound b
  coded : Coded b
  wired : Wired b []

namespace Finished

theorem leave_coded (h : Finished b) : Coded (b.leave .ret) :=
  h.coded.leave (by simp [Terminator.operands])

theorem leave_formed (h : Finished b) : Formed (b.leave .ret) :=
  h.sound.toFormed.leave .ret

/-! ### Control -/

/-- A block of the finished module is the last one, which leaves `main`, or it was left before. -/
theorem exit_cases (h : Finished b) (hm : blk ∈ (b.leave .ret).blocks) :
    blk.label = b.current ∧ blk.exit = some .ret ∨
      blk.label ≠ b.current ∧ ∃ t, blk.exit = some t ∧ b.exit? blk.label = some (some t) := by
  have hexit : (b.leave .ret).exit? blk.label = some blk.exit := by
    unfold exit?
    rw [block?_of_mem h.leave_coded.labels hm, Option.map_some]
  rcases exit?_leave_cases h.sound.exit?_current hexit with ⟨hc, he⟩ | ⟨hc, he⟩
  · exact Or.inl ⟨hc, he⟩
  · cases ht : blk.exit with
    | none =>
      rw [ht] at he
      rcases h.wired.opens _ he with habs | habs
      · exact absurd habs hc
      · exact absurd habs (by simp)
    | some t => exact Or.inr ⟨hc, t, rfl, ht ▸ he⟩

theorem exits (h : Finished b) : ∀ blk ∈ (b.leave .ret).blocks, blk.exit.isSome = true := by
  intro blk hm
  rcases h.exit_cases hm with ⟨-, he⟩ | ⟨-, t, he, -⟩
  · rw [he]
    rfl
  · rw [he]
    rfl

theorem targets (h : Finished b) (ℓ ℓ' : Label) (he : Edge (b.leave .ret).blocks ℓ ℓ') :
    ℓ' ≠ .entry ∧ ∃ blk ∈ (b.leave .ret).blocks, blk.label = ℓ' := by
  obtain ⟨blk, hm, -, t, ht, hℓ'⟩ := he
  rcases h.exit_cases hm with ⟨-, hret⟩ | ⟨-, t', ht', hexit⟩
  · rw [hret] at ht
    obtain rfl := Option.some.inj ht
    exact absurd hℓ' (by simp [Terminator.targets])
  · obtain rfl := Option.some.inj (ht'.symm.trans ht)
    obtain ⟨hne, hthere⟩ := (h.wired.leads _ _ hexit).2 ℓ' hℓ'
    refine ⟨hne, ?_⟩
    obtain ⟨x, hx⟩ := Option.ne_none_iff_exists'.mp (exit?_leave_ne_none hthere .ret)
    obtain ⟨blk', hb', -⟩ := Option.map_eq_some_iff.mp hx
    exact ⟨blk', List.mem_of_find?_eq_some hb', block?_label hb'⟩

theorem leaves (h : Finished b) :
    ((b.leave .ret).blocks.countP fun blk => blk.exit = some .ret) = 1 := by
  have hcount : ((b.leave .ret).blocks.countP fun blk => blk.exit = some .ret) =
      (b.leave .ret).blocks.countP fun blk => blk.label == b.current := by
    refine List.countP_congr fun blk hm => ?_
    rw [decide_eq_true_iff, beq_iff_eq]
    rcases h.exit_cases hm with ⟨hc, he⟩ | ⟨hc, t, he, hexit⟩
    · exact iff_of_true he hc
    · refine iff_of_false (fun hret => ?_) hc
      obtain rfl := Option.some.inj (he.symm.trans hret)
      exact (h.wired.leads _ _ hexit).1 rfl
  have hmem : b.current ∈ (b.leave .ret).blocks.map Block.label := by
    obtain ⟨blk, hb, -⟩ := h.sound.isOpen
    refine Coded.mem_labels (b := b.leave .ret) ?_
    show (b.leave .ret).block? b.current ≠ none
    rw [block?_leave, if_pos rfl, hb]
    simp
  rw [hcount, ← List.count_eq_one_of_mem h.leave_coded.labels hmem, List.count, List.countP_map]
  rfl

theorem reached (h : Finished b) :
    ∀ blk ∈ (b.leave .ret).blocks,
      Relation.ReflTransGen (Edge (b.leave .ret).blocks) .entry blk.label := by
  intro blk hm
  have hb : b.Reached blk.label := by
    rcases h.exit_cases hm with ⟨hc, -⟩ | ⟨-, t, -, he⟩
    · rw [hc]
      exact h.wired.here
    · rcases h.wired.reached _ (by rw [he]; simp) with habs | hr
      · exact absurd habs (by simp)
      · exact hr
  have hr := hb.mono (retains_leave h.sound.exit?_current .ret)
  refine Relation.ReflTransGen.mono (fun ℓ₁ ℓ₂ hg => ?_) _ _ hr
  obtain ⟨t, he, ht⟩ := hg
  obtain ⟨blk', hb', hexit⟩ := Option.map_eq_some_iff.mp he
  exact ⟨blk', List.mem_of_find?_eq_some hb', block?_label hb', t, hexit, ht⟩

/-! ### Slots -/

theorem made (h : Finished b) (hm : blk ∈ (b.leave .ret).blocks) {before : List Instr} {v : Text}
    (hs : Stands blk.body before (.alloca v)) :
    blk.label = .entry ∧ Stands blk.body (before ++ [.alloca v]) (.store (.const 0) v) := by
  by_cases he : blk.label = .entry
  · exact ⟨he, ((h.leave_coded.sane blk hm).entry he).1.made before v hs⟩
  · have hnone := h.leave_formed.plain _ blk he (block?_of_mem h.leave_coded.labels hm)
    have hv : v ∈ allocated blk.body := List.mem_filterMap.mpr ⟨_, hs.mem, rfl⟩
    rw [hnone] at hv
    exact absurd hv (by simp)

theorem used (h : Finished b) (hm : blk ∈ (b.leave .ret).blocks) {before : List Instr} {i : Instr}
    {v : Text} (hs : Stands blk.body before i) (hi : i.touches = some v) :
    (blk.label = .entry ∧ (Clears before i v ∨ Reserves before v)) ∨
      (blk.label ≠ .entry ∧ Dominates (b.leave .ret).blocks .entry blk.label ∧
        ∃ entry ∈ (b.leave .ret).blocks, entry.label = .entry ∧ Reserves entry.body v) := by
  have hsane := h.leave_coded.sane blk hm
  by_cases he : blk.label = .entry
  · exact Or.inl ⟨he, (hsane.entry he).1.used before i v hs hi⟩
  · obtain ⟨entry, hentry, -⟩ := h.leave_formed.entry
    have hem := List.mem_of_find?_eq_some hentry
    have hreserved := ((h.leave_coded.sane entry hem).entry (block?_label hentry)).2 v
      (hsane.touches i hs.mem v hi)
    exact Or.inr ⟨he, fun path _ _ => List.mem_cons_self,
      entry, hem, block?_label hentry, hreserved⟩

/-! ### Names -/

/-- All slots are made in one block, and none is made twice. -/
theorem slots_nodup (h : Finished b) :
    ((b.leave .ret).blocks.flatMap fun blk => allocated blk.body).Nodup := by
  have hblock := fun blk (hm : blk ∈ (b.leave .ret).blocks) =>
    block?_of_mem h.leave_coded.labels hm
  have hplain : ∀ blk ∈ (b.leave .ret).blocks, ∀ v ∈ allocated blk.body, blk.label = .entry := by
    intro blk hm v hv
    by_contra hne
    rw [h.leave_formed.plain _ blk hne (hblock blk hm)] at hv
    exact absurd hv (by simp)
  rw [List.nodup_flatMap]
  refine ⟨fun blk hm => ?_, ?_⟩
  · by_cases he : blk.label = .entry
    · obtain ⟨entry, hentry, hslots⟩ := h.leave_formed.entry
      have hb := hblock blk hm
      rw [he, hentry] at hb
      rw [← Option.some.inj hb, hslots]
      exact h.leave_formed.nodup
    · rw [h.leave_formed.plain _ blk he (hblock blk hm)]
      exact List.nodup_nil
  · refine (List.pairwise_map.mp h.leave_coded.labels).imp_of_mem fun hm hm' hne v hv hv' => ?_
    exact hne ((hplain _ hm v hv).trans (hplain _ hm' v hv').symm)

theorem locals (h : Finished b) (o : Options) :
    (⟨o, (b.leave .ret).blocks, b.externals⟩ : Module).locals.Nodup := by
  unfold Module.locals
  rw [List.nodup_append, ← List.map_flatMap]
  refine ⟨?_, ?_, fun name hn name' hn' => ?_⟩
  · have hnames := h.leave_coded.labels.map Label.name_injective
    rwa [List.map_map] at hnames
  · exact h.slots_nodup.map (List.append_left_injective _)
  · obtain ⟨blk, -, rfl⟩ := List.mem_map.mp hn
    obtain ⟨v, -, rfl⟩ := List.mem_map.mp hn'
    exact blk.label.name_ne_slot v

end Finished

end Finished

/-! ## Functions -/

/-- The functions that are declared have other names than those of every module. -/
theorem globals_nodup {callees : List Text} {externals : Lookup Nat}
    (h : Declared callees externals)
    (hdot : ∀ name ∈ callees, name.head? ≠ some 0x2E) (o : Options) (blocks : List Block) :
    (⟨o, blocks, externals⟩ : Module).globals.Nodup := by
  have hfixed : ∀ name ∈ externals.names,
      name ∉ [("._printf_fmt" : Text), "print", "printf", "main"] := by
    intro name hn hm
    obtain ⟨hprint, hreserved⟩ := h.free name hn
    have hformat : name ≠ "._printf_fmt" := by
      rintro rfl
      exact hdot _ (h.called _ hn) rfl
    simp only [List.mem_cons, List.not_mem_nil, or_false, reservedNames, not_or] at hm hreserved
    rcases hm with hm | hm | hm | hm
    · exact hformat hm
    · exact hprint hm
    · exact hreserved.2 hm
    · exact hreserved.1 hm
  have hglobals : (⟨o, blocks, externals⟩ : Module).globals =
      [("._printf_fmt" : Text), "print", "printf", "main"] ++ externals.names := by
    unfold Module.globals Module.funcs
    rw [List.map_append, List.map_map]
    rfl
  rw [hglobals, List.nodup_append]
  refine ⟨by decide, h.nodup, fun name hn name' hn' => ?_⟩
  rintro rfl
  exact hfixed name hn' hn

/-- A call that fits the declared functions is one of a function of the module. -/
theorem Instr.Fits.provided {m : Module} {i : Instr} (h : i.Fits m.externals) {callee : Text}
    {args : List Operand} (hc : i.call? = some (callee, args)) :
    ∃ f ∈ m.funcs, f.name = callee ∧ f.words = some args.length := by
  cases i with
  | print xs =>
    obtain ⟨rfl, rfl⟩ := Prod.mk.inj (Option.some.inj hc)
    exact ⟨.print, by simp [Module.funcs], rfl, congrArg some h.symm⟩
  | call dst name xs =>
    obtain ⟨rfl, rfl⟩ := Prod.mk.inj (Option.some.inj hc)
    obtain ⟨front, behind, hentries, -⟩ := List.lookup_eq_some_iff.mp h
    have hm : (name, xs.length) ∈ m.externals.entries := by
      rw [hentries]
      simp
    exact ⟨.external name xs.length, List.mem_append_right _ (List.mem_map_of_mem hm), rfl, rfl⟩
  | _ => exact absurd hc (by simp [Instr.call?])

/-- **A lowered program is well-formed.** -/
theorem lower_wellFormed {tab : TabWidth} {src : Text} {program : Program} {options : Options}
    {m : Module} (hp : parse tab src = .ok program) (h : lower options program = .ok m) :
    m.WellFormed := by
  unfold lower at h
  obtain ⟨b, hb, h⟩ := bind_eq_ok.mp h
  obtain rfl := Except.ok.inj h
  have hf : Finished b :=
    ⟨(lowerStmts_sound sound_start hb).1, lowerStmts_coded sound_start coded_start hb,
      lowerStmts_wired sound_start wired_start hb⟩
  have hd : Declared (Stmt.calleesOf program) b.externals :=
    lowerStmts_declared (b := start) ⟨List.nodup_nil, by simp [start, Lookup.empty, Lookup.names],
      by simp [start, Lookup.empty, Lookup.names]⟩ (List.Subset.refl _) hb
  exact
    { globals := globals_nodup hd (callees_of_parse hp) options _
      locals := hf.locals options
      results := hf.leave_coded.results
      exits := hf.exits
      targets := hf.targets
      leaves := hf.leaves
      reached := hf.reached
      typed := fun blk hm => (hf.leave_coded.sane blk hm).typed
      made := fun blk hm before v hs => hf.made hm hs
      used := fun blk hm before i v hs hi => hf.used hm hs hi
      calls := fun blk hm i hi callee args hc =>
        ((hf.leave_coded.sane blk hm).calls i hi).provided hc }

/-! ## A loop that calls a function -/

/-- A loop with a call on its line. -/
def drainSource : String := "n = 2\nwhile n > 0: f(n)\n"

/-- The tokens of the source. -/
def drainTokens : List Token :=
  [.plain .identifier "n" ⟨0, 1, 1⟩, .plain .assign "=" ⟨2, 1, 3⟩, ⟨.number, "2", 2, ⟨4, 1, 5⟩⟩,
   .plain .whileWord "while" ⟨6, 2, 1⟩, .plain .identifier "n" ⟨12, 2, 7⟩,
   .plain .greater ">" ⟨14, 2, 9⟩, ⟨.number, "0", 0, ⟨16, 2, 11⟩⟩, .plain .colon ":" ⟨17, 2, 12⟩,
   .plain .identifier "f" ⟨19, 2, 14⟩, .plain .openParen "(" ⟨20, 2, 15⟩,
   .plain .identifier "n" ⟨21, 2, 16⟩, .plain .closeParen ")" ⟨22, 2, 17⟩, .eofAt ⟨24, 3, 1⟩]

theorem tokenize_drain : tokenize .standard (Text.ofString drainSource) = .ok drainTokens :=
  tokenize_of_steps 40 (by decide +kernel) (by decide +kernel)

/-- The derivation of the source. -/
def drain : Grammar.Derivation (streamOf drainTokens) where
  items :=
    let name (t : Grammar.Terminal .identifier) : Grammar.Chain .sum :=
      .mk (.product (.mk (.name t) .nil)) .nil
    let number (t : Grammar.Terminal .number) : Grammar.Chain .sum :=
      .mk (.product (.mk (.number t) .nil)) .nil
    .stmt (.assign ⟨.plain .identifier "n" ⟨0, 1, 1⟩, rfl⟩ ⟨.plain .assign "=" ⟨2, 1, 3⟩, rfl⟩
        (number ⟨⟨.number, "2", 2, ⟨4, 1, 5⟩⟩, rfl⟩))
      (.stmt (.loop ⟨.plain .whileWord "while" ⟨6, 2, 1⟩, rfl⟩
        (.mk (.sum (name ⟨.plain .identifier "n" ⟨12, 2, 7⟩, rfl⟩))
          (.cons ⟨.plain .greater ">" ⟨14, 2, 9⟩, rfl⟩
            (.sum (number ⟨⟨.number, "0", 0, ⟨16, 2, 11⟩⟩, rfl⟩)) .nil))
        ⟨.plain .colon ":" ⟨17, 2, 12⟩, rfl⟩
        (.inline (.stmt (.call ⟨.plain .identifier "f" ⟨19, 2, 14⟩, rfl⟩
          ⟨.plain .openParen "(" ⟨20, 2, 15⟩, rfl⟩
          (.some (name ⟨.plain .identifier "n" ⟨21, 2, 16⟩, rfl⟩) [])
          ⟨.plain .closeParen ")" ⟨22, 2, 17⟩, rfl⟩) .nil))) .nil)
  tokens_eq := rfl
  fits := ⟨by simp [Extent.Admits], trivial, by simp [Extent.Admits],
    ⟨fun _ => rfl, trivial, trivial⟩, trivial⟩

theorem parse_drain : parse .standard (Text.ofString drainSource) = .ok drain.items.stmts :=
  parse_eq_ok.mpr ⟨_, tokenize_drain, parseTokens_of_derivation drain⟩

/-- The module of the source is well-formed. -/
theorem lower_wellFormed_drain :
    parse .standard (Text.ofString drainSource) = .ok drain.items.stmts ∧
      ∃ m, lower ⟨[], []⟩ drain.items.stmts = .ok m ∧ m.WellFormed := by
  obtain ⟨m, hm⟩ : ∃ m, lower ⟨[], []⟩ drain.items.stmts = .ok m := ⟨_, rfl⟩
  exact ⟨parse_drain, m, hm, lower_wellFormed parse_drain hm⟩

end Offside.Ir
