import Mathlib.Logic.Relation

/-!
# Runs that leave a trace of events

What it means for two programs to do the same, for any two deterministic step functions. The program
of `Proofs/Meaning/Source` and the machine of `Proofs/Meaning/Machine` are compared by this.

A `Process` takes one step after another, and its states carry the events shown so far. A run ends
when a step says so: the process is *finished*, it has *faulted*, or it is *stuck* because nothing
says what comes next. Otherwise it runs on.

* `Process.Finishes`, `Process.Faults` and `Process.RunsOn` are the three fates of a run, and
  `Process.Shows` says that a run comes to show at least some events, which is all there is to see
  of a run that never ends.
* A `Simulation` matches every step of one process by at least one step of another, and every end by
  the same end.

Because both are deterministic, a simulation gives more than one direction. At least one step is
needed: otherwise a run that goes on for ever could be matched by one that stands still.

Results:
* `Process.end_unique`: a run has one end.
* `Process.ends_or_runsOn`: a run that gets stuck nowhere finishes, faults or never ends.
* `Simulation.runsOn_ahead`: while the simulated process runs on, the other one never gets past all
  matched states.
* `Simulation.agree`: two processes in simulation finish with the same events, fault after the same
  events, run on together, and show the same finite stretches of events.
-/

namespace Offside.Meaning

/-- What a step leads to. -/
inductive Verdict (σ : Type) where
  | next (state : σ)
  | finished
  | faulted
  /-- Nothing says how to go on. -/
  | stuck

/-- A deterministic process whose states carry the events shown so far. -/
structure Process (σ ε : Type) where
  step : σ → Verdict σ
  events : σ → List ε
  /-- A step takes no event back. -/
  grows : ∀ s s', step s = .next s' → events s <+: events s'

variable {σ τ ε : Type}

namespace Process

variable (P : Process σ ε)

/-- One step leads from `s` to `s'`. -/
def Step (s s' : σ) : Prop := P.step s = .next s'

/-- Some steps, perhaps none, lead from `s` to `s'`. -/
def Reaches : σ → σ → Prop := Relation.ReflTransGen P.Step

/-- The run from `s` finishes, having shown the events `E`. -/
def Finishes (s : σ) (E : List ε) : Prop :=
  ∃ s', P.Reaches s s' ∧ P.step s' = .finished ∧ P.events s' = E

/-- The run from `s` faults, having shown the events `E`. -/
def Faults (s : σ) (E : List ε) : Prop :=
  ∃ s', P.Reaches s s' ∧ P.step s' = .faulted ∧ P.events s' = E

/-- The run from `s` never ends. -/
def RunsOn (s : σ) : Prop := ∀ s', P.Reaches s s' → ∃ s'', P.step s' = .next s''

/-- The run from `s` comes to show at least the events `E`. -/
def Shows (s : σ) (E : List ε) : Prop := ∃ s', P.Reaches s s' ∧ E <+: P.events s'

variable {P} {s a b : σ} {E : List ε}

theorem step_unique : Relator.RightUnique P.Step := by
  intro s a b ha hb
  unfold Step at ha hb
  rw [ha] at hb
  exact Verdict.next.inj hb

theorem reaches_events (h : P.Reaches a b) : P.events a <+: P.events b := by
  induction h with
  | refl => exact List.prefix_rfl
  | tail _ hs ih => exact ih.trans (P.grows _ _ hs)

/-- A state that ends the run is reached from every state of the run. -/
theorem reaches_end (ha : P.Reaches s a) (hb : P.Reaches s b) (hend : ∀ c, P.step b ≠ .next c) :
    P.Reaches a b := by
  rcases Relation.ReflTransGen.total_of_right_unique step_unique ha hb with h | h
  · exact h
  · rcases Relation.ReflTransGen.cases_head h with rfl | ⟨c, hc, _⟩
    · exact Relation.ReflTransGen.refl
    · exact absurd hc (hend c)

/-- A run has one end. -/
theorem end_unique (ha : P.Reaches s a) (hb : P.Reaches s b) (hea : ∀ c, P.step a ≠ .next c)
    (heb : ∀ c, P.step b ≠ .next c) : a = b := by
  rcases Relation.ReflTransGen.cases_head (reaches_end ha hb heb) with h | ⟨c, hc, _⟩
  · exact h
  · exact absurd hc (hea c)

theorem finishes_unique {E' : List ε} (h : P.Finishes s E) (h' : P.Finishes s E') : E = E' := by
  obtain ⟨a, hra, hfa, rfl⟩ := h
  obtain ⟨b, hrb, hfb, rfl⟩ := h'
  rw [end_unique hra hrb (by simp [hfa]) (by simp [hfb])]

theorem faults_unique {E' : List ε} (h : P.Faults s E) (h' : P.Faults s E') : E = E' := by
  obtain ⟨a, hra, hfa, rfl⟩ := h
  obtain ⟨b, hrb, hfb, rfl⟩ := h'
  rw [end_unique hra hrb (by simp [hfa]) (by simp [hfb])]

theorem not_finishes_of_faults {E' : List ε} (h : P.Faults s E) : ¬ P.Finishes s E' := by
  rintro ⟨b, hrb, hfb, -⟩
  obtain ⟨a, hra, hfa, -⟩ := h
  have hab := end_unique hra hrb (by simp [hfa]) (by simp [hfb])
  rw [hab, hfb] at hfa
  exact absurd hfa (by simp)

theorem not_finishes_of_runsOn (h : P.RunsOn s) : ¬ P.Finishes s E := by
  rintro ⟨a, hra, hfa, -⟩
  obtain ⟨b, hb⟩ := h a hra
  rw [hfa] at hb
  exact absurd hb (by simp)

theorem not_faults_of_runsOn (h : P.RunsOn s) : ¬ P.Faults s E := by
  rintro ⟨a, hra, hfa, -⟩
  obtain ⟨b, hb⟩ := h a hra
  rw [hfa] at hb
  exact absurd hb (by simp)

/-- A run that gets stuck nowhere finishes, faults or never ends. -/
theorem ends_or_runsOn (h : ∀ a, P.Reaches s a → P.step a ≠ .stuck) :
    (∃ E, P.Finishes s E) ∨ (∃ E, P.Faults s E) ∨ P.RunsOn s := by
  by_cases hr : ∃ a, P.Reaches s a ∧ ∀ b, P.step a ≠ .next b
  · obtain ⟨a, hra, hend⟩ := hr
    cases hv : P.step a with
    | next b => exact absurd hv (hend b)
    | finished => exact Or.inl ⟨_, a, hra, hv, rfl⟩
    | faulted => exact Or.inr (Or.inl ⟨_, a, hra, hv, rfl⟩)
    | stuck => exact absurd hv (h a hra)
  · refine Or.inr (Or.inr fun a ha => Classical.byContradiction fun hno => ?_)
    exact hr ⟨a, ha, fun b hb => hno ⟨b, hb⟩⟩

/-- What a run shows on its way it has shown when it ends. -/
theorem shows_end (h : P.Shows s E) (hb : P.Reaches s b) (hend : ∀ c, P.step b ≠ .next c) :
    E <+: P.events b := by
  obtain ⟨a, hra, hE⟩ := h
  exact hE.trans (reaches_events (reaches_end hra hb hend))

end Process

/-- `R` matches every step of `P` by at least one step of `Q`, and every end by the same end. -/
structure Simulation (P : Process σ ε) (Q : Process τ ε) (R : σ → τ → Prop) : Prop where
  events : ∀ {s t}, R s t → P.events s = Q.events t
  next : ∀ {s t s'}, R s t → P.step s = .next s' →
    ∃ t', Relation.TransGen Q.Step t t' ∧ R s' t'
  finished : ∀ {s t}, R s t → P.step s = .finished → Q.Finishes t (P.events s)
  faulted : ∀ {s t}, R s t → P.step s = .faulted → Q.Faults t (P.events s)
  stuck : ∀ {s t}, R s t → P.step s ≠ .stuck

namespace Simulation

variable {P : Process σ ε} {Q : Process τ ε} {R : σ → τ → Prop} {s : σ} {t : τ}

theorem reaches (h : Simulation P Q R) (hR : R s t) {s' : σ} (hs : P.Reaches s s') :
    ∃ t', Q.Reaches t t' ∧ R s' t' := by
  induction hs with
  | refl => exact ⟨t, Relation.ReflTransGen.refl, hR⟩
  | tail _ hstep ih =>
    obtain ⟨u, hu, hRu⟩ := ih
    obtain ⟨u', hu', hRu'⟩ := h.next hRu hstep
    exact ⟨u', Relation.ReflTransGen.trans hu hu'.to_reflTransGen, hRu'⟩

theorem finishes (h : Simulation P Q R) (hR : R s t) {E : List ε} (hf : P.Finishes s E) :
    Q.Finishes t E := by
  obtain ⟨s', hs, hfin, rfl⟩ := hf
  obtain ⟨t', ht, hR'⟩ := h.reaches hR hs
  obtain ⟨u, hu, hrest⟩ := h.finished hR' hfin
  exact ⟨u, Relation.ReflTransGen.trans ht hu, hrest⟩

theorem faults (h : Simulation P Q R) (hR : R s t) {E : List ε} (hf : P.Faults s E) :
    Q.Faults t E := by
  obtain ⟨s', hs, hfault, rfl⟩ := hf
  obtain ⟨t', ht, hR'⟩ := h.reaches hR hs
  obtain ⟨u, hu, hrest⟩ := h.faulted hR' hfault
  exact ⟨u, Relation.ReflTransGen.trans ht hu, hrest⟩

/-- While the simulated process runs on, the other one never gets past all matched states: from
every state of its run at least one more step leads to a matched state. -/
theorem runsOn_ahead (h : Simulation P Q R) (hR : R s t) (hrun : P.RunsOn s) {t' : τ}
    (ht : Q.Reaches t t') :
    ∃ s'' t'', P.Reaches s s'' ∧ Relation.TransGen Q.Step t' t'' ∧ R s'' t'' := by
  induction ht with
  | refl =>
    obtain ⟨s', hs'⟩ := hrun s Relation.ReflTransGen.refl
    obtain ⟨u, hu, hRu⟩ := h.next hR hs'
    exact ⟨s', u, Relation.ReflTransGen.single hs', hu, hRu⟩
  | @tail b c _ hstep ih =>
    obtain ⟨s₁, u, hs₁, hbu, hRu⟩ := ih
    -- the step from `b` is the first one on the way to `u`
    obtain ⟨d, hbd, hdu⟩ := Relation.TransGen.head'_iff.mp hbu
    have hcd : c = d := Process.step_unique hstep hbd
    subst hcd
    obtain ⟨s₂, hs₂⟩ := hrun s₁ hs₁
    obtain ⟨v, huv, hRv⟩ := h.next hRu hs₂
    exact ⟨s₂, v, Relation.ReflTransGen.tail hs₁ hs₂, Relation.TransGen.trans_right hdu huv, hRv⟩

theorem runsOn (h : Simulation P Q R) (hR : R s t) (hrun : P.RunsOn s) : Q.RunsOn t := by
  intro t' ht
  obtain ⟨_, _, _, hnext, _⟩ := h.runsOn_ahead hR hrun ht
  obtain ⟨u, hu, _⟩ := Relation.TransGen.head'_iff.mp hnext
  exact ⟨u, hu⟩

/-- The simulated process gets stuck nowhere, so its run has one of three fates. -/
theorem fate (h : Simulation P Q R) (hR : R s t) :
    (∃ E, P.Finishes s E) ∨ (∃ E, P.Faults s E) ∨ P.RunsOn s := by
  apply Process.ends_or_runsOn
  intro a ha
  obtain ⟨t', _, hR'⟩ := h.reaches hR ha
  exact h.stuck hR'

theorem shows_of_shows (h : Simulation P Q R) (hR : R s t) {E : List ε} (hE : Q.Shows t E) :
    P.Shows s E := by
  rcases h.fate hR with ⟨F, hF⟩ | ⟨F, hF⟩ | hrun
  · obtain ⟨t', ht, hfin, rfl⟩ := h.finishes hR hF
    obtain ⟨s', hs, _, hev⟩ := hF
    exact ⟨s', hs, hev ▸ Process.shows_end hE ht (by simp [hfin])⟩
  · obtain ⟨t', ht, hfault, rfl⟩ := h.faults hR hF
    obtain ⟨s', hs, _, hev⟩ := hF
    exact ⟨s', hs, hev ▸ Process.shows_end hE ht (by simp [hfault])⟩
  · obtain ⟨t', ht, hpre⟩ := hE
    obtain ⟨s'', t'', hs, hgo, hR'⟩ := h.runsOn_ahead hR hrun ht
    refine ⟨s'', hs, ?_⟩
    rw [h.events hR']
    exact hpre.trans (Process.reaches_events hgo.to_reflTransGen)

/-- **Two processes in simulation cannot be told apart by their events**: they finish with the same
events, fault after the same events, run on together and show the same stretches of events. -/
theorem agree (h : Simulation P Q R) (hR : R s t) :
    (∀ E, P.Finishes s E ↔ Q.Finishes t E) ∧ (∀ E, P.Faults s E ↔ Q.Faults t E) ∧
      (P.RunsOn s ↔ Q.RunsOn t) ∧ ∀ E, P.Shows s E ↔ Q.Shows t E := by
  refine ⟨fun E => ⟨h.finishes hR, fun hQ => ?_⟩, fun E => ⟨h.faults hR, fun hQ => ?_⟩,
    ⟨h.runsOn hR, fun hQ => ?_⟩, fun E => ⟨fun hP => ?_, h.shows_of_shows hR⟩⟩
  · rcases h.fate hR with ⟨F, hF⟩ | ⟨F, hF⟩ | hrun
    · rw [Process.finishes_unique hQ (h.finishes hR hF)]
      exact hF
    · exact absurd hQ (Process.not_finishes_of_faults (h.faults hR hF))
    · exact absurd hQ (Process.not_finishes_of_runsOn (h.runsOn hR hrun))
  · rcases h.fate hR with ⟨F, hF⟩ | ⟨F, hF⟩ | hrun
    · exact absurd (h.finishes hR hF) (Process.not_finishes_of_faults hQ)
    · rw [Process.faults_unique hQ (h.faults hR hF)]
      exact hF
    · exact absurd hQ (Process.not_faults_of_runsOn (h.runsOn hR hrun))
  · rcases h.fate hR with ⟨F, hF⟩ | ⟨F, hF⟩ | hrun
    · exact absurd (h.finishes hR hF) (Process.not_finishes_of_runsOn hQ)
    · exact absurd (h.faults hR hF) (Process.not_faults_of_runsOn hQ)
    · exact hrun
  · obtain ⟨s', hs, hpre⟩ := hP
    obtain ⟨t', ht, hR'⟩ := h.reaches hR hs
    exact ⟨t', ht, h.events hR' ▸ hpre⟩

end Simulation

end Offside.Meaning
