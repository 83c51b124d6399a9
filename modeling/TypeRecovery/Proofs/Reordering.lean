/-
  TypeRecovery.Proofs.Reordering — what the order of the constraints decides.

  Nodes, classes and sketches are numbered in the order in which constraints are taken in,
  edges are taken from the queue in that order too, and a target belongs to the class of its
  first binding. Where two orders of one constraint set keep the bindings of each target in
  theirs, the solves differ in those numbers only: the graphs are twins, so are the closed
  graphs, and the tables are one table under other numbers.

  Besides, both solves may fail. They are stopped by the bound on the steps together, or both
  meet a path that cannot be cut, which takes a length limit that is not an integer; and each
  may have taken longer than can be shown, which takes a clock that shows integers.

  Proved: `solve_reordered`.
-/

import TypeRecovery.Proofs.Sketch.Rename
import TypeRecovery.Proofs.Solution

namespace TypeRecovery

namespace ConstraintSet

/-- The same constraints in another order, in which the bindings of each target keep theirs. -/
structure Reordered (c c' : ConstraintSet) : Prop where
  subtypings : c.subtypings.Perm c'.subtypings
  bindings : c.bindings.Perm c'.bindings
  sameTarget (t : Target) : (c.bindings.filter fun b => b.target = t) = c'.bindings.filter fun b => b.target = t

theorem Reordered.facts {c c' : ConstraintSet} (h : c.Reordered c') : c.facts.Perm c'.facts :=
  h.subtypings.append (h.bindings.map _)

end ConstraintSet

namespace Settings

theorem integer?_of_admission {s : Settings} {v : TypeVar} (h : s.admission v = .uncuttable) :
    s.maxPathLength.integer? = none := by
  cases hi : s.maxPathLength.integer? with
  | none => rfl
  | some n =>
    exfalso
    unfold admission at h
    rw [hi] at h
    split at h
    · cases h
    · split at h
      · cases h
      · split at h <;> cases h

/-- Only a limit that is not an integer cannot cut a path. -/
theorem integer?_of_uncuttable {s : Settings} {c : Subtyping} (h : s.sides c = .error .uncuttable) :
    s.maxPathLength.integer? = none := by
  have hadmit : ∀ v, s.admitted v = .error .uncuttable → s.maxPathLength.integer? = none := by
    intro v hv
    unfold admitted at hv
    cases ha : s.admission v with
    | whole => rw [ha] at hv; cases hv
    | cutTo n => rw [ha] at hv; cases hv
    | refused why => rw [ha] at hv; cases hv
    | uncuttable => exact integer?_of_admission ha
  unfold sides at h
  cases hv : s.admitted c.sub with
  | error e => rw [hv] at h; cases h; exact hadmit _ hv
  | ok v =>
    cases hw : s.admitted c.sup with
    | error e => rw [hv, hw] at h; cases h; exact hadmit _ hw
    | ok w => rw [hv, hw] at h; cases h

end Settings

/-- Only a duration in whole seconds, read from a clock that shows integers, cannot be shown. -/
theorem integer?_of_not_isMeasurable {stats : ClosureStats} {a b : Amount} (he : stats.elapsed = a.minus b)
    (h : stats.isMeasurable = false) : ∃ m, b.integer? = some m := by
  cases hb : b.integer? with
  | some m => exact ⟨m, rfl⟩
  | none =>
    have hreal : a.minus b = .real (a.toBinary64.minus b.toBinary64) := by
      unfold Amount.minus
      rw [hb]
      split
      · rename_i hm
        cases hm
      · rfl
    simp [ClosureStats.isMeasurable, he, hreal] at h

/-- The four ways a solve without a deadline can end. -/
theorem solve_cases {s : Settings} (hd : s.deadline = none) (clock : Clock) (readings : Nat) (c : ConstraintSet) :
    ((∃ k, Intake.build s c = .error k) ∧ (solve s clock readings c).result = .error .uncuttable) ∨
    (∃ k g n e, Intake.build s c = .ok k ∧ k.graph.close s clock readings = ⟨g, n, .error e⟩ ∧
      (solve s clock readings c).result = .error (.exhausted e)) ∨
    (∃ k g n stats, Intake.build s c = .ok k ∧ k.graph.close s clock readings = ⟨g, n, .ok stats⟩ ∧
      (((solve s clock readings c).result = .error .overlong ∧ ∃ m, (clock readings).integer? = some m) ∨
        (solve s clock readings c).result = .ok (.ofClosed s c k g stats))) := by
  unfold solve
  cases hb : Intake.build s c with
  | error k => exact Or.inl ⟨⟨k, rfl⟩, rfl⟩
  | ok k =>
    rcases hc : k.graph.close s clock readings with ⟨g, n, result⟩
    cases result with
    | error e => exact Or.inr (Or.inl ⟨k, g, n, e, rfl, hc, by simp only [hc]⟩)
    | ok stats =>
      refine Or.inr (Or.inr ⟨k, g, n, stats, rfl, hc, ?_⟩)
      simp only [hc]
      cases hm : stats.isMeasurable with
      | true => exact Or.inr rfl
      | false =>
        have helapsed := (Graph.closeFrom_ok_counts (Graph.build_reach hb).wellFormed (.refl _) hd hc).2
        exact Or.inl ⟨rfl, integer?_of_not_isMeasurable helapsed hm⟩

/-- The solves of one constraint set in two orders find the same types under other numbers and
reject the same constraints, unless neither succeeds. -/
theorem solve_reordered {s : Settings} (hd : s.deadline = none) {c c' : ConstraintSet} (hc : c.Reordered c')
    (clock clock' : Clock) (readings readings' : Nat) :
    (∃ e e', (solve s clock readings c).result = .error (.exhausted e) ∧
      (solve s clock' readings' c').result = .error (.exhausted e')) ∨
    (∃ sol sol', (solve s clock readings c).result = .ok sol ∧ (solve s clock' readings' c').result = .ok sol' ∧
      sol.rejected.Perm sol'.rejected ∧ ∃ ρ, SketchTable.Renamed ρ sol.table sol'.table) ∨
    ((solve s clock readings c).result = .error .uncuttable ∧
      (solve s clock' readings' c').result = .error .uncuttable ∧ s.maxPathLength.integer? = none) ∨
    ((solve s clock readings c).result = .error .overlong ∧ ∃ m, (clock readings).integer? = some m) ∨
    ((solve s clock' readings' c').result = .error .overlong ∧ ∃ m, (clock' readings').integer? = some m) := by
  have hbuild : (∃ k, Intake.build s c = .error k) ↔ ∃ k, Intake.build s c' = .error k := by
    rw [Intake.build_fails_iff, Intake.build_fails_iff]
    simp only [hc.facts.mem_iff]
  have htwin : ∀ {k k'}, Intake.build s c = .ok k → Intake.build s c' = .ok k' →
      k.graph.WellFormed ∧ k'.graph.WellFormed ∧ k.graph.Twin k'.graph ∧ k.rejected.Perm k'.rejected := by
    intro k k' hk hk'
    have h := Intake.took_build hk
    have h' := Intake.took_build hk'
    exact ⟨h.wf, h'.wf, Intake.twin_of_took h h' hc.facts hc.sameTarget⟩
  rcases solve_cases hd clock readings c with
    ⟨hfail, hr⟩ | ⟨k, g, n, e, hk, hclose, hr⟩ | ⟨k, g, n, stats, hk, hclose, hr⟩ <;>
  rcases solve_cases hd clock' readings' c' with
    ⟨hfail', hr'⟩ | ⟨k', g', n', e', hk', hclose', hr'⟩ | ⟨k', g', n', stats', hk', hclose', hr'⟩
  · obtain ⟨f, -, hf⟩ := (Intake.build_fails_iff s c).mp hfail
    exact Or.inr (Or.inr (Or.inl ⟨hr, hr', Settings.integer?_of_uncuttable hf⟩))
  · obtain ⟨k, hk⟩ := hbuild.mp hfail
    cases hk.symm.trans hk'
  · obtain ⟨k, hk⟩ := hbuild.mp hfail
    cases hk.symm.trans hk'
  · obtain ⟨k', hk'⟩ := hbuild.mpr hfail'
    cases hk.symm.trans hk'
  · exact Or.inl ⟨e, e', hr, hr'⟩
  · obtain ⟨hwf, hwf', ht, -⟩ := htwin hk hk'
    exact (ht.within.stopped hwf hwf' hd hclose hclose').elim
  · obtain ⟨k', hk'⟩ := hbuild.mpr hfail'
    cases hk.symm.trans hk'
  · obtain ⟨hwf, hwf', ht, -⟩ := htwin hk hk'
    exact (ht.symm.within.stopped hwf' hwf hd hclose' hclose).elim
  · rcases hr with hlong | hr
    · exact Or.inr (Or.inr (Or.inr (Or.inl hlong)))
    rcases hr' with hlong | hr'
    · exact Or.inr (Or.inr (Or.inr (Or.inr hlong)))
    obtain ⟨hwf, hwf', ht, hrejected⟩ := htwin hk hk'
    have hsettled : Partition.Settled g g' :=
      ⟨ht.closed hwf hwf' hclose hclose', Graph.closeFrom_wellFormed hwf (.refl _) hclose,
        Graph.closeFrom_wellFormed hwf' (.refl _) hclose', Graph.closeFrom_saturated hwf (.refl _) hclose,
        Graph.closeFrom_saturated hwf' (.refl _) hclose'⟩
    exact Or.inr (Or.inl ⟨_, _, hr, hr', hrejected, _, SketchTable.table_renumbered hsettled s⟩)

/-- A function `f` with a second parameter and a loaded result, bound as a target. -/
def callThenLoad : ConstraintSet where
  subtypings := [⟨⟨"f", [.input 1]⟩, ⟨"x", []⟩⟩, ⟨⟨"f", [.output 0, .load]⟩, ⟨"y", []⟩⟩]
  bindings := [⟨.number 1, ⟨⟨"f", []⟩, ⟨"g", []⟩⟩⟩]

def loadThenCall : ConstraintSet := { callThenLoad with subtypings := callThenLoad.subtypings.reverse }

theorem callThenLoad_reordered :
    Settings.standard.deadline = none ∧ callThenLoad.Reordered loadThenCall ∧
      ∃ sol sol', (solve .standard (.ticking (.whole 0)) 0 callThenLoad).result = .ok sol ∧
        (solve .standard (.ticking (.whole 0)) 0 loadThenCall).result = .ok sol' ∧
        sol.rejected.Perm sol'.rejected ∧ ∃ ρ, SketchTable.Renamed ρ sol.table sol'.table := by
  have hc : callThenLoad.Reordered loadThenCall := ⟨(List.reverse_perm _).symm, .refl _, fun _ => rfl⟩
  obtain ⟨sol, hsol⟩ : ∃ sol, (solve .standard (.ticking (.whole 0)) 0 callThenLoad).result = .ok sol := ⟨_, rfl⟩
  obtain ⟨sol', hsol'⟩ : ∃ sol, (solve .standard (.ticking (.whole 0)) 0 loadThenCall).result = .ok sol := ⟨_, rfl⟩
  refine ⟨rfl, hc, ?_⟩
  rcases solve_reordered (s := .standard) rfl hc (.ticking (.whole 0)) (.ticking (.whole 0)) 0 0 with
    ⟨e, e', h, -⟩ | h | ⟨h, -⟩ | ⟨h, -⟩ | ⟨h, -⟩
  · cases hsol.symm.trans h
  · exact h
  · cases hsol.symm.trans h
  · cases hsol.symm.trans h
  · cases hsol'.symm.trans h

end TypeRecovery
