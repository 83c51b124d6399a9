/-
  TypeRecovery.Proofs.Solution — what a successful solve has.

  A solve that succeeds has taken its constraints in, closed their graph without meeting a
  bound, and made its classes and sketches from the closed graph.

  Proved:
  - `solve_eq_ok`: the stages that lie behind a solution.
  - `solved_wellFormed`, `solved_saturated`: its graph is well-formed and saturated.
  - `solved_sameClass`: its classes are mutual subtyping.
-/

import TypeRecovery.Proofs.Partition.Congruence
import TypeRecovery.Solution

namespace TypeRecovery

variable {s : Settings} {clock : Clock} {readings : Nat} {c : ConstraintSet} {sol : Solution}

theorem solve_eq_ok (h : (solve s clock readings c).result = .ok sol) :
    ∃ k g n stats, Intake.build s c = .ok k ∧ k.graph.close s clock readings = ⟨g, n, .ok stats⟩ ∧
      stats.isMeasurable = true ∧ sol = Solution.ofClosed s c k g stats := by
  unfold solve at h
  cases hb : Intake.build s c with
  | error k => simp [hb] at h
  | ok k =>
    rcases hc : k.graph.close s clock readings with ⟨g, n, result⟩
    simp only [hb, hc] at h
    cases result with
    | error e => simp at h
    | ok stats =>
      simp only at h
      split at h
      · rename_i hm
        cases h
        exact ⟨k, g, n, stats, rfl, hc, hm, rfl⟩
      · cases h

section Solved

variable (h : (solve s clock readings c).result = .ok sol)
include h

theorem solved_wellFormed : sol.graph.WellFormed := by
  obtain ⟨k, g, n, stats, hb, hc, -, rfl⟩ := solve_eq_ok h
  exact Graph.closeFrom_wellFormed (Graph.build_reach hb).wellFormed (.refl _) hc

theorem solved_saturated : sol.graph.Saturated := by
  obtain ⟨k, g, n, stats, hb, hc, -, rfl⟩ := solve_eq_ok h
  exact Graph.closeFrom_saturated (Graph.build_reach hb).wellFormed (.refl _) hc

theorem solved_partition : sol.partition = Partition.ofGraph sol.graph := by
  obtain ⟨k, g, n, stats, -, -, -, rfl⟩ := solve_eq_ok h
  rfl

/-- Two variables are in one class when each is a subtype of the other. -/
theorem solved_sameClass {v w : TypeVar} (hv : sol.graph.contains v = true) (hw : sol.graph.contains w = true) :
    sol.partition.sameClass? v w = some (sol.isSubtype v w && sol.isSubtype w v) := by
  rw [solved_partition h]
  exact Partition.sameClass?_saturated (solved_wellFormed h) (solved_saturated h) hv hw

end Solved

theorem solved_sameClass_chain :
    ∃ sol, (solve .standard (.ticking (.whole 0)) 0
        ⟨[⟨⟨"a", []⟩, ⟨"b", []⟩⟩, ⟨⟨"b", []⟩, ⟨"c", []⟩⟩, ⟨⟨"c", []⟩, ⟨"a", []⟩⟩], []⟩).result = .ok sol ∧
      sol.graph.contains ⟨"a", []⟩ = true ∧ sol.graph.contains ⟨"c", []⟩ = true ∧
      sol.partition.sameClass? ⟨"a", []⟩ ⟨"c", []⟩ = some true := by
  obtain ⟨sol, h, ha, hc, hac⟩ : ∃ sol, (solve .standard (.ticking (.whole 0)) 0
        ⟨[⟨⟨"a", []⟩, ⟨"b", []⟩⟩, ⟨⟨"b", []⟩, ⟨"c", []⟩⟩, ⟨⟨"c", []⟩, ⟨"a", []⟩⟩], []⟩).result = .ok sol ∧
      sol.graph.contains ⟨"a", []⟩ = true ∧ sol.graph.contains ⟨"c", []⟩ = true ∧
      (sol.isSubtype ⟨"a", []⟩ ⟨"c", []⟩ && sol.isSubtype ⟨"c", []⟩ ⟨"a", []⟩) = true :=
    ⟨_, rfl, by decide, by decide, by decide⟩
  refine ⟨sol, h, ha, hc, ?_⟩
  rw [solved_sameClass h ha hc, hac]

end TypeRecovery
