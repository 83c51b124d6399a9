/-
  TypeRecovery.Proofs.Extension — more constraints retract nothing.

  A solve takes no conclusion back when constraints are added: what becomes of a constraint is
  decided by its own variables and the settings, also when it is cut or rejected, so the graph of
  some of the constraints lies within the graph of all of them, and so do the closed graphs. The
  nodes have other numbers and the edges are taken in another order, which neither shows.

  Proved: `solve_extended`.
-/

import TypeRecovery.Proofs.Graph.Within
import TypeRecovery.Proofs.Partition.Renumber
import TypeRecovery.Proofs.Solution

namespace TypeRecovery

namespace ConstraintSet

/-- Every constraint and every binding of `c` occurs in `c'`, in whatever order. -/
structure PartOf (c c' : ConstraintSet) : Prop where
  subtypings : c.subtypings ⊆ c'.subtypings
  bindings : c.bindings ⊆ c'.bindings

theorem PartOf.facts {c c' : ConstraintSet} (h : c.PartOf c') : c.facts ⊆ c'.facts :=
  List.append_subset.mpr ⟨List.subset_append_of_subset_left _ h.subtypings,
    List.subset_append_of_subset_right _ (List.map_subset _ h.bindings)⟩

end ConstraintSet

theorem Partition.contains_of_sameClass? {g : Graph} (hg : g.WellFormed) {v w : TypeVar} {same : Bool}
    (h : (ofGraph g).sameClass? v w = some same) : g.contains v = true ∧ g.contains w = true := by
  rw [← classOf?_isSome_iff hg, ← classOf?_isSome_iff hg]
  unfold sameClass? at h
  cases hv : (ofGraph g).classOf? v with
  | none => rw [hv] at h; cases h
  | some c =>
    cases hw : (ofGraph g).classOf? w with
    | none => rw [hv, hw] at h; cases h
    | some d => exact ⟨⟨c, rfl⟩, ⟨d, rfl⟩⟩

section Solved

variable {s : Settings} {clock clock' : Clock} {readings readings' : Nat} {c c' : ConstraintSet} {sol sol' : Solution}

theorem solved_within (hp : c.PartOf c') (h : (solve s clock readings c).result = .ok sol)
    (h' : (solve s clock' readings' c').result = .ok sol') : sol.graph.Within sol'.graph := by
  obtain ⟨k, g, n, stats, hb, hc, -, rfl⟩ := solve_eq_ok h
  obtain ⟨k', g', n', stats', hb', hc', -, rfl⟩ := solve_eq_ok h'
  have htook := Intake.took_build hb
  have htook' := Intake.took_build hb'
  have hwithin := Intake.within_of_took htook htook' fun f hf => hp.facts hf
  exact hwithin.closed htook.wf htook'.wf hc hc'

/-- A solve of more constraints has the variables, the subtypings and the shared classes of a
solve of some of them. -/
theorem solve_extended (hp : c.PartOf c') (h : (solve s clock readings c).result = .ok sol)
    (h' : (solve s clock' readings' c').result = .ok sol') :
    (∀ v, sol.graph.contains v = true → sol'.graph.contains v = true) ∧
      (∀ v w, sol.isSubtype v w = true → sol'.isSubtype v w = true) ∧
      ∀ v w, sol.partition.sameClass? v w = some true → sol'.partition.sameClass? v w = some true := by
  have hg := solved_wellFormed h
  have hg' := solved_wellFormed h'
  have hwithin := solved_within hp h h'
  have hsub : ∀ v w, sol.isSubtype v w = true → sol'.isSubtype v w = true := fun v w => hwithin.isSubtype hg hg'
  refine ⟨fun v => hwithin.contains, hsub, fun v w hvw => ?_⟩
  -- a class is mutual subtyping, of which each half is kept
  obtain ⟨hv, hw⟩ := Partition.contains_of_sameClass? hg (solved_partition h ▸ hvw)
  rw [solved_sameClass h hv hw, Option.some_inj, Bool.and_eq_true] at hvw
  rw [solved_sameClass h' (hwithin.contains hv) (hwithin.contains hw), hsub v w hvw.1, hsub w v hvw.2]
  rfl

end Solved

/-- Two names of one pointer, of which one is stored through. -/
def storedOnce : ConstraintSet where
  subtypings := [⟨⟨"p", []⟩, ⟨"q", []⟩⟩, ⟨⟨"q", []⟩, ⟨"p", []⟩⟩, ⟨⟨"x", []⟩, ⟨"q", [.store]⟩⟩]
  bindings := [⟨.number 1, ⟨⟨"q", []⟩, ⟨"r", []⟩⟩⟩]

def storedTwice : ConstraintSet :=
  { storedOnce with subtypings := ⟨⟨"p", [.store]⟩, ⟨"y", []⟩⟩ :: storedOnce.subtypings.reverse }

/-- With a second store, what is stored through `q` arrives in `y`, and all else stands. -/
theorem storedOnce_extended :
    storedOnce.PartOf storedTwice ∧ ∃ sol sol', (solve .standard (.ticking (.whole 0)) 0 storedOnce).result = .ok sol ∧
      (solve .standard (.ticking (.whole 0)) 0 storedTwice).result = .ok sol' ∧
      sol.isSubtype ⟨"x", []⟩ ⟨"y", []⟩ = false ∧ sol'.isSubtype ⟨"x", []⟩ ⟨"y", []⟩ = true ∧
      sol'.graph.contains ⟨"x", []⟩ = true ∧ sol'.isSubtype ⟨"x", []⟩ ⟨"q", [.store]⟩ = true ∧
      sol'.partition.sameClass? ⟨"p", []⟩ ⟨"q", []⟩ = some true := by
  have hp : storedOnce.PartOf storedTwice := ⟨by decide, by decide⟩
  obtain ⟨sol, h, hxy, hcontains, hstored, hmutual⟩ : ∃ sol,
      (solve .standard (.ticking (.whole 0)) 0 storedOnce).result = .ok sol ∧
        sol.isSubtype ⟨"x", []⟩ ⟨"y", []⟩ = false ∧
        ([⟨"p", []⟩, ⟨"q", []⟩, ⟨"x", []⟩] : List TypeVar).all sol.graph.contains = true ∧
        sol.isSubtype ⟨"x", []⟩ ⟨"q", [.store]⟩ = true ∧
        (sol.isSubtype ⟨"p", []⟩ ⟨"q", []⟩ && sol.isSubtype ⟨"q", []⟩ ⟨"p", []⟩) = true :=
    ⟨_, rfl, by decide, by decide, by decide, by decide⟩
  obtain ⟨sol', h', hxy'⟩ : ∃ sol, (solve .standard (.ticking (.whole 0)) 0 storedTwice).result = .ok sol ∧
      sol.isSubtype ⟨"x", []⟩ ⟨"y", []⟩ = true := ⟨_, rfl, by decide⟩
  simp only [List.all_cons, List.all_nil, Bool.and_true, Bool.and_eq_true] at hcontains
  obtain ⟨hpc, hqc, hxc⟩ := hcontains
  have hpq : sol.partition.sameClass? ⟨"p", []⟩ ⟨"q", []⟩ = some true := by
    rw [solved_sameClass h hpc hqc, hmutual]
  obtain ⟨hkeep, hsub, hsame⟩ := solve_extended hp h h'
  exact ⟨hp, sol, sol', h, h', hxy, hxy', hkeep _ hxc, hsub _ _ hstored, hsame _ _ hpq⟩

end TypeRecovery
