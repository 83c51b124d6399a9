/-
  TypeRecovery.Proofs.Sketch.Accounting — nothing a solve knows is lost silently.

  A variable of the graph that extends another by a label is a step from the class of the one
  to the class of the other. The table of the solve holds for the first class a sketch that
  shows the step, or a report that accounts for its loss. Fields have positive sizes since a
  constraint with any other field is not admitted, and only so does a dropped field overlap
  a placed one.

  Proved of a solve that succeeds:
  - `solved_bits_pos`: the fields by which a class leads anywhere have positive sizes.
  - `solved_accounts`: every step is shown or accounted for, and a class with a primitive
    sketch has no member that anything extends.
-/

import TypeRecovery.Proofs.Graph.Admission
import TypeRecovery.Proofs.Sketch.Steps
import TypeRecovery.Proofs.Sketch.Table
import TypeRecovery.Proofs.Solution

namespace TypeRecovery

section Solved

variable {s : Settings} {clock : Clock} {readings : Nat} {c : ConstraintSet} {sol : Solution}
  (h : (solve s clock readings c).result = .ok sol)
include h

theorem solved_table : sol.table = .ofPartition s sol.partition := by
  obtain ⟨k, g, n, stats, -, -, -, rfl⟩ := solve_eq_ok h
  rfl

theorem solved_bits_pos {cls : TypeClass} (hcls : cls ∈ sol.partition.classes) {f : Field} {d : Nat}
    (hd : cls.target? (.field f) = some d) : 0 < f.bits := by
  have hwf := solved_wellFormed h
  rw [solved_partition h] at hcls
  obtain ⟨i, -, j, hj, -⟩ := Partition.exists_child_of_target? hcls hd
  obtain ⟨-, v, -, hv⟩ := hwf.extends_ (hwf.mem_children_iff.mp hj)
  obtain ⟨k, g, n, stats, hb, hc, -, rfl⟩ := solve_eq_ok h
  have htook := Intake.took_build hb
  have hbare := Graph.closeFrom_bare htook.wf (.refl _) hc
  have hcontains : k.graph.contains (v.extend (.field f)) = true :=
    htook.wf.contains_iff.mpr ⟨j, (Graph.typeVar?_of_bare hbare j).symm.trans hv⟩
  exact htook.bits_pos hcontains (List.mem_append_right _ (List.mem_singleton.mpr rfl))

/-- Every step from a class is part of its sketch or reported, and only a class without steps
is a primitive. -/
theorem solved_accounts :
    (∀ v l, sol.graph.contains (v.extend l) = true → ∃ cls next sketch, sol.partition.classOf? v = some cls ∧
      sol.partition.classOf? (v.extend l) = some next ∧ sol.table.sketch? cls.id = some sketch ∧
      (sketch.Shows l next.id ∨ ∃ r ∈ sol.table.reportsOf cls.id, cls.Loss sketch r l next.id)) ∧
    ∀ cls ∈ sol.partition.classes, ∀ w, sol.table.sketch? cls.id = some (.primitive w) →
      ∀ i ∈ cls.members, sol.graph.children i = [] := by
  have hp := solved_partition h
  have hnum : sol.partition.Numbered := hp ▸ Partition.ofGraph_numbered sol.graph
  have htidy : ∀ cls ∈ sol.partition.classes, Partition.Tidy cls.edges := by
    rw [hp]
    exact fun cls => Partition.tidy_of_mem
  rw [solved_table h]
  constructor
  · intro v l hv
    obtain ⟨cls, next, hcls, hnext, htarget⟩ := Partition.target?_extend (solved_wellFormed h) (solved_saturated h) hv
    have hmem := Partition.mem_of_classOf? hcls
    rw [← hp] at hcls hnext hmem
    have hid := hnum.class?_id hmem
    refine ⟨cls, next, _, hcls, hnext, SketchTable.sketch?_class hnum s hid, ?_⟩
    rw [SketchTable.reportsOf_class hnum s hid]
    exact Shape.ofClass_accounts (htidy cls hmem) (fun f d => solved_bits_pos h hmem) s _ htarget
  · intro cls hmem w hw i hi
    rw [SketchTable.sketch?_class hnum s (hnum.class?_id hmem), Option.some_inj] at hw
    refine List.eq_nil_iff_forall_not_mem.mpr fun ⟨l, j⟩ hj => ?_
    have hnone := Shape.ofClass_primitive (htidy cls hmem) s sol.partition.classes.size hw l
    rw [hp] at hmem
    exact Partition.target?_ne_none_of_child hmem hi hj hnone

end Solved

/-- A region read at offset 0 as 32 bits and as 16 bits, and called. -/
def mixedUses : ConstraintSet where
  subtypings := [⟨⟨"r", [.field ⟨32, 0⟩]⟩, ⟨"x", []⟩⟩, ⟨⟨"r", [.field ⟨16, 0⟩]⟩, ⟨"y", []⟩⟩, ⟨⟨"r", [.output 1]⟩, ⟨"z", []⟩⟩]
  bindings := []

theorem mixedUses_accounts :
    ∃ sol, (solve .standard (.ticking (.whole 0)) 0 mixedUses).result = .ok sol ∧
      sol.graph.contains (TypeVar.extend ⟨"r", []⟩ (.field ⟨16, 0⟩)) = true ∧
      ∃ cls next sketch, sol.partition.classOf? ⟨"r", []⟩ = some cls ∧
        sol.partition.classOf? ⟨"r", [.field ⟨16, 0⟩]⟩ = some next ∧ sol.table.sketch? cls.id = some sketch ∧
        (sketch.Shows (.field ⟨16, 0⟩) next.id ∨
          ∃ r ∈ sol.table.reportsOf cls.id, cls.Loss sketch r (.field ⟨16, 0⟩) next.id) := by
  obtain ⟨sol, h, hv⟩ : ∃ sol, (solve .standard (.ticking (.whole 0)) 0 mixedUses).result = .ok sol ∧
      sol.graph.contains (TypeVar.extend ⟨"r", []⟩ (.field ⟨16, 0⟩)) = true := ⟨_, rfl, by decide⟩
  exact ⟨sol, h, hv, (solved_accounts h).1 _ _ hv⟩

end TypeRecovery
