/-
  TypeRecovery.Proofs.Sketch.Table — what the table of a partition holds.

  The table holds the sketch and the reports of each class under the number of the class, and
  at most one further sketch, the filler, numbered after the last class. Entering the targets
  changes neither.

  Proved, for a partition whose classes stand at their numbers (`Numbered`):
  - `sketch?_class`, `sketch?_beyond`, `sketch?_negative`: the sketch of every number.
  - `reportsOf_class`: the reports on every class.
-/

import TypeRecovery.Proofs.Entries
import TypeRecovery.Proofs.Partition.Classes
import TypeRecovery.Sketch.Shape

namespace TypeRecovery

namespace SketchTable

open TypeRecovery.Partition (Numbered)

/-- What holds of the sketches and reports of all classes before a target is entered, and is kept by
entering one, holds of the table. -/
theorem ofPartition_induction {motive : SketchTable → Prop} {s : Settings} {p : Partition}
    (start : motive
      { sketches := (classSketches s p).map (fun e => (e.1, e.2.sketch)) ++ fillers s p
        targets := []
        reports := ((classSketches s p).map fun e => (e.1, e.2.reports)).filter fun e => !e.2.isEmpty })
    (enter : ∀ t x id, motive t → motive (t.enterTarget x id)) : motive (ofPartition s p) :=
  List.foldlRecOn p.targets _ start fun t ht e _ => enter t e.1 e.2 ht

theorem sketches_ofPartition (s : Settings) (p : Partition) : (ofPartition s p).sketches =
    (classSketches s p).map (fun e => (e.1, e.2.sketch)) ++ fillers s p :=
  ofPartition_induction (motive := fun t => t.sketches = _) rfl fun _ _ _ h => h

theorem reports_ofPartition (s : Settings) (p : Partition) : (ofPartition s p).reports =
    ((classSketches s p).map fun e => (e.1, e.2.reports)).filter fun e => !e.2.isEmpty :=
  ofPartition_induction (motive := fun t => t.reports = _) rfl fun _ _ _ h => h

section Classes

variable {p : Partition} (hp : p.Numbered) (s : Settings)
include hp

theorem mem_classSketches {z : Int} {shape : Shape} : (z, shape) ∈ classSketches s p ↔
    ∃ id c, p.class? id = some c ∧ z = id ∧ shape = Shape.ofClass s p.classes.size c := by
  simp only [classSketches, List.mem_map, Array.mem_toList_iff, Prod.mk.injEq]
  constructor
  · rintro ⟨c, hc, rfl, rfl⟩
    exact ⟨c.id, c, hp.class?_id hc, rfl, rfl⟩
  · rintro ⟨id, c, hc, rfl, rfl⟩
    exact ⟨c, Array.mem_of_getElem? hc, by rw [hp id c hc], rfl⟩

theorem lookup?_classSketches (id : Nat) :
    Entries.lookup? (classSketches s p) (id : Int) = (p.class? id).map (Shape.ofClass s p.classes.size) := by
  refine Entries.lookup?_eq_of_mem_iff fun shape => ?_
  rw [mem_classSketches hp, Option.map_eq_some_iff]
  constructor
  · rintro ⟨id', c, hc, he, rfl⟩
    cases Int.ofNat_inj.mp he
    exact ⟨c, hc, rfl⟩
  · rintro ⟨c, hc, rfl⟩
    exact ⟨id, c, hc, rfl, rfl⟩

theorem sketch?_class {id : Nat} {c : TypeClass} (hc : p.class? id = some c) :
    (ofPartition s p).sketch? id = some (Shape.ofClass s p.classes.size c).sketch := by
  rw [sketch?, sketches_ofPartition, Entries.lookup?_append, Entries.lookup?_mapValues Shape.sketch,
    lookup?_classSketches hp, hc]
  rfl

theorem sketch?_beyond {id : Nat} (h : p.classes.size ≤ id) :
    (ofPartition s p).sketch? id = Entries.lookup? (fillers s p) (id : Int) := by
  rw [sketch?, sketches_ofPartition, Entries.lookup?_append, Entries.lookup?_mapValues Shape.sketch,
    lookup?_classSketches hp, Partition.class?_eq_none h]
  rfl

theorem sketch?_negative {z : Int} (h : z < 0) : (ofPartition s p).sketch? z = none := by
  rw [sketch?, sketches_ofPartition, Entries.lookup?_eq_none_iff, List.map_append, List.mem_append, not_or]
  constructor
  · intro hz
    obtain ⟨e, he, rfl⟩ := List.mem_map.mp hz
    obtain ⟨⟨z, shape⟩, hshape, rfl⟩ := List.mem_map.mp he
    obtain ⟨id, c, -, rfl, -⟩ := (mem_classSketches hp s).mp hshape
    exact absurd h (Int.not_lt.mpr (Int.natCast_nonneg id))
  · intro hz
    unfold fillers at hz
    split at hz <;> simp at hz
    omega

theorem reportsOf_class {id : Nat} {c : TypeClass} (hc : p.class? id = some c) :
    (ofPartition s p).reportsOf id = (Shape.ofClass s p.classes.size c).reports := by
  have hlookup : Entries.lookup? (ofPartition s p).reports (id : Int) =
      if (Shape.ofClass s p.classes.size c).reports.isEmpty then none
      else some (Shape.ofClass s p.classes.size c).reports := by
    refine Entries.lookup?_eq_of_mem_iff fun rs => ?_
    rw [reports_ofPartition, List.mem_filter, List.mem_map]
    constructor
    · rintro ⟨⟨⟨z, shape⟩, hshape, he⟩, hne⟩
      cases he
      obtain ⟨id', c', hc', he, rfl⟩ := (mem_classSketches hp s).mp hshape
      cases Int.ofNat_inj.mp he
      cases hc.symm.trans hc'
      rw [if_neg (by simpa using hne)]
    · intro h
      split at h
      · cases h
      · rename_i hne
        cases h
        exact ⟨⟨_, (mem_classSketches hp s).mpr ⟨id, c, hc, rfl, rfl⟩, rfl⟩, by simpa using hne⟩
  rw [reportsOf, hlookup]
  split
  · rename_i h
    exact (List.isEmpty_iff.mp h).symm
  · rfl

end Classes

end SketchTable

end TypeRecovery
