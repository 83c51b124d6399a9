/-
  TypeRecovery.Proofs.Sketch.Rename — sketches under other numbers.

  A sketch is drawn from the labels of its class and the classes they lead to, so where the
  classes have other numbers the sketch names the same classes by their other numbers and
  is otherwise the same. A filler goes with the number of classes.

  Proved:
  - `ofClass_renumbered`: corresponding classes have the same sketch, renamed.
  - `table_renumbered`: two tables of renumbered classes are the same table, renamed: the
    numbers of their sketches correspond one to one, and each target keeps its sketch.
-/

import Mathlib.Data.Set.Function
import TypeRecovery.Proofs.Partition.Renumber
import TypeRecovery.Proofs.Sketch.Table

namespace TypeRecovery

def Sketch.rename (ρ : Int → Int) : Sketch → Sketch
  | .pointer pointee => .pointer (ρ pointee)
  | .struct fields => .struct (fields.map (Layout.renameField ρ))
  | .function params returns => .function (params.map ρ) (returns.map ρ)
  | .primitive width => .primitive width

namespace Shape

variable {f : Nat → Nat} {c c' : TypeClass}

theorem uses_renumbered (h : c.Renumbered f c') : Uses.ofClass c' = (Uses.ofClass c).rename f := by
  rw [Uses.ofClass_eq, Uses.ofClass_eq, h.labels, ← Uses.ofLabels_rename]
  exact congrArg (Uses.ofLabels · c.labels) (funext h.target?)

def renameEntries (f : Nat → Nat) (es : Entries Nat Nat) : Entries Nat Nat := es.map fun e => (e.1, f e.2)

theorem slots_rename (f : Nat → Nat) (filler : Nat) (es : Entries Nat Nat) :
    slots (f filler) (renameEntries f es) = (slots filler es).map (Uses.liftId f) := by
  have hkeys : (renameEntries f es).map (·.1) = es.map (·.1) := by simp [renameEntries, Function.comp_def]
  unfold slots
  rw [hkeys]
  cases (es.map (·.1)).max? with
  | none => rfl
  | some last =>
    rw [List.map_map]
    refine List.map_congr_left fun i _ => ?_
    rw [renameEntries, Entries.lookup?_mapValues]
    cases hi : Entries.lookup? es i <;> simp [hi]

theorem hasGap_rename (f : Nat → Nat) (es : Entries Nat Nat) : hasGap (renameEntries f es) = hasGap es := by
  have hkeys : (renameEntries f es).map (·.1) = es.map (·.1) := by simp [renameEntries, Function.comp_def]
  have hhas : ∀ i, Entries.has (renameEntries f es) i = Entries.has es i := fun i => by
    rw [Bool.eq_iff_iff, Entries.has_iff, Entries.has_iff, hkeys]
  unfold hasGap
  rw [hkeys]
  simp only [hhas]

theorem pointee?_rename (f : Nat → Nat) (u : Uses) : (u.rename f).pointee? = u.pointee?.map f := by
  unfold Uses.pointee?
  cases h : u.load <;> simp [Uses.rename, h]

/-- Corresponding classes have the same sketch, renamed. -/
theorem ofClass_renumbered (h : c.Renumbered f c') (s : Settings) (filler : Nat) :
    (ofClass s (f filler) c').sketch = (ofClass s filler c).sketch.rename (Uses.liftId f) := by
  have hcalled : ((Uses.ofClass c).rename f).isCalled = (Uses.ofClass c).isCalled := by
    simp [Uses.isCalled, Uses.rename]
  have hempty : ((Uses.ofClass c).rename f).fields.isEmpty = (Uses.ofClass c).fields.isEmpty := by
    simp [Uses.rename]
  simp only [ofClass, uses_renumbered h, hcalled, hempty, pointee?_rename]
  split
  · exact congrArg₂ Sketch.function (slots_rename f filler _) (slots_rename f filler _)
  · cases (Uses.ofClass c).pointee? with
    | some p => exact congrArg Sketch.pointer (Uses.liftId_natCast f p).symm
    | none =>
      simp only [Option.map_none]
      split
      · exact congrArg Sketch.primitive (h.leafWidth s)
      · exact congrArg (fun l : Layout => Sketch.struct l.placed) (Layout.ofFields_rename (Uses.liftId f) _)

theorem needsFiller_renumbered (h : c.Renumbered f c') : needsFiller c' = needsFiller c := by
  simp only [needsFiller, uses_renumbered h]
  exact congrArg₂ (· || ·) (hasGap_rename f _) (hasGap_rename f _)

end Shape

namespace SketchTable

/-- `t'` is `t` under other numbers: the numbers correspond one to one, each to the number of
the same sketch, and each target has the corresponding sketch. -/
structure Renamed (ρ : Int → Int) (t t' : SketchTable) : Prop where
  numbers : Set.BijOn ρ {id | (t.sketch? id).isSome = true} {id | (t'.sketch? id).isSome = true}
  sketch? {id : Int} {sketch : Sketch} : t.sketch? id = some sketch → t'.sketch? (ρ id) = some (sketch.rename ρ)
  target? (x : Target) : (t'.target? x).map (·.sketch) = (t.target? x).map fun e => ρ e.sketch

/-! ## Targets -/

theorem target?_enterTarget (t : SketchTable) (x y : Target) (id : Int) :
    ((t.enterTarget x id).target? y).map (·.sketch) = if y = x then some id else (t.target? y).map (·.sketch) := by
  simp only [target?, enterTarget, Entries.lookup?_set]
  split <;> rfl

theorem target?_foldl_enterTarget {es : Entries Target Nat} (hn : (es.map (·.1)).Nodup) (t : SketchTable) (x : Target) :
    ((es.foldl (fun t e => t.enterTarget e.1 e.2) t).target? x).map (·.sketch) =
      ((Entries.lookup? es x).map (Nat.cast : Nat → Int)).or ((t.target? x).map (·.sketch)) := by
  induction es generalizing t with
  | nil => simp
  | cons e es ih =>
    simp only [List.map_cons, List.nodup_cons] at hn
    rw [List.foldl_cons, ih hn.2, target?_enterTarget, Entries.lookup?_cons]
    by_cases hx : x = e.1
    · subst hx
      simp [Entries.lookup?_eq_none_iff.mpr hn.1]
    · simp [hx, Ne.symm hx]

/-- A target has the sketch of its class. -/
theorem target?_sketch (s : Settings) {p : Partition} (hn : (p.targets.map (·.1)).Nodup) (x : Target) :
    ((ofPartition s p).target? x).map (·.sketch) = (Entries.lookup? p.targets x).map (Nat.cast : Nat → Int) :=
  (target?_foldl_enterTarget hn _ x).trans Option.or_none

/-! ## The numbers of a table -/

section Numbers

variable {p : Partition} (hp : p.Numbered) (s : Settings)
include hp

/-- A table has the sketches of the classes and, if a class needs it, the filler. -/
theorem sketch?_cases {z : Int} {sketch : Sketch} (h : (ofPartition s p).sketch? z = some sketch) :
    (∃ id c, p.class? id = some c ∧ z = id ∧ sketch = (Shape.ofClass s p.classes.size c).sketch) ∨
      (z = p.classes.size ∧ sketch = .primitive s.pointerWidth ∧ p.classes.toList.any Shape.needsFiller = true) := by
  by_cases hz : z < 0
  · rw [sketch?_negative hp s hz] at h
    cases h
  · obtain ⟨id, rfl⟩ := Int.eq_ofNat_of_zero_le (Int.not_lt.mp hz)
    by_cases hid : id < p.classes.size
    · obtain ⟨c, hc⟩ := Partition.exists_class? hid
      rw [sketch?_class hp s hc, Option.some_inj] at h
      exact Or.inl ⟨id, c, hc, rfl, h.symm⟩
    · rw [sketch?_beyond hp s (Nat.not_lt.mp hid)] at h
      have hmem := Entries.mem_of_lookup? h
      unfold fillers at hmem
      split at hmem
      · rename_i hany
        simp only [List.mem_singleton, Prod.mk.injEq] at hmem
        exact Or.inr ⟨hmem.1, hmem.2, hany⟩
      · cases hmem

theorem sketch?_filler (h : p.classes.toList.any Shape.needsFiller = true) :
    (ofPartition s p).sketch? p.classes.size = some (.primitive s.pointerWidth) := by
  rw [sketch?_beyond hp s (Nat.le_refl _), fillers, if_pos h]
  simp [Entries.lookup?_cons]

end Numbers

/-! ## Tables of twins -/

open TypeRecovery.Partition in
theorem any_needsFiller {g g' : Graph} (h : Settled g g')
    (hany : (ofGraph g).classes.toList.any Shape.needsFiller = true) :
    (ofGraph g').classes.toList.any Shape.needsFiller = true := by
  obtain ⟨c, hc, hneeds⟩ := List.any_eq_true.mp hany
  obtain ⟨c', hc', hren⟩ := class_renumbered h ((ofGraph_numbered g).class?_id (Array.mem_toList_iff.mp hc))
  refine List.any_eq_true.mpr ⟨c', Array.mem_toList_iff.mpr (Array.mem_of_getElem? hc'), ?_⟩
  rw [Shape.needsFiller_renumbered hren, hneeds]

section Twins

variable {g g' : Graph} (h : Partition.Settled g g') (s : Settings)
include h

open TypeRecovery.Partition (ofGraph renumber)

theorem sketch?_renumbered {z : Int} {sketch : Sketch} (hz : (ofPartition s (ofGraph g)).sketch? z = some sketch) :
    (ofPartition s (ofGraph g')).sketch? (Uses.liftId (renumber (ofGraph g) (ofGraph g')) z) =
      some (sketch.rename (Uses.liftId (renumber (ofGraph g) (ofGraph g')))) := by
  have hnum := Partition.ofGraph_numbered g'
  have hlast : renumber (ofGraph g) (ofGraph g') (ofGraph g).classes.size = (ofGraph g').classes.size :=
    Partition.renumber_beyond (Nat.le_refl _)
  rcases sketch?_cases (Partition.ofGraph_numbered g) s hz with ⟨id, c, hc, rfl, rfl⟩ | ⟨rfl, rfl, hany⟩
  · obtain ⟨c', hc', hren⟩ := Partition.class_renumbered h hc
    rw [Uses.liftId_natCast, sketch?_class hnum s hc', ← hlast, Shape.ofClass_renumbered hren]
  · rw [Uses.liftId_natCast, hlast, sketch?_filler hnum s (any_needsFiller h hany)]
    rfl

/-- The number of a sketch leads back to itself. -/
theorem liftId_renumber_inv {z : Int} (hz : ((ofPartition s (ofGraph g)).sketch? z).isSome = true) :
    Uses.liftId (renumber (ofGraph g') (ofGraph g)) (Uses.liftId (renumber (ofGraph g) (ofGraph g')) z) = z := by
  obtain ⟨sketch, hsketch⟩ := Option.isSome_iff_exists.mp hz
  rcases sketch?_cases (Partition.ofGraph_numbered g) s hsketch with ⟨id, c, hc, rfl, -⟩ | ⟨rfl, -, -⟩
  · rw [Uses.liftId_natCast, Uses.liftId_natCast, Partition.renumber_inv h (Partition.class?_lt hc)]
  · rw [Uses.liftId_natCast, Partition.renumber_beyond (Nat.le_refl _), Uses.liftId_natCast,
      Partition.renumber_beyond (Nat.le_refl _)]

theorem sketch?_isSome_renumbered {z : Int} (hz : ((ofPartition s (ofGraph g)).sketch? z).isSome = true) :
    ((ofPartition s (ofGraph g')).sketch? (Uses.liftId (renumber (ofGraph g) (ofGraph g')) z)).isSome = true := by
  obtain ⟨sketch, hsketch⟩ := Option.isSome_iff_exists.mp hz
  rw [sketch?_renumbered h s hsketch]
  rfl

/-- The tables of twins are one table under other numbers. -/
theorem table_renumbered : Renamed (Uses.liftId (renumber (ofGraph g) (ofGraph g')))
    (ofPartition s (ofGraph g)) (ofPartition s (ofGraph g')) where
  numbers := by
    refine ⟨fun z hz => sketch?_isSome_renumbered h s hz, fun x hx y hy hxy => ?_, fun z hz => ?_⟩
    · rw [← liftId_renumber_inv h s hx, hxy, liftId_renumber_inv h s hy]
    · exact ⟨_, sketch?_isSome_renumbered h.symm s hz, liftId_renumber_inv h.symm s hz⟩
  sketch? := sketch?_renumbered h s
  target? x := by
    have hcomp : ((ofPartition s (ofGraph g)).target? x).map (fun e => Uses.liftId (renumber (ofGraph g) (ofGraph g')) e.sketch) =
        (((ofPartition s (ofGraph g)).target? x).map (·.sketch)).map (Uses.liftId (renumber (ofGraph g) (ofGraph g'))) := by
      rw [Option.map_map]
      rfl
    rw [hcomp, target?_sketch s (Partition.targets_nodup g'), target?_sketch s (Partition.targets_nodup g),
      Partition.targets_renumbered h]
    cases Entries.lookup? (ofGraph g).targets x <;> simp

end Twins

end SketchTable

end TypeRecovery
