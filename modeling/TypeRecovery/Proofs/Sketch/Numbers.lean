/-
  TypeRecovery.Proofs.Sketch.Numbers — the numbers in the table of a solve are tight.

  Sketches refer to each other by number, also to sketches that are drawn later and to one, the
  filler, that no class has. The numbers of the classes come from the partition, that of the
  filler is the next one. It is in the table exactly when a function has a gap, a slot that no
  label names below one that a label names, and it stands in all gaps of all functions. So
  whatever a sketch or a target refers to is in the table.

  Proved:
  - `slots_filled`, `hasGap_iff`: the slots of a function, and when one of them is a gap.
  - `references_ofClass`: what the sketch of a class refers to.
  - `ofPartition_closed`, `target_class`: the references of the table and of its targets.
  - `solved_table_tight`: the numbers of the table of a solve that succeeds.
-/

import TypeRecovery.Proofs.Sketch.Accounting
import TypeRecovery.Proofs.Sketch.Closed
import TypeRecovery.Proofs.Sketch.Rename

namespace TypeRecovery

/-! ## Slots -/

namespace TypeClass

/-- No label names a slot below one that a label names. -/
def Gap (c : TypeClass) (slot : Nat → Label) : Prop :=
  ∃ i j, i < j ∧ c.target? (slot i) = none ∧ c.target? (slot j) ≠ none

/-- There is a slot for each index up to the largest that leads somewhere: it holds where that
index leads, or else the filler. -/
structure Filled (c : TypeClass) (slot : Nat → Label) (filler : Nat) (slots : List Int) : Prop where
  length_iff {i : Nat} : i < slots.length ↔ ∃ j, i ≤ j ∧ c.target? (slot j) ≠ none
  named {i d : Nat} : c.target? (slot i) = some d → slots[i]? = some (d : Int)
  missing {i : Nat} : i < slots.length → c.target? (slot i) = none → slots[i]? = some (filler : Int)

/-- A slot holds where its index leads, unless it is a gap. -/
theorem Filled.mem {c : TypeClass} {slot : Nat → Label} {filler : Nat} {slots : List Int} (h : c.Filled slot filler slots)
    {r : Int} (hr : r ∈ slots) : (∃ i d, c.target? (slot i) = some d ∧ r = d) ∨ (c.Gap slot ∧ r = filler) := by
  obtain ⟨i, hi⟩ := List.mem_iff_getElem?.mp hr
  have hlt : i < slots.length := (List.getElem?_eq_some_iff.mp hi).1
  cases ht : c.target? (slot i) with
  | some d =>
    rw [h.named ht, Option.some_inj] at hi
    exact Or.inl ⟨i, d, ht, hi.symm⟩
  | none =>
    rw [h.missing hlt ht, Option.some_inj] at hi
    obtain ⟨j, hij, hj⟩ := h.length_iff.mp hlt
    have hne : i ≠ j := by
      rintro rfl
      exact hj ht
    exact Or.inr ⟨⟨i, j, Nat.lt_of_le_of_ne hij hne, ht, hj⟩, hi.symm⟩

end TypeClass

namespace Shape

section Slots

variable {es : Entries Nat Nat} {last : Nat} (hlast : (es.map (·.1)).max? = some last)
include hlast

theorem le_last_iff {i : Nat} : i ≤ last ↔ ∃ j, i ≤ j ∧ Entries.lookup? es j ≠ none := by
  obtain ⟨hmem, hle⟩ := List.max?_eq_some_iff.mp hlast
  have hkey : ∀ j, Entries.lookup? es j ≠ none ↔ j ∈ es.map (·.1) := fun j => by
    rw [ne_eq, Entries.lookup?_eq_none_iff, not_not]
  constructor
  · intro hi
    exact ⟨last, hi, (hkey last).mpr hmem⟩
  · rintro ⟨j, hij, hj⟩
    exact Nat.le_trans hij (hle j ((hkey j).mp hj))

theorem slots_eq (filler : Nat) :
    slots filler es = (List.range (last + 1)).map fun i => (((Entries.lookup? es i).getD filler : Nat) : Int) := by
  unfold slots
  rw [hlast]

end Slots

theorem lookup?_of_max?_none {es : Entries Nat Nat} (h : (es.map (·.1)).max? = none) (j : Nat) :
    Entries.lookup? es j = none := by
  rw [List.max?_eq_none_iff] at h
  rw [Entries.lookup?_eq_none_iff, h]
  exact List.not_mem_nil

variable {c : TypeClass} {slot : Nat → Label} {es : Entries Nat Nat}
  (hes : ∀ i, Entries.lookup? es i = c.target? (slot i))
include hes

theorem slots_filled (filler : Nat) : c.Filled slot filler (slots filler es) := by
  cases hlast : (es.map (·.1)).max? with
  | none =>
    have hnone := fun j => (hes j).symm.trans (lookup?_of_max?_none hlast j)
    have hslots : slots filler es = [] := by unfold slots; rw [hlast]
    rw [hslots]
    refine ⟨by simp [hnone], fun {i d} h => ?_, by simp⟩
    rw [hnone] at h
    cases h
  | some last =>
    have hlen : ∀ {i}, i < (slots filler es).length ↔ i ≤ last := fun {i} => by
      rw [slots_eq hlast, List.length_map, List.length_range]
      exact Nat.lt_succ_iff
    refine ⟨fun {i} => ?_, fun {i d} h => slots_getElem? ((hes i).trans h) filler, fun {i} hi h => ?_⟩
    · rw [hlen, le_last_iff hlast]
      simp only [hes]
    · have hrange : (List.range (last + 1))[i]? = some i := List.getElem?_range (Nat.lt_succ_of_le (hlen.mp hi))
      rw [slots_eq hlast, List.getElem?_map, hrange, Option.map_some, hes, h]
      rfl

theorem hasGap_iff : hasGap es = true ↔ c.Gap slot := by
  unfold hasGap TypeClass.Gap
  cases hlast : (es.map (·.1)).max? with
  | none =>
    have hnone := fun j => (hes j).symm.trans (lookup?_of_max?_none hlast j)
    simp [hnone]
  | some last =>
    have hhas : ∀ i, (!Entries.has es i) = true ↔ c.target? (slot i) = none := fun i => by
      rw [Bool.not_eq_true', ← Bool.not_eq_true, Entries.has_iff, ← Entries.lookup?_eq_none_iff, hes]
    simp only [List.any_eq_true, List.mem_range, hhas]
    constructor
    · rintro ⟨i, hi, hnone⟩
      obtain ⟨j, hij, hj⟩ := (le_last_iff hlast).mp (Nat.lt_succ_iff.mp hi)
      rw [hes] at hj
      have hne : i ≠ j := by
        rintro rfl
        exact hj hnone
      exact ⟨i, j, Nat.lt_of_le_of_ne hij hne, hnone, hj⟩
    · rintro ⟨i, j, hij, hnone, hj⟩
      rw [← hes] at hj
      exact ⟨i, Nat.lt_succ_of_le ((le_last_iff hlast).mpr ⟨j, Nat.le_of_lt hij, hj⟩), hnone⟩

end Shape

namespace Shape

/-! ## References -/

theorem needsFiller_iff {c : TypeClass} (hc : Partition.Tidy c.edges) :
    needsFiller c = true ↔ c.Gap .input ∨ c.Gap .output := by
  rw [needsFiller, Bool.or_eq_true, hasGap_iff (Uses.lookup?_inputs hc), hasGap_iff (Uses.lookup?_outputs hc)]

/-- The sketch of a class that is called holds where its slots lead. -/
theorem function_filled (s : Settings) (filler : Nat) {c : TypeClass} (hc : Partition.Tidy c.edges)
    {params returns : List Int} (h : (ofClass s filler c).sketch = .function params returns) :
    c.Filled .input filler params ∧ c.Filled .output filler returns := by
  rcases ofClass_cases s filler c with ⟨-, -, he⟩ | ⟨-, p, -, he⟩ | ⟨-, he⟩ | ⟨-, he⟩
  · rw [he] at h
    cases h
    exact ⟨slots_filled (Uses.lookup?_inputs hc) filler, slots_filled (Uses.lookup?_outputs hc) filler⟩
  · rw [he] at h; cases h
  · rw [he] at h; cases h
  · rw [he] at h; cases h

/-- Only a function has gaps. -/
theorem function_of_gap (s : Settings) (filler : Nat) {c : TypeClass} (hc : Partition.Tidy c.edges)
    (h : c.Gap .input ∨ c.Gap .output) : ∃ params returns, (ofClass s filler c).sketch = .function params returns := by
  have hcalled : (Uses.ofClass c).isCalled = true := by
    rw [Uses.isCalled_iff hc]
    rcases h with ⟨-, j, -, -, hj⟩ | ⟨-, j, -, -, hj⟩
    · obtain ⟨d, hd⟩ := Option.ne_none_iff_exists'.mp hj
      exact ⟨j, d, Or.inl hd⟩
    · obtain ⟨d, hd⟩ := Option.ne_none_iff_exists'.mp hj
      exact ⟨j, d, Or.inr hd⟩
  unfold ofClass
  simp only [hcalled, if_true]
  exact ⟨_, _, rfl⟩

/-- A sketch refers to where the labels of its class lead; only a gap of a function holds the filler. -/
theorem references_ofClass (s : Settings) (filler : Nat) {c : TypeClass} (hc : Partition.Tidy c.edges) {r : Int}
    (hr : r ∈ (ofClass s filler c).sketch.references) :
    (∃ l d, c.target? l = some d ∧ r = d) ∨ (needsFiller c = true ∧ r = filler) := by
  rcases ofClass_cases s filler c with ⟨-, -, h⟩ | ⟨-, pointee, hp, h⟩ | ⟨-, h⟩ | ⟨-, h⟩
  · rw [h] at hr
    rw [needsFiller_iff hc]
    rcases List.mem_append.mp hr with hr | hr
    · rcases (slots_filled (Uses.lookup?_inputs hc) filler).mem hr with ⟨i, d, hd, hr⟩ | ⟨hgap, hr⟩
      · exact Or.inl ⟨.input i, d, hd, hr⟩
      · exact Or.inr ⟨Or.inl hgap, hr⟩
    · rcases (slots_filled (Uses.lookup?_outputs hc) filler).mem hr with ⟨i, d, hd, hr⟩ | ⟨hgap, hr⟩
      · exact Or.inl ⟨.output i, d, hd, hr⟩
      · exact Or.inr ⟨Or.inr hgap, hr⟩
  · rw [h] at hr
    rw [Uses.pointee?, Uses.load_ofClass hc, Uses.store_ofClass hc, Option.or_eq_some_iff] at hp
    rcases hp with hload | ⟨-, hstore⟩
    · exact Or.inl ⟨.load, pointee, hload, List.mem_singleton.mp hr⟩
    · exact Or.inl ⟨.store, pointee, hstore, List.mem_singleton.mp hr⟩
  · rw [h] at hr
    obtain ⟨f, hf, rfl⟩ := List.mem_map.mp hr
    obtain ⟨e, rest, he, rfl⟩ := (Layout.ofFields_taken (Uses.ofClass c).fields).front hf
    have hmem : e ∈ (Uses.ofClass c).fields := Layout.mem_of_mem_group he List.mem_cons_self
    obtain ⟨d, hd, ht⟩ := (Uses.mem_fields hc).mp hmem
    exact Or.inl ⟨.field e.1, d, hd, ht⟩
  · rw [h] at hr
    cases hr

end Shape

namespace Partition

variable {g : Graph} (hg : g.WellFormed)
include hg

theorem classOfNode_lt {i : Nat} (hi : i < g.size) : classOfNode (ofGraph g).classOf i < (ofGraph g).classes.size := by
  obtain ⟨id, members, hm, him⟩ := exists_position hg hi
  rw [classOfNode_ofGraph hg hm him]
  exact class?_lt (by rw [class?_ofGraph, hm, Option.map_some])

/-- A class leads to classes only. -/
theorem target?_lt {c : TypeClass} (hc : c ∈ (ofGraph g).classes) {l : Label} {d : Nat} (h : c.target? l = some d) :
    d < (ofGraph g).classes.size := by
  obtain ⟨i, -, j, hj, rfl⟩ := exists_child_of_target? hc h
  exact classOfNode_lt hg (hg.child_lt (hg.mem_children_iff.mp hj)).2

/-- A target is bound to a class of the partition. -/
theorem exists_target {x : Target} {d : Nat} (h : Entries.lookup? (ofGraph g).targets x = some d) :
    ∃ c, (ofGraph g).target? x = some c ∧ c.id = d := by
  have hlookup := h
  rw [lookup?_targets hg] at h
  obtain ⟨v, -, h⟩ := Option.bind_eq_some_iff.mp h
  obtain ⟨c, hc, rfl⟩ := Option.map_eq_some_iff.mp h
  obtain ⟨u, -, hu⟩ := Option.bind_eq_some_iff.mp hc
  refine ⟨c, ?_, rfl⟩
  rw [target?, hlookup, Option.bind_some]
  exact (ofGraph_numbered g).class?_id (mem_of_classOf? hu)

end Partition

namespace SketchTable

open TypeRecovery.Partition (Numbered ofGraph)

/-! ## Numbers of sketches -/

theorem ids_of_numbered {p : Partition} (hp : p.Numbered) : p.classes.toList.map (·.id) = List.range p.classes.size := by
  refine List.ext_getElem? fun i => ?_
  rw [List.getElem?_map, Array.getElem?_toList]
  by_cases hi : i < p.classes.size
  · obtain ⟨c, hc⟩ := Partition.exists_class? hi
    have hget : p.classes[i]? = some c := hc
    rw [hget, Option.map_some, hp i c hc, List.getElem?_range hi]
  · have hget : p.classes[i]? = none := Partition.class?_eq_none (Nat.not_lt.mp hi)
    rw [hget, Option.map_none, List.getElem?_eq_none (by simpa using hi)]

theorem ids_nodup {p : Partition} (hp : p.Numbered) (s : Settings) : ((ofPartition s p).sketches.map (·.1)).Nodup := by
  have hclasses : ((classSketches s p).map fun e => (e.1, e.2.sketch)).map (·.1) =
      (List.range p.classes.size).map (Nat.cast : Nat → Int) := by
    rw [← ids_of_numbered hp]
    simp [classSketches, Function.comp_def]
  rw [sketches_ofPartition, List.map_append, hclasses]
  refine List.nodup_append.mpr ⟨List.nodup_range.map fun _ _ => Int.ofNat_inj.mp, ?_, fun x hx y hy => ?_⟩
  · unfold fillers
    split <;> simp
  · obtain ⟨i, hi, rfl⟩ := List.mem_map.mp hx
    have hlast : y = p.classes.size := by
      unfold fillers at hy
      split at hy <;> simp_all
    rw [hlast]
    exact fun he => Nat.ne_of_lt (List.mem_range.mp hi) (Int.ofNat_inj.mp he)

/-! ## References of sketches and targets -/

theorem ofPartition_closed {g : Graph} (hg : g.WellFormed) (s : Settings) : (ofPartition s (ofGraph g)).Closed := by
  intro id sketch hsketch r hr
  have hnum := Partition.ofGraph_numbered g
  rcases sketch?_cases hnum s hsketch with ⟨_, c, hc, -, rfl⟩ | ⟨-, rfl, -⟩
  · have hmem : c ∈ (ofGraph g).classes := Array.mem_of_getElem? hc
    rcases Shape.references_ofClass s _ (Partition.tidy_of_mem hmem) hr with ⟨l, d, hd, rfl⟩ | ⟨hneeds, rfl⟩
    · obtain ⟨next, hnext⟩ := Partition.exists_class? (Partition.target?_lt hg hmem hd)
      rw [sketch?_class hnum s hnext]
      rfl
    · rw [sketch?_filler hnum s (List.any_eq_true.mpr ⟨c, Array.mem_toList_iff.mpr hmem, hneeds⟩)]
      rfl
  · cases hr

/-- Every entry stands under its own target, and names one number for its class and its sketch. -/
structure Straight (t : SketchTable) : Prop where
  nodup : (t.targets.map (·.1)).Nodup
  entry {x : Target} {e : TargetSketch} : t.target? x = some e → e.target = x ∧ e.classId = e.sketch

theorem Straight.enterTarget {t : SketchTable} (h : t.Straight) (x : Target) (id : Int) : (t.enterTarget x id).Straight where
  nodup := Entries.nodup_set h.nodup x _
  entry {y e} he := by
    unfold target? SketchTable.enterTarget at he
    rw [Entries.lookup?_set] at he
    split at he
    · rename_i hy
      cases he
      exact ⟨hy.symm, rfl⟩
    · exact h.entry he

theorem ofPartition_straight (s : Settings) (p : Partition) : (ofPartition s p).Straight := by
  refine ofPartition_induction ⟨List.nodup_nil, fun {x e} he => ?_⟩ fun t x id ht => ht.enterTarget x id
  cases he

/-- A target of the table has the number of the class that it is bound to, twice. -/
theorem target_class {g : Graph} (hg : g.WellFormed) (s : Settings) {x : Target} {e : TargetSketch}
    (h : (ofPartition s (ofGraph g)).target? x = some e) :
    ∃ c, (ofGraph g).target? x = some c ∧ e.target = x ∧ e.classId = c.id ∧ e.sketch = c.id ∧
      c.id < (ofGraph g).classes.size := by
  obtain ⟨hx, hid⟩ := (ofPartition_straight s (ofGraph g)).entry h
  have hsketch := target?_sketch s (Partition.targets_nodup g) x
  rw [h, Option.map_some] at hsketch
  obtain ⟨d, hd, hed⟩ := Option.map_eq_some_iff.mp hsketch.symm
  obtain ⟨c, hc, rfl⟩ := Partition.exists_target hg hd
  obtain ⟨id, -, hcid⟩ := Option.bind_eq_some_iff.mp hc
  have hnum := Partition.ofGraph_numbered g id c hcid
  exact ⟨c, hc, hx, hid.trans hed.symm, hed.symm, hnum ▸ Partition.class?_lt hcid⟩

theorem exists_entry {p : Partition} (hn : (p.targets.map (·.1)).Nodup) (s : Settings) {x : Target} {c : TypeClass}
    (h : p.target? x = some c) : ∃ e, (ofPartition s p).target? x = some e := by
  obtain ⟨d, hd, -⟩ := Option.bind_eq_some_iff.mp h
  have hsketch := target?_sketch s hn x
  rw [hd] at hsketch
  obtain ⟨e, he, -⟩ := Option.map_eq_some_iff.mp hsketch
  exact ⟨e, he⟩

/-! ## The document -/

/-- The document of `t`: a member for each sketch, under its number, and an entry for each target.
Whatever a member or an entry refers to is the number of a member. -/
structure HandsOver (t : SketchTable) (members : List (String × Json)) (entries : List Json) : Prop where
  json : t.toJson = .object [("sketches", .object members), ("targets", .list entries)]
  member_iff {name : String} {json : Json} : (name, json) ∈ members ↔
    ∃ id sketch, t.sketch? id = some sketch ∧ name = toString id ∧ json = sketch.toJson
  entry_iff {json : Json} : json ∈ entries ↔ ∃ x e, t.target? x = some e ∧ json = targetJson e
  reference {id : Int} {sketch : Sketch} : t.sketch? id = some sketch →
    ∀ r ∈ sketch.references, toString r ∈ members.map (·.1)
  target {x : Target} {e : TargetSketch} : t.target? x = some e → toString e.sketch ∈ members.map (·.1)

theorem handsOver {t : SketchTable} (hn : (t.sketches.map (·.1)).Nodup) (hs : t.Straight) (hc : t.Closed)
    (htarget : ∀ x e, t.target? x = some e → (t.sketch? e.sketch).isSome = true) :
    ∃ members entries, t.HandsOver members entries := by
  have hmember : ∀ {name : String} {json : Json},
      (name, json) ∈ t.sortedSketches.map (fun e => (toString e.1, e.2.toJson)) ↔
        ∃ id sketch, t.sketch? id = some sketch ∧ name = toString id ∧ json = sketch.toJson := by
    intro name json
    simp only [sortedSketches, List.mem_map, List.mem_mergeSort, Prod.exists, Prod.mk.injEq,
      ← Entries.lookup?_eq_some_iff hn, sketch?]
    constructor
    · rintro ⟨id, sketch, h, rfl, rfl⟩
      exact ⟨id, sketch, h, rfl, rfl⟩
    · rintro ⟨id, sketch, h, rfl, rfl⟩
      exact ⟨id, sketch, h, rfl, rfl⟩
  have hkey : ∀ {id : Int}, (t.sketch? id).isSome = true →
      toString id ∈ (t.sortedSketches.map fun e => (toString e.1, e.2.toJson)).map (·.1) := by
    intro id h
    obtain ⟨sketch, hsketch⟩ := Option.isSome_iff_exists.mp h
    exact List.mem_map.mpr ⟨_, hmember.mpr ⟨id, sketch, hsketch, rfl, rfl⟩, rfl⟩
  refine ⟨_, _, rfl, hmember, fun {json} => ?_, fun h r hr => hkey (hc _ _ h r hr), fun h => hkey (htarget _ _ h)⟩
  simp only [sortedTargets, List.mem_map, List.mem_mergeSort, Prod.exists, target?]
  constructor
  · rintro ⟨e, ⟨x, e', hmem, rfl⟩, rfl⟩
    exact ⟨x, e', (Entries.lookup?_eq_some_iff hs.nodup).mpr hmem, rfl⟩
  · rintro ⟨x, e, h, rfl⟩
    exact ⟨e, ⟨x, e, Entries.mem_of_lookup? h, rfl⟩, rfl⟩

/-! ## The table of a solve -/

/-- The numbers of the table that settings `s` and a partition give. -/
structure Tight (s : Settings) (p : Partition) (t : SketchTable) : Prop where
  ids_nodup : (t.sketches.map (·.1)).Nodup
  /-- The classes, and the next number exactly when a function has a gap. -/
  mem_ids {id : Int} : id ∈ t.sketches.map (·.1) ↔ (0 ≤ id ∧ id < p.classes.size) ∨
    (id = p.classes.size ∧ ∃ c ∈ p.classes, (∃ params returns, t.sketch? c.id = some (.function params returns)) ∧
      (c.Gap .input ∨ c.Gap .output))
  filler {sketch : Sketch} : t.sketch? p.classes.size = some sketch → sketch = .primitive s.pointerWidth
  slots {c : TypeClass} {params returns : List Int} : c ∈ p.classes →
    t.sketch? c.id = some (.function params returns) →
    c.Filled .input p.classes.size params ∧ c.Filled .output p.classes.size returns
  closed {id : Int} {sketch : Sketch} : t.sketch? id = some sketch → ∀ r ∈ sketch.references, r ∈ t.sketches.map (·.1)
  target {x : Target} {e : TargetSketch} : t.target? x = some e →
    ∃ c, p.target? x = some c ∧ e.target = x ∧ e.classId = c.id ∧ e.sketch = c.id ∧ c.id < p.classes.size
  bound {x : Target} {c : TypeClass} : p.target? x = some c → ∃ e, t.target? x = some e
  reachable? {id : Int} : id ∈ t.sketches.map (·.1) →
    ∃ ids, t.reachable? id = some ids ∧ id ∈ ids ∧ ∀ r ∈ ids, r ∈ t.sketches.map (·.1)
  render? {id : Int} : id ∈ t.sketches.map (·.1) → ∀ depth, ∃ text, t.render? id depth = some text
  document : ∃ members entries, t.HandsOver members entries

theorem mem_ids_ofPartition {g : Graph} (s : Settings) {id : Int} :
    ((ofPartition s (ofGraph g)).sketch? id).isSome = true ↔ (0 ≤ id ∧ id < (ofGraph g).classes.size) ∨
      (id = (ofGraph g).classes.size ∧ ∃ c ∈ (ofGraph g).classes,
        (∃ params returns, (ofPartition s (ofGraph g)).sketch? c.id = some (.function params returns)) ∧
        (c.Gap .input ∨ c.Gap .output)) := by
  have hnum := Partition.ofGraph_numbered g
  constructor
  · intro h
    obtain ⟨sketch, hsketch⟩ := Option.isSome_iff_exists.mp h
    rcases sketch?_cases hnum s hsketch with ⟨i, c, hc, rfl, -⟩ | ⟨rfl, -, hany⟩
    · exact Or.inl ⟨Int.natCast_nonneg i, Int.ofNat_lt.mpr (Partition.class?_lt hc)⟩
    · obtain ⟨c, hc, hneeds⟩ := List.any_eq_true.mp hany
      have hmem := Array.mem_toList_iff.mp hc
      have htidy := Partition.tidy_of_mem hmem
      have hgap := (Shape.needsFiller_iff htidy).mp hneeds
      refine Or.inr ⟨rfl, c, hmem, ?_, hgap⟩
      rw [sketch?_class hnum s (hnum.class?_id hmem)]
      simpa using Shape.function_of_gap s _ htidy hgap
  · rintro (⟨hpos, hlt⟩ | ⟨rfl, c, hmem, -, hgap⟩)
    · obtain ⟨i, rfl⟩ := Int.eq_ofNat_of_zero_le hpos
      obtain ⟨c, hc⟩ := Partition.exists_class? (Int.ofNat_lt.mp hlt)
      rw [sketch?_class hnum s hc]
      rfl
    · have hneeds := (Shape.needsFiller_iff (Partition.tidy_of_mem hmem)).mpr hgap
      rw [sketch?_filler hnum s (List.any_eq_true.mpr ⟨c, Array.mem_toList_iff.mpr hmem, hneeds⟩)]
      rfl

theorem tight_ofPartition {g : Graph} (hg : g.WellFormed) (s : Settings) :
    (ofPartition s (ofGraph g)).Tight s (ofGraph g) := by
  have hnum := Partition.ofGraph_numbered g
  have hn := ids_nodup hnum s
  have hclosed := ofPartition_closed hg s
  have htarget : ∀ x e, (ofPartition s (ofGraph g)).target? x = some e →
      ((ofPartition s (ofGraph g)).sketch? e.sketch).isSome = true := by
    intro x e he
    obtain ⟨c, -, -, -, hsketch, hlt⟩ := target_class hg s he
    exact (mem_ids_ofPartition s).mpr (Or.inl (by omega))
  refine ⟨hn, mem_ids_iff.trans (mem_ids_ofPartition s), fun {sketch} h => ?_, fun {c params returns} hc h => ?_,
    fun h r hr => mem_ids_iff.mpr (hclosed _ _ h r hr), target_class hg s,
    exists_entry (Partition.targets_nodup g) s, fun h => ?_, fun h => hclosed.render? (mem_ids_iff.mp h),
    handsOver hn (ofPartition_straight s _) hclosed htarget⟩
  · rcases sketch?_cases hnum s h with ⟨i, c, hc, he, -⟩ | ⟨-, hprimitive, -⟩
    · exact absurd (Int.ofNat_inj.mp he) (Nat.ne_of_gt (Partition.class?_lt hc))
    · exact hprimitive
  · rw [sketch?_class hnum s (hnum.class?_id hc), Option.some_inj] at h
    exact Shape.function_filled s _ (Partition.tidy_of_mem hc) h
  · obtain ⟨ids, hids, hroot, hmem⟩ := hclosed.reachable? (mem_ids_iff.mp h)
    exact ⟨ids, hids, hroot, fun r hr => mem_ids_iff.mpr (hmem r hr)⟩

end SketchTable

/-- The table of a solve holds the classes and, exactly when a function has a gap, one primitive
more that stands in every gap; and it holds whatever its sketches, its targets and its document
refer to. -/
theorem solved_table_tight {s : Settings} {clock : Clock} {readings : Nat} {c : ConstraintSet} {sol : Solution}
    (h : (solve s clock readings c).result = .ok sol) : sol.table.Tight s sol.partition := by
  rw [solved_table h, solved_partition h]
  exact SketchTable.tight_ofPartition (solved_wellFormed h) s

/-- A function of whose parameters only the second is known. -/
def secondParameter : ConstraintSet where
  subtypings := [⟨⟨"f", [.input 1]⟩, ⟨"x", []⟩⟩]
  bindings := [⟨.number 1, ⟨⟨"f", []⟩, ⟨"g", [.load]⟩⟩⟩]

/-- The first is a gap, which the number after the last class fills. -/
theorem secondParameter_tight :
    ∃ sol cls, (solve .standard (.ticking (.whole 0)) 0 secondParameter).result = .ok sol ∧
      sol.table.Tight .standard sol.partition ∧ sol.partition.classOf? ⟨"f", []⟩ = some cls ∧ cls.Gap .input := by
  obtain ⟨sol, h, hsecond, hfirst⟩ : ∃ sol, (solve .standard (.ticking (.whole 0)) 0 secondParameter).result = .ok sol ∧
      sol.graph.contains (TypeVar.extend ⟨"f", []⟩ (.input 1)) = true ∧
      ∀ i < sol.graph.size, sol.graph.child? i (.input 0) = none := ⟨_, rfl, by decide, by decide⟩
  have hg := solved_wellFormed h
  obtain ⟨cls, next, hcls, -, hnext⟩ := Partition.target?_extend hg (solved_saturated h) hsecond
  have hnone : cls.target? (.input 0) = none := by
    cases hd : cls.target? (.input 0) with
    | none => rfl
    | some d =>
      obtain ⟨i, -, j, hj, -⟩ := Partition.exists_child_of_target? (Partition.mem_of_classOf? hcls) hd
      have hchild := hg.mem_children_iff.mp hj
      rw [hfirst i (hg.child_lt hchild).1] at hchild
      cases hchild
  refine ⟨sol, cls, h, solved_table_tight h, solved_partition h ▸ hcls, 0, 1, Nat.one_pos, hnone, ?_⟩
  rw [hnext]
  exact Option.some_ne_none _

end TypeRecovery
