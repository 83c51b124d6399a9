/-
  TypeRecovery.Proofs.Partition.Classes — what the classes of a graph are.

  The classes are the components of the graph, and the table gives every node the position of
  the one class that it is a member of.

  Proved of a well-formed graph:
  - `sortedComponents_perm`: every node is a member of exactly one class.
  - `class?_ofGraph`: the class of an id is made from the component at that position.
  - `classOfNode_eq_iff`: two nodes share a class when edges lead from each to the other.
  - `mem_liftEdges`: a class has an edge to the classes of its members' extensions.
  - `ofGraph_numbered`: every class stands at its number.
  - `exists_child_of_target?`, `target?_ne_none_of_child`: a class leads where the children of
    its members lie.
  - `mem_incoming_iff_parent`: a class is reached through the labels of its members.
-/

import Mathlib.Data.List.Flatten
import TypeRecovery.Partition
import TypeRecovery.Proofs.Components.Correct
import TypeRecovery.Proofs.Graph.WellFormed

namespace TypeRecovery.Partition

/-! ## Components in order -/

theorem exists_component {g : Graph} {c : List Nat} (h : c ∈ sortedComponents g) :
    ∃ d ∈ components g.size g.supertypes, c.Perm d := by
  simp only [sortedComponents, List.mem_mergeSort, List.mem_map] at h
  obtain ⟨d, hd, rfl⟩ := h
  exact ⟨d, hd, List.mergeSort_perm _ _⟩

section Sorted

variable {g : Graph} (hg : g.WellFormed)
include hg

theorem supertypes_lt_size : ∀ v < g.size, ∀ u ∈ g.supertypes v, u < g.size := fun _ _ _ h => hg.supertypes_lt h

theorem sortedComponents_perm : (sortedComponents g).flatten.Perm (List.range g.size) := by
  have hsort : (sortedComponents g).flatten.Perm
      ((components g.size g.supertypes).map (·.mergeSort natAtMost)).flatten := (List.mergeSort_perm _ _).flatten
  have hinner : ((components g.size g.supertypes).flatMap (·.mergeSort natAtMost)).Perm
      ((components g.size g.supertypes).flatMap id) :=
    List.Perm.flatMap_left _ fun c _ => List.mergeSort_perm c natAtMost
  rw [List.flatMap_id] at hinner
  exact (hsort.trans hinner).trans (components_perm (supertypes_lt_size hg))

theorem sortedComponents_nodup : (sortedComponents g).flatten.Nodup :=
  (sortedComponents_perm hg).nodup_iff.mpr List.nodup_range

theorem sortedComponents_nonempty {c : List Nat} (hc : c ∈ sortedComponents g) : c ≠ [] := by
  obtain ⟨d, hd, hperm⟩ := exists_component hc
  exact fun hnil => components_nonempty (supertypes_lt_size hg) hd (List.nil_perm.mp (hnil ▸ hperm))

theorem exists_position {i : Nat} (hi : i < g.size) :
    ∃ (id : Nat) (c : List Nat), (sortedComponents g)[id]? = some c ∧ i ∈ c := by
  have h := (sortedComponents_perm hg).mem_iff.mpr (List.mem_range.mpr hi)
  obtain ⟨c, hc, hic⟩ := List.mem_flatten.mp h
  obtain ⟨id, hid⟩ := List.mem_iff_getElem?.mp hc
  exact ⟨id, c, hid, hic⟩

theorem lt_size_of_mem {c : List Nat} (hc : c ∈ sortedComponents g) {i : Nat} (hi : i ∈ c) : i < g.size :=
  List.mem_range.mp ((sortedComponents_perm hg).mem_iff.mp (List.mem_flatten.mpr ⟨c, hc, hi⟩))

theorem mem_sortedComponent_iff {c : List Nat} (hc : c ∈ sortedComponents g) {x y : Nat} (hx : x ∈ c)
    (hy : y < g.size) : y ∈ c ↔ Leads g.supertypes x y ∧ Leads g.supertypes y x := by
  obtain ⟨d, hd, hperm⟩ := exists_component hc
  rw [hperm.mem_iff]
  exact mem_components_iff (supertypes_lt_size hg) hd (hperm.mem_iff.mp hx) hy

end Sorted

/-! ## The table of classes -/

/-- Later components do not touch the entries of earlier ones. -/
theorem getElem?_fillTable (comps : List (List Nat)) (k : Nat) (table : Array Nat) (i : Nat) :
    let filled := (comps.zipIdx k).foldl
      (fun table (members, id) => members.foldl (fun table i => table.setIfInBounds i id) table) table
    (i ∉ comps.flatten → filled[i]? = table[i]?) ∧
      (comps.flatten.Nodup → i < table.size → ∀ id c, comps[id]? = some c → i ∈ c → filled[i]? = some (k + id)) := by
  induction comps generalizing k table with
  | nil => exact ⟨fun _ => rfl, fun _ _ id c h => by simp at h⟩
  | cons d comps ih =>
    simp only [List.zipIdx_cons, List.foldl_cons, List.flatten_cons]
    obtain ⟨hother, hmine⟩ := ih (k + 1) (d.foldl (fun table i => table.setIfInBounds i k) table)
    constructor
    · intro hi
      rw [List.mem_append, not_or] at hi
      rw [hother hi.2, getElem?_foldl_set, if_neg fun h => hi.1 h.1]
    · intro hn hlt id c hc hic
      obtain ⟨-, hn', hdisj⟩ := List.nodup_append.mp hn
      cases id with
      | zero =>
        cases hc
        rw [hother fun hi => hdisj i hic i hi rfl, getElem?_foldl_set, if_pos ⟨hic, hlt⟩, Nat.add_zero]
      | succ id =>
        rw [hmine hn' (by rwa [size_foldl_set]) id c hc hic, Nat.add_right_comm, Nat.add_assoc]

theorem classOfNode_classTable {n : Nat} {comps : List (List Nat)} (hn : comps.flatten.Nodup) {id i : Nat}
    {c : List Nat} (hc : comps[id]? = some c) (hi : i ∈ c) (hlt : i < n) :
    classOfNode (classTable n comps) i = id := by
  have h := (getElem?_fillTable comps 0 (Array.replicate n 0) i).2 hn (by simpa using hlt) id c hc hi
  rw [Nat.zero_add] at h
  simp only [classOfNode, classTable]
  exact congrArg (·.getD 0) h

/-! ## Classes -/

theorem class?_ofGraph (g : Graph) (id : Nat) : (ofGraph g).class? id =
    ((sortedComponents g)[id]?).map (makeClass g (ofGraph g).classOf (ofGraph g).targets id) := by
  simp [class?, ofGraph, Function.comp_def]

theorem mem_classes {g : Graph} {c : TypeClass} (h : c ∈ (ofGraph g).classes) :
    ∃ id members, (sortedComponents g)[id]? = some members ∧
      c = makeClass g (ofGraph g).classOf (ofGraph g).targets id members := by
  obtain ⟨id, hid⟩ := Array.mem_iff_getElem?.mp h
  have hc : (ofGraph g).class? id = some c := hid
  rw [class?_ofGraph, Option.map_eq_some_iff] at hc
  obtain ⟨members, hm, rfl⟩ := hc
  exact ⟨id, members, hm, rfl⟩

section Nodes

variable {g : Graph} (hg : g.WellFormed)
include hg

theorem classOfNode_ofGraph {id i : Nat} {c : List Nat} (hc : (sortedComponents g)[id]? = some c) (hi : i ∈ c) :
    classOfNode (ofGraph g).classOf i = id :=
  classOfNode_classTable (sortedComponents_nodup hg) hc hi (lt_size_of_mem hg (List.mem_of_getElem? hc) hi)

/-- Two nodes share a class when subtype edges lead from each to the other. -/
theorem classOfNode_eq_iff {a b : Nat} (ha : a < g.size) (hb : b < g.size) :
    classOfNode (ofGraph g).classOf a = classOfNode (ofGraph g).classOf b ↔
      Leads g.supertypes a b ∧ Leads g.supertypes b a := by
  obtain ⟨id, c, hc, hac⟩ := exists_position hg ha
  obtain ⟨id', c', hc', hbc⟩ := exists_position hg hb
  rw [classOfNode_ofGraph hg hc hac, classOfNode_ofGraph hg hc' hbc,
    ← mem_sortedComponent_iff hg (List.mem_of_getElem? hc) hac hb]
  constructor
  · rintro rfl
    cases hc.symm.trans hc'
    exact hbc
  · intro hbc'
    exact (classOfNode_ofGraph hg hc hbc').symm.trans (classOfNode_ofGraph hg hc' hbc)

theorem classOf?_ofGraph {v : TypeVar} {a : Nat} (ha : g.typeVar? a = some v) :
    ∃ id members, (sortedComponents g)[id]? = some members ∧ a ∈ members ∧
      id = classOfNode (ofGraph g).classOf a ∧
      (ofGraph g).classOf? v = some (makeClass g (ofGraph g).classOf (ofGraph g).targets id members) := by
  obtain ⟨id, members, hm, ham⟩ := exists_position hg (Graph.lt_size ha)
  have hid := classOfNode_ofGraph hg hm ham
  refine ⟨id, members, hm, ham, hid.symm, ?_⟩
  show (g.find? v).bind (fun i => (ofGraph g).class? (classOfNode (ofGraph g).classOf i)) = _
  rw [hg.find?_eq_some_iff.mpr ha, Option.bind_some, hid, class?_ofGraph, hm, Option.map_some]

theorem sameClass?_ofGraph {v w : TypeVar} {a b : Nat} (ha : g.typeVar? a = some v) (hb : g.typeVar? b = some w) :
    (ofGraph g).sameClass? v w =
      some (decide (classOfNode (ofGraph g).classOf a = classOfNode (ofGraph g).classOf b)) := by
  obtain ⟨id, members, -, -, hia, hc⟩ := classOf?_ofGraph hg ha
  obtain ⟨id', members', -, -, hib, hd⟩ := classOf?_ofGraph hg hb
  simp only [sameClass?, hc, hd, ← hia, ← hib]
  rfl

end Nodes

/-! ## Edges between classes -/

theorem mem_addEdge (edges : Entries Label (List Nat)) (l l' : Label) (d d' : Nat) :
    d' ∈ (Entries.lookup? (TypeClass.addEdge edges l d) l').getD [] ↔
      d' ∈ (Entries.lookup? edges l').getD [] ∨ (l' = l ∧ d' = d) := by
  rw [TypeClass.addEdge, Entries.update, Entries.lookup?_set]
  by_cases hl : l' = l
  · subst hl
    simp [mem_appendNew]
  · simp [hl]

/-- Destinations are listed under one key for each label, none of them twice. -/
structure Tidy (edges : Entries Label (List Nat)) : Prop where
  keys : (edges.map (·.1)).Nodup
  lists {l : Label} {ds : List Nat} : Entries.lookup? edges l = some ds → ds.Nodup ∧ ds ≠ []

theorem tidy_nil : Tidy [] := ⟨List.nodup_nil, fun h => by cases h⟩

theorem Tidy.addEdge {edges : Entries Label (List Nat)} (h : Tidy edges) (l : Label) (d : Nat) :
    Tidy (TypeClass.addEdge edges l d) where
  keys := Entries.nodup_set h.keys _ _
  lists := by
    intro l' ds hds
    rw [TypeClass.addEdge, Entries.update, Entries.lookup?_set] at hds
    split at hds
    · cases hds
      refine ⟨nodup_appendNew ?_ d, List.ne_nil_of_mem (mem_appendNew.mpr (Or.inr rfl))⟩
      cases hl : Entries.lookup? edges l with
      | none => exact List.nodup_nil
      | some ds => exact (h.lists hl).1
    · exact h.lists hds

theorem foldl_addEdge (f : Nat → Nat) (cs : List (Label × Nat)) {edges : Entries Label (List Nat)} (h : Tidy edges) :
    let lifted := cs.foldl (fun edges (l, j) => TypeClass.addEdge edges l (f j)) edges
    Tidy lifted ∧ ∀ l d, d ∈ (Entries.lookup? lifted l).getD [] ↔
      d ∈ (Entries.lookup? edges l).getD [] ∨ ∃ j, (l, j) ∈ cs ∧ d = f j := by
  induction cs generalizing edges with
  | nil => exact ⟨h, fun l d => by simp⟩
  | cons c cs ih =>
    obtain ⟨htidy, hmem⟩ := ih (h.addEdge c.1 (f c.2))
    refine ⟨htidy, fun l d => ?_⟩
    rw [List.foldl_cons, hmem, mem_addEdge]
    constructor
    · rintro ((h | ⟨rfl, rfl⟩) | ⟨j, hj, rfl⟩)
      · exact Or.inl h
      · exact Or.inr ⟨c.2, List.mem_cons_self, rfl⟩
      · exact Or.inr ⟨j, List.mem_cons_of_mem _ hj, rfl⟩
    · rintro (h | ⟨j, hj, rfl⟩)
      · exact Or.inl (Or.inl h)
      · rcases List.mem_cons.mp hj with rfl | hj
        · exact Or.inl (Or.inr ⟨rfl, rfl⟩)
        · exact Or.inr ⟨j, hj, rfl⟩

theorem liftEdges_tidy (g : Graph) (table : Array Nat) (members : List Nat) : Tidy (liftEdges g table members) :=
  (foldl_addEdge (classOfNode table) _ tidy_nil).1

theorem mem_liftEdges (g : Graph) (table : Array Nat) (members : List Nat) (l : Label) (d : Nat) :
    d ∈ (Entries.lookup? (liftEdges g table members) l).getD [] ↔
      ∃ i ∈ members, ∃ j, (l, j) ∈ g.children i ∧ d = classOfNode table j := by
  refine ((foldl_addEdge (classOfNode table) _ tidy_nil).2 l d).trans ?_
  simp only [Entries.lookup?_nil, Option.getD_none, List.not_mem_nil, false_or, List.mem_flatMap]
  constructor
  · rintro ⟨j, ⟨i, hi, hij⟩, hd⟩
    exact ⟨i, hi, j, hij, hd⟩
  · rintro ⟨i, hi, j, hij, hd⟩
    exact ⟨j, ⟨i, hi, hij⟩, hd⟩

/-! ## Classes by number -/

/-- Every class stands at its number. -/
def Numbered (p : Partition) : Prop := ∀ id c, p.class? id = some c → c.id = id

theorem ofGraph_numbered (g : Graph) : (ofGraph g).Numbered := by
  intro id c h
  rw [class?_ofGraph, Option.map_eq_some_iff] at h
  obtain ⟨members, -, rfl⟩ := h
  rfl

section Numbers

variable {p : Partition}

theorem class?_lt {id : Nat} {c : TypeClass} (h : p.class? id = some c) : id < p.classes.size :=
  (Array.getElem?_eq_some_iff.mp h).1

theorem class?_eq_none {id : Nat} (h : p.classes.size ≤ id) : p.class? id = none := Array.getElem?_eq_none h

theorem exists_class? {id : Nat} (h : id < p.classes.size) : ∃ c, p.class? id = some c := ⟨_, Array.getElem?_eq_getElem h⟩

theorem Numbered.class?_id (hp : p.Numbered) {c : TypeClass} (hc : c ∈ p.classes) : p.class? c.id = some c := by
  obtain ⟨id, hid⟩ := Array.mem_iff_getElem?.mp hc
  have h : p.class? id = some c := hid
  rwa [hp id c h]

end Numbers

/-! ## Where a class leads -/

section Leads

variable {g : Graph}

theorem tidy_of_mem {c : TypeClass} (hc : c ∈ (ofGraph g).classes) : Tidy c.edges := by
  obtain ⟨id, members, -, rfl⟩ := mem_classes hc
  exact liftEdges_tidy g _ members

/-- A class leads by a label to the class of a child of a member. -/
theorem exists_child_of_target? {c : TypeClass} (hc : c ∈ (ofGraph g).classes) {l : Label} {d : Nat}
    (h : c.target? l = some d) : ∃ i ∈ c.members, ∃ j, (l, j) ∈ g.children i ∧ d = classOfNode (ofGraph g).classOf j := by
  obtain ⟨id, members, -, rfl⟩ := mem_classes hc
  exact (mem_liftEdges g _ members l d).mp (List.min?_mem h)

theorem target?_ne_none_of_child {c : TypeClass} (hc : c ∈ (ofGraph g).classes) {i j : Nat} {l : Label}
    (hi : i ∈ c.members) (hj : (l, j) ∈ g.children i) : c.target? l ≠ none := by
  obtain ⟨id, members, -, rfl⟩ := mem_classes hc
  have hmem := (mem_liftEdges g (ofGraph g).classOf members l _).mpr ⟨i, hi, j, hj, rfl⟩
  rw [TypeClass.target?, ne_eq, List.min?_eq_none_iff]
  exact List.ne_nil_of_mem hmem

/-- A class is reached by the labels that lead to its members. -/
theorem mem_incoming_iff_parent {c : TypeClass} (hc : c ∈ (ofGraph g).classes) {l : Label} :
    l ∈ c.incoming ↔ ∃ i ∈ c.members, ∃ j, g.parent? i = some (j, l) := by
  obtain ⟨id, members, -, rfl⟩ := mem_classes hc
  simp only [makeClass, mem_firstOccurrences, List.mem_filterMap, Option.map_eq_some_iff, Prod.exists, exists_eq_right]

theorem mem_of_classOf? {v : TypeVar} {c : TypeClass} (h : (ofGraph g).classOf? v = some c) : c ∈ (ofGraph g).classes := by
  obtain ⟨i, -, hi⟩ := Option.bind_eq_some_iff.mp h
  exact Array.mem_of_getElem? hi

end Leads

end TypeRecovery.Partition
