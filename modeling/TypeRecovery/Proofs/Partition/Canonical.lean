/-
  TypeRecovery.Proofs.Partition.Canonical — the classes of a graph, their order and their edges.

  A walk closes the components of a graph in an order of its own, each with its nodes in the
  order in which they were met. Sorting the nodes of each and then the components by their
  first nodes removes all trace of that: `Arranged` says what the lists are, for any graph,
  closed or not, and only one list of lists is so arranged. The classes are numbered by their
  place in it, and what lies between nodes is lifted to the classes that hold them.

  Proved:
  - `sortedComponents_arranged`: the sorted components are arranged.
  - `Arranged.unique`: nothing else is.
  - `ofGraph_canonical`: the classes of every graph that can arise, with their edges and labels.
-/

import Mathlib.Data.List.Permutation
import Mathlib.Data.List.Sort
import TypeRecovery.Proofs.Graph.Reach
import TypeRecovery.Proofs.Order
import TypeRecovery.Proofs.Partition.Classes

namespace TypeRecovery.Partition

/-- Every node in one list, beside the nodes that it reaches and that reach it, in ascending
order; the lists in the order of their smallest nodes. -/
structure Arranged (g : Graph) (cs : List (List Nat)) : Prop where
  nonempty : ∀ c ∈ cs, c ≠ []
  ascending : ∀ c ∈ cs, c.Pairwise (· < ·)
  disjoint : cs.Pairwise List.Disjoint
  covers {i : Nat} : (∃ c ∈ cs, i ∈ c) ↔ i < g.size
  ordered : cs.Pairwise fun c d => ∃ a b, c.min? = some a ∧ d.min? = some b ∧ a < b
  together {i j : Nat} : i < g.size → j < g.size →
    ((∃ c ∈ cs, i ∈ c ∧ j ∈ c) ↔ Leads g.supertypes i j ∧ Leads g.supertypes j i)

/-! ## One arrangement -/

namespace Arranged

variable {g : Graph} {cs cs' : List (List Nat)}

theorem eq_of_mem (h : Arranged g cs) {c d : List Nat} (hc : c ∈ cs) (hd : d ∈ cs) {i : Nat} (hic : i ∈ c) (hid : i ∈ d) :
    c = d := by
  have hsymm : Std.Symm (@List.Disjoint Nat) := ⟨fun _ _ => List.Disjoint.symm⟩
  by_contra hne
  exact h.disjoint.forall hc hd hne hic hid

theorem mem_iff (h : Arranged g cs) {c : List Nat} (hc : c ∈ cs) {i j : Nat} (hi : i ∈ c) :
    j ∈ c ↔ j < g.size ∧ Leads g.supertypes i j ∧ Leads g.supertypes j i := by
  have hlt : i < g.size := h.covers.mp ⟨c, hc, hi⟩
  constructor
  · intro hj
    have hjlt : j < g.size := h.covers.mp ⟨c, hc, hj⟩
    exact ⟨hjlt, (h.together hlt hjlt).mp ⟨c, hc, hi, hj⟩⟩
  · rintro ⟨hjlt, hleads⟩
    obtain ⟨d, hd, hid, hjd⟩ := (h.together hlt hjlt).mpr hleads
    rwa [h.eq_of_mem hc hd hi hid]

theorem mem_of_mem (h : Arranged g cs) (h' : Arranged g cs') {c : List Nat} (hc : c ∈ cs) : c ∈ cs' := by
  obtain ⟨i, hi⟩ := List.exists_mem_of_ne_nil c (h.nonempty c hc)
  obtain ⟨d, hd, hid⟩ := h'.covers.mpr (h.covers.mp ⟨c, hc, hi⟩)
  have hcd : c = d := (h.ascending c hc).eq_of_mem_iff (h'.ascending d hd) fun j => by rw [h.mem_iff hc hi, h'.mem_iff hd hid]
  exact hcd ▸ hd

/-- Which nodes reach each other determines the lists and their order. -/
theorem unique (h : Arranged g cs) (h' : Arranged g cs') : cs = cs' := by
  have hirrefl : Std.Irrefl fun c d : List Nat => ∃ a b, c.min? = some a ∧ d.min? = some b ∧ a < b := by
    refine ⟨fun c hcc => ?_⟩
    obtain ⟨a, b, ha, hb, hab⟩ := hcc
    rw [ha, Option.some_inj] at hb
    omega
  have hantisymm : Std.Antisymm fun c d : List Nat => ∃ a b, c.min? = some a ∧ d.min? = some b ∧ a < b := by
    refine ⟨fun c d hcd hdc => ?_⟩
    obtain ⟨a, b, ha, hb, hab⟩ := hcd
    obtain ⟨b', a', hb', ha', hba⟩ := hdc
    rw [ha, Option.some_inj] at ha'
    rw [hb, Option.some_inj] at hb'
    omega
  exact h.ordered.eq_of_mem_iff h'.ordered fun c => ⟨h.mem_of_mem h', h'.mem_of_mem h⟩

end Arranged

/-! ## Sorting -/

theorem natAtMost_trans (a b c : Nat) (hab : natAtMost a b = true) (hbc : natAtMost b c = true) : natAtMost a c = true := by
  simp only [natAtMost, decide_eq_true_eq] at *
  omega

theorem natAtMost_total (a b : Nat) : (natAtMost a b || natAtMost b a) = true := by
  simp only [natAtMost, Bool.or_eq_true, decide_eq_true_eq]
  omega

theorem natAtMost_antisymm {a b : Nat} (hab : natAtMost a b = true) (hba : natAtMost b a = true) : a = b :=
  Nat.le_antisymm (of_decide_eq_true hab) (of_decide_eq_true hba)

theorem ascending_of_nodup {xs : List Nat} (h : xs.Nodup) : (xs.mergeSort natAtMost).Pairwise (· < ·) := by
  have hsorted := pairwise_not_le_mergeSort natAtMost_trans natAtMost_total (fun _ _ _ _ => natAtMost_antisymm) h
  exact hsorted.imp fun hba => Nat.not_le.mp (of_decide_eq_false hba)

theorem min?_of_ascending {a : Nat} {xs : List Nat} (h : (a :: xs).Pairwise (· < ·)) : (a :: xs).min? = some a := by
  refine List.min?_eq_some_iff.mpr ⟨List.mem_cons_self, List.forall_mem_cons.mpr ⟨Nat.le_refl a, fun b hb => ?_⟩⟩
  exact Nat.le_of_lt (List.rel_of_pairwise_cons h hb)

section Sorted

variable {g : Graph} (hg : g.WellFormed)
include hg

theorem sortedComponents_ascending {c : List Nat} (hc : c ∈ sortedComponents g) : c.Pairwise (· < ·) := by
  have hnodup : c.Nodup := (List.nodup_flatten.mp (sortedComponents_nodup hg)).1 c hc
  simp only [sortedComponents, List.mem_mergeSort, List.mem_map] at hc
  obtain ⟨d, -, rfl⟩ := hc
  exact ascending_of_nodup ((List.mergeSort_perm d _).nodup_iff.mp hnodup)

theorem sortedComponents_disjoint : (sortedComponents g).Pairwise List.Disjoint :=
  (List.nodup_flatten.mp (sortedComponents_nodup hg)).2

theorem sortedComponents_ordered :
    (sortedComponents g).Pairwise fun c d => ∃ a b, c.min? = some a ∧ d.min? = some b ∧ a < b := by
  have hle : (sortedComponents g).Pairwise fun c d => natAtMost (c.headD 0) (d.headD 0) = true :=
    List.pairwise_mergeSort (fun c d e => natAtMost_trans (c.headD 0) (d.headD 0) (e.headD 0))
      (fun c d => natAtMost_total (c.headD 0) (d.headD 0)) _
  refine (hle.and (sortedComponents_disjoint hg)).imp_of_mem fun {c d} hc hd ⟨hcd, hdisjoint⟩ => ?_
  obtain ⟨a, c, rfl⟩ := List.exists_cons_of_ne_nil (sortedComponents_nonempty hg hc)
  obtain ⟨b, d, rfl⟩ := List.exists_cons_of_ne_nil (sortedComponents_nonempty hg hd)
  have hne : a ≠ b := fun he => hdisjoint List.mem_cons_self (he ▸ List.mem_cons_self)
  refine ⟨a, b, min?_of_ascending (sortedComponents_ascending hg hc), min?_of_ascending (sortedComponents_ascending hg hd), ?_⟩
  exact Nat.lt_of_le_of_ne (of_decide_eq_true hcd) hne

theorem sortedComponents_arranged : Arranged g (sortedComponents g) where
  nonempty _ hc := sortedComponents_nonempty hg hc
  ascending _ hc := sortedComponents_ascending hg hc
  disjoint := sortedComponents_disjoint hg
  covers := by
    intro i
    rw [← List.mem_flatten, (sortedComponents_perm hg).mem_iff, List.mem_range]
  ordered := sortedComponents_ordered hg
  together := by
    intro i j hi hj
    constructor
    · rintro ⟨c, hc, hic, hjc⟩
      exact (mem_sortedComponent_iff hg hc hic hj).mp hjc
    · intro hleads
      obtain ⟨id, c, hid, hic⟩ := exists_position hg hi
      have hc := List.mem_of_getElem? hid
      exact ⟨c, hc, hic, (mem_sortedComponent_iff hg hc hic hj).mpr hleads⟩

end Sorted

/-! ## Classes -/

theorem members_ofGraph (g : Graph) : (ofGraph g).classes.toList.map (·.members) = sortedComponents g := by
  simp only [ofGraph, List.map_map]
  exact (List.map_congr_left fun _ _ => rfl).trans (List.zipIdx_map_fst 0 _)

theorem ids_ofGraph (g : Graph) : (ofGraph g).classes.toList.map (·.id) = List.range (ofGraph g).classes.size := by
  have hids : (ofGraph g).classes.toList.map (·.id) = (sortedComponents g).zipIdx.map (·.2) := by
    simp only [ofGraph, List.map_map]
    exact List.map_congr_left fun _ _ => rfl
  rw [hids, List.zipIdx_map_snd, List.range_eq_range', ← members_ofGraph, List.length_map, Array.length_toList]

/-- The classes of a graph, and what lies between its nodes lifted to them. -/
structure Canonical (g : Graph) (p : Partition) : Prop where
  arranged : Arranged g (p.classes.toList.map (·.members))
  unique {cs : List (List Nat)} : Arranged g cs → cs = p.classes.toList.map (·.members)
  numbered : p.classes.toList.map (·.id) = List.range p.classes.size
  /-- The class of a node holds it. -/
  holds {i : Nat} : i < g.size → ∃ c, p.class? (classOfNode p.classOf i) = some c ∧ i ∈ c.members
  edge_iff {c d : TypeClass} {l : Label} : c ∈ p.classes → d ∈ p.classes →
    (d.id ∈ c.destinations l ↔ ∃ i ∈ c.members, ∃ j ∈ d.members, g.child? i l = some j)
  destination {c : TypeClass} {l : Label} {id : Nat} : c ∈ p.classes → id ∈ c.destinations l → ∃ d ∈ p.classes, d.id = id
  /-- A label of a class leads somewhere. -/
  label_iff {c : TypeClass} {l : Label} : c ∈ p.classes → (l ∈ c.labels ↔ c.destinations l ≠ [])
  incoming_iff {d : TypeClass} {l : Label} : d ∈ p.classes →
    (l ∈ d.incoming ↔ ∃ i ∈ d.members, ∃ v, g.typeVar? i = some v ∧ v.lastLabel? = some l)

section Lifted

variable {g : Graph} (hg : g.WellFormed)
include hg

theorem exists_class_of_node {i : Nat} (hi : i < g.size) :
    ∃ c, (ofGraph g).class? (classOfNode (ofGraph g).classOf i) = some c ∧ i ∈ c.members := by
  obtain ⟨id, members, hm, him⟩ := exists_position hg hi
  refine ⟨makeClass g (ofGraph g).classOf (ofGraph g).targets id members, ?_, him⟩
  rw [classOfNode_ofGraph hg hm him, class?_ofGraph, hm, Option.map_some]

/-- The class that holds a node is the class of that node. -/
theorem id_eq_of_mem {c : TypeClass} (hc : c ∈ (ofGraph g).classes) {i : Nat} (hi : i ∈ c.members) :
    c.id = classOfNode (ofGraph g).classOf i := by
  obtain ⟨id, members, hm, rfl⟩ := mem_classes hc
  exact (classOfNode_ofGraph hg hm hi).symm

theorem mem_members_iff {c : TypeClass} (hc : c ∈ (ofGraph g).classes) {i : Nat} (hi : i < g.size) :
    i ∈ c.members ↔ c.id = classOfNode (ofGraph g).classOf i := by
  refine ⟨id_eq_of_mem hg hc, fun hid => ?_⟩
  obtain ⟨d, hd, hmem⟩ := exists_class_of_node hg hi
  rw [← hid, (ofGraph_numbered g).class?_id hc, Option.some_inj] at hd
  exact hd ▸ hmem

theorem mem_destinations_iff {c : TypeClass} (hc : c ∈ (ofGraph g).classes) {l : Label} {id : Nat} :
    id ∈ c.destinations l ↔ ∃ i ∈ c.members, ∃ j, g.child? i l = some j ∧ id = classOfNode (ofGraph g).classOf j := by
  obtain ⟨_, members, -, rfl⟩ := mem_classes hc
  simp only [← hg.mem_children_iff]
  exact mem_liftEdges g _ members l id

theorem child_lt_size {i j : Nat} {l : Label} (h : g.child? i l = some j) : j < g.size := by
  obtain ⟨-, v, -, hv⟩ := hg.extends_ h
  exact Graph.lt_size hv

theorem mem_destinations_of_classes {c d : TypeClass} (hc : c ∈ (ofGraph g).classes) (hd : d ∈ (ofGraph g).classes) {l : Label} :
    d.id ∈ c.destinations l ↔ ∃ i ∈ c.members, ∃ j ∈ d.members, g.child? i l = some j := by
  rw [mem_destinations_iff hg hc]
  constructor
  · rintro ⟨i, hi, j, hj, hid⟩
    exact ⟨i, hi, j, (mem_members_iff hg hd (child_lt_size hg hj)).mpr hid, hj⟩
  · rintro ⟨i, hi, j, hjd, hj⟩
    exact ⟨i, hi, j, hj, id_eq_of_mem hg hd hjd⟩

theorem exists_class_of_destination {c : TypeClass} (hc : c ∈ (ofGraph g).classes) {l : Label} {id : Nat}
    (h : id ∈ c.destinations l) : ∃ d ∈ (ofGraph g).classes, d.id = id := by
  obtain ⟨i, -, j, hj, rfl⟩ := (mem_destinations_iff hg hc).mp h
  obtain ⟨d, hd, -⟩ := exists_class_of_node hg (child_lt_size hg hj)
  exact ⟨d, Array.mem_of_getElem? hd, ofGraph_numbered g _ d hd⟩

/-- A node is reached by the last label of its variable. -/
theorem exists_parent_iff {i : Nat} {l : Label} :
    (∃ j, g.parent? i = some (j, l)) ↔ ∃ v, g.typeVar? i = some v ∧ v.lastLabel? = some l := by
  constructor
  · rintro ⟨j, hj⟩
    obtain ⟨-, v, -, hv⟩ := hg.extends_ (hg.child_iff.mpr hj)
    exact ⟨_, hv, List.getLast?_concat ..⟩
  · rintro ⟨⟨base, path⟩, hv, hl⟩
    obtain ⟨p, rfl⟩ := List.getLast?_eq_some_iff.mp hl
    obtain ⟨j, -, hj⟩ := hg.exists_parent (v := ⟨base, p⟩) hv
    exact ⟨j, hg.child_iff.mp hj⟩

theorem mem_incoming_iff_lastLabel {d : TypeClass} (hd : d ∈ (ofGraph g).classes) {l : Label} :
    l ∈ d.incoming ↔ ∃ i ∈ d.members, ∃ v, g.typeVar? i = some v ∧ v.lastLabel? = some l := by
  simp only [mem_incoming_iff_parent hd, exists_parent_iff hg]

end Lifted

theorem mem_labels_iff_destinations {g : Graph} {c : TypeClass} (hc : c ∈ (ofGraph g).classes) {l : Label} :
    l ∈ c.labels ↔ c.destinations l ≠ [] := by
  have hkeys : l ∈ c.labels ↔ Entries.lookup? c.edges l ≠ none := by
    rw [TypeClass.labels, List.mem_mergeSort, ne_eq, Entries.lookup?_eq_none_iff, not_not]
  rw [hkeys, TypeClass.destinations]
  cases hl : Entries.lookup? c.edges l with
  | none => simp
  | some ds => simpa using ((tidy_of_mem hc).lists hl).2

/-- Of every graph that can arise, closed or not, the classes are those of the nodes that reach each
other, in the one order there is; a class has an edge by a label to the classes that hold a child
of a member by that label, and is reached by the last labels of its members. -/
theorem ofGraph_canonical {g : Graph} (h : g.Reach) : Canonical g (ofGraph g) := by
  have hg := h.wellFormed
  have harranged : Arranged g ((ofGraph g).classes.toList.map (·.members)) := by
    rw [members_ofGraph]
    exact sortedComponents_arranged hg
  exact {
    arranged := harranged
    unique := fun hcs => hcs.unique harranged
    numbered := ids_ofGraph g
    holds := exists_class_of_node hg
    edge_iff := fun hc hd => mem_destinations_of_classes hg hc hd
    destination := fun hc hid => exists_class_of_destination hg hc hid
    label_iff := fun hc => mem_labels_iff_destinations hc
    incoming_iff := fun hd => mem_incoming_iff_lastLabel hg hd }

/-- Two pointers that are subtypes of each other, what is loaded through the first being the same as `x`. -/
def halfClosed : Graph :=
  let g := (((Graph.empty.intern ⟨"p", [.load]⟩).1.intern ⟨"q", [.load]⟩).1.intern ⟨"x", []⟩).1
  ((((g.relate 4 1).1.relate 1 4).1.relate 2 0).1.relate 0 2).1

/-- The loads are not related yet, so the class of the pointers leads to both of their classes. -/
theorem halfClosed_canonical : halfClosed.Reach ∧ Canonical halfClosed (ofGraph halfClosed) ∧
    (ofGraph halfClosed).classes.toList.map (·.members) = [[0, 2], [1, 4], [3]] ∧
    (ofGraph halfClosed).classes.toList.map (·.destinations .load) = [[1, 2], [], []] := by
  have hr : halfClosed.Reach := by
    have hnodes : (((Graph.empty.intern ⟨"p", [.load]⟩).1.intern ⟨"q", [.load]⟩).1.intern ⟨"x", []⟩).1.Reach :=
      ((Graph.Reach.empty.intern _).intern _).intern _
    have hstored := (hnodes.relate (a := 4) (b := 1) (by decide) (by decide)).relate (a := 1) (b := 4) (by decide) (by decide)
    exact (hstored.relate (a := 2) (b := 0) (by decide) (by decide)).relate (a := 0) (b := 2) (by decide) (by decide)
  exact ⟨hr, ofGraph_canonical hr, by cbv, by cbv⟩

end TypeRecovery.Partition
