/-
  TypeRecovery.Proofs.Partition.Renumber — the classes of twin graphs.

  Twins have the same classes under other numbers: `renumber` takes the number of a class to
  the number that the class of its variables has on the other side, and every number beyond
  the classes to the first beyond them there. A class and the one it is taken to are
  `Renumbered`: they have the same labels, lead to corresponding classes by each, and are
  reached through fields of the same sizes.

  Proved of twins that are well formed and saturated:
  - `renumber_classOf`: the class of a variable is taken to the class of that variable.
  - `renumber_inv`: the classes correspond one to one.
  - `class_renumbered`: corresponding classes are `Renumbered`.
  - `targets_renumbered`: a target is bound to corresponding classes.
-/

import TypeRecovery.Proofs.Graph.Twin
import TypeRecovery.Proofs.Order
import TypeRecovery.Proofs.Partition.Congruence
import TypeRecovery.Proofs.Partition.Targets
import TypeRecovery.Proofs.Sketch.Uses

namespace TypeRecovery

theorem min?_congr {α : Type} [Min α] [LE α] [Std.IsLinearOrder α] [Std.LawfulOrderMin α] {xs ys : List α}
    (h : ∀ x, x ∈ xs ↔ x ∈ ys) : xs.min? = ys.min? := by
  refine Option.ext fun x => ?_
  simp only [List.min?_eq_some_iff, h]

namespace TypeClass

/-- `c'` is `c` where the classes are numbered by `f`. -/
structure Renumbered (f : Nat → Nat) (c c' : TypeClass) : Prop where
  labels : c'.labels = c.labels
  target? (l : Label) : c'.target? l = (c.target? l).map f
  leafWidth (s : Settings) : c'.leafWidth s = c.leafWidth s

theorem labels_congr {c c' : TypeClass} (hc : Partition.Tidy c.edges) (hc' : Partition.Tidy c'.edges)
    (h : ∀ l, l ∈ c'.labels ↔ l ∈ c.labels) : c'.labels = c.labels := by
  refine Label.sortedByKey.sort_eq ((List.perm_ext_iff_of_nodup hc'.keys hc.keys).mpr fun l => ?_)
  simpa only [labels, List.mem_mergeSort] using h l

theorem leafWidth_congr {c c' : TypeClass} (h : ∀ l, l ∈ c'.incoming ↔ l ∈ c.incoming) (s : Settings) :
    c'.leafWidth s = c.leafWidth s := by
  have hmin : c'.incomingWidths.min? = c.incomingWidths.min? := min?_congr fun x => by
    simp only [incomingWidths, List.mem_filterMap, h]
  rw [leafWidth, leafWidth, hmin]

end TypeClass

namespace Partition

/-! ## Classes by their variables -/

section Variables

variable {g : Graph} (hg : g.WellFormed)
include hg

theorem classOf?_eq_some_iff {v : TypeVar} {c : TypeClass} :
    (ofGraph g).classOf? v = some c ↔ ∃ i, g.typeVar? i = some v ∧ (ofGraph g).class? c.id = some c ∧ i ∈ c.members := by
  constructor
  · intro h
    obtain ⟨i, hi, -⟩ := Option.bind_eq_some_iff.mp h
    have hv := hg.find?_eq_some_iff.mp hi
    obtain ⟨id, members, hm, him, -, hc⟩ := classOf?_ofGraph hg hv
    rw [h, Option.some_inj] at hc
    subst hc
    exact ⟨i, hv, by rw [makeClass, class?_ofGraph, hm]; rfl, him⟩
  · rintro ⟨i, hi, hc, hic⟩
    rw [class?_ofGraph, Option.map_eq_some_iff] at hc
    obtain ⟨members, hm, he⟩ := hc
    have hmem : i ∈ members := by rw [← he] at hic; exact hic
    show (g.find? v).bind _ = _
    rw [hg.find?_eq_some_iff.mpr hi, Option.bind_some, classOfNode_ofGraph hg hm hmem, class?_ofGraph, hm]
    exact congrArg some he

theorem classOf?_isSome_iff {v : TypeVar} : (∃ c, (ofGraph g).classOf? v = some c) ↔ g.contains v = true := by
  rw [hg.contains_iff]
  constructor
  · rintro ⟨c, h⟩
    obtain ⟨i, hi, -⟩ := (classOf?_eq_some_iff hg).mp h
    exact ⟨i, hi⟩
  · rintro ⟨i, hi⟩
    obtain ⟨_, _, -, -, -, hc⟩ := classOf?_ofGraph hg hi
    exact ⟨_, hc⟩

/-- The first variable of a class is a variable of that class. -/
theorem exists_first {id : Nat} {c : TypeClass} (hc : (ofGraph g).class? id = some c) :
    ∃ v, c.typeVars.head? = some v ∧ (ofGraph g).classOf? v = some c := by
  have hid := ofGraph_numbered g id c hc
  have hmake := hc
  rw [class?_ofGraph, Option.map_eq_some_iff] at hmake
  obtain ⟨members, hm, he⟩ := hmake
  have hcomp := List.mem_of_getElem? hm
  obtain ⟨i, rest, rfl⟩ := List.exists_cons_of_ne_nil (sortedComponents_nonempty hg hcomp)
  obtain ⟨v, hv⟩ := Graph.exists_typeVar? (lt_size_of_mem hg hcomp List.mem_cons_self)
  refine ⟨v, ?_, (classOf?_eq_some_iff hg).mpr ⟨i, hv, hid ▸ hc, ?_⟩⟩
  · rw [← he]
    simp [makeClass, hv]
  · rw [← he]
    exact List.mem_cons_self

/-- Two variables share a class when each is a subtype of the other. -/
theorem classOf?_eq_iff (hs : g.Saturated) {v w : TypeVar} {c d : TypeClass} (hc : (ofGraph g).classOf? v = some c)
    (hd : (ofGraph g).classOf? w = some d) : c = d ↔ (g.isSubtype v w && g.isSubtype w v) = true := by
  have hv := (classOf?_isSome_iff hg).mp ⟨c, hc⟩
  have hw := (classOf?_isSome_iff hg).mp ⟨d, hd⟩
  have hsame := sameClass?_saturated hg hs hv hw
  have hnum := ofGraph_numbered g
  obtain ⟨-, -, hcid, -⟩ := (classOf?_eq_some_iff hg).mp hc
  obtain ⟨-, -, hdid, -⟩ := (classOf?_eq_some_iff hg).mp hd
  simp only [sameClass?, hc, hd] at hsame
  have hiff : decide (c.id = d.id) = (g.isSubtype v w && g.isSubtype w v) := Option.some_inj.mp hsame
  rw [← hiff, decide_eq_true_eq]
  refine ⟨fun h => h ▸ rfl, fun h => ?_⟩
  rw [h, hdid, Option.some_inj] at hcid
  exact hcid.symm

/-- A class leads by a label to the class of an extension of one of its variables. -/
theorem target?_eq_some_iff (hs : g.Saturated) {id : Nat} {c : TypeClass} (hc : (ofGraph g).class? id = some c)
    {l : Label} {d : Nat} : c.target? l = some d ↔
      ∃ v e, (ofGraph g).classOf? v = some c ∧ (ofGraph g).classOf? (v.extend l) = some e ∧ e.id = d := by
  constructor
  · intro h
    obtain ⟨i, hi, j, hj, -⟩ := exists_child_of_target? (Array.mem_of_getElem? hc) h
    obtain ⟨-, v, hv, hvl⟩ := hg.extends_ (hg.mem_children_iff.mp hj)
    have hv' : (ofGraph g).classOf? v = some c :=
      (classOf?_eq_some_iff hg).mpr ⟨i, hv, ofGraph_numbered g id c hc ▸ hc, hi⟩
    obtain ⟨c', e, hc', he, ht⟩ := target?_extend hg hs (hg.contains_iff.mpr ⟨j, hvl⟩)
    rw [hv', Option.some_inj] at hc'
    subst hc'
    exact ⟨v, e, hv', he, Option.some_inj.mp (ht.symm.trans h)⟩
  · rintro ⟨v, e, hv, he, rfl⟩
    obtain ⟨c', e', hc', he', ht⟩ := target?_extend hg hs ((classOf?_isSome_iff hg).mp ⟨e, he⟩)
    rw [hv, Option.some_inj] at hc'
    rw [he, Option.some_inj] at he'
    rw [hc', he', ht]

/-- A class is reached by the last labels of its variables. -/
theorem mem_incoming_iff {id : Nat} {c : TypeClass} (hc : (ofGraph g).class? id = some c) {l : Label} :
    l ∈ c.incoming ↔ ∃ v : TypeVar, (ofGraph g).classOf? (v.extend l) = some c := by
  have hid := ofGraph_numbered g id c hc
  rw [mem_incoming_iff_parent (Array.mem_of_getElem? hc)]
  constructor
  · rintro ⟨i, hi, j, hj⟩
    obtain ⟨-, v, -, hv⟩ := hg.extends_ (hg.child_iff.mpr hj)
    exact ⟨v, (classOf?_eq_some_iff hg).mpr ⟨i, hv, hid ▸ hc, hi⟩⟩
  · rintro ⟨v, hv⟩
    obtain ⟨i, hi, -, him⟩ := (classOf?_eq_some_iff hg).mp hv
    obtain ⟨j, -, hj⟩ := hg.exists_parent hi
    exact ⟨i, him, j, hg.child_iff.mp hj⟩

end Variables

/-! ## Other numbers -/

/-- The number in `q` of the class that holds the first variable of class `id`. -/
def renumber (p q : Partition) (id : Nat) : Nat :=
  ((((p.class? id).bind fun c => c.typeVars.head?).bind q.classOf?).map (·.id)).getD q.classes.size

theorem renumber_beyond {p q : Partition} {id : Nat} (h : p.classes.size ≤ id) : renumber p q id = q.classes.size := by
  rw [renumber, class?_eq_none h]
  rfl

/-- Twins whose classes the rules have settled. -/
structure Settled (g g' : Graph) : Prop where
  twin : g.Twin g'
  left : g.WellFormed
  right : g'.WellFormed
  leftSaturated : g.Saturated
  rightSaturated : g'.Saturated

theorem Settled.symm {g g' : Graph} (h : Settled g g') : Settled g' g :=
  ⟨h.twin.symm, h.right, h.left, h.rightSaturated, h.leftSaturated⟩

section Twins

variable {g g' : Graph} (h : Settled g g')
include h

/-- The class of a variable is taken to the class of that variable. -/
theorem renumber_classOf {v : TypeVar} {c : TypeClass} (hc : (ofGraph g).classOf? v = some c) :
    ∃ c', (ofGraph g').classOf? v = some c' ∧ renumber (ofGraph g) (ofGraph g') c.id = c'.id := by
  obtain ⟨i, -, hcid, -⟩ := (classOf?_eq_some_iff h.left).mp hc
  obtain ⟨u, hfirst, hu⟩ := exists_first h.left hcid
  have hmem : ∀ {w d}, (ofGraph g).classOf? w = some d → ∃ c', (ofGraph g').classOf? w = some c' := fun {w d} hw =>
    (classOf?_isSome_iff h.right).mpr (h.twin.contains w ▸ (classOf?_isSome_iff h.left).mp ⟨d, hw⟩)
  obtain ⟨c', hv'⟩ := hmem hc
  obtain ⟨d', hu'⟩ := hmem hu
  have hsame := (classOf?_eq_iff h.left h.leftSaturated hc hu).mp rfl
  rw [h.twin.isSubtype_eq h.left h.right, h.twin.isSubtype_eq h.left h.right] at hsame
  have heq := (classOf?_eq_iff h.right h.rightSaturated hv' hu').mpr hsame
  refine ⟨c', hv', ?_⟩
  simp only [renumber, hcid, Option.bind_some, hfirst, hu', Option.map_some, Option.getD_some, heq]

theorem exists_renumber {id : Nat} {c : TypeClass} (hc : (ofGraph g).class? id = some c) :
    ∃ v c', (ofGraph g).classOf? v = some c ∧ (ofGraph g').classOf? v = some c' ∧
      renumber (ofGraph g) (ofGraph g') id = c'.id ∧ (ofGraph g').class? c'.id = some c' := by
  obtain ⟨v, -, hv⟩ := exists_first h.left hc
  obtain ⟨c', hv', hid⟩ := renumber_classOf h hv
  rw [ofGraph_numbered g id c hc] at hid
  obtain ⟨-, -, hc', -⟩ := (classOf?_eq_some_iff h.right).mp hv'
  exact ⟨v, c', hv, hv', hid, hc'⟩

theorem renumber_inv {id : Nat} (hid : id < (ofGraph g).classes.size) :
    renumber (ofGraph g') (ofGraph g) (renumber (ofGraph g) (ofGraph g') id) = id := by
  obtain ⟨c, hc⟩ := exists_class? hid
  obtain ⟨v, c', hv, hv', he, -⟩ := exists_renumber h hc
  obtain ⟨c'', hv'', he'⟩ := renumber_classOf h.symm hv'
  rw [hv, Option.some_inj] at hv''
  rw [he, he', ← hv'', ofGraph_numbered g id c hc]

/-- A variable of a class is a variable of the class that it is taken to, and of no other. -/
theorem classOf?_renumber {id : Nat} {c c' : TypeClass} (hc : (ofGraph g).class? id = some c)
    (hc' : (ofGraph g').class? (renumber (ofGraph g) (ofGraph g') id) = some c') {v : TypeVar} :
    (ofGraph g).classOf? v = some c ↔ (ofGraph g').classOf? v = some c' := by
  have hforth : ∀ {g g' : Graph} (_ : Settled g g') {id : Nat} {c c' : TypeClass}, (ofGraph g).class? id = some c →
      (ofGraph g').class? (renumber (ofGraph g) (ofGraph g') id) = some c' →
      (ofGraph g).classOf? v = some c → (ofGraph g').classOf? v = some c' := by
    intro g g' h id c c' hc hc' hv
    obtain ⟨d, hd, he⟩ := renumber_classOf h hv
    obtain ⟨-, -, hdid, -⟩ := (classOf?_eq_some_iff h.right).mp hd
    rw [ofGraph_numbered g id c hc] at he
    rw [← he, hc', Option.some_inj] at hdid
    rw [hd, hdid]
  refine ⟨hforth h hc hc', hforth h.symm hc' ?_⟩
  rw [renumber_inv h (class?_lt hc), hc]

/-- Corresponding classes have the same labels and lead to corresponding classes. -/
theorem class_renumbered {id : Nat} {c : TypeClass} (hc : (ofGraph g).class? id = some c) :
    ∃ c', (ofGraph g').class? (renumber (ofGraph g) (ofGraph g') id) = some c' ∧
      c.Renumbered (renumber (ofGraph g) (ofGraph g')) c' := by
  obtain ⟨-, c', -, -, he, hc'⟩ := exists_renumber h hc
  rw [← he] at hc'
  have htidy := tidy_of_mem (Array.mem_of_getElem? hc)
  have htidy' := tidy_of_mem (Array.mem_of_getElem? hc')
  have htarget : ∀ l, c'.target? l = (c.target? l).map (renumber (ofGraph g) (ofGraph g')) := by
    intro l
    refine Option.ext fun d => ?_
    rw [target?_eq_some_iff h.right h.rightSaturated hc', Option.map_eq_some_iff]
    constructor
    · rintro ⟨v, e', hv, he', rfl⟩
      obtain ⟨e, hev, -⟩ := renumber_classOf h.symm he'
      obtain ⟨e'', hev', hid⟩ := renumber_classOf h hev
      rw [he', Option.some_inj] at hev'
      refine ⟨e.id, ?_, by rw [hid, hev']⟩
      exact (target?_eq_some_iff h.left h.leftSaturated hc).mpr ⟨v, e, (classOf?_renumber h hc hc').mpr hv, hev, rfl⟩
    · rintro ⟨d, hd, rfl⟩
      obtain ⟨v, e, hv, hev, rfl⟩ := (target?_eq_some_iff h.left h.leftSaturated hc).mp hd
      obtain ⟨e', he', hid⟩ := renumber_classOf h hev
      exact ⟨v, e', (classOf?_renumber h hc hc').mp hv, he', hid.symm⟩
  refine ⟨c', hc', TypeClass.labels_congr htidy htidy' fun l => ?_, htarget, TypeClass.leafWidth_congr fun l => ?_⟩
  · rw [TypeClass.mem_labels_iff htidy', TypeClass.mem_labels_iff htidy, htarget]
    cases c.target? l <;> simp
  · rw [mem_incoming_iff h.right hc', mem_incoming_iff h.left hc]
    simp only [classOf?_renumber h hc hc']

end Twins

end Partition

/-! ## Targets -/

namespace Partition

/-- A target belongs to the class of the variable it was first bound to. -/
theorem lookup?_targets {g : Graph} (hg : g.WellFormed) (t : Target) : Entries.lookup? (ofGraph g).targets t =
    (Entries.lookup? g.boundVars t).bind fun v => (v.bind (ofGraph g).classOf?).map (·.id) := by
  rw [lookup?_first, Graph.boundVars, Entries.lookup?_mapValues]
  cases hi : Entries.lookup? g.bindings t with
  | none => rfl
  | some i =>
    obtain ⟨v, hv⟩ := Graph.exists_typeVar? (hg.bindings_lt _ (Entries.mem_of_lookup? hi))
    obtain ⟨id, members, -, -, hid, hc⟩ := classOf?_ofGraph hg hv
    simp only [Option.map_some, Option.bind_some, hv, hc, makeClass, hid]

theorem targets_renumbered {g g' : Graph} (h : Settled g g') (t : Target) :
    Entries.lookup? (ofGraph g').targets t =
      (Entries.lookup? (ofGraph g).targets t).map (renumber (ofGraph g) (ofGraph g')) := by
  have hbound : Entries.lookup? g'.boundVars t = Entries.lookup? g.boundVars t := by
    rw [Entries.lookup?_eq_head?_filter, Entries.lookup?_eq_head?_filter, h.twin.bound t]
  rw [lookup?_targets h.right, lookup?_targets h.left, hbound]
  cases Entries.lookup? g.boundVars t with
  | none => rfl
  | some o =>
    cases o with
    | none => rfl
    | some v =>
      simp only [Option.bind_some]
      cases hc : (ofGraph g).classOf? v with
      | some c =>
        obtain ⟨c', hc', hid⟩ := renumber_classOf h hc
        rw [hc']
        exact congrArg some hid.symm
      | none =>
        cases hc' : (ofGraph g').classOf? v with
        | none => rfl
        | some c' =>
          obtain ⟨c, hc'', -⟩ := renumber_classOf h.symm hc'
          cases hc.symm.trans hc''

end Partition

end TypeRecovery
