/-
  TypeRecovery.Proofs.Partition.Targets — the classes that targets are bound to.

  Bindings are taken in order. The first of a target gives it the class of its node, and no
  later one changes that: the class kept when a binding is taken is the one kept at the end
  (`lookup?_foldl_bind`). So what is reported of a binding depends only on its node and on the
  first node of its target (`disputes`), and the targets of a class are read off the classes kept.

  Proved:
  - `keys_foldl_bind`, `lookup?_foldl_bind`, `reports_foldl_bind`: what bindings leave behind.
  - `targets_nodup`, `count_targets`: a target is listed by its class alone, and once.
  - `ofGraph_settles`: any bindings to nodes of any graph.
-/

import Mathlib.Data.List.Permutation
import TypeRecovery.Proofs.Graph.Reach
import TypeRecovery.Proofs.Partition.Classes

namespace TypeRecovery

/-! ## One binding after another -/

namespace TargetClasses

theorem keys_bind (b : TargetClasses) (t : Target) (d : Nat) :
    (b.bind t d).entries.map (·.1) = appendNew (b.entries.map (·.1)) t := by
  unfold bind appendNew
  cases hl : Entries.lookup? b.entries t with
  | none =>
    rw [if_neg (Entries.lookup?_eq_none_iff.mp hl), List.map_append]
    rfl
  | some kept =>
    rw [if_pos (List.mem_map_of_mem (f := (·.1)) (Entries.mem_of_lookup? hl))]
    dsimp only
    split <;> rfl

theorem lookup?_bind (b : TargetClasses) (t t' : Target) (d : Nat) :
    Entries.lookup? (b.bind t d).entries t' = (Entries.lookup? b.entries t').or (if t = t' then some d else none) := by
  unfold bind
  cases hl : Entries.lookup? b.entries t with
  | none =>
    rw [Entries.lookup?_append, Entries.lookup?_cons, Entries.lookup?_nil]
  | some kept =>
    have hkeep : Entries.lookup? b.entries t' = (Entries.lookup? b.entries t').or (if t = t' then some d else none) := by
      by_cases ht : t = t'
      · subst ht; simp [hl]
      · simp [ht]
    dsimp only
    split <;> exact hkeep

/-- The report of a binding whose target is kept in another class. -/
def dispute? (t : Target) (kept dropped : Nat) : Option Report :=
  if kept = dropped then none else some (conflict t kept dropped)

theorem reports_bind (b : TargetClasses) (t : Target) (d : Nat) :
    (b.bind t d).reports = b.reports ++ ((Entries.lookup? (b.bind t d).entries t).bind (dispute? t · d)).toList := by
  rw [lookup?_bind, if_pos rfl]
  unfold bind dispute?
  cases hl : Entries.lookup? b.entries t with
  | none => simp
  | some kept =>
    by_cases hd : kept = d <;> simp [hd]

section Fold

variable (f : Nat → Nat) (bs : Entries Target Nat)

theorem keys_foldl_bind (b : TargetClasses) : (bs.foldl (fun b (t, i) => b.bind t (f i)) b).entries.map (·.1) =
    (bs.map (·.1)).foldl appendNew (b.entries.map (·.1)) := by
  induction bs generalizing b with
  | nil => rfl
  | cons e bs ih => rw [List.foldl_cons, ih, keys_bind, List.map_cons, List.foldl_cons]

/-- A target belongs to the class it was first bound to. -/
theorem lookup?_foldl_bind (b : TargetClasses) (t : Target) :
    Entries.lookup? (bs.foldl (fun b (t, i) => b.bind t (f i)) b).entries t =
      (Entries.lookup? b.entries t).or ((Entries.lookup? bs t).map f) := by
  induction bs generalizing b with
  | nil => simp
  | cons e bs ih =>
    rw [List.foldl_cons, ih, lookup?_bind, Option.or_assoc, Entries.lookup?_cons]
    congr 1
    split <;> simp

/-- What is kept at the end was kept when the binding was taken. -/
theorem reports_foldl_bind (b : TargetClasses) :
    let last := bs.foldl (fun b (t, i) => b.bind t (f i)) b
    last.reports = b.reports ++ bs.filterMap fun (t, i) => (Entries.lookup? last.entries t).bind (dispute? t · (f i)) := by
  induction bs generalizing b with
  | nil => simp
  | cons e bs ih =>
    have hkept : Entries.lookup? (bs.foldl (fun b (t, i) => b.bind t (f i)) (b.bind e.1 (f e.2))).entries e.1 =
        Entries.lookup? (b.bind e.1 (f e.2)).entries e.1 := by
      rw [lookup?_foldl_bind, lookup?_bind, if_pos rfl]
      cases Entries.lookup? b.entries e.1 <;> simp
    dsimp only at ih ⊢
    rw [List.foldl_cons, ih, reports_bind, List.append_assoc, List.filterMap_cons, hkept]
    cases (Entries.lookup? (b.bind e.1 (f e.2)).entries e.1).bind (dispute? e.1 · (f e.2)) <;> rfl

end Fold

end TargetClasses

/-! ## The targets of classes -/

namespace Partition

theorem targets_nodup (g : Graph) : ((ofGraph g).targets.map (·.1)).Nodup := by
  have hkeys := TargetClasses.keys_foldl_bind (classOfNode (ofGraph g).classOf) g.bindings ⟨[], [], []⟩
  exact hkeys ▸ nodup_foldl_appendNew List.nodup_nil

theorem targets_eq {g : Graph} {c : TypeClass} (hc : c ∈ (ofGraph g).classes) :
    c.targets = ((ofGraph g).targets.filter fun e => e.2 = c.id).map (·.1) := by
  obtain ⟨id, members, -, rfl⟩ := mem_classes hc
  rfl

/-- A class lists the targets that it was kept for, each once. -/
theorem count_targets {g : Graph} {c : TypeClass} (hc : c ∈ (ofGraph g).classes) (t : Target) :
    c.targets.count t = if Entries.lookup? (ofGraph g).targets t = some c.id then 1 else 0 := by
  have hnodup : c.targets.Nodup := by
    rw [targets_eq hc]
    exact (targets_nodup g).sublist (List.filter_sublist.map _)
  have hmem : t ∈ c.targets ↔ Entries.lookup? (ofGraph g).targets t = some c.id := by
    rw [Entries.lookup?_eq_some_iff (targets_nodup g), targets_eq hc]
    simp [Prod.exists]
  rw [List.Nodup.count hnodup]
  simp only [hmem]

/-- The reports that bindings cause: one of each that would move its target from the class of its
first node to another. -/
def disputes (classOf : Nat → Nat) (bs : List (Target × Nat)) : List Report :=
  bs.filterMap fun (t, i) => (Entries.lookup? bs t).bind fun first => TargetClasses.dispute? t (classOf first) (classOf i)

/-- What bindings, taken in order, leave behind. -/
structure Settles (bs : List (Target × Nat)) (p : Partition) : Prop where
  bound_iff {t : Target} : (∃ id, Entries.lookup? p.targets t = some id) ↔ ∃ i, (t, i) ∈ bs
  first (t : Target) : Entries.lookup? p.targets t = (Entries.lookup? bs t).map (classOfNode p.classOf)
  order : p.targets.map (·.1) = firstOccurrences (bs.map (·.1))
  /-- The class of a target is there, -/
  listed {t : Target} {id : Nat} : Entries.lookup? p.targets t = some id → ∃ c ∈ p.classes, c.id = id
  /-- lists it once, and no other class does. -/
  count (t : Target) {c : TypeClass} : c ∈ p.classes → c.targets.count t = if Entries.lookup? p.targets t = some c.id then 1 else 0
  reports : p.reports = disputes (classOfNode p.classOf) bs

theorem bindings_wellFormed {g : Graph} (hg : g.WellFormed) {bs : List (Target × Nat)} (hbs : ∀ e ∈ bs, e.2 < g.size) :
    ({ g with bindings := bs } : Graph).WellFormed where
  root_iff := hg.root_iff
  child_iff := hg.child_iff
  extends_ := hg.extends_
  orphan_root := hg.orphan_root
  childrenNodup := hg.childrenNodup
  supertypes_lt := hg.supertypes_lt
  mem_subtypes := hg.mem_subtypes
  irreflexive := hg.irreflexive
  supertypesNodup := hg.supertypesNodup
  edgeCount_eq := hg.edgeCount_eq
  bindings_lt := hbs

section Settled

variable {g : Graph}

theorem lookup?_first (g : Graph) (t : Target) : Entries.lookup? (ofGraph g).targets t =
    (Entries.lookup? g.bindings t).map (classOfNode (ofGraph g).classOf) :=
  TargetClasses.lookup?_foldl_bind _ g.bindings ⟨[], [], []⟩ t

theorem bound_iff_mem {t : Target} : (∃ id, Entries.lookup? (ofGraph g).targets t = some id) ↔ ∃ i, (t, i) ∈ g.bindings := by
  have hkey : (∃ id, Entries.lookup? (ofGraph g).targets t = some id) ↔ t ∈ g.bindings.map (·.1) := by
    rw [← Option.isSome_iff_exists, Option.isSome_iff_ne_none, lookup?_first, ne_eq, Option.map_eq_none_iff,
      Entries.lookup?_eq_none_iff, not_not]
  rw [hkey, List.mem_map]
  exact ⟨fun ⟨e, he, ht⟩ => ⟨e.2, ht ▸ he⟩, fun ⟨i, hi⟩ => ⟨_, hi, rfl⟩⟩

theorem reports_eq (g : Graph) : (ofGraph g).reports = disputes (classOfNode (ofGraph g).classOf) g.bindings := by
  have hreports := TargetClasses.reports_foldl_bind (classOfNode (ofGraph g).classOf) g.bindings ⟨[], [], []⟩
  dsimp only at hreports
  rw [List.nil_append] at hreports
  refine hreports.trans (List.filterMap_congr fun e _ => ?_)
  rw [TargetClasses.lookup?_foldl_bind, Entries.lookup?_nil, Option.none_or, Option.bind_map]
  rfl

theorem exists_class_of_target (hg : g.WellFormed) {t : Target} {id : Nat} (h : Entries.lookup? (ofGraph g).targets t = some id) :
    ∃ c ∈ (ofGraph g).classes, c.id = id := by
  rw [lookup?_first, Option.map_eq_some_iff] at h
  obtain ⟨i, hi, rfl⟩ := h
  obtain ⟨id, members, hm, him⟩ := exists_position hg (hg.bindings_lt _ (Entries.mem_of_lookup? hi))
  have hc : (ofGraph g).class? id = some (makeClass g (ofGraph g).classOf (ofGraph g).targets id members) := by
    rw [class?_ofGraph, hm, Option.map_some]
  exact ⟨_, Array.mem_of_getElem? hc, (classOfNode_ofGraph hg hm him).symm⟩

end Settled

/-- Whatever targets are bound to nodes of a graph that can arise, in whatever order: a target is kept
in the class of the node it was first bound to, which lists it, and each later binding to a node of
another class is reported with both classes, in order, and nothing else is. -/
theorem ofGraph_settles {g : Graph} (h : g.Reach) {bs : List (Target × Nat)} (hbs : ∀ e ∈ bs, e.2 < g.size) :
    Settles bs (ofGraph { g with bindings := bs }) where
  bound_iff := bound_iff_mem
  first := lookup?_first _
  order := TargetClasses.keys_foldl_bind _ bs ⟨[], [], []⟩
  listed hid := exists_class_of_target (bindings_wellFormed h.wellFormed hbs) hid
  count t _ hc := count_targets hc t
  reports := reports_eq _

/-- Two names of one type, and another type. -/
def aliased : Graph :=
  let g := (((Graph.empty.intern ⟨"p", []⟩).1.intern ⟨"q", []⟩).1.intern ⟨"r", []⟩).1
  ((g.relate 0 1).1.relate 1 0).1

/-- A number and a name of one text, each bound to both classes, and one bound again within its class. -/
def rebound : List (Target × Nat) :=
  [(.number 1, 0), (.name "1", 2), (.number 1, 1), (.number 1, 2), (.name "1", 2), (.name "1", 0)]

theorem aliased_settles : aliased.Reach ∧ (∀ e ∈ rebound, e.2 < aliased.size) ∧
    Settles rebound (ofGraph { aliased with bindings := rebound }) ∧
    (ofGraph { aliased with bindings := rebound }).targets = [(.number 1, 0), (.name "1", 1)] ∧
    (ofGraph { aliased with bindings := rebound }).reports =
      [TargetClasses.conflict (.number 1) 0 1, TargetClasses.conflict (.name "1") 1 0] := by
  have hr : aliased.Reach := by
    have hnodes : (((Graph.empty.intern ⟨"p", []⟩).1.intern ⟨"q", []⟩).1.intern ⟨"r", []⟩).1.Reach :=
      ((Graph.Reach.empty.intern _).intern _).intern _
    exact (hnodes.relate (a := 0) (b := 1) (by decide) (by decide)).relate (a := 1) (b := 0) (by decide) (by decide)
  have hbs : ∀ e ∈ rebound, e.2 < aliased.size := by decide
  have hsettles := ofGraph_settles hr hbs
  have hclasses : (ofGraph { aliased with bindings := rebound }).classOf = #[0, 0, 1] := by cbv
  refine ⟨hr, hbs, hsettles, by cbv, ?_⟩
  rw [hsettles.reports, hclasses]
  rfl

end Partition

end TypeRecovery
