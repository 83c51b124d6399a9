/-
  TypeRecovery.Proofs.Graph.WellFormed — what holds of every graph of type variables.

  A graph is `WellFormed` when its label edges lead from variables to their extensions and
  back, its two lists of subtype edges mirror each other without repeats and self edges, its
  counter counts them, and its bindings name nodes. `bare` forgets the subtype edges: two
  graphs with the same bare part have the same nodes, label edges and bindings.

  Proved of a well-formed graph:
  - `find?_eq_some_iff`: nodes and variables correspond one to one.
  - `child?_eq_some_iff`, `descend?_eq_some_iff`: a label, or a path of labels, leads to a node
    exactly when that node is the extension.
  - `contains_of_along`: with a variable, its shortenings are there too.
-/

import Mathlib.Data.List.Nodup
import TypeRecovery.Graph.Basic
import TypeRecovery.Proofs.Entries
import TypeRecovery.Proofs.TypeVar

namespace TypeRecovery.Graph

/-- A graph without its subtype edges. -/
def bare (g : Graph) : Graph :=
  { g with nodes := g.nodes.map fun n => { n with supertypes := [], subtypes := [] }, edgeCount := 0 }

/-! ## Views -/

@[simp] theorem size_bare (g : Graph) : g.bare.size = g.size := by simp [bare, size]
@[simp] theorem bindings_bare (g : Graph) : g.bare.bindings = g.bindings := rfl
@[simp] theorem root?_bare (g : Graph) (b : String) : g.bare.root? b = g.root? b := rfl

@[simp] theorem typeVar?_bare (g : Graph) (i : Nat) : g.bare.typeVar? i = g.typeVar? i := by
  simp [bare, typeVar?, Function.comp_def]

@[simp] theorem parent?_bare (g : Graph) (i : Nat) : g.bare.parent? i = g.parent? i := by
  simp only [bare, parent?, Array.getElem?_map]
  cases g.nodes[i]? <;> rfl

@[simp] theorem children_bare (g : Graph) (i : Nat) : g.bare.children i = g.children i := by
  simp [bare, children, Function.comp_def]

@[simp] theorem child?_bare (g : Graph) (i : Nat) (l : Label) : g.bare.child? i l = g.child? i l := by
  simp [child?]

@[simp] theorem typeVars_bare (g : Graph) : g.bare.typeVars = g.typeVars := by
  simp [bare, typeVars, Function.comp_def]

section Bare

variable {g g' : Graph} (h : g'.bare = g.bare)
include h

theorem size_of_bare : g'.size = g.size := by rw [← size_bare g', h, size_bare]

theorem typeVar?_of_bare (i : Nat) : g'.typeVar? i = g.typeVar? i := by rw [← typeVar?_bare g', h, typeVar?_bare]

theorem parent?_of_bare (i : Nat) : g'.parent? i = g.parent? i := by rw [← parent?_bare g', h, parent?_bare]

theorem children_of_bare (i : Nat) : g'.children i = g.children i := by rw [← children_bare g', h, children_bare]

theorem child?_of_bare (i : Nat) (l : Label) : g'.child? i l = g.child? i l := by
  rw [child?, children_of_bare h, child?]

theorem root?_of_bare (b : String) : g'.root? b = g.root? b := by rw [← root?_bare g', h, root?_bare]

theorem bindings_of_bare : g'.bindings = g.bindings := by rw [← bindings_bare g', h, bindings_bare]

end Bare

theorem flatMap_zipIdx {α β : Type} (f : α → Nat → List β) : ∀ (xs : List α) (k : Nat),
    (xs.zipIdx k).flatMap (fun p => f p.1 p.2) =
      (List.range xs.length).flatMap fun i => ((xs[i]?).map (f · (i + k))).getD []
  | [], _ => rfl
  | x :: xs, k => by
    rw [List.zipIdx_cons, List.flatMap_cons, flatMap_zipIdx f xs (k + 1), List.length_cons,
      List.range_succ_eq_map, List.flatMap_cons, List.flatMap_map]
    simp [Nat.add_assoc, Nat.add_comm 1 k]

theorem edges_eq (g : Graph) :
    g.edges = (List.range g.size).flatMap fun i => (g.supertypes i).map fun j => (i, j) := by
  refine (flatMap_zipIdx (fun (n : Node) i => n.supertypes.map fun j => (i, j)) g.nodes.toList 0).trans ?_
  simp only [Array.length_toList, Nat.add_zero, Array.getElem?_toList, size, supertypes]
  congr 1; funext i
  cases g.nodes[i]? <;> rfl

theorem labelEdges_eq (g : Graph) :
    g.labelEdges = (List.range g.size).flatMap fun i => (g.children i).map fun c => (i, c.1, c.2) := by
  refine (flatMap_zipIdx (fun (n : Node) i => n.children.map fun c => (i, c.1, c.2)) g.nodes.toList 0).trans ?_
  simp only [Array.length_toList, Nat.add_zero, Array.getElem?_toList, size, children]
  congr 1; funext i
  cases g.nodes[i]? <;> rfl

theorem mem_edges {g : Graph} {a b : Nat} : (a, b) ∈ g.edges ↔ b ∈ g.supertypes a := by
  simp only [edges_eq, List.mem_flatMap, List.mem_map, List.mem_range, Prod.mk.injEq]
  constructor
  · rintro ⟨i, _, j, hj, rfl, rfl⟩; exact hj
  · intro h
    refine ⟨a, ?_, b, h, rfl, rfl⟩
    by_cases ha : a < g.size
    · exact ha
    · rw [supertypes, Array.getElem?_eq_none (by simpa [size] using ha)] at h; cases h

theorem edges_nodup {g : Graph} (h : ∀ a, (g.supertypes a).Nodup) : g.edges.Nodup := by
  rw [edges_eq, List.nodup_flatMap]
  refine ⟨fun i _ => ?_, List.nodup_range.imp fun {i j} hij => ?_⟩
  · exact (h i).map fun a b h => (Prod.mk.inj h).2
  · rintro ⟨a, b⟩ ha hb
    simp only [List.mem_map, Prod.mk.injEq] at ha hb
    obtain ⟨_, _, rfl, _⟩ := ha
    obtain ⟨_, _, rfl, _⟩ := hb
    exact hij rfl

theorem hasEdge_iff {g : Graph} {a b : Nat} : g.hasEdge a b = true ↔ b ∈ g.supertypes a := by
  simp [hasEdge]

theorem typeVar?_isSome {g : Graph} {i : Nat} : (g.typeVar? i).isSome = true ↔ i < g.size := by
  simp [typeVar?, size]

theorem lt_size {g : Graph} {i : Nat} {v : TypeVar} (h : g.typeVar? i = some v) : i < g.size :=
  typeVar?_isSome.mp (by simp [h])

theorem exists_typeVar? {g : Graph} {i : Nat} (h : i < g.size) : ∃ v, g.typeVar? i = some v :=
  Option.isSome_iff_exists.mp (typeVar?_isSome.mpr h)

theorem lt_size_of_mem_supertypes {g : Graph} {a b : Nat} (h : b ∈ g.supertypes a) : a < g.size := by
  have h' := mem_edges.mpr h
  simp only [edges_eq, List.mem_flatMap, List.mem_map, List.mem_range, Prod.mk.injEq] at h'
  obtain ⟨i, hi, _, _, rfl, _⟩ := h'
  exact hi

@[simp] theorem descend?_nil (g : Graph) (i : Nat) : g.descend? i [] = some i := rfl

theorem descend?_cons (g : Graph) (i : Nat) (l : Label) (p : List Label) :
    g.descend? i (l :: p) = (g.child? i l).bind fun j => g.descend? j p := rfl

theorem descend?_append (g : Graph) (p q : List Label) (i : Nat) :
    g.descend? i (p ++ q) = (g.descend? i p).bind fun j => g.descend? j q := by
  induction p generalizing i with
  | nil => rfl
  | cons l p ih =>
    rw [List.cons_append, descend?_cons, descend?_cons, Option.bind_assoc]
    congr 1; funext j; exact ih j

@[simp] theorem find?_root (g : Graph) (b : String) : g.find? (.root b) = g.root? b := by
  simp [find?, TypeVar.root]

/-- A node is found through the node of the variable one label shorter. -/
theorem find?_extend (g : Graph) (v : TypeVar) (l : Label) :
    g.find? (v.extend l) = (g.find? v).bind fun i => g.child? i l := by
  simp only [find?, TypeVar.extend, descend?_append, descend?_cons, descend?_nil, Option.bind_assoc]
  congr 1; funext i; congr 1; funext j
  cases g.child? j l <;> rfl

theorem find?_along (g : Graph) (v : TypeVar) (p : List Label) :
    g.find? (v.along p) = (g.find? v).bind fun i => g.descend? i p := by
  simp only [find?, TypeVar.along, descend?_append, Option.bind_assoc]

/-! ## The invariant -/

structure WellFormed (g : Graph) : Prop where
  root_iff {b : String} {i : Nat} : g.root? b = some i ↔ g.typeVar? i = some (.root b)
  child_iff {i j : Nat} {l : Label} : g.child? i l = some j ↔ g.parent? j = some (i, l)
  /-- A label edge leads from a variable to its extension, and to a later node. -/
  extends_ {i j : Nat} {l : Label} : g.child? i l = some j →
    i < j ∧ ∃ v, g.typeVar? i = some v ∧ g.typeVar? j = some (v.extend l)
  orphan_root {i : Nat} {v : TypeVar} : g.typeVar? i = some v → g.parent? i = none → v.path = []
  childrenNodup (i : Nat) : ((g.children i).map (·.1)).Nodup
  supertypes_lt {a b : Nat} : b ∈ g.supertypes a → b < g.size
  mem_subtypes {a b : Nat} : a ∈ g.subtypes b ↔ b ∈ g.supertypes a
  irreflexive (a : Nat) : a ∉ g.supertypes a
  supertypesNodup (a : Nat) : (g.supertypes a).Nodup
  edgeCount_eq : g.edgeCount = g.edges.length
  bindings_lt : ∀ e ∈ g.bindings, e.2 < g.size

theorem empty_wellFormed : empty.WellFormed where
  root_iff := by simp [empty, root?, typeVar?]
  child_iff := by simp [empty, child?, children, parent?]
  extends_ := by simp [empty, child?, children]
  orphan_root := by simp [empty, typeVar?]
  childrenNodup := by simp [empty, children]
  supertypes_lt := by simp [empty, supertypes]
  mem_subtypes := by simp [empty, supertypes, subtypes]
  irreflexive := by simp [empty, supertypes]
  supertypesNodup := by simp [empty, supertypes]
  edgeCount_eq := rfl
  bindings_lt := by simp [empty]

namespace WellFormed

variable {g : Graph} (hg : g.WellFormed)
include hg

theorem edges_nodup : g.edges.Nodup := Graph.edges_nodup hg.supertypesNodup

theorem edge_lt {a b : Nat} (h : (a, b) ∈ g.edges) : a < g.size ∧ b < g.size :=
  ⟨lt_size_of_mem_supertypes (mem_edges.mp h), hg.supertypes_lt (mem_edges.mp h)⟩

theorem mem_children_iff {i j : Nat} {l : Label} : (l, j) ∈ g.children i ↔ g.child? i l = some j :=
  (Entries.lookup?_eq_some_iff (hg.childrenNodup i)).symm

/-- The node of an extension is reached from the node of the variable. -/
theorem exists_parent {j : Nat} {v : TypeVar} {l : Label} (h : g.typeVar? j = some (v.extend l)) :
    ∃ i, g.typeVar? i = some v ∧ g.child? i l = some j := by
  cases hp : g.parent? j with
  | none => exact absurd (hg.orphan_root h hp) (by simp [TypeVar.extend])
  | some e =>
    obtain ⟨i, m⟩ := e
    have hc := hg.child_iff.mpr hp
    obtain ⟨_, w, hi, hj⟩ := hg.extends_ hc
    rw [h, Option.some_inj, TypeVar.extend_inj] at hj
    obtain ⟨rfl, rfl⟩ := hj
    exact ⟨i, hi, hc⟩

/-- Nodes and variables correspond one to one. -/
theorem find?_eq_some_iff {v : TypeVar} {i : Nat} : g.find? v = some i ↔ g.typeVar? i = some v := by
  induction v using TypeVar.extendInduction generalizing i with
  | hroot b => rw [find?_root, hg.root_iff]
  | hextend v l ih =>
    rw [find?_extend, Option.bind_eq_some_iff]
    constructor
    · rintro ⟨k, hk, hc⟩
      obtain ⟨_, w, hw, hi⟩ := hg.extends_ hc
      rw [ih.mp hk, Option.some_inj] at hw
      rw [hi, hw]
    · intro h
      obtain ⟨k, hk, hc⟩ := hg.exists_parent h
      exact ⟨k, ih.mpr hk, hc⟩

theorem typeVar?_inj {v : TypeVar} {i j : Nat} (hi : g.typeVar? i = some v) (hj : g.typeVar? j = some v) :
    i = j :=
  Option.some_inj.mp ((hg.find?_eq_some_iff.mpr hi).symm.trans (hg.find?_eq_some_iff.mpr hj))

theorem contains_iff {v : TypeVar} : g.contains v = true ↔ ∃ i, g.typeVar? i = some v := by
  simp only [contains, Option.isSome_iff_exists, hg.find?_eq_some_iff]

/-- A label edge leads to a node exactly when that node is the extension. -/
theorem child?_eq_some_iff {i j : Nat} {l : Label} {v : TypeVar} (hi : g.typeVar? i = some v) :
    g.child? i l = some j ↔ g.typeVar? j = some (v.extend l) := by
  constructor
  · intro h
    obtain ⟨_, w, hw, hj⟩ := hg.extends_ h
    rw [hi, Option.some_inj] at hw
    rw [hj, hw]
  · intro h
    obtain ⟨k, hk, hc⟩ := hg.exists_parent h
    rwa [hg.typeVar?_inj hi hk]

theorem descend?_eq_some_iff {i j : Nat} {p : List Label} {v : TypeVar} (hi : g.typeVar? i = some v) :
    g.descend? i p = some j ↔ g.typeVar? j = some (v.along p) := by
  rw [← hg.find?_eq_some_iff, find?_along, hg.find?_eq_some_iff.mpr hi, Option.bind_some]

theorem contains_of_along {v : TypeVar} {p : List Label} (h : g.contains (v.along p) = true) : g.contains v = true := by
  obtain ⟨j, hj⟩ := hg.contains_iff.mp h
  rw [← hg.find?_eq_some_iff, find?_along, Option.bind_eq_some_iff] at hj
  obtain ⟨i, hi, -⟩ := hj
  exact hg.contains_iff.mpr ⟨i, hg.find?_eq_some_iff.mp hi⟩

end WellFormed

end TypeRecovery.Graph
