/-
  TypeRecovery.Proofs.Graph.Arena — how the tables of a graph fit together.

  A graph keeps what it knows in several tables: variables by node, nodes by variable, children
  and parents, supertypes and subtypes, a counter of edges and the bindings. `Coherent` says
  that they agree. Making a node may make nodes for its shortenings first, and closing the
  graph records edges while it goes through them; a constraint may be rejected half-way and a
  run stopped, and the tables agree all the same.

  Proved:
  - `ncard_supertypes`: the edges are as many as the pairs that the supertypes list.
  - `Reach.coherent`: the tables of every graph that can arise agree.
-/

import Mathlib.Data.Set.Card
import TypeRecovery.Proofs.Graph.Admission

namespace TypeRecovery

theorem TypeVar.Begins.exists_along {u v : TypeVar} (h : u.Begins v) : ∃ p, v = u.along p := by
  obtain ⟨hbase, p, hp⟩ := h
  refine ⟨p, ?_⟩
  rw [along, hp, hbase]

namespace Graph

structure Coherent (g : Graph) : Prop where
  /-- The nodes are the numbers below the size, each with a variable. -/
  node_iff {i : Nat} : i < g.size ↔ ∃ v, g.typeVar? i = some v
  /-- Looking up a variable and looking up a node are inverse. -/
  find_iff {v : TypeVar} {i : Nat} : g.find? v = some i ↔ g.typeVar? i = some v
  mem_typeVars_iff {v : TypeVar} : v ∈ g.typeVars ↔ ∃ i, g.find? v = some i
  contains_shortening {u v : TypeVar} : g.contains v = true → u.Begins v → g.contains u = true
  parent_lt {i j : Nat} {l : Label} : g.parent? j = some (i, l) → i < j
  child_iff_parent {i j : Nat} {l : Label} : g.child? i l = some j ↔ g.parent? j = some (i, l)
  child_iff_extends {i j : Nat} {l : Label} :
    g.child? i l = some j ↔ ∃ v, g.typeVar? i = some v ∧ g.typeVar? j = some (v.extend l)
  root_orphan {i : Nat} {b : String} : g.typeVar? i = some (.root b) → g.parent? i = none
  supertype_iff_subtype {a b : Nat} : b ∈ g.supertypes a ↔ a ∈ g.subtypes b
  not_own_supertype (a : Nat) : a ∉ g.supertypes a
  edgeCount_eq : g.edgeCount = {e : Nat × Nat | e.2 ∈ g.supertypes e.1}.ncard
  edge_between_nodes {a b : Nat} : b ∈ g.supertypes a → a < g.size ∧ b < g.size
  binding_lt {t : Target} {i : Nat} : (t, i) ∈ g.bindings → i < g.size

theorem getElem?_typeVars (g : Graph) (i : Nat) : g.typeVars[i]? = g.typeVar? i := by
  simp [typeVars, typeVar?]

theorem mem_typeVars {g : Graph} {v : TypeVar} : v ∈ g.typeVars ↔ ∃ i, g.typeVar? i = some v := by
  simp only [List.mem_iff_getElem?, getElem?_typeVars]

theorem ncard_edges {g : Graph} (hg : g.WellFormed) : {e | e ∈ g.edges}.ncard = g.edges.length := by
  have hset : {e | e ∈ g.edges} = ↑g.edges.toFinset := by
    ext e
    simp
  rw [hset, Set.ncard_coe_finset, List.toFinset_card_of_nodup hg.edges_nodup]

theorem ncard_supertypes {g : Graph} (hg : g.WellFormed) :
    {e : Nat × Nat | e.2 ∈ g.supertypes e.1}.ncard = g.edges.length := by
  rw [← ncard_edges hg]
  congr 1
  ext ⟨a, b⟩
  exact mem_edges.symm

/-- The tables of every graph that can arise agree, whatever was rejected or stopped on the way. -/
theorem Reach.coherent {g : Graph} (hr : g.Reach) : g.Coherent := by
  have hg := hr.wellFormed
  refine ⟨fun {i} => ?_, hg.find?_eq_some_iff, ?_, ?_, ?_, hg.child_iff, ?_, ?_, hg.mem_subtypes.symm, hg.irreflexive,
    ?_, fun h => hg.edge_lt (mem_edges.mpr h), fun {t i} h => hg.bindings_lt (t, i) h⟩
  · exact ⟨exists_typeVar?, fun ⟨_, h⟩ => lt_size h⟩
  · intro v
    simp only [mem_typeVars, hg.find?_eq_some_iff]
  · intro u v hv hb
    obtain ⟨p, rfl⟩ := hb.exists_along
    exact hg.contains_of_along hv
  · exact fun h => (hg.extends_ (hg.child_iff.mpr h)).1
  · intro i j l
    constructor
    · exact fun h => (hg.extends_ h).2
    · rintro ⟨v, hi, hj⟩
      exact (hg.child?_eq_some_iff hi).mpr hj
  · intro i b hi
    cases hp : g.parent? i with
    | none => rfl
    | some e =>
      obtain ⟨k, l⟩ := e
      obtain ⟨-, v, -, hv⟩ := hg.extends_ (hg.child_iff.mpr hp)
      exact absurd (Option.some.inj (hv.symm.trans hi)) (TypeVar.extend_ne_root v l b)
  · rw [hg.edgeCount_eq, ncard_supertypes hg]

/-- A field without bits is rejected, two pointers stored through are bound and related, and
the run that closes the graph is stopped after one step. -/
theorem interrupted_coherent :
    ∃ k k' g n e, Intake.empty.add .standard ⟨⟨"x", [.load]⟩, ⟨"y", [.field ⟨0, 0⟩]⟩⟩ = .ok (k, none) ∧
      k.bind .standard ⟨.number 1, ⟨⟨"p", [.store]⟩, ⟨"q", [.store]⟩⟩⟩ = .ok k' ∧
      (k'.graph.relate 0 2).1.close { Settings.standard with maxSteps := some (.whole 1) } (.ticking (.whole 0)) 0 =
        ⟨g, n, .error e⟩ ∧
      g.Reach ∧ g.Coherent ∧ g.edges = [(0, 2), (1, 3), (3, 1)] ∧ g.edgeCount = 3 := by
  refine ⟨_, _, _, _, _, rfl, rfl, rfl, ?_⟩
  have hbound : Reach _ := .bind (.add .empty (Eq.refl (Intake.empty.add .standard ⟨⟨"x", [.load]⟩, ⟨"y", [.field ⟨0, 0⟩]⟩⟩)))
    (s := .standard) (b := ⟨.number 1, ⟨⟨"p", [.store]⟩, ⟨"q", [.store]⟩⟩⟩) rfl
  have hr := Reach.close .recorded { Settings.standard with maxSteps := some (.whole 1) } (.ticking (.whole 0)) 0
    (.relate (a := 0) (b := 2) hbound (by decide) (by decide)) (.refl _)
  exact ⟨hr, hr.coherent, by decide, rfl⟩

end Graph

end TypeRecovery
