/-
  TypeRecovery.Proofs.Closure.LeastClosure — what closing a graph computes.

  A graph that can arise is closed from its subtype edges, waiting in any order, under any
  settings and by any clock. If no bound stops the run, the edges are exactly the pairs of
  different nodes in the least relation that holds the first edges and obeys the three rules:
  nothing else is recorded (`closeFrom_sound`), nothing is missing (`closeFrom_complete`),
  and all but the subtype edges is as before (`closeFrom_bare`).
-/

import TypeRecovery.Proofs.Graph.Reach

namespace TypeRecovery.Graph

variable {g g' : Graph} {seed : List (Nat × Nat)} {visits : Visits} {s : Settings} {clock : Clock} {readings readings' : Nat}

theorem closeFrom_bare (hg : g.WellFormed) (hs : seed.Perm g.edges) {result : Except Exhausted ClosureStats}
    (h : g.closeFrom seed visits s clock readings = ⟨g', readings', result⟩) : g'.bare = g.bare := by
  obtain ⟨r, done, rfl, hi, -⟩ := closeFrom_spec hg hs h
  exact hi.bare

theorem closeFrom_wellFormed (hg : g.WellFormed) (hs : seed.Perm g.edges) {result : Except Exhausted ClosureStats}
    (h : g.closeFrom seed visits s clock readings = ⟨g', readings', result⟩) : g'.WellFormed := by
  obtain ⟨r, done, rfl, hi, -⟩ := closeFrom_spec hg hs h
  exact hi.wf

theorem closeFrom_keeps (hg : g.WellFormed) (hs : seed.Perm g.edges) {result : Except Exhausted ClosureStats}
    (h : g.closeFrom seed visits s clock readings = ⟨g', readings', result⟩) {e : Nat × Nat} (he : e ∈ g.edges) :
    e ∈ g'.edges := by
  obtain ⟨r, done, rfl, hi, -⟩ := closeFrom_spec hg hs h
  exact hi.keeps e he

/-- Every edge is entailed, also when a bound stopped the run. -/
theorem closeFrom_sound (hg : g.WellFormed) (hs : seed.Perm g.edges) {result : Except Exhausted ClosureStats}
    (h : g.closeFrom seed visits s clock readings = ⟨g', readings', result⟩) {a b : Nat} (hab : (a, b) ∈ g'.edges) :
    a ≠ b ∧ g.EntailsAt a b := by
  obtain ⟨r, done, rfl, hi, -⟩ := closeFrom_spec hg hs h
  refine ⟨?_, hi.sound _ hab⟩
  rintro rfl
  exact hi.wf.irreflexive a (mem_edges.mp hab)

variable {stats : ClosureStats}

theorem closeFrom_saturated (hg : g.WellFormed) (hs : seed.Perm g.edges)
    (h : g.closeFrom seed visits s clock readings = ⟨g', readings', .ok stats⟩) : g'.Saturated := by
  obtain ⟨r, done, rfl, -, hend⟩ := closeFrom_spec hg hs h
  exact hend stats rfl

theorem closeFrom_complete (hg : g.WellFormed) (hs : seed.Perm g.edges)
    (h : g.closeFrom seed visits s clock readings = ⟨g', readings', .ok stats⟩) {a b : Nat} (hab : a ≠ b)
    (he : g.EntailsAt a b) : (a, b) ∈ g'.edges := by
  have hwf := closeFrom_wellFormed hg hs h
  have hbare := closeFrom_bare hg hs h
  have hknown : ∀ u, g.contains u = true → g'.contains u = true := by
    intro u hu
    obtain ⟨i, hi⟩ := hg.contains_iff.mp hu
    exact contains_of_typeVar? hwf ((typeVar?_of_bare hbare i).trans hi)
  have hgiven : ∀ u x, g.Records u x →
      ∃ i j, g'.typeVar? i = some u ∧ g'.typeVar? j = some x ∧ g'.Below i j := by
    rintro u x ⟨i, j, hi, hj, he⟩
    exact ⟨i, j, (typeVar?_of_bare hbare i).trans hi, (typeVar?_of_bare hbare j).trans hj,
      Or.inr (mem_edges.mp (closeFrom_keeps hg hs h he))⟩
  obtain ⟨v, w, ha, hb, hvw⟩ := he
  obtain ⟨a', b', ha', hb', hbelow⟩ := below_of_derives hwf (closeFrom_saturated hg hs h) hknown hgiven hvw
  cases hwf.typeVar?_inj ha' ((typeVar?_of_bare hbare a).trans ha)
  cases hwf.typeVar?_inj hb' ((typeVar?_of_bare hbare b).trans hb)
  exact mem_edges.mpr (hbelow.resolve_left hab)

theorem labelEdges_of_bare {g g' : Graph} (h : g'.bare = g.bare) : g'.labelEdges = g.labelEdges := by
  simp only [labelEdges_eq, size_of_bare h, children_of_bare h]

theorem typeVars_of_bare {g g' : Graph} (h : g'.bare = g.bare) : g'.typeVars = g.typeVars := by
  rw [← typeVars_bare g', h, typeVars_bare]

/-- A closed graph has exactly the edges of the least closure, and is otherwise the same. -/
theorem closed_edges_exact (hr : g.Reach) (hs : seed.Perm g.edges)
    (h : g.closeFrom seed visits s clock readings = ⟨g', readings', .ok stats⟩) :
    (∀ a b, (a, b) ∈ g'.edges ↔ a ≠ b ∧ g.EntailsAt a b) ∧ g'.edges.Nodup ∧
      g'.typeVars = g.typeVars ∧ g'.labelEdges = g.labelEdges ∧ g'.bindings = g.bindings := by
  have hg := hr.wellFormed
  have hbare := closeFrom_bare hg hs h
  refine ⟨fun a b => ⟨closeFrom_sound hg hs h, fun hab => closeFrom_complete hg hs h hab.1 hab.2⟩, ?_, ?_, ?_, ?_⟩
  · exact (closeFrom_wellFormed hg hs h).edges_nodup
  · exact typeVars_of_bare hbare
  · exact labelEdges_of_bare hbare
  · exact bindings_of_bare hbare

/-- Pointers `p ⊑ q` and `q ⊑ r`, each stored through. -/
def storeChain : Graph :=
  let p := (empty.intern ⟨"p", [.store]⟩).1
  let q := (p.intern ⟨"q", [.store]⟩).1
  let r := (q.intern ⟨"r", [.store]⟩).1
  ((r.relate 0 2).1.relate 2 4).1

theorem storeChain_reach : storeChain.Reach :=
  .relate (.relate (.intern _ (.intern _ (.intern _ .empty))) (by decide) (by decide)) (by decide) (by decide)

theorem closed_storeChain :
    storeChain.Reach ∧ [(2, 4), (0, 2)].Perm storeChain.edges ∧
      ∃ g' n stats, storeChain.closeFrom [(2, 4), (0, 2)] .recorded .standard (.ticking (.whole 0)) 0 = ⟨g', n, .ok stats⟩ ∧
        g'.edges = [(0, 2), (0, 4), (2, 4), (3, 1), (5, 3), (5, 1)] ∧
        (∀ a b, (a, b) ∈ g'.edges ↔ a ≠ b ∧ storeChain.EntailsAt a b) ∧
        g'.typeVars = storeChain.typeVars := by
  have hs : [(2, 4), (0, 2)].Perm storeChain.edges := by decide
  have h := closed_edges_exact storeChain_reach hs
    (Eq.refl (storeChain.closeFrom [(2, 4), (0, 2)] .recorded .standard (.ticking (.whole 0)) 0))
  exact ⟨storeChain_reach, hs, _, _, _, rfl, by decide, h.1, h.2.2.1⟩

end TypeRecovery.Graph
