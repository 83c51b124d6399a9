/-
  TypeRecovery.Proofs.Closure.Paths — subtypings along whole paths.

  In a saturated graph a subtyping between two variables holds between their extensions by
  any path that both have, in the direction that the variance of the path gives: the rules
  flip an edge at each store of the path, and the variance is the parity of its stores.
-/

import TypeRecovery.Proofs.Closure.LeastClosure

namespace TypeRecovery.Graph

/-- The induction is on the path, read from the front; a store swaps the two sides for the
rest of it, so both directions are carried along. -/
theorem Saturated.below_descend {g : Graph} (hs : g.Saturated) {p : List Label} {a b x y : Nat} (hab : g.Below a b)
    (hx : g.descend? a p = some x) (hy : g.descend? b p = some y) :
    (TypeVar.pathVariance p = .covariant → g.Below x y) ∧
      (TypeVar.pathVariance p = .contravariant → g.Below y x) := by
  induction p generalizing a b x y with
  | nil =>
    cases hx; cases hy
    exact ⟨fun _ => hab, fun h => by cases h⟩
  | cons l p ih =>
    rw [descend?_cons, Option.bind_eq_some_iff] at hx hy
    obtain ⟨a', ha', hx⟩ := hx
    obtain ⟨b', hb', hy⟩ := hy
    rw [TypeVar.pathVariance_cons]
    rcases Label.covariant_or_store l with hl | rfl
    · have h := ih (hs.below_push hab hl ha' hb') hx hy
      rw [hl]
      cases hp : TypeVar.pathVariance p <;> simp_all [Variance.compose]
    · have h := ih (hs.below_store hab ha' hb') hy hx
      cases hp : TypeVar.pathVariance p <;> simp_all [Variance.compose, Label.variance]

variable {g g' : Graph} {seed : List (Nat × Nat)} {visits : Visits} {s : Settings} {clock : Clock} {readings readings' : Nat}
  {stats : ClosureStats}

/-- A subtype edge of a closed graph reaches along every common path, forwards where the path
is covariant and backwards where it is contravariant. -/
theorem closed_along_path (hr : g.Reach) (hs : seed.Perm g.edges)
    (h : g.closeFrom seed visits s clock readings = ⟨g', readings', .ok stats⟩) {v w : TypeVar} (hvw : g'.Records v w)
    {p : List Label} (hv : g'.contains (v.along p) = true) (hw : g'.contains (w.along p) = true) :
    (TypeVar.pathVariance p = .covariant → g'.isSubtype (v.along p) (w.along p) = true) ∧
      (TypeVar.pathVariance p = .contravariant → g'.isSubtype (w.along p) (v.along p) = true) := by
  have hwf := closeFrom_wellFormed hr.wellFormed hs h
  have hsat := closeFrom_saturated hr.wellFormed hs h
  obtain ⟨a, b, ha, hb, hab⟩ := hvw
  obtain ⟨x, hx⟩ := hwf.contains_iff.mp hv
  obtain ⟨y, hy⟩ := hwf.contains_iff.mp hw
  have hax := (hwf.descend?_eq_some_iff ha).mpr hx
  have hby := (hwf.descend?_eq_some_iff hb).mpr hy
  rw [isSubtype_iff hwf hx hy, isSubtype_iff hwf hy hx]
  exact hsat.below_descend (Or.inr (mem_edges.mp hab)) hax hby

/-- `p ⊑ q`, where through both a pointer is stored and through that a value. -/
def storePair : Graph :=
  let p := (empty.intern ⟨"p", [.store, .store]⟩).1
  ((p.intern ⟨"q", [.store, .store]⟩).1.relate 0 3).1

theorem storePair_reach : storePair.Reach :=
  .relate (.intern _ (.intern _ .empty)) (by decide) (by decide)

theorem storePair_along_stores :
    storePair.Reach ∧ storePair.edges.Perm storePair.edges ∧
      ∃ g' n stats, storePair.closeFrom storePair.edges .recorded .standard (.ticking (.whole 0)) 0 = ⟨g', n, .ok stats⟩ ∧
        g'.Records ⟨"p", []⟩ ⟨"q", []⟩ ∧ g'.contains ⟨"p", [.store, .store]⟩ = true ∧
        g'.contains ⟨"q", [.store, .store]⟩ = true ∧
        TypeVar.pathVariance [.store, .store] = .covariant ∧
        g'.isSubtype ⟨"p", [.store, .store]⟩ ⟨"q", [.store, .store]⟩ = true := by
  have hs := List.Perm.refl storePair.edges
  refine ⟨storePair_reach, hs, _, _, _, rfl, ⟨0, 3, by decide, by decide, by decide⟩, by decide, by decide, rfl, ?_⟩
  exact (closed_along_path storePair_reach hs
    (Eq.refl (storePair.closeFrom storePair.edges .recorded .standard (.ticking (.whole 0)) 0))
    (v := ⟨"p", []⟩) (w := ⟨"q", []⟩) (p := [.store, .store])
    ⟨0, 3, by decide, by decide, by decide⟩ (by decide) (by decide)).1 rfl

end TypeRecovery.Graph
