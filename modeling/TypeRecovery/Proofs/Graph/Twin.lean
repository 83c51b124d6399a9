/-
  TypeRecovery.Proofs.Graph.Twin — graphs that differ in the numbers of their nodes only.

  Two graphs are twins when each lies within the other, that is when they hold the same variables
  and record the same subtypings, and when they bind each target to the same variables in the same
  order. Nodes are numbered as they are made, so the graphs of one constraint set in two orders
  are twins with other numbers.

  Proved:
  - `twin_of_took`: what was taken in from the same constraints.
  - `Twin.isSubtype_eq`: what twins say of two variables.
  - `Twin.closed`: closing twins makes twins.
-/

import TypeRecovery.Proofs.Graph.Within

namespace TypeRecovery

namespace Graph

structure Twin (g g' : Graph) : Prop where
  contains (v : TypeVar) : g.contains v = g'.contains v
  records {v w : TypeVar} : g.Records v w ↔ g'.Records v w
  bound (t : Target) : (g.boundVars.filter fun e => e.1 = t) = g'.boundVars.filter fun e => e.1 = t

theorem Twin.symm {g g' : Graph} (h : g.Twin g') : g'.Twin g :=
  ⟨fun v => (h.contains v).symm, h.records.symm, fun t => (h.bound t).symm⟩

theorem Twin.within {g g' : Graph} (h : g.Twin g') : g.Within g' :=
  ⟨fun {v} hv => h.contains v ▸ hv, h.records.mp⟩

theorem Twin.isSubtype_eq {g g' : Graph} (hg : g.WellFormed) (hg' : g'.WellFormed) (h : g.Twin g') (v w : TypeVar) :
    g.isSubtype v w = g'.isSubtype v w := by
  rw [Bool.eq_iff_iff, isSubtype_iff_records hg, isSubtype_iff_records hg', h.records]

theorem Twin.closed {k k' g g' : Graph} (hk : k.WellFormed) (hk' : k'.WellFormed) (ht : k.Twin k') {s : Settings}
    {clock clock' : Clock} {readings readings' n n' : Nat} {stats stats' : ClosureStats}
    (h : k.close s clock readings = ⟨g, n, .ok stats⟩) (h' : k'.close s clock' readings' = ⟨g', n', .ok stats'⟩) :
    g.Twin g' := by
  have hto := ht.within.closed hk hk' h h'
  have hfrom := ht.symm.within.closed hk' hk h' h
  refine ⟨fun v => Bool.eq_iff_iff.mpr ⟨hto.contains, hfrom.contains⟩, ⟨hto.records, hfrom.records⟩, fun t => ?_⟩
  rw [boundVars_of_bare (closeFrom_bare hk (.refl _) h), boundVars_of_bare (closeFrom_bare hk' (.refl _) h')]
  exact ht.bound t

end Graph

/-! ## The same constraints -/

namespace Intake

theorem filter_boundBy (s : Settings) (t : Target) (bs : List Binding) :
    (bs.filterMap (boundBy s)).filter (fun e => e.1 = t) = (bs.filter fun b => b.target = t).filterMap (boundBy s) := by
  induction bs with
  | nil => rfl
  | cons b bs ih =>
    have hb : ∀ e, boundBy s b = some e → e.1 = b.target := by
      intro e he
      unfold boundBy at he
      split at he
      · cases he; rfl
      · cases he
    rw [List.filterMap_cons, List.filter_cons]
    cases h : boundBy s b with
    | none =>
      rw [ih]
      split
      · rw [List.filterMap_cons, h]
      · rfl
    | some e =>
      rw [List.filter_cons, hb e h, ih]
      split
      · rw [List.filterMap_cons, h]
      · rfl

/-- What was taken in from the same constraints, in whatever order that keeps the bindings of
each target in theirs. -/
theorem twin_of_took {s : Settings} {facts facts' : List Subtyping} {bs bs' : List Binding} {k k' : Intake}
    (h : Took s facts bs k) (h' : Took s facts' bs' k') (hf : facts.Perm facts')
    (hb : ∀ t, (bs.filter fun b => b.target = t) = bs'.filter fun b => b.target = t) :
    k.graph.Twin k'.graph ∧ k.rejected.Perm k'.rejected := by
  have hto := within_of_took h h' fun c hc => hf.mem_iff.mp hc
  have hfrom := within_of_took h' h fun c hc => hf.mem_iff.mpr hc
  refine ⟨⟨fun v => Bool.eq_iff_iff.mpr ⟨hto.contains, hfrom.contains⟩, ⟨hto.records, hfrom.records⟩, fun t => ?_⟩, ?_⟩
  · rw [h.boundVars, h'.boundVars, filter_boundBy, filter_boundBy, hb]
  · rw [h.rejected, h'.rejected]
    exact hf.filter _

end Intake

end TypeRecovery
