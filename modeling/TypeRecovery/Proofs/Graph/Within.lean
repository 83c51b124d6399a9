/-
  TypeRecovery.Proofs.Graph.Within — graphs of which one holds no more than the other.

  A graph lies `Within` another when the other has its variables and records its subtypings,
  between nodes of whatever numbers. The rules derive no less from more, so what is entailed in
  the first is entailed in the second: their closures lie one within the other again. More
  variables can only make more pushes possible, those of a store included, since a push asks for
  variables to be there and never for one to be missing.

  Proved:
  - `isSubtype_iff_records`, `records_closed_iff`: subtyping and closing, by variable.
  - `within_of_took`: a graph that took in no other constraints.
  - `Within.closed`, `Within.isSubtype`: closures, and what they say of two variables.
  - `Within.stopped`: without a deadline no bound stops the run of the smaller graph only.
-/

import Mathlib.Data.List.Perm.Subperm
import TypeRecovery.Proofs.Closure.Budget
import TypeRecovery.Proofs.Graph.Admission

namespace TypeRecovery

namespace Graph

/-! ## Subtypings of a graph, by variable -/

theorem isSubtype_iff_records {g : Graph} (hg : g.WellFormed) {v w : TypeVar} :
    g.isSubtype v w = true ↔ v = w ∨ g.Records v w := by
  rw [isSubtype, Bool.or_eq_true, decide_eq_true_eq]
  refine or_congr_right ?_
  constructor
  · intro h
    split at h
    · rename_i a b ha hb
      exact ⟨a, b, hg.find?_eq_some_iff.mp ha, hg.find?_eq_some_iff.mp hb, mem_edges.mpr (hasEdge_iff.mp h)⟩
    · cases h
  · rintro ⟨a, b, ha, hb, hab⟩
    rw [hg.find?_eq_some_iff.mpr ha, hg.find?_eq_some_iff.mpr hb]
    exact hasEdge_iff.mpr (mem_edges.mp hab)

/-- The subtype edges, each with the variables of its nodes. -/
def edgeVars (g : Graph) : List (Option TypeVar × Option TypeVar) :=
  g.edges.map fun e => (g.typeVar? e.1, g.typeVar? e.2)

theorem edgeVars_nodup {g : Graph} (hg : g.WellFormed) : g.edgeVars.Nodup := by
  refine hg.edges_nodup.map_on ?_
  rintro ⟨a, b⟩ hab ⟨x, y⟩ - he
  obtain ⟨ha, hb⟩ := hg.edge_lt hab
  obtain ⟨v, hv⟩ := exists_typeVar? ha
  obtain ⟨w, hw⟩ := exists_typeVar? hb
  simp only [Prod.mk.injEq, hv, hw] at he
  rw [hg.typeVar?_inj hv he.1.symm, hg.typeVar?_inj hw he.2.symm]

theorem mem_edgeVars {g : Graph} {e : Option TypeVar × Option TypeVar} (hg : g.WellFormed) :
    e ∈ g.edgeVars ↔ ∃ v w, g.Records v w ∧ e = (some v, some w) := by
  rw [edgeVars, List.mem_map]
  constructor
  · rintro ⟨⟨a, b⟩, hab, rfl⟩
    obtain ⟨v, hv⟩ := exists_typeVar? (hg.edge_lt hab).1
    obtain ⟨w, hw⟩ := exists_typeVar? (hg.edge_lt hab).2
    exact ⟨v, w, ⟨a, b, hv, hw, hab⟩, by simp [hv, hw]⟩
  · rintro ⟨v, w, ⟨a, b, ha, hb, hab⟩, rfl⟩
    exact ⟨(a, b), hab, by simp [ha, hb]⟩

section Closed

variable {g g' : Graph} {s : Settings} {clock : Clock} {readings readings' : Nat}

theorem records_closed_sound (hg : g.WellFormed) {result : Except Exhausted ClosureStats}
    (h : g.close s clock readings = ⟨g', readings', result⟩) {v w : TypeVar} (hvw : g'.Records v w) :
    v ≠ w ∧ g.contains v = true ∧ g.contains w = true ∧ g.Entails v w := by
  have hbare := closeFrom_bare hg (.refl _) h
  obtain ⟨a, b, ha, hb, hab⟩ := hvw
  obtain ⟨hne, x, y, hx, hy, hxy⟩ := closeFrom_sound hg (.refl _) h hab
  have ha' : g.typeVar? a = some v := (typeVar?_of_bare hbare a).symm.trans ha
  have hb' : g.typeVar? b = some w := (typeVar?_of_bare hbare b).symm.trans hb
  cases hx.symm.trans ha'
  cases hy.symm.trans hb'
  refine ⟨?_, contains_of_typeVar? hg ha', contains_of_typeVar? hg hb', hxy⟩
  rintro rfl
  exact hne (hg.typeVar?_inj ha' hb')

theorem records_closed_iff (hg : g.WellFormed) {stats : ClosureStats}
    (h : g.close s clock readings = ⟨g', readings', .ok stats⟩) {v w : TypeVar} :
    g'.Records v w ↔ v ≠ w ∧ g.contains v = true ∧ g.contains w = true ∧ g.Entails v w := by
  refine ⟨records_closed_sound hg h, ?_⟩
  rintro ⟨hne, hv, hw, hvw⟩
  have hbare := closeFrom_bare hg (.refl _) h
  obtain ⟨a, ha⟩ := hg.contains_iff.mp hv
  obtain ⟨b, hb⟩ := hg.contains_iff.mp hw
  have hab : a ≠ b := by
    rintro rfl
    exact hne (Option.some_inj.mp (ha.symm.trans hb))
  exact ⟨a, b, (typeVar?_of_bare hbare a).trans ha, (typeVar?_of_bare hbare b).trans hb,
    closeFrom_complete hg (.refl _) h hab ⟨v, w, ha, hb, hvw⟩⟩

end Closed

/-! ## Graphs that hold no more -/

structure Within (g g' : Graph) : Prop where
  contains {v : TypeVar} : g.contains v = true → g'.contains v = true
  records {v w : TypeVar} : g.Records v w → g'.Records v w

theorem Within.entails {g g' : Graph} (h : g.Within g') {v w : TypeVar} (hvw : g.Entails v w) : g'.Entails v w :=
  hvw.mono (fun _ hv => h.contains hv) fun _ _ hr => .given (h.records hr)

theorem Within.isSubtype {g g' : Graph} (hg : g.WellFormed) (hg' : g'.WellFormed) (h : g.Within g') {v w : TypeVar}
    (hvw : g.isSubtype v w = true) : g'.isSubtype v w = true :=
  (isSubtype_iff_records hg').mpr (((isSubtype_iff_records hg).mp hvw).imp_right h.records)

theorem Within.edges_length_le {g g' : Graph} (hg : g.WellFormed) (hg' : g'.WellFormed) (h : g.Within g') :
    g.edges.length ≤ g'.edges.length := by
  have hsub : g.edgeVars ⊆ g'.edgeVars := by
    intro e he
    obtain ⟨v, w, hvw, rfl⟩ := (mem_edgeVars hg).mp he
    exact (mem_edgeVars hg').mpr ⟨v, w, h.records hvw, rfl⟩
  simpa [edgeVars] using ((edgeVars_nodup hg).subperm hsub).length_le

section Closing

variable {k k' g g' : Graph} (hk : k.WellFormed) (hk' : k'.WellFormed) (hw : k.Within k') {s s' : Settings}
  {clock clock' : Clock} {readings readings' n n' : Nat}
include hk hk' hw

/-- Whatever one run records, stopped or not, the other one has in the end. -/
theorem Within.closed {result : Except Exhausted ClosureStats} {stats' : ClosureStats}
    (h : k.close s clock readings = ⟨g, n, result⟩) (h' : k'.close s' clock' readings' = ⟨g', n', .ok stats'⟩) :
    g.Within g' where
  contains {v} hv := by
    have hg := closeFrom_wellFormed hk (.refl _) h
    have hg' := closeFrom_wellFormed hk' (.refl _) h'
    rw [contains_of_bare (closeFrom_bare hk (.refl _) h) hk hg] at hv
    rw [contains_of_bare (closeFrom_bare hk' (.refl _) h') hk' hg']
    exact hw.contains hv
  records {v w} hvw := by
    obtain ⟨hne, hv, hw', hentails⟩ := records_closed_sound hk h hvw
    exact (records_closed_iff hk' h').mpr ⟨hne, hw.contains hv, hw.contains hw', hw.entails hentails⟩

/-- A run that was stopped had not recorded more than the other run, which therefore was
stopped too. -/
theorem Within.stopped (hd : s.deadline = none) {e : Exhausted} (h : k.close s clock readings = ⟨g, n, .error e⟩)
    {stats : ClosureStats} (h' : k'.close s clock' readings' = ⟨g', n', .ok stats⟩) : False := by
  obtain ⟨m, hpos, hle, hnot⟩ := closeFrom_error_counts hk (.refl _) hd h
  obtain ⟨hallowed, -⟩ := closeFrom_ok_counts hk' (.refl _) hd h'
  have hlen := (hw.closed hk hk' h h').edges_length_le (closeFrom_wellFormed hk (.refl _) h)
    (closeFrom_wellFormed hk' (.refl _) h')
  exact hnot (hallowed m hpos (Nat.le_trans hle hlen))

end Closing

end Graph

namespace Intake

/-- What was taken in from some of the constraints, in whatever order. -/
theorem within_of_took {s : Settings} {facts facts' : List Subtyping} {bs bs' : List Binding} {k k' : Intake}
    (h : Took s facts bs k) (h' : Took s facts' bs' k') (hf : ∀ c ∈ facts, c ∈ facts') : k.graph.Within k'.graph where
  contains {u} hu := by
    obtain ⟨c, hc, v, w, hsides, hu⟩ := h.contains_iff.mp hu
    exact h'.contains_iff.mpr ⟨c, hf c hc, v, w, hsides, hu⟩
  records {v w} hvw := by
    obtain ⟨hne, c, hc, hsides⟩ := h.records_iff.mp hvw
    exact h'.records_iff.mpr ⟨hne, c, hf c hc, hsides⟩

end Intake

end TypeRecovery
