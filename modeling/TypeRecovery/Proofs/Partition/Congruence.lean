/-
  TypeRecovery.Proofs.Partition.Congruence — the classes of a closed graph.

  In a saturated graph one edge replaces any walk along edges, so a class holds the variables
  that are subtypes of each other. Since the rules push a subtyping along every path, with its
  direction or against it, extensions of two members by one path are members of one class:
  the edges between classes by one label are a function.

  Proved:
  - `Saturated.leads_iff`: walks in a saturated graph are single edges.
  - `sameClass?_saturated`: a class is mutual subtyping.
  - `sameClass?_along`: paths respect classes.
  - `destinations_singleton`, `target?_extend`: an edge of a class has one destination, the class
    of its members' extensions.
-/

import TypeRecovery.Proofs.Closure.Paths
import TypeRecovery.Proofs.Partition.Classes
import TypeRecovery.Solution

namespace TypeRecovery

namespace Graph

variable {g : Graph}

theorem Saturated.leads_iff (hs : g.Saturated) {a b : Nat} : Leads g.supertypes a b ↔ g.Below a b := by
  constructor
  · intro h
    induction h with
    | refl => exact Or.inl rfl
    | tail _ hbc ih => exact hs.below_trans ih (Or.inr hbc)
  · rintro (rfl | h)
    · exact .refl a
    · exact .edge h

end Graph

namespace Partition

variable {g : Graph} (hg : g.WellFormed) (hs : g.Saturated)
include hg hs

theorem classOfNode_eq_iff_below {a b : Nat} (ha : a < g.size) (hb : b < g.size) :
    classOfNode (ofGraph g).classOf a = classOfNode (ofGraph g).classOf b ↔ g.Below a b ∧ g.Below b a := by
  rw [classOfNode_eq_iff hg ha hb, hs.leads_iff, hs.leads_iff]

theorem sameClass?_saturated {v w : TypeVar} (hv : g.contains v = true) (hw : g.contains w = true) :
    (ofGraph g).sameClass? v w = some (g.isSubtype v w && g.isSubtype w v) := by
  obtain ⟨a, ha⟩ := hg.contains_iff.mp hv
  obtain ⟨b, hb⟩ := hg.contains_iff.mp hw
  rw [sameClass?_ofGraph hg ha hb, Option.some_inj, Bool.eq_iff_iff, decide_eq_true_iff, Bool.and_eq_true,
    Graph.isSubtype_iff hg ha hb, Graph.isSubtype_iff hg hb ha,
    classOfNode_eq_iff_below hg hs (Graph.lt_size ha) (Graph.lt_size hb)]

/-- Extensions of two members of a class by one path are in one class. -/
theorem classOfNode_descend {a b x y : Nat} (ha : a < g.size) (hb : b < g.size)
    (hab : classOfNode (ofGraph g).classOf a = classOfNode (ofGraph g).classOf b) {p : List Label}
    (hx : g.descend? a p = some x) (hy : g.descend? b p = some y) :
    classOfNode (ofGraph g).classOf x = classOfNode (ofGraph g).classOf y := by
  obtain ⟨h, h'⟩ := (classOfNode_eq_iff_below hg hs ha hb).mp hab
  have hxy := hs.below_descend h hx hy
  have hyx := hs.below_descend h' hy hx
  obtain ⟨v, hv⟩ := Graph.exists_typeVar? ha
  obtain ⟨w, hw⟩ := Graph.exists_typeVar? hb
  refine (classOfNode_eq_iff_below hg hs ?_ ?_).mpr ?_
  · exact Graph.lt_size ((hg.descend?_eq_some_iff hv).mp hx)
  · exact Graph.lt_size ((hg.descend?_eq_some_iff hw).mp hy)
  · cases hp : TypeVar.pathVariance p with
    | covariant => exact ⟨hxy.1 hp, hyx.1 hp⟩
    | contravariant => exact ⟨hyx.2 hp, hxy.2 hp⟩

theorem destination_unique {id : Nat} {members : List Nat} (hm : (sortedComponents g)[id]? = some members) {l : Label}
    {d e : Nat} (hd : d ∈ (Entries.lookup? (liftEdges g (ofGraph g).classOf members) l).getD [])
    (he : e ∈ (Entries.lookup? (liftEdges g (ofGraph g).classOf members) l).getD []) : d = e := by
  obtain ⟨i, hi, x, hx, rfl⟩ := (mem_liftEdges g _ members l d).mp hd
  obtain ⟨j, hj, y, hy, rfl⟩ := (mem_liftEdges g _ members l e).mp he
  have hmem : members ∈ sortedComponents g := List.mem_of_getElem? hm
  have hij := (classOfNode_ofGraph hg hm hi).trans (classOfNode_ofGraph hg hm hj).symm
  have hdescend : ∀ {k z}, (l, z) ∈ g.children k → g.descend? k [l] = some z := by
    intro k z h
    rw [Graph.descend?_cons, hg.mem_children_iff.mp h]
    rfl
  exact classOfNode_descend hg hs (lt_size_of_mem hg hmem hi) (lt_size_of_mem hg hmem hj) hij
    (hdescend hx) (hdescend hy)

/-- An edge of a class has one destination. -/
theorem destinations_singleton {c : TypeClass} (hc : c ∈ (ofGraph g).classes) {l : Label} {ds : List Nat}
    (h : (l, ds) ∈ c.edges) : ∃ d, ds = [d] ∧ c.target? l = some d := by
  obtain ⟨id, members, hm, rfl⟩ := mem_classes hc
  have htidy := liftEdges_tidy g (ofGraph g).classOf members
  have hl := (Entries.lookup?_eq_some_iff htidy.keys).mpr h
  obtain ⟨hn, hne⟩ := htidy.lists hl
  obtain ⟨d, rest, rfl⟩ := List.exists_cons_of_ne_nil hne
  have hrest : rest = [] := by
    refine List.eq_nil_iff_forall_not_mem.mpr fun e he => ?_
    have hde : d = e := destination_unique hg hs hm (l := l) (by rw [hl]; exact List.mem_cons_self)
      (by rw [hl]; exact List.mem_cons_of_mem _ he)
    exact (List.nodup_cons.mp hn).1 (hde ▸ he)
  subst hrest
  refine ⟨d, rfl, ?_⟩
  show ((Entries.lookup? (liftEdges g (ofGraph g).classOf members) l).getD []).min? = _
  rw [hl]
  rfl

/-- The edge of a class by a label leads to the class of its members' extensions. -/
theorem target?_extend {v : TypeVar} {l : Label} (h : g.contains (v.extend l) = true) :
    ∃ c d, (ofGraph g).classOf? v = some c ∧ (ofGraph g).classOf? (v.extend l) = some d ∧ c.target? l = some d.id := by
  obtain ⟨x, hx⟩ := hg.contains_iff.mp h
  obtain ⟨a, ha, hax⟩ := hg.exists_parent hx
  obtain ⟨id, members, hm, ham, -, hc⟩ := classOf?_ofGraph hg ha
  obtain ⟨id', members', -, -, hid', hd⟩ := classOf?_ofGraph hg hx
  refine ⟨_, _, hc, hd, ?_⟩
  have hmem : id' ∈ (Entries.lookup? (liftEdges g (ofGraph g).classOf members) l).getD [] :=
    (mem_liftEdges g _ members l id').mpr ⟨a, ham, x, hg.mem_children_iff.mpr hax, hid'⟩
  cases hl : Entries.lookup? (liftEdges g (ofGraph g).classOf members) l with
  | none => rw [hl] at hmem; cases hmem
  | some ds =>
    rw [hl] at hmem
    have hcls : (ofGraph g).class? id = some (makeClass g (ofGraph g).classOf (ofGraph g).targets id members) := by
      rw [class?_ofGraph, hm, Option.map_some]
    obtain ⟨e, rfl, he⟩ := destinations_singleton hg hs (Array.mem_of_getElem? hcls) (Entries.mem_of_lookup? hl)
    rw [he, ← List.mem_singleton.mp hmem]
    rfl

theorem sameClass?_along {v w : TypeVar} (hvw : (ofGraph g).sameClass? v w = some true) {p : List Label}
    (hv : g.contains (v.along p) = true) (hw : g.contains (w.along p) = true) :
    (ofGraph g).sameClass? (v.along p) (w.along p) = some true := by
  obtain ⟨a, ha⟩ := hg.contains_iff.mp (hg.contains_of_along hv)
  obtain ⟨b, hb⟩ := hg.contains_iff.mp (hg.contains_of_along hw)
  obtain ⟨x, hx⟩ := hg.contains_iff.mp hv
  obtain ⟨y, hy⟩ := hg.contains_iff.mp hw
  rw [sameClass?_ofGraph hg ha hb, Option.some_inj, decide_eq_true_iff] at hvw
  rw [sameClass?_ofGraph hg hx hy, Option.some_inj, decide_eq_true_iff]
  exact classOfNode_descend hg hs (Graph.lt_size ha) (Graph.lt_size hb) hvw
    ((hg.descend?_eq_some_iff ha).mpr hx) ((hg.descend?_eq_some_iff hb).mpr hy)

omit hg hs

/-- Label edges between the classes of a closed graph are a function: a class has one destination
by each label that a member has, and whole paths respect classes. -/
theorem closed_classes_congruent {s t : Settings} {cs : ConstraintSet} {k : Intake} (hb : Intake.build s cs = .ok k)
    {clock : Clock} {readings readings' : Nat} {g' : Graph} {stats : ClosureStats}
    (h : k.graph.close t clock readings = ⟨g', readings', .ok stats⟩) :
    (∀ c ∈ (ofGraph g').classes, ∀ l ds, (l, ds) ∈ c.edges → ∃ d, ds = [d] ∧ c.target? l = some d) ∧
      (∀ v l, g'.contains (v.extend l) = true → ∃ c d, (ofGraph g').classOf? v = some c ∧
        (ofGraph g').classOf? (v.extend l) = some d ∧ c.target? l = some d.id) ∧
      ∀ v w, (ofGraph g').sameClass? v w = some true →
        ∀ p, g'.contains (v.along p) = true → g'.contains (w.along p) = true →
          (ofGraph g').sameClass? (v.along p) (w.along p) = some true := by
  have hk := (Graph.build_reach hb).wellFormed
  have hg := Graph.closeFrom_wellFormed hk (List.Perm.refl _) h
  have hs := Graph.closeFrom_saturated hk (List.Perm.refl _) h
  refine ⟨fun c hc l ds hds => ?_, fun v l hv => ?_, fun v w hvw p hv hw => ?_⟩
  · exact destinations_singleton hg hs hc hds
  · exact target?_extend hg hs hv
  · exact sameClass?_along hg hs hvw hv hw

/-- Two names of one pointer, loaded through into `x` and into `y`. -/
def aliases : ConstraintSet where
  subtypings := [⟨⟨"p", []⟩, ⟨"q", []⟩⟩, ⟨⟨"q", []⟩, ⟨"p", []⟩⟩, ⟨⟨"p", [.load]⟩, ⟨"x", []⟩⟩, ⟨⟨"q", [.load]⟩, ⟨"y", []⟩⟩]
  bindings := []

theorem aliases_congruent :
    ∃ k g' n stats, Intake.build .standard aliases = .ok k ∧
      k.graph.close .standard (.ticking (.whole 0)) 0 = ⟨g', n, .ok stats⟩ ∧
      (ofGraph g').sameClass? ⟨"p", []⟩ ⟨"q", []⟩ = some true ∧
      (ofGraph g').sameClass? ⟨"p", [.load]⟩ ⟨"q", [.load]⟩ = some true := by
  obtain ⟨k, hb⟩ : ∃ k, Intake.build .standard aliases = .ok k := ⟨_, rfl⟩
  obtain ⟨g', n, stats, h, hcontains, hsub⟩ : ∃ g' n stats,
      k.graph.close .standard (.ticking (.whole 0)) 0 = ⟨g', n, .ok stats⟩ ∧
        ([⟨"p", []⟩, ⟨"q", []⟩, ⟨"p", [.load]⟩, ⟨"q", [.load]⟩] : List TypeVar).all g'.contains = true ∧
        (g'.isSubtype ⟨"p", []⟩ ⟨"q", []⟩ && g'.isSubtype ⟨"q", []⟩ ⟨"p", []⟩) = true := by
    cases hb
    exact ⟨_, _, _, rfl, by decide, by decide⟩
  simp only [List.all_cons, List.all_nil, Bool.and_true, Bool.and_eq_true] at hcontains
  obtain ⟨hp, hq, hpl, hql⟩ := hcontains
  have hk := (Graph.build_reach hb).wellFormed
  have hpq : (ofGraph g').sameClass? ⟨"p", []⟩ ⟨"q", []⟩ = some true := by
    rw [sameClass?_saturated (Graph.closeFrom_wellFormed hk (.refl _) h)
      (Graph.closeFrom_saturated hk (.refl _) h) hp hq, hsub]
  exact ⟨k, g', n, stats, hb, h, hpq, (closed_classes_congruent hb h).2.2 _ _ hpq [.load] hpl hql⟩

end Partition

end TypeRecovery
