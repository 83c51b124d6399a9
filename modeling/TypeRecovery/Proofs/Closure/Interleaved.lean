/-
  TypeRecovery.Proofs.Closure.Interleaved — closing a graph while it is still being built.

  Acts make nodes, record subtypings and take in constraints and bindings. A graph may be closed
  between them, as often as one likes and by runs that a bound may stop. What a closure recorded
  early was entailed then and is entailed later, and the last closure takes every edge again, so
  a push that a later node makes possible is not missed. The graph with closures in between
  therefore stays `Between` the graph without them and its closure, and both close to the same.

  Proved:
  - `Between.close`, `Between.intern`, `Between.relate`, `Between.connect`: closing the one graph, or
    the same change to both, keeps the one between the other and its closure.
  - `apply_withGraph`: what an act does to a graph, and to the rest of an intake.
  - `interleaved_between`: every sequence of acts with closures in between.
  - `interleaved_closed`: the last closure leaves the same tables, and closing again changes nothing.
-/

import TypeRecovery.Proofs.Closure.Settled
import TypeRecovery.Proofs.Closure.StepCount

namespace TypeRecovery

namespace Graph

/-! ## New nodes, with or without subtype edges -/

/-- A change that commutes with a view. -/
theorem map_modify_comm {α β : Type} (f : α → β) (m : α → α) (m' : β → β) (h : ∀ x, f (m x) = m' (f x))
    (xs : Array α) (i : Nat) : (xs.modify i m).map f = (xs.map f).modify i m' := by
  refine Array.ext_getElem? fun k => ?_
  rw [Array.getElem?_map, Array.getElem?_modify, Array.getElem?_modify, Array.getElem?_map]
  split
  · simp [Function.comp_def, h]
  · rfl

theorem bare_plant (g : Graph) (b : String) : (g.plant b).bare = g.bare.plant b := by
  simp [plant, push, bare, size]

theorem bare_graft (g : Graph) (i : Nat) (v : TypeVar) (l : Label) : (g.graft i v l).bare = g.bare.graft i v l := by
  simp only [graft, bare, push, size, Array.size_map]
  rw [map_modify_comm (fun n : Node => { n with supertypes := [], subtypes := [] }) (addChild l g.nodes.size)
    (addChild l g.nodes.size) (fun _ => rfl), Array.map_push]

/-- The node of a variable is found or made whatever the subtype edges are. -/
theorem internRoot_bare (g : Graph) (b : String) :
    g.bare.internRoot b = ((g.internRoot b).1.bare, (g.internRoot b).2) := by
  rw [internRoot_eq, internRoot_eq, root?_bare, size_bare]
  cases g.root? b with
  | some i => rfl
  | none => exact Prod.ext (bare_plant g b).symm rfl

theorem internChild_bare (g : Graph) (i : Nat) (v : TypeVar) (l : Label) :
    g.bare.internChild i v l = ((g.internChild i v l).1.bare, (g.internChild i v l).2) := by
  rw [internChild_eq, internChild_eq, child?_bare, size_bare]
  cases g.child? i l with
  | some j => rfl
  | none => exact Prod.ext (bare_graft g i v l).symm rfl

theorem internPath_bare (p : List Label) (g : Graph) (i : Nat) (v : TypeVar) :
    g.bare.internPath i v p = ((g.internPath i v p).1.bare, (g.internPath i v p).2) := by
  induction p generalizing g i v with
  | nil => rfl
  | cons l p ih =>
    simp only [internPath, internChild_bare]
    exact ih _ _ _

theorem intern_bare (g : Graph) (v : TypeVar) : g.bare.intern v = ((g.intern v).1.bare, (g.intern v).2) := by
  simp only [intern, internRoot_bare]
  exact internPath_bare _ _ _ _

/-! ## Between a graph and its closure -/

/-- What nodes entail, when every node keeps its variable and every edge stays entailed. -/
theorem EntailsAt.mono {g g' : Graph} (hg : g.WellFormed) (hg' : g'.WellFormed)
    (hv : ∀ {i v}, g.typeVar? i = some v → g'.typeVar? i = some v)
    (he : ∀ e ∈ g.edges, g'.EntailsAt e.1 e.2) {a b : Nat} (h : g.EntailsAt a b) : g'.EntailsAt a b := by
  obtain ⟨v, w, ha, hb, hvw⟩ := h
  refine ⟨v, w, hv ha, hv hb, hvw.mono (fun u hu => ?_) fun x y hxy => ?_⟩
  · obtain ⟨i, hi⟩ := hg.contains_iff.mp hu
    exact contains_of_typeVar? hg' (hv hi)
  · obtain ⟨i, j, hi, hj, hij⟩ := hxy
    obtain ⟨x', y', hi', hj', hentails⟩ := he _ hij
    cases hi'.symm.trans (hv hi)
    cases hj'.symm.trans (hv hj)
    exact hentails

/-- `k` has the edges of `g` and some more that they entail, and is otherwise `g`. -/
structure Between (g k : Graph) : Prop where
  wf : k.WellFormed
  under : g.Under k
  sound : ∀ e ∈ k.edges, g.EntailsAt e.1 e.2

theorem Between.refl {g : Graph} (hg : g.WellFormed) : g.Between g :=
  ⟨hg, ⟨rfl, id⟩, fun _ he => entailsAt_of_edge hg he⟩

section Between

variable {g k : Graph} (hg : g.WellFormed) (h : g.Between k)
include hg h

theorem Between.entailsAt_iff {a b : Nat} : k.EntailsAt a b ↔ g.EntailsAt a b := by
  constructor
  · exact EntailsAt.mono h.wf hg (fun hi => (typeVar?_of_bare h.under.bare _).symm.trans hi) h.sound
  · refine EntailsAt.mono hg h.wf (fun hi => (typeVar?_of_bare h.under.bare _).trans hi) fun e he => ?_
    exact entailsAt_of_edge h.wf (mem_edges.mpr (h.under.supertypes (mem_edges.mp he)))

theorem Between.entailed_eq : k.entailed = g.entailed := by
  ext e
  exact and_congr_right fun _ => h.entailsAt_iff hg

/-- A closure, stopped or not, records entailed edges only. -/
theorem Between.close {seed : List (Nat × Nat)} (hs : seed.Perm k.edges) (visits : Visits) (s : Settings) (clock : Clock)
    (readings : Nat) :
    g.Between (k.closeFrom seed visits s clock readings).graph := by
  rcases hc : k.closeFrom seed visits s clock readings with ⟨k', n, result⟩
  refine ⟨closeFrom_wellFormed h.wf hs hc, ⟨(closeFrom_bare h.wf hs hc).trans h.under.bare, fun {a b} hab => ?_⟩,
    fun e he => ?_⟩
  · exact mem_edges.mp (closeFrom_keeps h.wf hs hc (mem_edges.mpr (h.under.supertypes hab)))
  · exact (h.entailsAt_iff hg).mp (closeFrom_sound h.wf hs hc he).2

/-- A node more in both graphs, under one number. The nodes found or made are the same, since
neither the variables nor the label edges differ. -/
theorem Between.intern (v : TypeVar) : (g.intern v).1.Between (k.intern v).1 ∧ (k.intern v).2 = (g.intern v).2 := by
  obtain ⟨hg', hgrow, -⟩ := intern_spec hg v
  obtain ⟨hk', hgrow', -⟩ := intern_spec h.wf v
  obtain ⟨hbare, hnode⟩ := Prod.mk.inj ((intern_bare k v).symm.trans ((congrArg (·.intern v) h.under.bare).trans (intern_bare g v)))
  refine ⟨⟨hk', ⟨hbare, fun {a b} hab => ?_⟩, fun e he => ?_⟩, hnode⟩
  · rw [hgrow'.supertypes]
    rw [hgrow.supertypes] at hab
    exact h.under.supertypes hab
  · rw [mem_edges, hgrow'.supertypes, ← mem_edges] at he
    refine EntailsAt.mono hg hg' hgrow.typeVar? (fun e he => entailsAt_of_edge hg' ?_) (h.sound e he)
    rwa [mem_edges, hgrow.supertypes, ← mem_edges]

theorem Between.relate {a b : Nat} (ha : a < g.size) (hb : b < g.size) :
    (g.relate a b).1.Between (k.relate a b).1 := by
  have hsize := size_of_bare h.under.bare
  have hg' := relate_wellFormed hg ha hb
  refine ⟨relate_wellFormed h.wf (hsize ▸ ha) (hsize ▸ hb), ⟨?_, fun {i j} hij => ?_⟩, fun e he => ?_⟩
  · rw [bare_relate, bare_relate, h.under.bare]
  · rw [← mem_edges, mem_edges_relate ha, mem_edges] at hij
    rw [← mem_edges, mem_edges_relate (hsize ▸ ha), mem_edges]
    exact hij.imp_left h.under.supertypes
  · rcases (mem_edges_relate (hsize ▸ ha) b e.1 e.2).mp he with he | hab
    · refine EntailsAt.mono hg hg' (fun hi => (typeVar?_of_bare (bare_relate g a b) _).trans hi) (fun e he => ?_) (h.sound e he)
      exact entailsAt_of_edge hg' ((mem_edges_relate ha b e.1 e.2).mpr (Or.inl he))
    · exact entailsAt_of_edge hg' ((mem_edges_relate ha b e.1 e.2).mpr (Or.inr hab))

omit hg in
theorem Between.bindTarget (t : Target) {i : Nat} (hi : i < g.size) : (g.bindTarget t i).Between (k.bindTarget t i) := by
  have hi' : i < k.size := size_of_bare h.under.bare ▸ hi
  refine ⟨bindTarget_wellFormed h.wf t hi', ⟨?_, h.under.supertypes⟩, h.sound⟩
  exact congrArg (·.bindTarget t i) h.under.bare

end Between

/-- A subtyping between two variables, for which nodes are made if need be; with the node of the first. -/
def connect (g : Graph) (v w : TypeVar) : Graph × Nat :=
  let (g, a) := g.intern v
  let (g, b) := g.intern w
  ((g.relate a b).1, a)

theorem connect_wellFormed {g : Graph} (hg : g.WellFormed) (v w : TypeVar) :
    (g.connect v w).1.WellFormed ∧ (g.connect v w).2 < (g.connect v w).1.size := by
  obtain ⟨hwf, hv, -⟩ := Intake.connect_spec (k := { Intake.empty with graph := g }) hg v w
  exact ⟨hwf, lt_size hv⟩

theorem Between.connect {g k : Graph} (hg : g.WellFormed) (h : g.Between k) (v w : TypeVar) :
    (g.connect v w).1.Between (k.connect v w).1 ∧ (k.connect v w).2 = (g.connect v w).2 := by
  obtain ⟨hg1, -, hv⟩ := intern_spec hg v
  obtain ⟨hg2, hgrow, hw⟩ := intern_spec hg1 w
  obtain ⟨h1, ha⟩ := h.intern hg v
  obtain ⟨h2, hb⟩ := h1.intern hg1 w
  have hrelate := h2.relate hg2 (lt_size (hgrow.typeVar? hv)) (lt_size hw)
  have hk : (k.connect v w).1 =
      (((k.intern v).1.intern w).1.relate (g.intern v).2 ((g.intern v).1.intern w).2).1 := by
    simp only [Graph.connect, ha, hb]
  exact ⟨hk ▸ hrelate, ha⟩

end Graph

/-! ## Acts -/

namespace Intake

/-- What may happen to a graph under construction, apart from closures. -/
inductive Act where
  | intern (v : TypeVar)
  | relate (a b : Nat)
  | add (s : Settings) (c : Subtyping)
  | bind (s : Settings) (b : Binding)

/-- An act that fails leaves the intake as it then stands. -/
def apply (k : Intake) : Act → Intake
  | .intern v => { k with graph := (k.graph.intern v).1 }
  | .relate a b => { k with graph := (k.graph.relate a b).1 }
  | .add s c =>
    match k.add s c with
    | .ok (k, _) => k
    | .error k => k
  | .bind s b =>
    match k.bind s b with
    | .ok k => k
    | .error k => k

/-- Subtypings are recorded between nodes that are there. -/
def Act.Fits (g : Graph) : Act → Prop
  | .relate a b => a < g.size ∧ b < g.size
  | _ => True

/-- What an act does to the graph. -/
def Act.onGraph (g : Graph) : Act → Graph
  | .intern v => (g.intern v).1
  | .relate a b => (g.relate a b).1
  | .add s c =>
    match s.sides c with
    | .ok (v, w) => (g.connect v w).1
    | .error _ => g
  | .bind s b =>
    match s.sides b.fact with
    | .ok (v, w) => (g.connect v w).1.bindTarget b.target (g.connect v w).2
    | .error _ => g

/-- The same intake with another graph. -/
def withGraph (k : Intake) (g : Graph) : Intake := { k with graph := g }

theorem accept_withGraph (s : Settings) (k : Intake) (g : Graph) (v : TypeVar) :
    (k.withGraph g).accept s v = ((k.accept s v).1.withGraph g, (k.accept s v).2) := by
  unfold accept
  cases s.admission v <;> rfl

theorem admitBoth_withGraph (s : Settings) (k : Intake) (g : Graph) (c : Subtyping) :
    (k.withGraph g).admitBoth s c = ((k.admitBoth s c).1.withGraph g, (k.admitBoth s c).2) := by
  unfold admitBoth
  rw [accept_withGraph]
  rcases k.accept s c.sub with ⟨k1, e | v⟩
  · rfl
  · simp only [accept_withGraph]
    rcases k1.accept s c.sup with ⟨k2, e | w⟩ <;> rfl

/-- An act treats the graph apart from the rest of the intake. -/
theorem apply_withGraph (k : Intake) (g : Graph) (a : Act) :
    (k.withGraph g).apply a = (k.apply a).withGraph (a.onGraph g) := by
  cases a with
  | intern v => rfl
  | relate a b => rfl
  | add s c =>
    simp only [apply, add, admitBoth_withGraph, Act.onGraph, ← (admitBoth_eq s k c).1]
    rcases k.admitBoth s c with ⟨k1, (why | _) | ⟨v, w⟩⟩ <;> rfl
  | bind s b =>
    simp only [apply, bind, admitBoth_withGraph, Act.onGraph, ← (admitBoth_eq s k b.fact).1]
    rcases k.admitBoth s b.fact with ⟨k1, (why | _) | ⟨v, w⟩⟩ <;> rfl

theorem graph_apply (k : Intake) (a : Act) : (k.apply a).graph = a.onGraph k.graph :=
  congrArg Intake.graph (apply_withGraph k k.graph a)

theorem between_onGraph {g k : Graph} (hg : g.WellFormed) (h : g.Between k) {a : Act} (hf : a.Fits g) :
    (a.onGraph g).Between (a.onGraph k) := by
  cases a with
  | intern v => exact (h.intern hg v).1
  | relate a b => exact h.relate hg hf.1 hf.2
  | add s c =>
    simp only [Act.onGraph]
    cases s.sides c with
    | ok e => exact (h.connect hg e.1 e.2).1
    | error e => exact h
  | bind s b =>
    simp only [Act.onGraph]
    cases s.sides b.fact with
    | ok e =>
      obtain ⟨hc, hnode⟩ := h.connect hg e.1 e.2
      simp only [hnode]
      exact hc.bindTarget b.target (Graph.connect_wellFormed hg e.1 e.2).2
    | error e => exact h

/-! ## Sequences of acts -/

/-- The acts one after another, without closures. -/
def perform (k : Intake) (acts : List Act) : Intake := acts.foldl apply k

/-- The acts one after another, with closures in between: each under settings and by a clock of
its own, the edges gone through in any order. A bound may stop it. -/
inductive Interleaved : Intake → List Act → Intake → Prop
  | done (k : Intake) : Interleaved k [] k
  | act {k k' : Intake} {a : Act} {acts : List Act} :
      a.Fits k.graph → Interleaved (k.apply a) acts k' → Interleaved k (a :: acts) k'
  | close {k k' : Intake} {acts : List Act} {seed : List (Nat × Nat)} (visits : Visits) (s : Settings) (clock : Clock)
      (readings : Nat) : seed.Perm k.graph.edges →
      Interleaved (k.withGraph (k.graph.closeFrom seed visits s clock readings).graph) acts k' → Interleaved k acts k'

/-- With closures in between, the graph lies between the one without them and its closure, and
the rest of the intake is the same. -/
theorem interleaved_between {k k' : Intake} {acts : List Act} (h : Interleaved k acts k') {m : Intake}
    (hm : m.graph.WellFormed) (hmk : m.graph.Between k.graph) (hrest : k = m.withGraph k.graph) :
    (m.perform acts).graph.WellFormed ∧ (m.perform acts).graph.Between k'.graph ∧
      k' = (m.perform acts).withGraph k'.graph := by
  induction h generalizing m with
  | done k => exact ⟨hm, hmk, hrest⟩
  | @act k k' a acts hf _ ih =>
    have hf' : a.Fits m.graph := by
      cases a with
      | relate a b => rwa [Act.Fits, ← Graph.size_of_bare hmk.under.bare]
      | _ => trivial
    refine ih (m := m.apply a) ?_ ?_ ?_
    · rw [graph_apply]; exact (between_onGraph hm (.refl hm) hf').wf
    · rw [graph_apply, graph_apply]; exact between_onGraph hm hmk hf'
    · rw [hrest, apply_withGraph]; rfl
  | @close k k' acts seed visits s clock readings hs _ ih =>
    refine ih hm (hmk.close hm hs visits s clock readings) ?_
    rw [hrest]; rfl

end Intake

/-! ## The last closure -/

namespace Graph

/-- The same nodes under the same numbers, with the same edges and bindings. -/
structure SameTables (g g' : Graph) : Prop where
  typeVars : g.typeVars = g'.typeVars
  labelEdges : g.labelEdges = g'.labelEdges
  edges : g.edges.Perm g'.edges
  edgeCount : g.edgeCount = g'.edgeCount
  bindings : g.bindings = g'.bindings

/-- `g` and `g'` close to the same tables, whatever the settings, the clocks and the orders in which
edges are gone through; without a deadline a bound on the steps stops both or neither. -/
structure CloseAlike (g g' : Graph) : Prop where
  tables {seed seed' : List (Nat × Nat)} {visits visits' : Visits} {s s' : Settings} {clock clock' : Clock}
    {readings readings' n n' : Nat} {k k' : Graph} {stats stats' : ClosureStats} :
    seed.Perm g.edges → seed'.Perm g'.edges → g.closeFrom seed visits s clock readings = ⟨k, n, .ok stats⟩ →
    g'.closeFrom seed' visits' s' clock' readings' = ⟨k', n', .ok stats'⟩ → k.SameTables k'
  finishes {seed seed' : List (Nat × Nat)} {s : Settings} (visits visits' : Visits) (clock clock' : Clock)
    (readings readings' : Nat) : seed.Perm g.edges → seed'.Perm g'.edges → s.deadline = none →
    ((∃ stats, (g.closeFrom seed visits s clock readings).result = .ok stats) ↔
      ∃ stats, (g'.closeFrom seed' visits' s clock' readings').result = .ok stats)

/-- A run that goes on where another one ends, since as many pairs are entailed. -/
theorem closeFrom_ok_of_ncard {g g' : Graph} (hg : g.WellFormed) (hg' : g'.WellFormed)
    (hcard : g'.entailed.ncard = g.entailed.ncard) {seed seed' : List (Nat × Nat)} (hs : seed.Perm g.edges)
    (hs' : seed'.Perm g'.edges) {visits : Visits} {s : Settings} (hd : s.deadline = none) {clock : Clock} {readings : Nat}
    (h : ∃ stats, (g.closeFrom seed visits s clock readings).result = .ok stats) (visits' : Visits) (clock' : Clock)
    (readings' : Nat) :
    ∃ stats, (g'.closeFrom seed' visits' s clock' readings').result = .ok stats := by
  obtain ⟨stats, hok⟩ := h
  rcases hc : g.closeFrom seed visits s clock readings with ⟨k, n, result⟩
  rw [hc] at hok
  subst hok
  rcases hc' : g'.closeFrom seed' visits' s clock' readings' with ⟨k', n', e | stats'⟩
  · obtain ⟨m, hpos, hle, hnot⟩ := closeFrom_error_counts hg' hs' hd hc'
    have hbound : m ≤ k.edges.length := by
      calc m ≤ k'.edges.length := hle
        _ ≤ g'.entailed.ncard := length_le_ncard_entailed hg' hs' hc'
        _ = g.entailed.ncard := hcard
        _ = k.edges.length := ncard_entailed hg hs hc
    exact absurd ((closeFrom_ok_counts hg hs hd hc).1 m hpos hbound) hnot
  · exact ⟨stats', rfl⟩

theorem Between.closeAlike {g k : Graph} (hg : g.WellFormed) (h : g.Between k) : k.CloseAlike g where
  tables {seed seed' visits visits' s s' clock clock' readings readings' n n' k' g' stats stats'} hs hs' hk hg' := by
    have hbare : k'.bare = g'.bare :=
      (closeFrom_bare h.wf hs hk).trans (h.under.bare.trans (closeFrom_bare hg hs' hg').symm)
    have hwf := closeFrom_wellFormed h.wf hs hk
    have hwf' := closeFrom_wellFormed hg hs' hg'
    have hedges : k'.edges.Perm g'.edges := by
      refine (List.perm_ext_iff_of_nodup hwf.edges_nodup hwf'.edges_nodup).mpr fun ⟨a, b⟩ => ?_
      constructor
      · intro hab
        obtain ⟨hne, he⟩ := closeFrom_sound h.wf hs hk hab
        exact closeFrom_complete hg hs' hg' hne ((h.entailsAt_iff hg).mp he)
      · intro hab
        obtain ⟨hne, he⟩ := closeFrom_sound hg hs' hg' hab
        exact closeFrom_complete h.wf hs hk hne ((h.entailsAt_iff hg).mpr he)
    refine ⟨typeVars_of_bare hbare, labelEdges_of_bare hbare, hedges, ?_, bindings_of_bare hbare⟩
    rw [hwf.edgeCount_eq, hwf'.edgeCount_eq, hedges.length_eq]
  finishes visits visits' clock clock' readings readings' hs hs' hd := by
    have hcard := congrArg Set.ncard (h.entailed_eq hg)
    exact ⟨fun hok => closeFrom_ok_of_ncard h.wf hg hcard.symm hs hs' hd hok visits' clock' readings',
      fun hok => closeFrom_ok_of_ncard hg h.wf hcard hs' hs hd hok visits clock readings⟩

end Graph

namespace Intake

/-- Closures in between do not show after the last one, and what they did not close the last one
closes. Closing once more changes nothing. -/
theorem interleaved_closed {k k' : Intake} {acts : List Act} (hr : k.graph.Reach) (h : Interleaved k acts k') :
    k'.graph.CloseAlike (k.perform acts).graph ∧
      (∀ {seed : List (Nat × Nat)} {visits : Visits} {s : Settings} {clock : Clock} {readings n : Nat} {g : Graph}
        {stats : ClosureStats},
        seed.Perm k'.graph.edges → k'.graph.closeFrom seed visits s clock readings = ⟨g, n, .ok stats⟩ → g.ClosesInPlace) ∧
      k'.rejected = (k.perform acts).rejected ∧ k'.reports = (k.perform acts).reports := by
  have hg := hr.wellFormed
  obtain ⟨hm, hbetween, hrest⟩ := interleaved_between h hg (.refl hg) rfl
  refine ⟨hbetween.closeAlike hm, fun {seed visits s clock readings n g stats} hs hc => ?_, ?_, ?_⟩
  · exact (Graph.closeFrom_saturated hbetween.wf hs hc).closesInPlace (Graph.closeFrom_wellFormed hbetween.wf hs hc)
  · rw [hrest]; rfl
  · rw [hrest]; rfl

/-- Pointers `p ⊑ q` and `q ⊑ r`; that the first and the last are stored through is learnt later. -/
def lateStores : List Act :=
  [.add .standard ⟨⟨"p", []⟩, ⟨"q", []⟩⟩, .bind .standard ⟨.number 1, ⟨⟨"q", []⟩, ⟨"r", []⟩⟩⟩,
    .intern ⟨"p", [.store]⟩, .intern ⟨"r", [.store]⟩]

def closedEarly : Intake :=
  let k := empty.perform (lateStores.take 2)
  (k.withGraph (k.graph.close .standard (.ticking (.whole 0)) 0).graph).perform (lateStores.drop 2)

/-- A closure before the stores are known records `p ⊑ r`, from which the last one derives their order. -/
theorem lateStores_closed :
    empty.graph.Reach ∧ Interleaved empty lateStores closedEarly ∧ (0, 2) ∈ closedEarly.graph.edges ∧
      ∃ g n stats g' n' stats',
        closedEarly.graph.closeFrom closedEarly.graph.edges .recorded .standard (.ticking (.whole 0)) 1 = ⟨g, n, .ok stats⟩ ∧
        (empty.perform lateStores).graph.closeFrom (empty.perform lateStores).graph.edges .recorded .standard
          (.ticking (.whole 0)) 0 = ⟨g', n', .ok stats'⟩ ∧
        (4, 3) ∈ g.edges ∧ g.bindings = [(.number 1, 1)] ∧ g.SameTables g' ∧ g.ClosesInPlace := by
  have h : Interleaved empty lateStores closedEarly :=
    .act trivial (.act trivial (.close .recorded .standard (.ticking (.whole 0)) 0 (.refl _)
      (.act trivial (.act trivial (.done _)))))
  obtain ⟨g, n, stats, hc, hstores, hbound⟩ : ∃ g n stats,
      closedEarly.graph.closeFrom closedEarly.graph.edges .recorded .standard (.ticking (.whole 0)) 1 = ⟨g, n, .ok stats⟩ ∧
        (4, 3) ∈ g.edges ∧ g.bindings = [(.number 1, 1)] := ⟨_, _, _, rfl, by decide, by decide⟩
  obtain ⟨g', n', stats', hc'⟩ : ∃ g n stats, (empty.perform lateStores).graph.closeFrom
      (empty.perform lateStores).graph.edges .recorded .standard (.ticking (.whole 0)) 0 = ⟨g, n, .ok stats⟩ := ⟨_, _, _, rfl⟩
  obtain ⟨halike, hplace, -⟩ := interleaved_closed .empty h
  exact ⟨.empty, h, by decide, g, n, stats, g', n', stats', hc, hc', hstores, hbound,
    halike.tables (.refl _) (.refl _) hc hc', hplace (.refl _) hc⟩

end Intake

end TypeRecovery
