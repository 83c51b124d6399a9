/-
  TypeRecovery.Proofs.Graph.Reach — the graphs that can arise.

  Starting from the empty graph, nodes are made for variables, subtypings are recorded
  between nodes, constraints and bindings are taken in or rejected, and the graph is closed,
  in any order and under any settings. A closure may take its first edges in any order and
  may be stopped by a bound.

  Proved:
  - `Reach.wellFormed`: every graph that can arise is well formed.
  - `build_reach`: taking in a constraint set leads to such a graph.
-/

import TypeRecovery.Graph.Intake
import TypeRecovery.Proofs.Closure.Run

namespace TypeRecovery

namespace Graph

inductive Reach : Graph → Prop
  | empty : Reach .empty
  | intern {g : Graph} (v : TypeVar) : Reach g → Reach (g.intern v).1
  | relate {g : Graph} {a b : Nat} : Reach g → a < g.size → b < g.size → Reach (g.relate a b).1
  | add {s : Settings} {k k' : Intake} {c : Subtyping} {nodes : Option (Nat × Nat)} :
      Reach k.graph → k.add s c = .ok (k', nodes) → Reach k'.graph
  | addStopped {s : Settings} {k k' : Intake} {c : Subtyping} :
      Reach k.graph → k.add s c = .error k' → Reach k'.graph
  | bind {s : Settings} {k k' : Intake} {b : Binding} : Reach k.graph → k.bind s b = .ok k' → Reach k'.graph
  | bindStopped {s : Settings} {k k' : Intake} {b : Binding} :
      Reach k.graph → k.bind s b = .error k' → Reach k'.graph
  | close {g : Graph} {seed : List (Nat × Nat)} (visits : Visits) (s : Settings) (clock : Clock) (readings : Nat) :
      Reach g → seed.Perm g.edges → Reach (g.closeFrom seed visits s clock readings).graph

end Graph

namespace Intake

@[simp] theorem graph_report (k : Intake) (r : Report) : (k.report r).graph = k.graph := rfl
@[simp] theorem graph_say (k : Intake) (l : Level) (m : String) : (k.say l m).graph = k.graph := rfl
@[simp] theorem graph_reject (k : Intake) (c : Subtyping) (why : Inadmissible) : (k.reject c why).graph = k.graph := rfl

/-- Admitting a variable does not touch the graph. -/
@[simp] theorem graph_accept (s : Settings) (k : Intake) (v : TypeVar) : (k.accept s v).1.graph = k.graph := by
  unfold accept
  split <;> rfl

theorem graph_admitBoth (s : Settings) (k : Intake) (c : Subtyping) : (k.admitBoth s c).1.graph = k.graph := by
  have h := graph_accept s k c.sub
  unfold admitBoth
  split
  · rename_i k1 e he; rw [he] at h; exact h
  · rename_i k1 v hv
    rw [hv] at h
    have h' := graph_accept s k1 c.sup
    split
    · rename_i k2 e he; rw [he] at h'; exact h'.trans h
    · rename_i k2 w hw; rw [hw] at h'; exact h'.trans h

/-- The nodes of both sides are there, and the subtyping between them is recorded. -/
theorem connect_spec {k : Intake} (hk : k.graph.WellFormed) (v w : TypeVar) :
    (k.connect v w).1.graph.WellFormed ∧ (k.connect v w).1.graph.typeVar? (k.connect v w).2.1 = some v ∧
      (k.connect v w).1.graph.typeVar? (k.connect v w).2.2 = some w := by
  obtain ⟨hg, -, hv⟩ := Graph.intern_spec hk v
  obtain ⟨hg', hgrow, hw⟩ := Graph.intern_spec hg w
  have hv' := hgrow.typeVar? hv
  have hb := Graph.bare_relate ((k.graph.intern v).1.intern w).1 (k.graph.intern v).2
    ((k.graph.intern v).1.intern w).2
  refine ⟨Graph.relate_wellFormed hg' (Graph.lt_size hv') (Graph.lt_size hw), ?_, ?_⟩
  · exact (Graph.typeVar?_of_bare hb _).trans hv'
  · exact (Graph.typeVar?_of_bare hb _).trans hw

/-- A constraint that is taken in is connected, one that is rejected leaves the graph alone. -/
theorem add_cases {s : Settings} {k k' : Intake} {c : Subtyping} {nodes : Option (Nat × Nat)}
    (h : k.add s c = .ok (k', nodes)) :
    (∃ k1 v w, k1.graph = k.graph ∧ k.admitBoth s c = (k1, .ok (v, w)) ∧ k' = (k1.connect v w).1 ∧
      nodes = some (k1.connect v w).2) ∨
    (∃ k1 why, k1.graph = k.graph ∧ k.admitBoth s c = (k1, .error (.refused why)) ∧ k' = k1.reject c why ∧
      nodes = none) := by
  have hg := graph_admitBoth s k c
  unfold add at h
  split at h
  · rename_i k1 v w he
    rw [he] at hg
    cases h
    exact Or.inl ⟨k1, v, w, hg, he, rfl, rfl⟩
  · rename_i k1 why he
    rw [he] at hg
    cases h
    exact Or.inr ⟨k1, why, hg, he, rfl, rfl⟩
  · cases h

theorem bind_cases {s : Settings} {k k' : Intake} {b : Binding} (h : k.bind s b = .ok k') :
    (∃ k1 v w, k1.graph = k.graph ∧ k.admitBoth s b.fact = (k1, .ok (v, w)) ∧
      k' = { (k1.connect v w).1 with
        graph := (k1.connect v w).1.graph.bindTarget b.target (k1.connect v w).2.1 }) ∨
    (∃ k1 why, k1.graph = k.graph ∧ k.admitBoth s b.fact = (k1, .error (.refused why)) ∧
      k' = (k1.reject b.fact why).report (dropReport b why)) := by
  have hg := graph_admitBoth s k b.fact
  unfold bind at h
  split at h
  · rename_i k1 v w he
    rw [he] at hg
    cases h
    exact Or.inl ⟨k1, v, w, hg, he, rfl⟩
  · rename_i k1 why he
    rw [he] at hg
    cases h
    exact Or.inr ⟨k1, why, hg, he, rfl⟩
  · cases h

theorem graph_of_add_stopped {s : Settings} {k k' : Intake} {c : Subtyping} (h : k.add s c = .error k') :
    k'.graph = k.graph := by
  have hg := graph_admitBoth s k c
  unfold add at h
  split at h
  · cases h
  · cases h
  · rename_i k1 he
    rw [he] at hg
    cases h
    exact hg

theorem graph_of_bind_stopped {s : Settings} {k k' : Intake} {b : Binding} (h : k.bind s b = .error k') :
    k'.graph = k.graph := by
  have hg := graph_admitBoth s k b.fact
  unfold bind at h
  split at h
  · cases h
  · cases h
  · rename_i k1 he
    rw [he] at hg
    cases h
    exact hg

theorem add_wellFormed {s : Settings} {k k' : Intake} {c : Subtyping} {nodes : Option (Nat × Nat)}
    (hk : k.graph.WellFormed) (h : k.add s c = .ok (k', nodes)) : k'.graph.WellFormed := by
  rcases add_cases h with ⟨k1, v, w, hg, -, rfl, -⟩ | ⟨k1, why, hg, -, rfl, -⟩
  · exact (connect_spec (hg ▸ hk) v w).1
  · exact hg ▸ hk

theorem bind_wellFormed {s : Settings} {k k' : Intake} {b : Binding} (hk : k.graph.WellFormed)
    (h : k.bind s b = .ok k') : k'.graph.WellFormed := by
  rcases bind_cases h with ⟨k1, v, w, hg, -, rfl⟩ | ⟨k1, why, hg, -, rfl⟩
  · obtain ⟨hw, hv, -⟩ := connect_spec (hg ▸ hk) v w
    exact Graph.bindTarget_wellFormed hw _ (Graph.lt_size hv)
  · exact hg ▸ hk

end Intake

namespace Graph

theorem Reach.wellFormed {g : Graph} (h : g.Reach) : g.WellFormed := by
  induction h with
  | empty => exact empty_wellFormed
  | intern v _ ih => exact (intern_spec ih v).1
  | relate _ ha hb ih => exact relate_wellFormed ih ha hb
  | add _ h ih => exact Intake.add_wellFormed ih h
  | addStopped _ h ih => exact Intake.graph_of_add_stopped h ▸ ih
  | bind _ h ih => exact Intake.bind_wellFormed ih h
  | bindStopped _ h ih => exact Intake.graph_of_bind_stopped h ▸ ih
  | close visits s clock readings _ hs ih =>
    obtain ⟨r, done, he, hi, -⟩ := closeFrom_spec ih hs rfl
    exact he ▸ hi.wf

theorem graph_of_foldlM {ε α β : Type} {f : β → α → Except ε β} {P : β → Prop}
    (hf : ∀ b x b', P b → f b x = .ok b' → P b') {xs : List α} {b b' : β} (hb : P b)
    (h : xs.foldlM f b = .ok b') : P b' := by
  induction xs generalizing b with
  | nil => cases h; exact hb
  | cons x xs ih =>
    rw [List.foldlM_cons] at h
    cases hx : f b x with
    | error e => rw [hx] at h; cases h
    | ok c => rw [hx] at h; exact ih (hf b x c hb hx) h

/-- The graph of a constraint set that was taken in. -/
theorem build_reach {s : Settings} {c : ConstraintSet} {k : Intake} (h : Intake.build s c = .ok k) : k.graph.Reach := by
  unfold Intake.build at h
  cases ha : Intake.empty.addAll s c with
  | error k' => rw [ha] at h; cases h
  | ok k' =>
    rw [ha] at h
    cases h
    unfold Intake.addAll at ha
    cases hs : c.subtypings.foldlM (fun k c => (k.add s c).map (·.1)) Intake.empty with
    | error k1 => rw [hs] at ha; cases ha
    | ok k1 =>
      rw [hs] at ha
      have h1 : k1.graph.Reach := by
        refine graph_of_foldlM (P := fun k => k.graph.Reach) (fun k c k' hk h => ?_) .empty hs
        cases hx : k.add s c with
        | error e => rw [hx] at h; cases h
        | ok x => rw [hx] at h; cases h; exact .add hk hx
      exact graph_of_foldlM (P := fun k => k.graph.Reach) (fun k b k' hk h => .bind hk h) h1 ha

end Graph

end TypeRecovery
