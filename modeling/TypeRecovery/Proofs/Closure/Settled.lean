/-
  TypeRecovery.Proofs.Closure.Settled — closing a graph in which the rules hold already.

  In a saturated graph whatever follows from an edge is recorded. So a run only takes the edges
  that wait, one step each, and every one of its steps leaves the graph and the counters of
  derived edges as they were.

  Proved:
  - `join_settled`: drawing the consequences of an edge changes nothing.
  - `finish_settled`: nor does a whole run, stopped or not, but for its steps and its queue.
  - `Saturated.closesInPlace`: the graph stays, nothing is derived, and each edge takes one step.
-/

import TypeRecovery.Proofs.Closure.Budget

namespace TypeRecovery

namespace Run

variable {r : Run}

theorem deriveTransitive_settled {a b : Nat} (h : r.graph.Below a b) : r.deriveTransitive a b = r :=
  (deriveTransitive_eq r a b).trans (if_pos h)

theorem derivePushed_settled {a b : Nat} (h : r.graph.Below a b) : r.derivePushed a b = r :=
  (derivePushed_eq r a b).trans (if_pos h)

theorem foldl_settled {α : Type} {f : Run → α → Run} {xs : List α} (h : ∀ x ∈ xs, f r x = r) : xs.foldl f r = r := by
  induction xs with
  | nil => rfl
  | cons x xs ih =>
    rw [List.foldl_cons, h x List.mem_cons_self]
    exact ih fun y hy => h y (List.mem_cons_of_mem _ hy)

theorem push_settled (hs : r.graph.Saturated) {a b x : Nat} {l : Label} (hab : (a, b) ∈ r.graph.edges)
    (hx : r.graph.child? a l = some x) : r.push b l x = r := by
  unfold push
  cases hy : r.graph.child? b l with
  | none => rfl
  | some y =>
    rcases Label.covariant_or_store l with hl | rfl
    · simp only [hl]
      exact derivePushed_settled (hs.push hab hl hx hy)
    · exact derivePushed_settled (hs.store hab hx hy)

theorem join_settled (visits : Visits) (hr : r.graph.WellFormed) (hs : r.graph.Saturated) {a b : Nat} (hab : (a, b) ∈ r.graph.edges) :
    r.join visits a b = r := by
  have hout : (visits.supertypes r b).foldl (fun r c => r.deriveTransitive a c) r = r := by
    refine foldl_settled fun c hc => deriveTransitive_settled ?_
    exact hs.trans hab (Graph.mem_edges.mpr ((visits.supertypes_perm r b).mem_iff.mp hc))
  have hinto : (visits.subtypes r a).foldl (fun r z => r.deriveTransitive z b) r = r := by
    refine foldl_settled fun z hz => deriveTransitive_settled ?_
    exact hs.trans (Graph.mem_edges.mpr (hr.mem_subtypes.mp ((visits.subtypes_perm r a).mem_iff.mp hz))) hab
  have hpush : (r.graph.children a).foldl (fun r c => r.push b c.1 c.2) r = r :=
    foldl_settled fun c hc => push_settled hs hab (hr.mem_children_iff.mp hc)
  simp only [join, hout, hinto, hpush]

/-- `r'` has gone on from `r` without recording anything. -/
structure Settled (r r' : Run) : Prop where
  graph : r'.graph = r.graph
  derived : r'.derived = r.derived
  transitive : r'.transitive = r.transitive
  pushed : r'.pushed = r.pushed
  /-- Every step has taken an edge from the queue. -/
  steps : r'.steps + r'.queue.length = r.steps + r.queue.length

theorem Settled.trans {r' r'' : Run} (h : r.Settled r') (h' : r'.Settled r'') : r.Settled r'' :=
  ⟨h'.graph.trans h.graph, h'.derived.trans h.derived, h'.transitive.trans h.transitive, h'.pushed.trans h.pushed,
    h'.steps.trans h.steps⟩

theorem settled_take {e : Nat × Nat} {rest : Queue (Nat × Nat)} (hp : r.queue.pop? = some (e, rest)) (n : Nat) :
    r.Settled { r with queue := rest, steps := r.steps + 1, readings := n } := by
  refine ⟨rfl, rfl, rfl, rfl, ?_⟩
  have hlen := congrArg List.length (Queue.toList_of_pop? hp)
  rw [List.length_cons, Queue.length_toList, Queue.length_toList] at hlen
  rw [hlen]
  exact (Nat.add_right_comm _ _ _).trans (Nat.add_assoc _ _ _)

/-- A run in a saturated graph from whose edges it takes records nothing. -/
theorem finish_settled (visits : Visits) (s : Settings) (clock : Clock) (started : Amount) (budget : Nat) {r : Run}
    (hr : r.graph.WellFormed) (hs : r.graph.Saturated) (hq : ∀ e ∈ r.queue.toList, e ∈ r.graph.edges) :
    r.Settled (r.finish visits s clock started budget).1 := by
  induction budget generalizing r with
  | zero => exact ⟨rfl, rfl, rfl, rfl, rfl⟩
  | succ budget ih =>
    unfold finish
    cases hp : r.queue.pop? with
    | none => exact ⟨rfl, rfl, rfl, rfl, rfl⟩
    | some x =>
      obtain ⟨⟨a, b⟩, rest⟩ := x
      rw [Queue.toList_of_pop? hp] at hq
      obtain ⟨n, hn⟩ := checkBounds_run s clock started { r with queue := rest, steps := r.steps + 1 }
      have htake := settled_take hp n
      rcases hc : Run.checkBounds s clock started { r with queue := rest, steps := r.steps + 1 } with ⟨t, bound⟩
      rw [hc] at hn
      simp only at hn
      simp only [hc]
      subst hn
      cases bound with
      | some bound => exact htake
      | none =>
        simp only
        rw [join_settled visits (r := { r with queue := rest, steps := r.steps + 1, readings := n }) hr hs (hq _ List.mem_cons_self)]
        exact htake.trans (ih hr hs fun e he => hq e (List.mem_cons_of_mem _ he))

end Run

namespace Graph

variable {g g' : Graph} {seed : List (Nat × Nat)} {visits : Visits} {s : Settings} {clock : Clock} {readings readings' : Nat}

/-- Closing a saturated graph leaves it as it is, by any clock and in any order of its edges. -/
theorem closeFrom_settled (hg : g.WellFormed) (hsat : g.Saturated) (hs : seed.Perm g.edges)
    {result : Except Exhausted ClosureStats} (h : g.closeFrom seed visits s clock readings = ⟨g', readings', result⟩) :
    g' = g ∧ ∀ stats, result = .ok stats → stats.derived = 0 ∧ stats.transitive = 0 ∧ stats.pushed = 0 ∧
      stats.steps = g.edgeCount ∧ stats.initialEdges = g.edgeCount ∧ stats.finalEdges = g.edgeCount := by
  have hstart : ∀ e ∈ (g.startRun seed (readings + 1)).queue.toList, e ∈ g.edges := by
    intro e he
    rw [startRun, Queue.toList_ofList] at he
    exact hs.mem_iff.mp he
  have hrun := Run.finish_settled visits s clock (clock readings) (g.size * g.size + seed.length + 1)
    (r := g.startRun seed (readings + 1)) hg hsat hstart
  obtain ⟨done, hi, hend⟩ := finish_startRun hg hs visits s clock readings
  simp only [closeFrom] at h
  generalize hf : (g.startRun seed (readings + 1)).finish visits s clock (clock readings)
    (g.size * g.size + seed.length + 1) = f at h hrun hend
  obtain ⟨r, exceeded⟩ := f
  cases exceeded with
  | some e =>
    cases h
    refine ⟨hrun.graph, fun stats h => ?_⟩
    cases h
  | none =>
    cases h
    refine ⟨hrun.graph, fun stats h => ?_⟩
    cases h
    have hsteps : r.steps = g.edgeCount := by
      have hlen := hrun.steps
      rw [← Queue.length_toList, (hend rfl).1, ← Queue.length_toList, startRun, Queue.toList_ofList, hs.length_eq,
        ← hg.edgeCount_eq] at hlen
      simpa using hlen
    exact ⟨hrun.derived, hrun.transitive, hrun.pushed, hsteps, rfl, congrArg edgeCount hrun.graph⟩

/-- Closing `g` changes nothing, whatever the settings, the clock and the order in which edges are gone through. -/
structure ClosesInPlace (g : Graph) : Prop where
  graph {seed : List (Nat × Nat)} (visits : Visits) (s : Settings) (clock : Clock) (readings : Nat) : seed.Perm g.edges →
    (g.closeFrom seed visits s clock readings).graph = g
  counters {seed : List (Nat × Nat)} {visits : Visits} {s : Settings} {clock : Clock} {readings : Nat} {stats : ClosureStats} :
    seed.Perm g.edges → (g.closeFrom seed visits s clock readings).result = .ok stats →
    stats.derived = 0 ∧ stats.transitive = 0 ∧ stats.pushed = 0 ∧ stats.steps = g.edgeCount ∧
      stats.initialEdges = g.edgeCount ∧ stats.finalEdges = g.edgeCount
  /-- No bound that allows as many steps as there are edges stops the run. -/
  finishes {seed : List (Nat × Nat)} {s : Settings} (visits : Visits) (clock : Clock) (readings : Nat) : seed.Perm g.edges →
    s.deadline = none → (∀ n, 0 < n → n ≤ g.edgeCount → s.AllowsSteps n) →
    ∃ stats, (g.closeFrom seed visits s clock readings).result = .ok stats

theorem Saturated.closesInPlace (hg : g.WellFormed) (hsat : g.Saturated) : g.ClosesInPlace where
  graph visits s clock readings hs := (closeFrom_settled hg hsat hs rfl).1
  counters hs hr := (closeFrom_settled hg hsat hs rfl).2 _ hr
  finishes {seed s} visits clock readings hs hd ha := by
    rcases h : g.closeFrom seed visits s clock readings with ⟨g', readings', e | stats⟩
    · obtain ⟨n, hpos, hle, hnot⟩ := closeFrom_error_counts hg hs hd h
      rw [(closeFrom_settled hg hsat hs h).1, ← hg.edgeCount_eq] at hle
      exact absurd (ha n hpos hle) hnot
    · exact ⟨stats, rfl⟩

end Graph

end TypeRecovery
