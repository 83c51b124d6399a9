/-
  TypeRecovery.Proofs.Closure.Budget — runs that only a bound on the steps can stop.

  Without a deadline a run looks at its clock twice, when it starts and when it ends, so what
  it does depends on the number of its steps alone. A run that is stopped was stopped at the
  first number of steps that its bound does not allow; one that is not has taken every edge of
  the closed graph from its queue, each in one step.

  Proved:
  - `finish_counts`: the numbers of steps that a run was allowed.
  - `closeFrom_run`: the counters that a run ends with, or how it was stopped (`Stopped`).
  - `closeFrom_ok_counts`, `closeFrom_error_counts`: what the end of a run says of the number of
    edges.
-/

import TypeRecovery.Proofs.Closure.LeastClosure

namespace TypeRecovery

/-- The bound on the steps, if there is one, has not been passed after `n` of them. -/
def Settings.AllowsSteps (s : Settings) (n : Nat) : Prop :=
  ∀ limit, s.maxSteps = some limit → limit.less (.whole n) = false

namespace Run

variable {s : Settings} {r : Run}

theorem stepsExceeded_eq_none_iff : r.stepsExceeded s = none ↔ s.AllowsSteps r.steps := by
  unfold stepsExceeded Settings.AllowsSteps
  cases s.maxSteps <;> simp

/-- The last step of `r` exceeded the bound on the steps, and none after the first `n` had before. -/
structure Stopped (s : Settings) (n : Nat) (r : Run) (e : Exhausted) : Prop where
  steps : e.steps = r.steps
  pending : e.pending = r.queue.length
  lt_steps : n < r.steps
  allowed {k : Nat} : n < k → k < r.steps → s.AllowsSteps k
  exceeded : ¬s.AllowsSteps r.steps

/-- What recording an edge leaves alone, a whole step leaves alone. -/
theorem join_view {β : Type} (visits : Visits) (view : Run → β) (ht : ∀ r a b, view (r.deriveTransitive a b) = view r)
    (hp : ∀ r a b, view (r.derivePushed a b) = view r) (r : Run) (a b : Nat) : view (r.join visits a b) = view r := by
  have hfold : ∀ {α : Type} (f : Run → α → Run), (∀ r x, view (f r x) = view r) →
      ∀ (xs : List α) (r : Run), view (xs.foldl f r) = view r := by
    intro α f hf xs
    induction xs with
    | nil => exact fun r => rfl
    | cons x xs ih => exact fun r => (ih (f r x)).trans (hf r x)
  have hpush : ∀ (r : Run) (c : Label × Nat), view (r.push b c.1 c.2) = view r := by
    intro r c
    unfold push
    split
    · rfl
    · split
      · exact hp r _ _
      · exact hp r _ _
  unfold join
  rw [hfold _ hpush, hfold _ fun r z => ht r z b, hfold _ fun r x => ht r a x]

theorem steps_join (visits : Visits) (r : Run) (a b : Nat) : (r.join visits a b).steps = r.steps := by
  refine join_view visits (·.steps) (fun r a b => ?_) (fun r a b => ?_) r a b
  · simp only [deriveTransitive_eq]; split <;> rfl
  · simp only [derivePushed_eq]; split <;> rfl

theorem readings_join (visits : Visits) (r : Run) (a b : Nat) : (r.join visits a b).readings = r.readings := by
  refine join_view visits (·.readings) (fun r a b => ?_) (fun r a b => ?_) r a b
  · simp only [deriveTransitive_eq]; split <;> rfl
  · simp only [derivePushed_eq]; split <;> rfl

variable (hd : s.deadline = none) (clock : Clock) (started : Amount)
include hd

/-- Without a deadline the clock is not looked at between two steps. -/
theorem checkBounds_eq (r : Run) : r.checkBounds s clock started = (r, r.stepsExceeded s) := by
  unfold checkBounds timeExceeded
  rw [hd]
  cases r.stepsExceeded s <;> rfl

/-- Every step that a run goes on after was allowed, and the one that a bound stops was not. -/
theorem finish_counts (visits : Visits) (budget : Nat) (r : Run) :
    (r.finish visits s clock started budget).1.readings = r.readings ∧
      ((r.finish visits s clock started budget).2 = none →
        ∀ n, r.steps < n → n ≤ (r.finish visits s clock started budget).1.steps → s.AllowsSteps n) ∧
      ∀ e, (r.finish visits s clock started budget).2 = some e →
        Stopped s r.steps (r.finish visits s clock started budget).1 e := by
  induction budget generalizing r with
  | zero => exact ⟨rfl, fun _ n h h' => absurd (Nat.lt_of_lt_of_le h h') (Nat.lt_irrefl _), fun e h => by cases h⟩
  | succ budget ih =>
    unfold finish
    cases hp : r.queue.pop? with
    | none => exact ⟨rfl, fun _ n h h' => absurd (Nat.lt_of_lt_of_le h h') (Nat.lt_irrefl _), fun e h => by cases h⟩
    | some x =>
      obtain ⟨⟨a, b⟩, rest⟩ := x
      simp only [checkBounds_eq hd]
      generalize ht : ({ r with queue := rest, steps := r.steps + 1 } : Run) = t
      have hsteps : t.steps = r.steps + 1 := by rw [← ht]
      have hreadings : t.readings = r.readings := by rw [← ht]
      cases hb : t.stepsExceeded s with
      | some bound =>
        refine ⟨hreadings, (by simp), fun e he => ?_⟩
        cases he
        refine ⟨rfl, rfl, hsteps ▸ Nat.lt_succ_self _, fun {k} hn hk => ?_, fun h => ?_⟩
        · have hk : k < t.steps := hk
          omega
        · rw [stepsExceeded_eq_none_iff.mpr h] at hb
          cases hb
      | none =>
        obtain ⟨hread, hok, herr⟩ := ih (t.join visits a b)
        rw [steps_join, hsteps] at hok herr
        -- the step just taken was allowed, those after it are the rest of the run
        have hfirst : s.AllowsSteps (r.steps + 1) := hsteps ▸ stepsExceeded_eq_none_iff.mp hb
        refine ⟨hread.trans ((readings_join visits t a b).trans hreadings), fun hnone n hn hle => ?_, fun e he => ?_⟩
        · by_cases heq : n = r.steps + 1
          · exact heq ▸ hfirst
          · exact hok hnone n (Nat.lt_of_le_of_ne hn (Ne.symm heq)) hle
        · obtain ⟨hes, hep, hlt, hallowed, hnot⟩ := herr e he
          refine ⟨hes, hep, Nat.lt_of_succ_lt hlt, fun {k} hn hk => ?_, hnot⟩
          by_cases heq : k = r.steps + 1
          · exact heq ▸ hfirst
          · exact hallowed (Nat.lt_of_le_of_ne hn (Ne.symm heq)) hk

end Run

namespace Graph

variable {g g' : Graph} {seed : List (Nat × Nat)} {visits : Visits} {s : Settings} {clock : Clock} {readings readings' : Nat}

/-- The run behind a closed graph, with the edges it took. -/
theorem closeFrom_run (hg : g.WellFormed) (hs : seed.Perm g.edges) (hd : s.deadline = none)
    {result : Except Exhausted ClosureStats} (h : g.closeFrom seed visits s clock readings = ⟨g', readings', result⟩) :
    ∃ r done, g' = r.graph ∧ Run.Inv g done r ∧
      (∀ stats, result = .ok stats → r.queue.toList = [] ∧ (∀ n, 0 < n → n ≤ r.steps → s.AllowsSteps n) ∧
        stats = { steps := r.steps, derived := r.derived, transitive := r.transitive, pushed := r.pushed,
                  initialEdges := g.edgeCount, finalEdges := r.graph.edgeCount,
                  elapsed := (clock (readings + 1)).minus (clock readings) }) ∧
      ∀ e, result = .error e → Run.Stopped s 0 r e := by
  obtain ⟨done, hi, hend⟩ := finish_startRun hg hs visits s clock readings
  obtain ⟨hread, hok, herr⟩ := Run.finish_counts hd clock (clock readings) visits (g.size * g.size + seed.length + 1)
    (g.startRun seed (readings + 1))
  simp only [closeFrom] at h
  generalize hf : (g.startRun seed (readings + 1)).finish visits s clock (clock readings)
    (g.size * g.size + seed.length + 1) = f at h hi hend hread hok herr
  obtain ⟨r, exceeded⟩ := f
  cases exceeded with
  | some e =>
    cases h
    refine ⟨r, done, rfl, hi, fun stats h => ?_, fun e' h => Except.error.inj h ▸ herr e rfl⟩
    cases h
  | none =>
    cases h
    refine ⟨r, done, rfl, hi, fun stats h => ?_, fun e h => ?_⟩
    · have hlast : clock r.readings = clock (readings + 1) := congrArg clock hread
      rw [hlast] at h
      exact ⟨(hend rfl).1, hok rfl, (Except.ok.inj h).symm⟩
    · cases h

/-- A run that ends has taken every edge of the closed graph, in as many steps. -/
theorem closeFrom_ok_counts (hg : g.WellFormed) (hs : seed.Perm g.edges) (hd : s.deadline = none) {stats : ClosureStats}
    (h : g.closeFrom seed visits s clock readings = ⟨g', readings', .ok stats⟩) :
    (∀ n, 0 < n → n ≤ g'.edges.length → s.AllowsSteps n) ∧
      stats.elapsed = (clock (readings + 1)).minus (clock readings) := by
  obtain ⟨r, done, rfl, hi, hend, -⟩ := closeFrom_run hg hs hd h
  obtain ⟨hqueue, hallowed, rfl⟩ := hend stats rfl
  have hlen : r.graph.edges.length = r.steps := by
    rw [hi.edges.length_eq, hqueue, List.append_nil, hi.steps]
  exact ⟨hlen ▸ hallowed, rfl⟩

/-- A run that was stopped had recorded at least as many edges as its bound does not allow steps. -/
theorem closeFrom_error_counts (hg : g.WellFormed) (hs : seed.Perm g.edges) (hd : s.deadline = none) {e : Exhausted}
    (h : g.closeFrom seed visits s clock readings = ⟨g', readings', .error e⟩) :
    ∃ n, 0 < n ∧ n ≤ g'.edges.length ∧ ¬s.AllowsSteps n := by
  obtain ⟨r, done, rfl, hi, -, hend⟩ := closeFrom_run hg hs hd h
  have hstopped := hend e rfl
  refine ⟨r.steps, hstopped.lt_steps, ?_, hstopped.exceeded⟩
  rw [hi.edges.length_eq, List.length_append, hi.steps]
  exact Nat.le_add_right _ _

end Graph

end TypeRecovery
