/-
  TypeRecovery.Proofs.Closure.StepCount — how many steps it takes to close a graph.

  The loop of a run goes on while edges wait and no bound is exceeded; `Ends` says where it
  leads, without a budget. An edge waits once, at the start or when it is recorded, and takes
  one step. So a run that no bound stops takes as many steps as the closed graph has edges,
  which are the pairs of different nodes that the first edges entail (`entailed`): neither
  their order nor how often one of them is derived matters. A bound on the steps stops a run
  exactly when it is below that number, at the first step past it.

  Proved:
  - `finish_ends`: the loop ends, and its budget does not show.
  - `length_le_ncard_entailed`, `ncard_entailed`: how many of the entailed pairs a graph holds.
  - `closeFrom_counted`: the counters of a run, stopped or not.
-/

import TypeRecovery.Proofs.Amount
import TypeRecovery.Proofs.Closure.Budget
import TypeRecovery.Proofs.Graph.Arena

namespace TypeRecovery

namespace Run

/-- The loop of a run, from a run to its last state, with what stopped it if a bound did. -/
inductive Ends (visits : Visits) (s : Settings) (clock : Clock) (started : Amount) : Run → Run → Option Exhausted → Prop
  | empty {r : Run} : r.queue.pop? = none → Ends visits s clock started r r none
  | stopped {r r' : Run} {e : Nat × Nat} {rest : Queue (Nat × Nat)} {bound : Bound} :
      r.queue.pop? = some (e, rest) →
      checkBounds s clock started { r with queue := rest, steps := r.steps + 1 } = (r', some bound) →
      Ends visits s clock started r r' (some ⟨bound, r'.steps, r'.queue.length⟩)
  | step {r r' last : Run} {a b : Nat} {rest : Queue (Nat × Nat)} {exceeded : Option Exhausted} :
      r.queue.pop? = some ((a, b), rest) →
      checkBounds s clock started { r with queue := rest, steps := r.steps + 1 } = (r', none) →
      Ends visits s clock started (r'.join visits a b) last exceeded → Ends visits s clock started r last exceeded

/-- A run that its budget did not cut short is the whole loop. -/
theorem finish_ends (visits : Visits) (s : Settings) (clock : Clock) (started : Amount) (budget : Nat) (r : Run)
    (h : (r.finish visits s clock started budget).2 = none → (r.finish visits s clock started budget).1.queue.pop? = none) :
    Ends visits s clock started r (r.finish visits s clock started budget).1 (r.finish visits s clock started budget).2 := by
  induction budget generalizing r with
  | zero => exact .empty (h rfl)
  | succ budget ih =>
    unfold finish at h ⊢
    cases hp : r.queue.pop? with
    | none => exact .empty hp
    | some x =>
      obtain ⟨⟨a, b⟩, rest⟩ := x
      simp only [hp] at h ⊢
      cases hc : checkBounds s clock started { r with queue := rest, steps := r.steps + 1 } with
      | mk r' bound =>
        simp only [hc] at h ⊢
        cases bound with
        | some bound => exact .stopped hp hc
        | none => exact .step hp hc (ih _ h)

end Run

/-! ## Bounds that are integers -/

/-- The bound on the steps is an integer, or there is none. -/
def Settings.StepLimit (s : Settings) (limit : Option Nat) : Prop :=
  s.maxSteps.map Amount.integer? = limit.map fun m => some (m : Int)

theorem Settings.StepLimit.allows_iff {s : Settings} {limit : Option Nat} (h : s.StepLimit limit) (n : Nat) :
    s.AllowsSteps n ↔ ∀ m, limit = some m → n ≤ m := by
  unfold StepLimit at h
  unfold AllowsSteps
  cases hs : s.maxSteps with
  | none =>
    cases limit with
    | none => simp
    | some m => rw [hs] at h; cases h
  | some a =>
    cases limit with
    | none => rw [hs] at h; cases h
    | some m =>
      rw [hs] at h
      have hless := Amount.less_whole_of_integer? (Option.some.inj h) n
      simp [hless]

namespace Graph

/-! ## Counting entailed pairs -/

/-- The pairs of different nodes that the subtype edges entail. -/
def entailed (g : Graph) : Set (Nat × Nat) := {e | e.1 ≠ e.2 ∧ g.EntailsAt e.1 e.2}

theorem entailed_finite (g : Graph) : g.entailed.Finite := by
  refine (Finset.finite_toSet (Finset.range g.size ×ˢ Finset.range g.size)).subset fun e he => ?_
  obtain ⟨ha, hb⟩ := he.2.lt_size
  exact Finset.mem_coe.mpr (Finset.mem_product.mpr ⟨Finset.mem_range.mpr ha, Finset.mem_range.mpr hb⟩)

section Closed

variable {g g' : Graph} {seed : List (Nat × Nat)} {visits : Visits} {s : Settings} {clock : Clock} {readings readings' : Nat}

theorem length_le_ncard_entailed (hg : g.WellFormed) (hs : seed.Perm g.edges) {result : Except Exhausted ClosureStats}
    (h : g.closeFrom seed visits s clock readings = ⟨g', readings', result⟩) : g'.edges.length ≤ g.entailed.ncard := by
  rw [← ncard_edges (closeFrom_wellFormed hg hs h)]
  exact Set.ncard_le_ncard (fun e he => closeFrom_sound hg hs h he) g.entailed_finite

theorem ncard_entailed (hg : g.WellFormed) (hs : seed.Perm g.edges) {stats : ClosureStats}
    (h : g.closeFrom seed visits s clock readings = ⟨g', readings', .ok stats⟩) : g.entailed.ncard = g'.edges.length := by
  refine Nat.le_antisymm ?_ (length_le_ncard_entailed hg hs h)
  rw [← ncard_edges (closeFrom_wellFormed hg hs h)]
  exact Set.ncard_le_ncard (fun e he => closeFrom_complete hg hs h he.1 he.2) (List.finite_toSet _)

end Closed

/-! ## The counters of a run -/

/-- What closing `g` comes to when `limit` bounds the steps. -/
structure Counted (g : Graph) (limit : Option Nat) (c : Closed) : Prop where
  stopped_iff : (∃ e, c.result = .error e) ↔ ∃ m, limit = some m ∧ m < g.entailed.ncard
  finished {stats : ClosureStats} : c.result = .ok stats →
    stats.steps = g.entailed.ncard ∧ stats.finalEdges = g.entailed.ncard ∧ c.graph.edgeCount = g.entailed.ncard ∧
      stats.derived = stats.transitive + stats.pushed ∧ stats.initialEdges = g.edgeCount ∧
      stats.finalEdges = stats.initialEdges + stats.derived
  stopped {e : Exhausted} : c.result = .error e →
    ∃ m, limit = some m ∧ e.steps = m + 1 ∧ e.steps + e.pending = c.graph.edgeCount ∧
      (∀ x ∈ g.edges, x ∈ c.graph.edges) ∧ ∀ x ∈ c.graph.edges, x ∈ g.entailed

variable {g g' : Graph} {seed : List (Nat × Nat)} {visits : Visits} {s : Settings} {clock : Clock} {readings readings' : Nat}
  {limit : Option Nat}

/-- A run that is not stopped takes one step for each entailed pair. -/
theorem steps_of_ok (hg : g.WellFormed) (hs : seed.Perm g.edges) (hd : s.deadline = none) (hl : s.StepLimit limit)
    {stats : ClosureStats} (h : g.closeFrom seed visits s clock readings = ⟨g', readings', .ok stats⟩) :
    (∀ m, limit = some m → g.entailed.ncard ≤ m) ∧ stats.steps = g.entailed.ncard ∧
      stats.finalEdges = g.entailed.ncard ∧ g'.edgeCount = g.entailed.ncard ∧
      stats.derived = stats.transitive + stats.pushed ∧ stats.initialEdges = g.edgeCount ∧
      stats.finalEdges = stats.initialEdges + stats.derived := by
  have hcard := ncard_entailed hg hs h
  obtain ⟨r, done, rfl, hi, hend, -⟩ := closeFrom_run hg hs hd h
  obtain ⟨hqueue, hallowed, rfl⟩ := hend stats rfl
  have hcount := hi.wf.edgeCount_eq
  have hsteps : r.graph.edges.length = r.steps := by
    rw [hi.edges.length_eq, hqueue, List.append_nil, hi.steps]
  refine ⟨fun m hm => ?_, ?_, ?_, ?_, hi.derived, rfl, ?_⟩
  · by_cases hzero : g.entailed.ncard = 0
    · exact hzero ▸ Nat.zero_le m
    · exact (hl.allows_iff _).mp (hallowed _ (Nat.pos_of_ne_zero hzero) (by omega)) m hm
  · exact hsteps.symm.trans hcard.symm
  · exact hcount.trans hcard.symm
  · exact hcount.trans hcard.symm
  · show r.graph.edgeCount = g.edgeCount + r.derived
    rw [hcount, hi.edgeCount, hg.edgeCount_eq]

/-- A run is stopped by the first step past the bound, with all other edges recorded so far
still waiting. -/
theorem steps_of_error (hg : g.WellFormed) (hs : seed.Perm g.edges) (hd : s.deadline = none) (hl : s.StepLimit limit)
    {e : Exhausted} (h : g.closeFrom seed visits s clock readings = ⟨g', readings', .error e⟩) :
    ∃ m, limit = some m ∧ m < g.entailed.ncard ∧ e.steps = m + 1 ∧ e.steps + e.pending = g'.edgeCount := by
  have hcard := length_le_ncard_entailed hg hs h
  obtain ⟨r, done, rfl, hi, -, hend⟩ := closeFrom_run hg hs hd h
  obtain ⟨hsteps, hpending, -, hallowed, hexceeded⟩ := hend e rfl
  rw [hl.allows_iff] at hexceeded
  push Not at hexceeded
  obtain ⟨m, rfl, hm⟩ := hexceeded
  have hlast : r.steps = m + 1 := by
    by_contra hne
    have hle := (hl.allows_iff (m + 1)).mp (hallowed (Nat.succ_pos m) (by omega)) m rfl
    omega
  have hedges : r.graph.edges.length = r.steps + r.queue.length := by
    rw [hi.edges.length_eq, List.length_append, Queue.length_toList, hi.steps]
  refine ⟨m, rfl, by omega, hsteps.trans hlast, ?_⟩
  rw [hi.wf.edgeCount_eq, hedges, hsteps, hpending]

theorem closeFrom_ends (hg : g.WellFormed) (hs : seed.Perm g.edges) (visits : Visits) (s : Settings)
    (clock : Clock) (readings : Nat) :
    ∃ last exceeded, (g.startRun seed (readings + 1)).Ends visits s clock (clock readings) last exceeded ∧
      (g.closeFrom seed visits s clock readings).graph = last.graph ∧
      ∀ e, (g.closeFrom seed visits s clock readings).result = .error e ↔ exceeded = some e := by
  obtain ⟨done, -, hend⟩ := finish_startRun hg hs visits s clock readings
  have hends := Run.finish_ends visits s clock (clock readings) (g.size * g.size + seed.length + 1)
    (g.startRun seed (readings + 1)) fun h => Queue.pop?_eq_none_iff.mpr (hend h).1
  refine ⟨_, _, hends, ?_⟩
  rw [closeFrom]
  rcases (g.startRun seed (readings + 1)).finish visits s clock (clock readings) (g.size * g.size + seed.length + 1) with
    ⟨last, _ | e⟩
  · exact ⟨rfl, fun e => by simp⟩
  · exact ⟨rfl, fun e' => by simp⟩

/-- The run that closes a graph ends. It is stopped exactly by a bound below the number of
entailed pairs, whatever the order in which edges are gone through, and its counters add up either way. -/
theorem closeFrom_counted (hr : g.Reach) (hs : seed.Perm g.edges) (hd : s.deadline = none) (hl : s.StepLimit limit)
    (visits : Visits) (clock : Clock) (readings : Nat) :
    (∃ last exceeded, (g.startRun seed (readings + 1)).Ends visits s clock (clock readings) last exceeded ∧
      (g.closeFrom seed visits s clock readings).graph = last.graph ∧
      ∀ e, (g.closeFrom seed visits s clock readings).result = .error e ↔ exceeded = some e) ∧
    g.Counted limit (g.closeFrom seed visits s clock readings) := by
  have hg := hr.wellFormed
  refine ⟨closeFrom_ends hg hs visits s clock readings, ?_⟩
  rcases hc : g.closeFrom seed visits s clock readings with ⟨g', readings', e | stats⟩
  · obtain ⟨m, hm, hlt, hsteps, hcount⟩ := steps_of_error hg hs hd hl hc
    refine ⟨⟨fun _ => ⟨m, hm, hlt⟩, fun _ => ⟨e, rfl⟩⟩, (fun h => nomatch h), fun h => ?_⟩
    cases h
    exact ⟨m, hm, hsteps, hcount, fun x hx => closeFrom_keeps hg hs hc hx, fun x hx => closeFrom_sound hg hs hc hx⟩
  · obtain ⟨hle, hcounts⟩ := steps_of_ok hg hs hd hl hc
    refine ⟨⟨fun ⟨e, h⟩ => (nomatch h), fun ⟨m, hm, hlt⟩ => ?_⟩, fun h => ?_, fun h => nomatch h⟩
    · exact absurd hlt (Nat.not_lt.mpr (hle m hm))
    · cases h
      exact hcounts

def stepsUpTo (limit : Nat) : Settings := { Settings.standard with maxSteps := some (.whole limit) }

/-- Six pairs are entailed; a run that may take five steps is stopped in the sixth. -/
theorem storeChain_counted :
    storeChain.Reach ∧ [(2, 4), (0, 2)].Perm storeChain.edges ∧
      ((stepsUpTo 6).deadline = none ∧ (stepsUpTo 6).StepLimit (some 6) ∧
        ∃ stats, (storeChain.closeFrom [(2, 4), (0, 2)] .recorded (stepsUpTo 6) (.ticking (.whole 0)) 0).result = .ok stats ∧
          stats.steps = 6 ∧ storeChain.entailed.ncard = 6) ∧
      (stepsUpTo 5).deadline = none ∧ (stepsUpTo 5).StepLimit (some 5) ∧
        ∃ e, (storeChain.closeFrom [(2, 4), (0, 2)] .recorded (stepsUpTo 5) (.ticking (.whole 0)) 0).result = .error e ∧
          e.steps = 6 ∧ e.steps + e.pending = 6 := by
  have hs : [(2, 4), (0, 2)].Perm storeChain.edges := by decide
  have hsix : (stepsUpTo 6).StepLimit (some 6) := rfl
  have hfive : (stepsUpTo 5).StepLimit (some 5) := rfl
  have hfull := (closeFrom_counted storeChain_reach hs rfl hsix .recorded (.ticking (.whole 0)) 0).2
  have hcut := (closeFrom_counted storeChain_reach hs rfl hfive .recorded (.ticking (.whole 0)) 0).2
  have hcard : storeChain.entailed.ncard = 6 := (hfull.finished rfl).1.symm
  obtain ⟨e, he⟩ := hcut.stopped_iff.mpr ⟨5, rfl, hcard ▸ Nat.lt_succ_self 5⟩
  obtain ⟨m, hm, hsteps, hcount, -⟩ := hcut.stopped he
  cases hm
  exact ⟨storeChain_reach, hs, ⟨rfl, hsix, _, rfl, rfl, hcard⟩, rfl, hfive, e, he, hsteps, hcount⟩

end Graph

end TypeRecovery
