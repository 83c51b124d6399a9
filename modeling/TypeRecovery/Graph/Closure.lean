/-
  TypeRecovery.Graph.Closure — what follows from the subtypings of a graph.

  Three rules are applied until nothing new follows.
  (1) `A ⊑ B` and `B ⊑ C` give `A ⊑ C`.
  (2) `A ⊑ B` gives `A·ℓ ⊑ B·ℓ` for a covariant label ℓ of both.
  (3) `A ⊑ B` gives `B·ℓ ⊑ A·ℓ` for a contravariant label ℓ of both.

  Edges whose consequences are still to be drawn wait in a queue, the recorded edges first.
  To take an edge `A ⊑ B` from the queue is one step: it is joined with the edges out of
  `B`, then with the edges into `A`, then pushed along the labels that `A` and `B` share. An
  edge that is new is recorded and goes to the end of the queue, so no edge is taken twice,
  and since no node is made the queue runs empty. In which order the edges wait at first, and
  in which order a step goes through the edges out of `B` and into `A`, is left open.

  Settings may bound the steps and the time. The clock is read when a run starts, when it
  ends, and at every so-many-th step while there is a deadline. A run that exceeds a bound
  stops at once; what it has recorded stays.
-/

import TypeRecovery.Graph.Basic
import TypeRecovery.Event
import TypeRecovery.Queue
import TypeRecovery.Settings

namespace TypeRecovery

/-- The readings of a clock: what its n-th reading shows. -/
abbrev Clock := Nat → Amount

/-- A clock that advances by a fixed amount from one reading to the next. -/
def Clock.ticking (tick : Amount) : Clock := fun n => tick.timesNat n

structure ClosureStats where
  steps : Nat
  derived : Nat
  transitive : Nat
  pushed : Nat
  initialEdges : Nat
  finalEdges : Nat
  elapsed : Amount
  deriving DecidableEq, Repr

/-- Durations are shown in seconds with three decimal places. -/
def secondsText (a : Amount) : String := a.toBinary64.fixedText 3 ++ "s"

namespace ClosureStats

/-- A duration can be shown unless it is an integer beyond all binary64 numbers. -/
def isMeasurable (s : ClosureStats) : Bool :=
  match s.elapsed, s.elapsed.toBinary64 with
  | .whole _, .infinite _ => false
  | _, _ => true

def summary (s : ClosureStats) : String :=
  toString s.steps ++ " steps, " ++ toString s.derived ++ " derived (" ++
    toString s.transitive ++ " transitive, " ++ toString s.pushed ++ " label-push), " ++
    toString s.initialEdges ++ " -> " ++ toString s.finalEdges ++ " edges in " ++
    secondsText s.elapsed

def event (s : ClosureStats) : Event :=
  ⟨.info, .saturation, "Saturation finished: " ++ s.summary⟩

end ClosureStats

inductive Bound where
  | steps (limit : Amount)
  | time (deadline : Amount)
  deriving DecidableEq, Repr

def Bound.reason : Bound → String
  | .steps limit => "step budget of " ++ limit.text ++ " exhausted"
  | .time deadline => "deadline of " ++ deadline.text ++ "s passed"

/-- A bound was exceeded, with edges still waiting. -/
structure Exhausted where
  bound : Bound
  steps : Nat
  pending : Nat
  deriving DecidableEq, Repr

def Exhausted.fault (e : Exhausted) : Fault :=
  .budgetExceeded (.ofText e.bound.reason) (.ofInt e.steps) (.ofInt e.pending)

/-- A run between two steps. -/
structure Run where
  graph : Graph
  queue : Queue (Nat × Nat)
  steps : Nat
  transitive : Nat
  pushed : Nat
  derived : Nat
  /-- How often the clock has been read, by earlier runs too. -/
  readings : Nat
  deriving DecidableEq, Repr

/-- In which order a step goes through the supertypes and the subtypes of a node. It may
depend on everything that has happened so far. -/
structure Visits where
  supertypes : Run → Nat → List Nat
  subtypes : Run → Nat → List Nat
  supertypes_perm (r : Run) (a : Nat) : (supertypes r a).Perm (r.graph.supertypes a)
  subtypes_perm (r : Run) (a : Nat) : (subtypes r a).Perm (r.graph.subtypes a)

/-- In the order in which they were recorded. -/
def Visits.recorded : Visits where
  supertypes r a := r.graph.supertypes a
  subtypes r a := r.graph.subtypes a
  supertypes_perm _ _ := .refl _
  subtypes_perm _ _ := .refl _

namespace Run

/-- Records an edge; one that is new waits its turn. -/
def derive (r : Run) (a b : Nat) : Run × Bool :=
  match r.graph.relate a b with
  | (g, true) =>
    ({ r with graph := g, queue := r.queue.push (a, b), derived := r.derived + 1 }, true)
  | (_, false) => (r, false)

def deriveTransitive (r : Run) (a b : Nat) : Run :=
  match r.derive a b with
  | (r, true) => { r with transitive := r.transitive + 1 }
  | (r, false) => r

def derivePushed (r : Run) (a b : Nat) : Run :=
  match r.derive a b with
  | (r, true) => { r with pushed := r.pushed + 1 }
  | (r, false) => r

/-- Pushes `a ⊑ b` along one label of `a`. -/
def push (r : Run) (b : Nat) (l : Label) (child : Nat) : Run :=
  match r.graph.child? b l with
  | none => r
  | some other =>
    match l.variance with
    | .covariant => r.derivePushed child other
    | .contravariant => r.derivePushed other child

/-- Draws the consequences of one edge. -/
def join (r : Run) (visits : Visits) (a b : Nat) : Run :=
  let r := (visits.supertypes r b).foldl (fun r c => r.deriveTransitive a c) r
  let r := (visits.subtypes r a).foldl (fun r z => r.deriveTransitive z b) r
  (r.graph.children a).foldl (fun r c => r.push b c.1 c.2) r

def stepsExceeded (s : Settings) (r : Run) : Option Bound :=
  match s.maxSteps with
  | some limit => if limit.less (.whole r.steps) then some (.steps limit) else none
  | none => none

/-- Looks at the clock when a look is due. -/
def timeExceeded (s : Settings) (clock : Clock) (started : Amount) (r : Run) :
    Run × Option Bound :=
  match s.deadline with
  | none => (r, none)
  | some deadline =>
    if s.deadlineInterval.isDue r.steps then
      let spent := (clock r.readings).minus started
      ({ r with readings := r.readings + 1 },
        if deadline.less spent then some (.time deadline) else none)
    else (r, none)

def checkBounds (s : Settings) (clock : Clock) (started : Amount) (r : Run) :
    Run × Option Bound :=
  match r.stepsExceeded s with
  | some bound => (r, some bound)
  | none => r.timeExceeded s clock started

/-- Takes edges from the queue until it is empty or a bound is exceeded. The budget is at
least the number of edges that can ever wait. -/
def finish (visits : Visits) (s : Settings) (clock : Clock) (started : Amount) :
    Nat → Run → Run × Option Exhausted
  | 0, r => (r, none)
  | budget + 1, r =>
    match r.queue.pop? with
    | none => (r, none)
    | some ((a, b), rest) =>
      match { r with queue := rest, steps := r.steps + 1 }.checkBounds s clock started with
      | (r, some bound) => (r, some ⟨bound, r.steps, r.queue.length⟩)
      | (r, none) => finish visits s clock started budget (r.join visits a b)

end Run

/-- What a run leaves: the graph, the readings taken so far, and the counters or the bound
that was exceeded. -/
structure Closed where
  graph : Graph
  readings : Nat
  result : Except Exhausted ClosureStats

namespace Graph

/-- A run before its first step; the edges wait in the order of `seed`. -/
def startRun (g : Graph) (seed : List (Nat × Nat)) (readings : Nat) : Run :=
  ⟨g, .ofList seed, 0, 0, 0, 0, readings⟩

/-- Closes a graph under the three rules, the recorded edges first in the order of `seed`.
`readings` of the clock have been taken before. -/
def closeFrom (g : Graph) (seed : List (Nat × Nat)) (visits : Visits) (s : Settings)
    (clock : Clock) (readings : Nat) : Closed :=
  let started := clock readings
  let (r, exceeded) :=
    (g.startRun seed (readings + 1)).finish visits s clock started
      (g.size * g.size + seed.length + 1)
  match exceeded with
  | some e => ⟨r.graph, r.readings, .error e⟩
  | none =>
    ⟨r.graph, r.readings + 1,
      .ok { steps := r.steps, derived := r.derived, transitive := r.transitive,
            pushed := r.pushed, initialEdges := g.edgeCount, finalEdges := r.graph.edgeCount,
            elapsed := (clock r.readings).minus started }⟩

def close (g : Graph) (s : Settings) (clock : Clock) (readings : Nat) : Closed :=
  g.closeFrom g.edges .recorded s clock readings

end Graph

end TypeRecovery
