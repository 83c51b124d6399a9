/-
  TypeRecovery.Solution — from a constraint set to its sketches.

  A solve takes the constraints into a graph, closes the graph, divides it into classes and
  draws the sketch of each class. It fails when the closure exceeds its bounds, when a path
  would have to be cut at a limit that is not an integer, or when the closure took longer
  than can be shown. In each case the events up to then are kept, and so is the number of
  clock readings taken.
-/

import TypeRecovery.Graph.Closure
import TypeRecovery.Graph.Intake
import TypeRecovery.Sketch.Shape

namespace TypeRecovery

inductive Failure where
  | exhausted (e : Exhausted)
  | uncuttable
  /-- A duration that cannot be shown. -/
  | overlong

structure Solution where
  constraints : ConstraintSet
  graph : Graph
  partition : Partition
  table : SketchTable
  stats : ClosureStats
  rejected : List Subtyping
  intakeReports : List Report

namespace Solution

/-- The reports of intake, bindings and sketches, in this order. -/
def reports (s : Solution) : List Report :=
  s.intakeReports ++ s.partition.reports ++ s.table.allReports

def hasErrors (s : Solution) : Bool := s.reports.any fun r => r.severity = .error

def isSubtype (s : Solution) (v w : TypeVar) : Bool := s.graph.isSubtype v w

def rule : String := String.ofList (List.replicate 60 '=')

/-- An overview; the time of the whole solve is not measured and stands as zero. -/
def summary (s : Solution) : String :=
  "\n".intercalate
    [rule, "  TYPE SKETCH SOLVE", rule,
     "  Nodes              : " ++ toString s.graph.size,
     "  Subtype edges      : " ++ toString s.graph.edgeCount,
     "  Saturation         : " ++ s.stats.summary,
     "  Classes            : " ++ toString s.partition.classes.size,
     "  Sketches           : " ++ toString s.table.size,
     "  Targets            : " ++ toString s.table.targets.length,
     "  Rejected           : " ++ toString s.rejected.length,
     "  Diagnostics        : " ++ toString s.reports.length,
     "  Total time         : " ++ secondsText (.whole 0), rule]

def event (s : Solution) : Event :=
  ⟨.info, .solver, "Solved " ++ toString s.constraints.size ++ " constraints: " ++
    toString s.partition.classes.size ++ " classes, " ++ toString s.table.targets.length ++
    " targets, " ++ toString s.reports.length ++ " diagnostics"⟩

end Solution

/-- The end of a solve: its result, what it told the log, and the clock readings so far. -/
structure Solving where
  result : Except Failure Solution
  events : List Event
  readings : Nat

/-- Everything that follows a closed graph. -/
def Solution.ofClosed (s : Settings) (c : ConstraintSet) (k : Intake) (g : Graph)
    (stats : ClosureStats) : Solution :=
  let p := Partition.ofGraph g
  { constraints := c
    graph := g
    partition := p
    table := .ofPartition s p
    stats := stats
    rejected := k.rejected
    intakeReports := k.reports }

def solve (s : Settings) (clock : Clock) (readings : Nat) (c : ConstraintSet) : Solving :=
  match Intake.build s c with
  | .error k => ⟨.error .uncuttable, k.events, readings⟩
  | .ok k =>
    let closed := k.graph.close s clock readings
    match closed.result with
    | .error e => ⟨.error (.exhausted e), k.events, closed.readings⟩
    | .ok stats =>
      if stats.isMeasurable then
        let solution := Solution.ofClosed s c k closed.graph stats
        ⟨.ok solution,
          k.events ++ [stats.event] ++ solution.partition.events ++
            [solution.table.summary, solution.event],
          closed.readings⟩
      else ⟨.error .overlong, k.events, closed.readings⟩

/-- Solves sets one after another, on one clock. -/
def solveAll (s : Settings) (clock : Clock) : Nat → List ConstraintSet → List Solving
  | _, [] => []
  | readings, c :: rest =>
    let done := solve s clock readings c
    done :: solveAll s clock done.readings rest

end TypeRecovery
