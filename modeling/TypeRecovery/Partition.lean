/-
  TypeRecovery.Partition — the classes of variables that are subtypes of each other.

  Two variables are in one class when subtype edges lead from each to the other. Classes
  are numbered by their smallest node. A class has an edge by a label to every class that
  holds the extension of one of its members by that label, and is reached by the last
  labels of its members. A target belongs to the class of the variable it was first bound
  to; a later binding into another class is reported and does not count.
-/

import TypeRecovery.Components
import TypeRecovery.Event
import TypeRecovery.Graph.Basic

namespace TypeRecovery

structure TypeClass where
  id : Nat
  members : List Nat
  typeVars : List TypeVar
  edges : Entries Label (List Nat)
  incoming : List Label
  targets : List Target
  deriving DecidableEq, Repr

namespace TypeClass

def isLeaf (c : TypeClass) : Bool := c.edges.isEmpty

/-- The labels of outgoing edges in their order. -/
def labels (c : TypeClass) : List Label := (c.edges.map (·.1)).mergeSort Label.atMost

def destinations (c : TypeClass) (l : Label) : List Nat :=
  (Entries.lookup? c.edges l).getD []

/-- The class reached by a label, the smallest if there were several. -/
def target? (c : TypeClass) (l : Label) : Option Nat := (c.destinations l).min?

def describe (c : TypeClass) : String :=
  let shown := ", ".intercalate ((c.typeVars.take 4).map (·.text))
  let more := c.typeVars.length - 4
  "EquivalenceClass(#" ++ toString c.id ++ ": " ++ shown ++
    (if more = 0 then "" else ", … +" ++ toString more) ++ ")"

/-- Adds a destination to the edges by a label. -/
def addEdge (edges : Entries Label (List Nat)) (l : Label) (d : Nat) :
    Entries Label (List Nat) :=
  Entries.update edges l [] fun ds => appendNew ds d

end TypeClass

/-- The classes that targets are bound to, while bindings are taken in order. -/
structure TargetClasses where
  entries : Entries Target Nat
  reports : List Report
  events : List Event

namespace TargetClasses

def conflict (t : Target) (kept dropped : Nat) : Report where
  kind := .conflictingBinding
  message := "bound to classes #" ++ toString kept ++ " and #" ++ toString dropped ++
    "; keeping #" ++ toString kept
  severity := .warning
  subject := some (.target t)
  evidence := [("kept", .ofInt kept), ("dropped", .ofInt dropped)]

def warning (t : Target) (kept dropped : Nat) : Event :=
  ⟨.warning, .partition, "Target " ++ t.text ++ " is bound to classes #" ++ toString kept ++
    " and #" ++ toString dropped ++ "; keeping #" ++ toString kept⟩

def bind (b : TargetClasses) (t : Target) (c : Nat) : TargetClasses :=
  match Entries.lookup? b.entries t with
  | none => { b with entries := b.entries ++ [(t, c)] }
  | some kept =>
    if kept = c then b
    else
      { b with reports := b.reports ++ [conflict t kept c]
               events := b.events ++ [warning t kept c] }

end TargetClasses

structure Partition where
  graph : Graph
  classes : Array TypeClass
  /-- The class of every node. -/
  classOf : Array Nat
  targets : Entries Target Nat
  reports : List Report
  events : List Event

namespace Partition

def natAtMost (a b : Nat) : Bool := a ≤ b

/-- Components with ascending members, in the order of their smallest member. -/
def sortedComponents (g : Graph) : List (List Nat) :=
  let sorted := (components g.size g.supertypes).map (·.mergeSort natAtMost)
  sorted.mergeSort fun c d => natAtMost (c.headD 0) (d.headD 0)

/-- For every node the position of the component that holds it. -/
def classTable (n : Nat) (components : List (List Nat)) : Array Nat :=
  components.zipIdx.foldl
    (fun table (members, id) => members.foldl (fun table i => table.setIfInBounds i id) table)
    (Array.replicate n 0)

def classOfNode (table : Array Nat) (i : Nat) : Nat := (table[i]?).getD 0

def liftEdges (g : Graph) (table : Array Nat) (members : List Nat) :
    Entries Label (List Nat) :=
  (members.flatMap g.children).foldl
    (fun edges (l, j) => TypeClass.addEdge edges l (classOfNode table j)) []

def makeClass (g : Graph) (table : Array Nat) (targets : Entries Target Nat) (id : Nat)
    (members : List Nat) : TypeClass where
  id := id
  members := members
  typeVars := members.filterMap g.typeVar?
  edges := liftEdges g table members
  incoming := firstOccurrences (members.filterMap fun i => (g.parent? i).map (·.2))
  targets := (targets.filter fun e => e.2 = id).map (·.1)

def summary (nodes classes targets : Nat) : Event :=
  ⟨.debug, .partition, "Partitioned " ++ toString nodes ++ " nodes into " ++ toString classes ++
    " classes (" ++ toString targets ++ " targets)"⟩

def ofGraph (g : Graph) : Partition :=
  let comps := sortedComponents g
  let table := classTable g.size comps
  let bound : TargetClasses :=
    g.bindings.foldl (fun b (t, i) => b.bind t (classOfNode table i)) ⟨[], [], []⟩
  { graph := g
    classes := (comps.zipIdx.map fun (members, id) =>
      makeClass g table bound.entries id members).toArray
    classOf := table
    targets := bound.entries
    reports := bound.reports
    events := bound.events ++ [summary g.size comps.length bound.entries.length] }

def class? (p : Partition) (id : Nat) : Option TypeClass := p.classes[id]?

/-- The class of a variable of the graph. -/
def classOf? (p : Partition) (v : TypeVar) : Option TypeClass :=
  (p.graph.find? v).bind fun i => p.class? (classOfNode p.classOf i)

def target? (p : Partition) (t : Target) : Option TypeClass :=
  (Entries.lookup? p.targets t).bind p.class?

/-- Whether two variables of the graph share a class. -/
def sameClass? (p : Partition) (v w : TypeVar) : Option Bool := do
  return (← p.classOf? v).id = (← p.classOf? w).id

def describe (p : Partition) : String :=
  "Partition(classes=" ++ toString p.classes.size ++ ", targets=" ++
    toString p.targets.length ++ ")"

end Partition

end TypeRecovery
