/-
  TypeRecovery.Graph.Drawing — a graph in the DOT language.

  Nodes are drawn in order with the text of their variable, then label edges dashed, then
  subtype edges in ascending order. A double quote in a name is escaped.
-/

import TypeRecovery.Graph.Basic

namespace TypeRecovery.Graph

def escapeQuotes (s : String) : String :=
  String.ofList (s.toList.flatMap fun c => if c = '"' then ['\\', '"'] else [c])

def nodeName (i : Nat) : String := "n" ++ toString i

def nodeLine (i : Nat) (v : TypeVar) : String :=
  "  " ++ nodeName i ++ " [label=\"" ++ escapeQuotes v.text ++ "\"];"

def labelLine (a : Nat) (l : Label) (b : Nat) : String :=
  "  " ++ nodeName a ++ " -> " ++ nodeName b ++ " [label=\"" ++ l.text ++
    "\", style=dashed, color=gray];"

def edgeLine (a b : Nat) : String :=
  "  " ++ nodeName a ++ " -> " ++ nodeName b ++ " [label=\"⊑\"];"

def edgeAtMost (e f : Nat × Nat) : Bool := e.1 < f.1 || (e.1 = f.1 && e.2 ≤ f.2)

def sortedEdges (g : Graph) : List (Nat × Nat) := g.edges.mergeSort edgeAtMost

def titleLines (title : String) : List String :=
  if title.isEmpty then [] else ["  label=\"" ++ title ++ "\";"]

def nodeLines (g : Graph) : List String :=
  g.typeVars.zipIdx.map fun (v, i) => nodeLine i v

/-- The drawing, under a title unless that is empty. -/
def draw (g : Graph) (title : String) : String :=
  "\n".intercalate
    (["digraph ConstraintGraph \x7b"] ++ titleLines title ++
      ["  node [shape=box, fontname=\"monospace\", fontsize=10];"] ++
      g.nodeLines ++
      (g.labelEdges.map fun (a, l, b) => labelLine a l b) ++
      (g.sortedEdges.map fun (a, b) => edgeLine a b) ++ ["\x7d"])

end TypeRecovery.Graph
