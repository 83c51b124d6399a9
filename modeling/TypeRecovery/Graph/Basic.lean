/-
  TypeRecovery.Graph.Basic — the graph of type variables.

  Every variable and each of its shortenings is a node, numbered in the order of creation.
  A label edge leads from a variable to its extension by one label, and back; subtype edges
  lead from a variable to those that may stand for it. A node is never its own subtype by
  an edge, since that holds without one. A node that is made for a variable makes nodes for
  the shortenings that have none, the shortest first, so a parent's number is smaller than
  its child's.
-/

import TypeRecovery.ConstraintSet
import TypeRecovery.Entries

namespace TypeRecovery

structure Node where
  typeVar : TypeVar
  parent : Option (Nat × Label)
  children : Entries Label Nat
  supertypes : List Nat
  subtypes : List Nat
  deriving DecidableEq, Repr

structure Graph where
  nodes : Array Node
  /-- The nodes of base names. -/
  roots : Entries String Nat
  edgeCount : Nat
  /-- Targets with the node of their variable, in the order they were bound. -/
  bindings : List (Target × Nat)
  deriving DecidableEq, Repr

namespace Graph

def empty : Graph := ⟨#[], [], 0, []⟩

/-! ## Views -/

def size (g : Graph) : Nat := g.nodes.size

def typeVar? (g : Graph) (i : Nat) : Option TypeVar := (g.nodes[i]?).map (·.typeVar)

def typeVars (g : Graph) : List TypeVar := g.nodes.toList.map (·.typeVar)

def parent? (g : Graph) (i : Nat) : Option (Nat × Label) := (g.nodes[i]?).bind (·.parent)

def children (g : Graph) (i : Nat) : Entries Label Nat :=
  ((g.nodes[i]?).map (·.children)).getD []

def supertypes (g : Graph) (i : Nat) : List Nat := ((g.nodes[i]?).map (·.supertypes)).getD []

def subtypes (g : Graph) (i : Nat) : List Nat := ((g.nodes[i]?).map (·.subtypes)).getD []

def root? (g : Graph) (base : String) : Option Nat :=
  Entries.lookup? g.roots base

def child? (g : Graph) (i : Nat) (l : Label) : Option Nat :=
  Entries.lookup? (g.children i) l

/-- The node reached from `i` along a path. -/
def descend? (g : Graph) (i : Nat) (path : List Label) : Option Nat :=
  path.foldlM (fun j l => g.child? j l) i

def find? (g : Graph) (v : TypeVar) : Option Nat :=
  (g.root? v.base).bind fun r => g.descend? r v.path

def contains (g : Graph) (v : TypeVar) : Bool := (g.find? v).isSome

/-- The label edges, node by node, each node's in the order they were made. -/
def labelEdges (g : Graph) : List (Nat × Label × Nat) :=
  g.nodes.toList.zipIdx.flatMap fun (node, i) => node.children.map fun (l, j) => (i, l, j)

def edges (g : Graph) : List (Nat × Nat) :=
  g.nodes.toList.zipIdx.flatMap fun (node, i) => node.supertypes.map fun j => (i, j)

def hasEdge (g : Graph) (a b : Nat) : Bool := (g.supertypes a).contains b

/-- `v ⊑ w` as far as it is recorded; every variable is its own subtype. -/
def isSubtype (g : Graph) (v w : TypeVar) : Bool :=
  v = w ||
    match g.find? v, g.find? w with
    | some a, some b => g.hasEdge a b
    | _, _ => false

/-- The node that a possibly negative number names, counting from the end when it is. -/
def nodeAt? (g : Graph) (i : Int) : Option Nat :=
  let n := if i < 0 then i + g.size else i
  if 0 ≤ n ∧ n < g.size then some n.toNat else none

def describe (g : Graph) : String :=
  "ConstraintGraph(nodes=" ++ toString g.size ++ ", edges=" ++ toString g.edgeCount ++ ")"

/-! ## Construction -/

def push (g : Graph) (v : TypeVar) (parent : Option (Nat × Label)) : Graph :=
  { g with nodes := g.nodes.push ⟨v, parent, [], [], []⟩ }

/-- The node of a base name, which is made if need be. -/
def internRoot (g : Graph) (base : String) : Graph × Nat :=
  match g.root? base with
  | some i => (g, i)
  | none =>
    ({ g.push (.root base) none with roots := g.roots ++ [(base, g.size)] }, g.size)

/-- The child of a node by a label, which is made if need be. -/
def internChild (g : Graph) (i : Nat) (v : TypeVar) (l : Label) : Graph × Nat :=
  match g.child? i l with
  | some j => (g, j)
  | none =>
    let j := g.size
    let g := g.push v (some (i, l))
    ({ g with nodes := g.nodes.modify i fun n => { n with children := n.children ++ [(l, j)] } },
      j)

/-- Follows a path from node `i` of variable `v`, making the nodes that are missing. -/
def internPath (g : Graph) (i : Nat) (v : TypeVar) : List Label → Graph × Nat
  | [] => (g, i)
  | l :: rest =>
    let w := v.extend l
    let (g, j) := g.internChild i w l
    internPath g j w rest

/-- The node of a variable; it and its shortenings are made if need be. -/
def intern (g : Graph) (v : TypeVar) : Graph × Nat :=
  let (g, r) := g.internRoot v.base
  g.internPath r (.root v.base) v.path

/-- Records `a ⊑ b` between two nodes; says whether that was new. -/
def relate (g : Graph) (a b : Nat) : Graph × Bool :=
  if a = b then (g, false)
  else if g.hasEdge a b then (g, false)
  else
    let nodes := g.nodes.modify a fun n => { n with supertypes := n.supertypes ++ [b] }
    let nodes := nodes.modify b fun n => { n with subtypes := n.subtypes ++ [a] }
    ({ g with nodes := nodes, edgeCount := g.edgeCount + 1 }, true)

def bindTarget (g : Graph) (t : Target) (i : Nat) : Graph :=
  { g with bindings := g.bindings ++ [(t, i)] }

end Graph

end TypeRecovery
