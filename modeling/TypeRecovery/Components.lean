/-
  TypeRecovery.Components — the strongly connected components of a directed graph.

  A depth-first walk keeps the nodes it has met but not yet placed as a stack of groups.
  The members of a group reach each other, and each group reaches the one above it. A node
  met for the first time opens a group of its own on top. An edge to a node that is still
  on the stack closes a cycle: the groups from the top down to that node's become one. When
  all edges of the node that opened the top group have been followed, the group is a
  component and leaves the stack. So a component comes after every component it reaches.
-/

namespace TypeRecovery

inductive Visit where
  | unseen
  /-- Met, and on the stack of groups. -/
  | held
  /-- In a component. -/
  | placed
  deriving DecidableEq, Repr

/-- A group of the stack: the node that opened it, and all its members, the one met last
first. -/
structure Group where
  opener : Nat
  members : List Nat
  deriving DecidableEq, Repr

structure Walk where
  visits : Array Visit
  groups : List Group
  /-- The nodes on the way from the root, each with the edges still to follow. -/
  path : List (Nat × List Nat)
  /-- Components found so far, the latest first. -/
  found : List (List Nat)
  deriving DecidableEq, Repr

namespace Walk

def start (n : Nat) : Walk := ⟨Array.replicate n .unseen, [], [], []⟩

def visit (w : Walk) (v : Nat) : Visit := (w.visits[v]?).getD .placed

/-- Meets a node for the first time. -/
def enter (w : Walk) (v : Nat) (successors : List Nat) : Walk :=
  match w with
  | ⟨visits, groups, path, found⟩ =>
    ⟨visits.setIfInBounds v .held, ⟨v, [v]⟩ :: groups, (v, successors) :: path, found⟩

/-- Joins the groups from the top down to the one that holds `v`. -/
def joinTo (v : Nat) (groups : List Group) : List Group :=
  let above := groups.takeWhile fun g => !g.members.contains v
  match groups.drop above.length with
  | g :: below => ⟨g.opener, (above ++ [g]).flatMap (·.members)⟩ :: below
  | [] => groups

/-- Leaves a node whose edges have all been followed. -/
def leave (w : Walk) (v : Nat) : Walk :=
  match w with
  | ⟨visits, g :: below, path, found⟩ =>
    if g.opener = v then
      ⟨g.members.foldl (fun visits u => visits.setIfInBounds u .placed) visits, below, path,
        g.members :: found⟩
    else w
  | ⟨_, [], _, _⟩ => w

def step (successors : Nat → List Nat) (w : Walk) : Walk :=
  match w.path with
  | [] => w
  | (v, []) :: path => { w with path := path }.leave v
  | (v, u :: rest) :: path =>
    let w := { w with path := (v, rest) :: path }
    match w.visit u with
    | .unseen => w.enter u (successors u)
    | .held => { w with groups := joinTo u w.groups }
    | .placed => w

/-- Steps until the way is empty; the budget covers every node and edge. -/
def run (successors : Nat → List Nat) : Nat → Walk → Walk
  | 0, w => w
  | budget + 1, w => if w.path.isEmpty then w else run successors budget (w.step successors)

/-- Walks from a root that has not been met before. -/
def walkFrom (successors : Nat → List Nat) (budget : Nat) (w : Walk) (root : Nat) : Walk :=
  match w.visit root with
  | .unseen => (w.enter root (successors root)).run successors budget
  | _ => w

end Walk

/-- The steps a walk can take: each node is entered and left once, each edge followed once. -/
def walkBudget (n : Nat) (successors : Nat → List Nat) : Nat :=
  (List.range n).foldl (fun b v => b + (successors v).length + 1) 1

/-- The components of the nodes below `n`, each listed with the node met last first. -/
def components (n : Nat) (successors : Nat → List Nat) : List (List Nat) :=
  let budget := walkBudget n successors
  let last := (List.range n).foldl (Walk.walkFrom successors budget) (Walk.start n)
  last.found.reverse

end TypeRecovery
