/-
  TypeRecovery.ConstraintSet — what a front end knows about the types of a program.

  A subtyping says that one variable may be used wherever another is expected. A binding
  records a subtyping as the defining fact of a target. A constraint set keeps both kinds in
  the order of first insertion, each once.
-/

import TypeRecovery.TypeVar

namespace TypeRecovery

/-- `sub ⊑ sup`. -/
structure Subtyping where
  sub : TypeVar
  sup : TypeVar
  deriving DecidableEq, Repr

namespace Subtyping

def text (s : Subtyping) : String := s.sub.text ++ " ⊑ " ++ s.sup.text

end Subtyping

structure Binding where
  target : Target
  fact : Subtyping
  deriving DecidableEq, Repr

namespace Binding

def text (b : Binding) : String := "[" ++ b.target.text ++ "] " ++ b.fact.text

end Binding

/-- Puts an element at the end unless it is there already. -/
def appendNew {α : Type} [DecidableEq α] (xs : List α) (x : α) : List α :=
  if x ∈ xs then xs else xs ++ [x]

/-- The first occurrences of a list, in order. -/
def firstOccurrences {α : Type} [DecidableEq α] (xs : List α) : List α := xs.foldl appendNew []

structure ConstraintSet where
  subtypings : List Subtyping
  bindings : List Binding
  deriving DecidableEq, Repr

namespace ConstraintSet

def empty : ConstraintSet := ⟨[], []⟩

def insert (s : ConstraintSet) (c : Subtyping) : ConstraintSet :=
  { s with subtypings := appendNew s.subtypings c }

def bind (s : ConstraintSet) (b : Binding) : ConstraintSet :=
  { s with bindings := appendNew s.bindings b }

def contains (s : ConstraintSet) (c : Subtyping) : Bool := s.subtypings.contains c

def containsBinding (s : ConstraintSet) (b : Binding) : Bool := s.bindings.contains b

def merge (s t : ConstraintSet) : ConstraintSet :=
  t.bindings.foldl bind (t.subtypings.foldl insert s)

def ofLists (subtypings : List Subtyping) (bindings : List Binding) : ConstraintSet :=
  bindings.foldl bind (subtypings.foldl insert empty)

/-- Every subtyping, those carried by bindings last. -/
def facts (s : ConstraintSet) : List Subtyping := s.subtypings ++ s.bindings.map (·.fact)

def typeVars (s : ConstraintSet) : List TypeVar :=
  firstOccurrences (s.facts.flatMap fun c => [c.sub, c.sup])

def bases (s : ConstraintSet) : List String := firstOccurrences (s.typeVars.map (·.base))

/-- The targets in the order of their first binding. -/
def targets (s : ConstraintSet) : List Target := firstOccurrences (s.bindings.map (·.target))

def size (s : ConstraintSet) : Nat := s.subtypings.length + s.bindings.length

def isEmpty (s : ConstraintSet) : Bool := s.subtypings.isEmpty && s.bindings.isEmpty

def sameElements {α : Type} [DecidableEq α] (xs ys : List α) : Bool :=
  xs.all (ys.contains ·) && ys.all (xs.contains ·)

/-- The same elements, in whatever order. -/
def same (s t : ConstraintSet) : Bool :=
  sameElements s.subtypings t.subtypings && sameElements s.bindings t.bindings

def pretty (s : ConstraintSet) : String :=
  "\n".intercalate (s.subtypings.map Subtyping.text ++ s.bindings.map Binding.text)

def counts (s : ConstraintSet) : String :=
  "(subtyping=" ++ toString s.subtypings.length ++
    ", additional=" ++ toString s.bindings.length ++ ")"

def describe (s : ConstraintSet) : String := "ConstraintSet" ++ s.counts

/-- How a snapshot of the set, which no longer grows, describes itself. -/
def describeSnapshot (s : ConstraintSet) : String := "FrozenConstraintSet" ++ s.counts

end ConstraintSet

end TypeRecovery
