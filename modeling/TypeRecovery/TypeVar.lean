/-
  TypeRecovery.TypeVar — type variables and the targets they are bound to.

  A type variable names a use of a program entity: a base name and the labels that lead
  from it, read left to right. A target is the front end's own name for an artifact of the
  program, a number or a string; the two never coincide, whatever their text.
-/

import TypeRecovery.Label

namespace TypeRecovery

structure TypeVar where
  base : String
  path : List Label
  deriving DecidableEq, Repr

namespace TypeVar

def root (base : String) : TypeVar := ⟨base, []⟩

def isRoot (v : TypeVar) : Bool := v.path.isEmpty

def lastLabel? (v : TypeVar) : Option Label := v.path.getLast?

/-- The variable one label shorter. -/
def parent? (v : TypeVar) : Option TypeVar :=
  if v.path.isEmpty then none else some ⟨v.base, v.path.dropLast⟩

/-- The variable with its first `n` labels. -/
def take (n : Nat) (v : TypeVar) : TypeVar := ⟨v.base, v.path.take n⟩

/-- Cuts the path to `n` labels; a negative count drops labels from the end. -/
def cut (n : Int) (v : TypeVar) : TypeVar :=
  v.take (if n < 0 then (v.path.length + n).toNat else n.toNat)

/-- Every proper shortening, the root first. -/
def shortenings (v : TypeVar) : List TypeVar := (List.range v.path.length).map fun n => v.take n

def extend (v : TypeVar) (l : Label) : TypeVar := ⟨v.base, v.path ++ [l]⟩

/-- `v` is a proper shortening of `w`. -/
def isShorteningOf (v w : TypeVar) : Bool :=
  v.base = w.base && v.path.length < w.path.length && w.path.take v.path.length = v.path

def pathVariance (path : List Label) : Variance :=
  path.foldl (fun v l => v.compose l.variance) .covariant

def variance (v : TypeVar) : Variance := pathVariance v.path

/-- The base name, then the keys of the labels in order. -/
def sortKey (v : TypeVar) : String × List SortKey := (v.base, v.path.map Label.sortKey)

/-- Keys by their names, then label by label, the shorter of two first if the longer continues it. -/
def compareKeys (a b : String × List SortKey) : Ordering :=
  (Ord.compare a.1 b.1).then (List.compareLex SortKey.compare a.2 b.2)

def compare (v w : TypeVar) : Ordering := compareKeys v.sortKey w.sortKey

def atMost (v w : TypeVar) : Bool := (v.compare w).isLE

def text (v : TypeVar) : String := ".".intercalate (v.base :: v.path.map Label.text)

end TypeVar

inductive Target where
  | number (n : Int)
  | name (s : String)
  deriving DecidableEq, Repr

namespace Target

def text : Target → String
  | .number n => toString n
  | .name s => s

def rank : Target → Nat
  | .number _ => 0
  | .name _ => 1

/-- Numbers before names, and each by its text. -/
def sortKey (t : Target) : Nat × String := (t.rank, t.text)

def compareKeys (a b : Nat × String) : Ordering :=
  (Ord.compare a.1 b.1).then (Ord.compare a.2 b.2)

def compare (a b : Target) : Ordering := compareKeys a.sortKey b.sortKey

def atMost (a b : Target) : Bool := (a.compare b).isLE

end Target

end TypeRecovery
