/-
  TypeRecovery.Label — the steps by which a type is reached from another.

  A pointer is loaded or stored through, a procedure takes inputs and gives outputs, and a
  region of memory has fields of so many bits at a byte offset. Storing is contravariant,
  every other step is covariant, and the variance of several steps is the parity of the
  contravariant ones.
-/

namespace TypeRecovery

inductive Variance where
  | covariant
  | contravariant
  deriving DecidableEq, Repr

namespace Variance

def compose (a b : Variance) : Variance := if a = b then .covariant else .contravariant

def flip : Variance → Variance
  | .covariant => .contravariant
  | .contravariant => .covariant

end Variance

/-- An access of `bits` bits at byte `offset`. Any integers can be written down; an access
that cannot exist is refused when its constraint is admitted. -/
structure Field where
  bits : Int
  offset : Int
  deriving DecidableEq, Repr

namespace Field

/-- Bytes touched, a part of a byte counting as one. -/
def byteSize (f : Field) : Int := (f.bits + 7) / 8

/-- The first byte past the access. -/
def endOffset (f : Field) : Int := f.offset + f.byteSize

def overlaps (f g : Field) : Bool := f.offset < g.endOffset && g.offset < f.endOffset

end Field

inductive Label where
  | load
  | store
  | input (index : Nat)
  | output (index : Nat)
  | field (access : Field)
  deriving DecidableEq, Repr

/-- Integer triples in lexicographic order. -/
abbrev SortKey := Int × Int × Int

def SortKey.compare (a b : SortKey) : Ordering :=
  (Ord.compare a.1 b.1).then ((Ord.compare a.2.1 b.2.1).then (Ord.compare a.2.2 b.2.2))

namespace Label

/-- Indices count from zero. -/
inductive NegativeIndex where
  | input (n : Int)
  | output (n : Int)
  deriving DecidableEq, Repr

def NegativeIndex.message : NegativeIndex → String
  | .input n => "parameter index must be non-negative, got " ++ toString n
  | .output n => "return index must be non-negative, got " ++ toString n

def inputAt (n : Int) : Except NegativeIndex Label :=
  if n < 0 then .error (.input n) else .ok (.input n.toNat)

def outputAt (n : Int) : Except NegativeIndex Label :=
  if n < 0 then .error (.output n) else .ok (.output n.toNat)

def variance : Label → Variance
  | .store => .contravariant
  | _ => .covariant

/-- Pointer steps first, then inputs, outputs, and fields by offset and size. -/
def sortKey : Label → SortKey
  | .load => (0, 0, 0)
  | .store => (0, 1, 0)
  | .input i => (1, i, 0)
  | .output i => (2, i, 0)
  | .field f => (3, f.offset, f.bits)

def compare (a b : Label) : Ordering := a.sortKey.compare b.sortKey

def atMost (a b : Label) : Bool := (a.compare b).isLE

def fieldText (letter : String) (f : Field) : String :=
  letter ++ toString f.bits ++ "@" ++ toString f.offset

/-- The written form, with the letter that marks a field. -/
def textWith (fieldLetter : String) : Label → String
  | .load => "load"
  | .store => "store"
  | .input i => "in_" ++ toString i
  | .output i => "out_" ++ toString i
  | .field f => fieldText fieldLetter f

def text (l : Label) : String := l.textWith "σ"

def asciiText (l : Label) : String := l.textWith "f"

end Label

end TypeRecovery
