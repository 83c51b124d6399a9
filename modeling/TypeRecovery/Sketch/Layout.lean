/-
  TypeRecovery.Sketch.Layout — fields placed into a struct.

  Fields are taken in the order of their offsets. Of several at one offset the widest is
  taken, and the widths are reported as a conflict. A field that begins before the end of
  the last placed one is dropped, and reported as an overlap; any other is placed.
-/

import TypeRecovery.Label
import TypeRecovery.Sketch.Basic

namespace TypeRecovery

/-- A field with the sketch of what it holds. -/
abbrev FieldUse := Field × Int

inductive LayoutConflict where
  | widths (offset : Int) (widths : List Int) (kept : Int)
  | overlap (field : Field) (until_ : Int)
  deriving DecidableEq, Repr

structure Layout where
  placed : List StructField
  /-- The end of the last placed field. -/
  endOffset : Int
  conflicts : List LayoutConflict
  deriving DecidableEq, Repr

namespace Layout

def empty : Layout := ⟨[], 0, []⟩

/-- By offset, the wider first. -/
def before (a b : FieldUse) : Bool :=
  a.1.offset < b.1.offset || (a.1.offset = b.1.offset && b.1.bits ≤ a.1.bits)

def sameOffset (a b : FieldUse) : Bool := a.1.offset = b.1.offset

/-- The fields of each offset, the widest first, by ascending offset. -/
def groups (fields : List FieldUse) : List (List FieldUse) :=
  (fields.mergeSort before).splitBy sameOffset

def intAtMost (a b : Int) : Bool := a ≤ b

def widthConflict (f : Field) (group : List FieldUse) : List LayoutConflict :=
  if group.length > 1 then
    [.widths f.offset ((group.map (·.1.bits)).mergeSort intAtMost) f.bits]
  else []

/-- Places the first field of a group, or drops it. -/
def addGroup (l : Layout) : List FieldUse → Layout
  | [] => l
  | (f, sketch) :: rest =>
    let conflicts := l.conflicts ++ widthConflict f ((f, sketch) :: rest)
    if !l.placed.isEmpty && f.offset < l.endOffset then
      { l with conflicts := conflicts ++ [.overlap f l.endOffset] }
    else
      { placed := l.placed ++ [⟨f.offset, f.bits, sketch⟩]
        endOffset := f.endOffset
        conflicts := conflicts }

def ofFields (fields : List FieldUse) : Layout := (groups fields).foldl addGroup empty

end Layout

end TypeRecovery
