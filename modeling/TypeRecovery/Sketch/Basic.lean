/-
  TypeRecovery.Sketch.Basic — the shapes of recovered types.

  A sketch names other sketches by number, so a type that contains itself stays finite: a
  pointer to a sketch, a struct of fields, a function with parameters and returns, or a
  primitive of some width about which nothing more is known.
-/

import TypeRecovery.Json.Writer

namespace TypeRecovery

structure StructField where
  offset : Int
  bits : Int
  sketch : Int
  deriving DecidableEq, Repr

inductive Sketch where
  | pointer (pointee : Int)
  | struct (fields : List StructField)
  | function (params returns : List Int)
  | primitive (width : Amount)
  deriving DecidableEq, Repr

namespace Sketch

def kindName : Sketch → String
  | .pointer _ => "pointer"
  | .struct _ => "struct"
  | .function .. => "function"
  | .primitive _ => "primitive"

/-- The sketches a sketch names, in order. -/
def references : Sketch → List Int
  | .pointer pointee => [pointee]
  | .struct fields => fields.map (·.sketch)
  | .function params returns => params ++ returns
  | .primitive _ => []

def numbers (ns : List Int) : Json := .list (ns.map .whole)

def fieldJson (f : StructField) : Json :=
  .object [("byteOffset", .whole f.offset), ("bitSize", .whole f.bits),
    ("sketch", .whole f.sketch)]

def toJson (s : Sketch) : Json :=
  .object (("kind", .text s.kindName) :: match s with
    | .pointer pointee => [("to", .whole pointee)]
    | .struct fields => [("fields", .list (fields.map fieldJson))]
    | .function params returns => [("params", numbers params), ("returns", numbers returns)]
    | .primitive width => [("bitWidth", width.toJson)])

/-- A width in whole bytes is named by the bytes, another by the bits. -/
def primitiveName (width : Amount) : String :=
  match width.eighths? with
  | some bytes => "undefined" ++ bytes.text
  | none => "bits" ++ width.text

/-- The value of the last field at every offset, offsets in the order of their first field. -/
def lastAt {α : Type} (value : StructField → α) (fields : List StructField) : Entries Int α :=
  Entries.setAll [] (fields.map fun f => (f.offset, value f))

end Sketch

end TypeRecovery
