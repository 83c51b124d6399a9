/-
  TypeRecovery.Sketch.Table — the sketches of one solve and where targets enter them.

  A table is handed over as a JSON document or as C-like text. Text is finite although
  sketches may contain themselves: a sketch inside itself, or too deep, appears as its
  number, while a primitive always appears by name. An operation on a sketch or target that
  the table does not hold gives nothing.
-/

import TypeRecovery.Document
import TypeRecovery.Entries
import TypeRecovery.Report
import TypeRecovery.Sketch.Basic

namespace TypeRecovery

structure TargetSketch where
  target : Target
  classId : Int
  sketch : Int
  reports : List Report

structure SketchTable where
  sketches : Entries Int Sketch
  targets : Entries Target TargetSketch
  reports : Entries Int (List Report)

namespace SketchTable

def empty : SketchTable := ⟨[], [], []⟩

def size (t : SketchTable) : Nat := t.sketches.length

def sketch? (t : SketchTable) (id : Int) : Option Sketch := Entries.lookup? t.sketches id

def target? (t : SketchTable) (target : Target) : Option TargetSketch :=
  Entries.lookup? t.targets target

def sketchOf? (t : SketchTable) (target : Target) : Option Sketch :=
  (t.target? target).bind fun s => t.sketch? s.sketch

def reportsOf (t : SketchTable) (id : Int) : List Report :=
  (Entries.lookup? t.reports id).getD []

/-! ## Reachability -/

/-- Puts the references that have not been seen at the end of the queue. -/
def enqueue (seen queue : List Int) (references : List Int) : List Int × List Int :=
  references.foldl
    (fun (seen, queue) id => if seen.contains id then (seen, queue) else (seen ++ [id], queue ++ [id]))
    (seen, queue)

/-- Breadth first; the budget is at least the number of sketches that can still be met. -/
def walk (t : SketchTable) : Nat → List Int → List Int → Option (List Int)
  | _, _, [] => some []
  | 0, _, _ :: _ => none
  | budget + 1, seen, id :: queue => do
    let sketch ← t.sketch? id
    let (seen, queue) := enqueue seen queue sketch.references
    let rest ← t.walk budget seen queue
    return id :: rest

/-- The sketches that can be reached from one, itself first, nearer ones before farther ones.
Nothing if a reference leads out of the table. -/
def reachable? (t : SketchTable) (root : Int) : Option (List Int) :=
  t.walk (t.size + 1) [root] [root]

/-- Reports by ascending sketch. -/
def allReports (t : SketchTable) : List Report :=
  (t.reports.mergeSort fun a b => a.1 ≤ b.1).flatMap (·.2)

/-! ## Text -/

def fieldText (f : StructField) (inner : String) : String :=
  inner ++ " @" ++ toString f.offset ++ ":" ++ toString f.bits

def structText (id : Int) (fields : List String) : String :=
  "struct#" ++ toString id ++ " \x7b " ++ "; ".intercalate fields ++ " \x7d"

def returnText : List String → String
  | [] => "void"
  | [r] => r
  | rs => "(" ++ ", ".intercalate rs ++ ")"

def functionText (params returns : List String) : String :=
  returnText returns ++ " (*)(" ++ ", ".intercalate params ++ ")"

/-- The text of a sketch inside those of `active`. -/
def renderIn (t : SketchTable) : Nat → List Int → Int → Option String
  | depth, active, id =>
    match t.sketch? id with
    | none => none
    | some (.primitive width) => some (Sketch.primitiveName width)
    | some sketch =>
      match depth with
      | 0 => some ("#" ++ toString id)
      | inner + 1 =>
        if active.contains id then some ("#" ++ toString id)
        else
          let active := id :: active
          match sketch with
          | .pointer pointee => (t.renderIn inner active pointee).map (· ++ "*")
          | .struct fields =>
            (fields.mapM fun f => (t.renderIn inner active f.sketch).map (fieldText f)).map
              (structText id)
          | .function params returns => do
            let params ← params.mapM (t.renderIn inner active)
            let returns ← returns.mapM (t.renderIn inner active)
            return functionText params returns
          | .primitive width => some (Sketch.primitiveName width)

/-- The text of a sketch, with so many levels of sketches written out. -/
def render? (t : SketchTable) (id : Int) (depth : Nat) : Option String := t.renderIn depth [] id

/-! ## Document -/

def targetJson (s : TargetSketch) : Json :=
  .object [("targetVariable", Document.ofTarget s.target),
    ("class", .whole s.classId), ("sketch", .whole s.sketch),
    ("diagnostics", .list (s.reports.map Report.toJson))]

/-- Targets in their order. -/
def sortedTargets (t : SketchTable) : List TargetSketch :=
  (t.targets.map (·.2)).mergeSort fun a b => a.target.atMost b.target

def sortedSketches (t : SketchTable) : Entries Int Sketch :=
  t.sketches.mergeSort fun a b => a.1 ≤ b.1

def toJson (t : SketchTable) : Json :=
  .object [("sketches", .object (t.sortedSketches.map fun e => (toString e.1, e.2.toJson))),
    ("targets", .list (t.sortedTargets.map targetJson))]

def describe (t : SketchTable) : String :=
  "SketchTable(sketches=" ++ toString t.sketches.length ++ ", targets=" ++
    toString t.targets.length ++ ")"

end SketchTable

end TypeRecovery
