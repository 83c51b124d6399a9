/-
  TypeRecovery.Sketch.Shape — the sketch of every class.

  A class that is called is a function, one that is loaded or stored through a pointer, one
  whose fields are accessed a struct, in this order; any other is a primitive. A class that
  is used in more than one of these ways is reported, as is a pointer whose loads and
  stores lead to different classes; the load counts. The width of a primitive is that of
  the narrowest field through which it is reached, or the width of a pointer.

  The sketch of a class has the class's number. A function slot that no label names is
  filled with one further primitive of pointer width, numbered after the last class.
-/

import TypeRecovery.Partition
import TypeRecovery.Settings
import TypeRecovery.Sketch.Layout
import TypeRecovery.Sketch.Table

namespace TypeRecovery

/-- The ways a class is used, each with the classes it leads to. -/
structure Uses where
  inputs : Entries Nat Nat
  outputs : Entries Nat Nat
  load : Option Nat
  store : Option Nat
  fields : List FieldUse
  deriving DecidableEq, Repr

namespace Uses

def empty : Uses := ⟨[], [], none, none, []⟩

def add (u : Uses) (l : Label) (d : Nat) : Uses :=
  match l with
  | .input i => { u with inputs := u.inputs ++ [(i, d)] }
  | .output i => { u with outputs := u.outputs ++ [(i, d)] }
  | .load => { u with load := some d }
  | .store => { u with store := some d }
  | .field f => { u with fields := u.fields ++ [(f, (d : Int))] }

def ofClass (c : TypeClass) : Uses :=
  c.labels.foldl
    (fun u l => match c.target? l with
      | some d => u.add l d
      | none => u) empty

def isCalled (u : Uses) : Bool := !u.inputs.isEmpty || !u.outputs.isEmpty

/-- What a pointer points to: the load counts before the store. -/
def pointee? (u : Uses) : Option Nat := u.load.or u.store

def families (u : Uses) : List String :=
  (if u.isCalled then ["function"] else []) ++
    (if u.pointee?.isSome then ["pointer"] else []) ++
    (if u.fields.isEmpty then [] else ["struct"])

end Uses

namespace TypeClass

/-- A report about a class names its first variable. -/
def report (c : TypeClass) (kind : ReportKind) (message : String) (severity : Severity)
    (evidence : Evidence) : Report where
  kind := kind
  message := message
  severity := severity
  subject := (c.typeVars.head?).map .variable
  evidence := Entries.set evidence "class" (.ofInt c.id)

def familyNames (names : List String) : Subject := .plain (.list (names.map .text))

def mixedReports (c : TypeClass) (u : Uses) : List Report :=
  match u.families with
  | first :: second :: rest =>
    [c.report .mixedShape
      ("used as " ++ " and ".intercalate (first :: second :: rest) ++ "; shaped as " ++ first)
      .information [("families", familyNames (first :: second :: rest))]]
  | _ => []

def pointeeReports (c : TypeClass) (u : Uses) : List Report :=
  match u.load, u.store with
  | some loaded, some stored =>
    if loaded = stored then []
    else
      [c.report .mixedShape
        "loaded and stored through with different pointees; shaped by load" .information
        [("families", familyNames ["pointer"]), ("kept", .ofInt loaded),
          ("dropped", .ofInt stored)]]
  | _, _ => []

def widthList (ws : List Int) : Json := .list (ws.map .whole)

def conflictReport (c : TypeClass) : LayoutConflict → Report
  | .widths offset ws kept =>
    c.report .conflictingWidth
      ("fields of " ++ (widthList ws).display ++ " bits at byte offset " ++ toString offset ++
        "; keeping " ++ toString kept ++ " bits")
      .warning
      [("byte_offset", .ofInt offset), ("widths", .plain (widthList ws)), ("kept", .ofInt kept)]
  | .overlap f until_ =>
    c.report .overlappingField
      ("field " ++ (Label.field f).text ++ " overlaps the field ending at byte " ++
        toString until_ ++ "; dropped")
      .warning
      [("field", .ofText (Label.field f).text), ("overlaps_until", .ofInt until_)]

def incomingWidths (c : TypeClass) : List Int :=
  c.incoming.filterMap fun
    | .field f => some f.bits
    | _ => none

/-- The width of a class about which nothing more is known. -/
def leafWidth (c : TypeClass) (s : Settings) : Amount :=
  match c.incomingWidths.min? with
  | some w => .whole w
  | none => s.pointerWidth

end TypeClass

/-- The sketch of a class and the reports about it. -/
structure Shape where
  sketch : Sketch
  reports : List Report

namespace Shape

/-- The slots up to the largest index, those without an entry filled with `filler`. -/
def slots (filler : Nat) (entries : Entries Nat Nat) : List Int :=
  match (entries.map (·.1)).max? with
  | none => []
  | some last => (List.range (last + 1)).map fun i => ((Entries.lookup? entries i).getD filler : Nat)

/-- Some index below the largest has no entry. -/
def hasGap (entries : Entries Nat Nat) : Bool :=
  match (entries.map (·.1)).max? with
  | none => false
  | some last => (List.range (last + 1)).any fun i => !Entries.has entries i

/-- The shape of a class; `filler` is the sketch for missing slots. -/
def ofClass (s : Settings) (filler : Nat) (c : TypeClass) : Shape :=
  let u := Uses.ofClass c
  let mixed := c.mixedReports u ++ c.pointeeReports u
  if u.isCalled then ⟨.function (slots filler u.inputs) (slots filler u.outputs), mixed⟩
  else match u.pointee? with
    | some pointee => ⟨.pointer pointee, mixed⟩
    | none =>
      if u.fields.isEmpty then ⟨.primitive (c.leafWidth s), mixed⟩
      else
        let layout := Layout.ofFields u.fields
        ⟨.struct layout.placed, mixed ++ layout.conflicts.map c.conflictReport⟩

def needsFiller (c : TypeClass) : Bool :=
  let u := Uses.ofClass c
  hasGap u.inputs || hasGap u.outputs

end Shape

namespace SketchTable

def classSketches (s : Settings) (p : Partition) : Entries Int Shape :=
  p.classes.toList.map fun c => (c.id, Shape.ofClass s p.classes.size c)

/-- The filler for missing slots, when there are any. -/
def fillers (s : Settings) (p : Partition) : Entries Int Sketch :=
  if p.classes.toList.any Shape.needsFiller then
    [(p.classes.size, .primitive s.pointerWidth)]
  else []

/-- Enters a target with the reports on all sketches it can reach. -/
def enterTarget (t : SketchTable) (target : Target) (id : Int) : SketchTable :=
  let reports := ((t.reachable? id).getD []).flatMap t.reportsOf
  { t with targets := Entries.set t.targets target ⟨target, id, id, reports⟩ }

/-- The table of a partition. -/
def ofPartition (s : Settings) (p : Partition) : SketchTable :=
  let shapes := classSketches s p
  let table : SketchTable :=
    { sketches := shapes.map (fun e => (e.1, e.2.sketch)) ++ fillers s p
      targets := []
      reports := (shapes.map fun e => (e.1, e.2.reports)).filter fun e => !e.2.isEmpty }
  p.targets.foldl (fun t e => t.enterTarget e.1 e.2) table

def summary (t : SketchTable) : Event :=
  ⟨.info, .sketches, "Built " ++ toString t.sketches.length ++ " sketches for " ++
    toString t.targets.length ++ " targets (" ++
    toString (t.reports.foldl (fun n e => n + e.2.length) 0) ++ " diagnostics)"⟩

end SketchTable

end TypeRecovery
