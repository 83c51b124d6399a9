/-
  TypeRecovery.Report — what is reported about constraints and sketches.

  A report has a kind, a severity, a message, the thing it is about and some evidence. A
  fault is a condition that stops an operation; kept instead of stopping, it becomes a
  report of severity error, to which more evidence can be added.
-/

import TypeRecovery.TypeVar
import TypeRecovery.Json.Display
import TypeRecovery.Json.Writer

namespace TypeRecovery

inductive Severity where
  | error
  | warning
  | information
  deriving DecidableEq, Repr

namespace Severity

def all : List Severity := [.error, .warning, .information]

def name : Severity → String
  | .error => "error"
  | .warning => "warning"
  | .information => "information"

def ofName? (s : String) : Option Severity := all.find? fun v => v.name = s

end Severity

inductive ReportKind where
  | malformedLabel
  | pathTooLong
  | pathTruncated
  | budgetExceeded
  | conflictingWidth
  | overlappingField
  | mixedShape
  | conflictingBinding
  | wireFormat
  deriving DecidableEq, Repr

namespace ReportKind

def all : List ReportKind :=
  [.malformedLabel, .pathTooLong, .pathTruncated, .budgetExceeded, .conflictingWidth,
   .overlappingField, .mixedShape, .conflictingBinding, .wireFormat]

def name : ReportKind → String
  | .malformedLabel => "malformedLabel"
  | .pathTooLong => "pathTooLong"
  | .pathTruncated => "pathTruncated"
  | .budgetExceeded => "saturationBudgetExceeded"
  | .conflictingWidth => "conflictingFieldWidth"
  | .overlappingField => "overlappingField"
  | .mixedShape => "mixedShape"
  | .conflictingBinding => "conflictingBinding"
  | .wireFormat => "wireFormat"

def ofName? (s : String) : Option ReportKind := all.find? fun k => k.name = s

end ReportKind

/-- What a report is about, or mentions as evidence. -/
inductive Subject where
  | variable (v : TypeVar)
  | label (l : Label)
  | target (t : Target)
  | plain (j : Json)
  | list (items : List Subject)

/-! ## Things spelled out

Inside a list a label, a variable and a target show what they are made of. -/

def Label.spelledOut : Label → String
  | .load => "PointerLabel(direction=<Pointer.LOAD: 0>)"
  | .store => "PointerLabel(direction=<Pointer.STORE: 1>)"
  | .input i => "InParam(index=" ++ toString i ++ ")"
  | .output i => "OutParam(index=" ++ toString i ++ ")"
  | .field f =>
    "FieldLabel(bit_size=" ++ toString f.bits ++ ", byte_offset=" ++ toString f.offset ++ ")"

/-- A single item is followed by a comma. -/
def sequenceText : List String → String
  | [item] => "(" ++ item ++ ",)"
  | items => "(" ++ Json.commaSeparated items ++ ")"

def TypeVar.spelledOut (v : TypeVar) : String :=
  "DerivedTypeVariable(base=VariableId(name=" ++ Text.quoted v.base ++ "), path=" ++
    sequenceText (v.path.map Label.spelledOut) ++ ")"

def Target.spelledOut : Target → String
  | .number n => "Tid(value=" ++ toString n ++ ")"
  | .name s => "Tid(value=" ++ Text.quoted s ++ ")"

namespace Subject

def ofText (s : String) : Subject := .plain (.text s)

def ofInt (n : Int) : Subject := .plain (.whole n)

def ofAmount (a : Amount) : Subject := .plain a.toJson

/-- Null stands for no subject. -/
def given? : Subject → Option Subject
  | .plain .null => none
  | s => some s

mutual

/-- The form inside a list: strings are quoted, things are spelled out. -/
def inner : Subject → String
  | .variable v => v.spelledOut
  | .label l => l.spelledOut
  | .target t => t.spelledOut
  | .plain j => j.display
  | .list items => "[" ++ Json.commaSeparated (innerItems items) ++ "]"

def innerItems : List Subject → List String
  | [] => []
  | s :: rest => inner s :: innerItems rest

end

def text : Subject → String
  | .variable v => v.text
  | .label l => l.text
  | .target t => t.text
  | .plain j => j.shown
  | .list items => inner (.list items)

mutual

/-- The JSON form: plain values stay, named things and objects become their text. -/
def toJson : Subject → Json
  | .plain j => plainJson j
  | .list items => .list (itemsJson items)
  | .variable v => .text v.text
  | .label l => .text l.text
  | .target t => .text t.text

def itemsJson : List Subject → List Json
  | [] => []
  | s :: rest => toJson s :: itemsJson rest

def plainJson : Json → Json
  | .object members => .text (Json.display (.object members))
  | .list items => .list (plainItems items)
  | j => j

def plainItems : List Json → List Json
  | [] => []
  | j :: rest => plainJson j :: plainItems rest

end

mutual

def same : Subject → Subject → Bool
  | .variable v, .variable w => v = w
  | .label l, .label m => l = m
  | .target t, .target u => t = u
  | .plain j, .plain k => j.same k
  | .list a, .list b => sameItems a b
  | .list a, .plain (.list b) => samePlain a b
  | .plain (.list b), .list a => samePlain a b
  | _, _ => false

def sameItems : List Subject → List Subject → Bool
  | [], [] => true
  | a :: as, b :: bs => same a b && sameItems as bs
  | _, _ => false

def samePlain : List Subject → List Json → Bool
  | [], [] => true
  | .plain a :: as, b :: bs => a.same b && samePlain as bs
  | .list a :: as, .list b :: bs => samePlain a b && samePlain as bs
  | _, _ => false

end

end Subject

abbrev Evidence := Entries String Subject

structure Report where
  kind : ReportKind
  message : String
  severity : Severity
  subject : Option Subject
  evidence : Evidence

namespace Report

def toJson (r : Report) : Json :=
  .object [("kind", .text r.kind.name), ("severity", .text r.severity.name),
    ("subject", match r.subject with
      | some s => .text s.text
      | none => .null),
    ("message", .text r.message),
    ("evidence", .object (r.evidence.map fun m => (m.1, m.2.toJson)))]

def jsonText (r : Report) : String := r.toJson.write .asciiLine

def text (r : Report) : String :=
  (match r.subject with
    | some s => s.text ++ ": "
    | none => "") ++
    r.severity.name ++ ": " ++ r.message ++ " [" ++ r.kind.name ++ "]"

/-- Sameness of two reports, whatever their evidence. -/
def same (r s : Report) : Bool :=
  r.kind = s.kind && r.message = s.message && r.severity = s.severity &&
    match r.subject, s.subject with
    | some a, some b => a.same b
    | none, none => true
    | _, _ => false

end Report

structure Fault where
  kind : ReportKind
  message : String
  subject : Option Subject
  evidence : Evidence

namespace Fault

/-- A fault of no particular kind counts as one of labels. -/
def general (message : String) (subject : Option Subject) (evidence : Evidence) : Fault :=
  ⟨.malformedLabel, message, subject, evidence⟩

/-- The subject is the label itself unless another is given. -/
def malformedLabel (label reason : Subject) (subject : Option Subject) : Fault :=
  ⟨.malformedLabel, "malformed label " ++ label.text ++ ": " ++ reason.text,
    subject.or label.given?, [("label", .ofText label.text), ("reason", reason)]⟩

def pathTooLong (subject : Option Subject) (length limit : Subject) : Fault :=
  ⟨.pathTooLong, "path of length " ++ length.text ++ " exceeds the limit of " ++ limit.text,
    subject, [("length", length), ("limit", limit)]⟩

def budgetExceeded (reason steps pending : Subject) : Fault :=
  ⟨.budgetExceeded,
    "saturation aborted after " ++ steps.text ++ " steps (" ++ pending.text ++
      " edges pending): " ++ reason.text,
    none, [("steps", steps), ("pending", pending), ("reason", reason)]⟩

def wireFormat (message : String) (path : Option Subject) : Fault :=
  ⟨.wireFormat, message, path, [("path", path.getD (.plain .null))]⟩

def text (f : Fault) : String :=
  (match f.subject with
    | some s => s.text ++ ": "
    | none => "") ++ f.message ++ " [" ++ f.kind.name ++ "]"

def report (f : Fault) (extra : Evidence) : Report :=
  ⟨f.kind, f.message, .error, f.subject, Entries.setAll f.evidence extra⟩

end Fault

end TypeRecovery
