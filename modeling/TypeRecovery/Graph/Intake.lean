/-
  TypeRecovery.Graph.Intake — constraints into the graph.

  A variable is admitted when every field on its path can exist under the settings and the
  path is not too long; where the settings say so, a path that is too long is cut instead,
  and the cut is reported. A constraint goes in when both its sides are admitted, the left
  one first. Otherwise it leaves no trace in the graph: it is kept among the rejected, with
  a report, and a binding that carried it is dropped with a second report on its target.

  A length limit that is not an integer can refuse a path but cannot cut one.
-/

import TypeRecovery.Graph.Basic
import TypeRecovery.Event
import TypeRecovery.Settings

namespace TypeRecovery

inductive FieldDefect where
  | notPositive
  | negativeOffset
  | tooWide (limit : Amount)
  | pastLimit (endOffset : Int) (limit : Amount)
  deriving DecidableEq, Repr

def FieldDefect.reason : FieldDefect → String
  | .notPositive => "bit_size must be positive"
  | .negativeOffset => "byte_offset must be non-negative"
  | .tooWide limit => "bit_size exceeds the maximum word size of " ++ limit.text ++ " bits"
  | .pastLimit endOffset limit =>
    "access ends at byte " ++ toString endOffset ++ ", past the limit of " ++ limit.text

namespace Field

/-- Why an access cannot exist, if it cannot. -/
def defect? (s : Settings) (f : Field) : Option FieldDefect :=
  if f.bits ≤ 0 then some .notPositive
  else if f.offset < 0 then some .negativeOffset
  else if s.maxFieldBits.less (.whole f.bits) then some (.tooWide s.maxFieldBits)
  else if s.maxFieldExtent.less (.whole f.endOffset) then
    some (.pastLimit f.endOffset s.maxFieldExtent)
  else none

def defectFault (f : Field) (d : FieldDefect) (subject : Option Subject) : Fault :=
  .malformedLabel (.label (.field f)) (.ofText d.reason) subject

end Field

/-- Why a variable is not admitted. -/
inductive Inadmissible where
  | badField (f : Field) (defect : FieldDefect) (v : TypeVar)
  | tooLong (v : TypeVar) (limit : Amount)
  deriving DecidableEq, Repr

def Inadmissible.fault : Inadmissible → Fault
  | .badField f d v => f.defectFault d (some (.variable v))
  | .tooLong v limit =>
    .pathTooLong (some (.variable v)) (.ofInt v.path.length) (.ofAmount limit)

inductive Admission where
  | whole
  | cutTo (n : Int)
  | refused (why : Inadmissible)
  /-- The path would have to be cut at a limit that is not an integer. -/
  | uncuttable
  deriving DecidableEq, Repr

namespace Settings

/-- The first defect of a field on a path. -/
def fieldDefect? (s : Settings) (path : List Label) : Option (Field × FieldDefect) :=
  path.findSome? fun
    | .field f => (f.defect? s).map fun d => (f, d)
    | _ => none

def admission (s : Settings) (v : TypeVar) : Admission :=
  match s.fieldDefect? v.path with
  | some (f, d) => .refused (.badField f d v)
  | none =>
    if (Amount.whole v.path.length).atMost s.maxPathLength then .whole
    else if s.pathPolicy.isReject then .refused (.tooLong v s.maxPathLength)
    else match s.maxPathLength.integer? with
      | some n => .cutTo n
      | none => .uncuttable

end Settings

/-- Why a step of the intake stops. -/
inductive Stop where
  | refused (why : Inadmissible)
  | uncuttable

structure Intake where
  graph : Graph
  rejected : List Subtyping
  reports : List Report
  events : List Event

namespace Intake

def empty : Intake := ⟨.empty, [], [], []⟩

def report (k : Intake) (r : Report) : Intake := { k with reports := k.reports ++ [r] }

def say (k : Intake) (level : Level) (message : String) : Intake :=
  { k with events := k.events ++ [⟨level, .graph, message⟩] }

def cutReport (v : TypeVar) (s : Settings) (w : TypeVar) : Report where
  kind := .pathTruncated
  message := "path of length " ++ toString v.path.length ++ " truncated to " ++
    s.maxPathLength.text ++ " labels"
  severity := .warning
  subject := some (.variable v)
  evidence := [("length", .ofInt v.path.length), ("limit", .ofAmount s.maxPathLength),
    ("truncated", .ofText w.text)]

/-- Admits a variable, noting a cut. -/
def accept (s : Settings) (k : Intake) (v : TypeVar) : Intake × Except Stop TypeVar :=
  match s.admission v with
  | .whole => (k, .ok v)
  | .cutTo n =>
    let w := v.cut n
    let k := k.say .warning ("Truncating " ++ v.text ++ " to " ++ toString n ++ " labels")
    (k.report (cutReport v s w), .ok w)
  | .refused why => (k, .error (.refused why))
  | .uncuttable => (k, .error .uncuttable)

def admitBoth (s : Settings) (k : Intake) (c : Subtyping) :
    Intake × Except Stop (TypeVar × TypeVar) :=
  match k.accept s c.sub with
  | (k, .error e) => (k, .error e)
  | (k, .ok v) =>
    match k.accept s c.sup with
    | (k, .error e) => (k, .error e)
    | (k, .ok w) => (k, .ok (v, w))

/-- Puts an admitted constraint into the graph. -/
def connect (k : Intake) (v w : TypeVar) : Intake × (Nat × Nat) :=
  let (g, a) := k.graph.intern v
  let (g, b) := g.intern w
  ({ k with graph := (g.relate a b).1 }, (a, b))

def reject (k : Intake) (c : Subtyping) (why : Inadmissible) : Intake :=
  let fault := why.fault
  let k := k.say .warning ("Rejecting constraint " ++ c.text ++ ": " ++ fault.text)
  { k with rejected := k.rejected ++ [c] }.report
    (fault.report [("constraint", .ofText c.text)])

/-- Takes in one constraint: the nodes of its sides, or nothing if it was rejected. A path
that cannot be cut ends the intake as it then stands. -/
def add (s : Settings) (k : Intake) (c : Subtyping) :
    Except Intake (Intake × Option (Nat × Nat)) :=
  match k.admitBoth s c with
  | (k, .ok (v, w)) => let (k, nodes) := k.connect v w; .ok (k, some nodes)
  | (k, .error (.refused why)) => .ok (k.reject c why, none)
  | (k, .error .uncuttable) => .error k

def dropReport (b : Binding) (why : Inadmissible) : Report where
  kind := why.fault.kind
  message := "binding dropped: " ++ why.fault.message
  severity := .error
  subject := some (.target b.target)
  evidence := [("constraint", .ofText b.fact.text)]

/-- Takes in one binding, whose target goes to the node of the left side. -/
def bind (s : Settings) (k : Intake) (b : Binding) : Except Intake Intake :=
  match k.admitBoth s b.fact with
  | (k, .ok (v, w)) =>
    let (k, nodes) := k.connect v w
    .ok { k with graph := k.graph.bindTarget b.target nodes.1 }
  | (k, .error (.refused why)) => .ok ((k.reject b.fact why).report (dropReport b why))
  | (k, .error .uncuttable) => .error k

def addAll (s : Settings) (k : Intake) (c : ConstraintSet) : Except Intake Intake := do
  let k ← c.subtypings.foldlM (fun k c => (k.add s c).map (·.1)) k
  c.bindings.foldlM (fun k b => k.bind s b) k

/-- Takes in a constraint set, subtypings before bindings. -/
def build (s : Settings) (c : ConstraintSet) : Except Intake Intake :=
  (empty.addAll s c).map fun k =>
    k.say .debug ("Built constraint graph: " ++ toString k.graph.size ++ " nodes, " ++
      toString k.graph.edgeCount ++ " edges, " ++ toString k.rejected.length ++ " rejected")

end Intake

end TypeRecovery
