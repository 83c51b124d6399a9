/-
  TypeRecovery.Document — constraint sets as JSON documents.

  A document names its members in camel case; a reader takes the names in snake case too,
  pointer directions by number, and integers written as strings or as binary64 numbers
  without a fraction. Names are not empty, and indices, sizes and offsets are unsigned
  integers of 32 bits. A document that does not fit is refused with the path of the first
  element that does not, in document order.
-/

import TypeRecovery.ConstraintSet
import TypeRecovery.Report
import TypeRecovery.Json.Reader
import TypeRecovery.Text.DecimalDigit

namespace TypeRecovery

namespace Document

inductive Mismatch where
  | notUnsigned (found : String)
  | outOfRange (n : Int)
  | notObject (kind : String)
  | notList (kind : String)
  /-- A label sets exactly one of its arms. -/
  | labelArms (present : List String)
  | unknownPointer (found : String)
  | emptyBase
  | missing (member : String)
  | targetWithoutId
  | targetId (found : String)
  | notJson (message : String) (line column : Nat)
  | notMessage
  | noMessage
  deriving DecidableEq, Repr

def Mismatch.message : Mismatch → String
  | .notUnsigned found => "expected an unsigned integer, got " ++ found
  | .outOfRange n => toString n ++ " is out of uint32 range"
  | .notObject kind => "expected an object, got " ++ kind
  | .notList kind => "expected a list, got " ++ kind
  | .labelArms present =>
    "FieldLabel must set exactly one of ptr/in_param/out_param/field, got " ++
      if present.isEmpty then "none" else (Json.list (present.map .text)).display
  | .unknownPointer found => "unknown Pointer value " ++ found
  | .emptyBase => "baseVar must be a non-empty string"
  | .missing member => "missing " ++ member
  | .targetWithoutId => "Tid needs an id"
  | .targetId found => "Tid id must be a string or integer, got " ++ found
  | .notJson message line column =>
    "invalid JSON: " ++ message ++ " (line " ++ toString line ++ ", column " ++
      toString column ++ ")"
  | .notMessage => "invalid protobuf message: ..."
  | .noMessage => "cannot encode as protobuf: ..."

structure Error where
  path : String
  mismatch : Mismatch
  deriving DecidableEq, Repr

def Error.fault (e : Error) : Fault :=
  .wireFormat e.mismatch.message (some (.ofText e.path))

abbrev Decoded (α : Type) := Except Error α

def fail {α : Type} (path : String) (mismatch : Mismatch) : Decoded α := .error ⟨path, mismatch⟩

/-- The path of the documents themselves. -/
def top : String := "$"

def memberPath (path member : String) : String := path ++ "." ++ member

def itemPath (path : String) (i : Nat) : String := path ++ "[" ++ toString i ++ "]"

/-! ## Writing -/

def pointerLoad : String := "POINTER_LOAD_UNSPECIFIED"

def pointerStore : String := "POINTER_STORE"

def ofLabel : Label → Json
  | .load => .object [("ptr", .text pointerLoad)]
  | .store => .object [("ptr", .text pointerStore)]
  | .input i => .object [("inParam", .whole i)]
  | .output i => .object [("outParam", .whole i)]
  | .field f =>
    .object [("field", .object [("bitSize", .whole f.bits), ("byteOffset", .whole f.offset)])]

def ofTypeVar (v : TypeVar) : Json :=
  .object [("baseVar", .text v.base), ("fieldLabels", .list (v.path.map ofLabel))]

def ofSubtyping (s : Subtyping) : Json :=
  .object [("lhs", ofTypeVar s.sub), ("rhs", ofTypeVar s.sup)]

def ofTargetId : Target → Json
  | .number n => .whole n
  | .name s => .text s

def ofTarget (t : Target) : Json := .object [("id", ofTargetId t)]

def ofBinding (b : Binding) : Json :=
  .object [("subTy", ofSubtyping b.fact), ("targetVariable", ofTarget b.target)]

def ofConstraintSet (s : ConstraintSet) : Json :=
  .object [("subtypingConstraints", .list (s.subtypings.map ofSubtyping)),
    ("additionalConstraints", .list (s.bindings.map ofBinding))]

/-! ## Reading -/

/-- A member under either of its names, the camel-case one first. -/
def spelled? (members : Json.Members) (camel snake : String) : Option Json :=
  match Entries.lookup? members camel with
  | some j => some j
  | none => Entries.lookup? members snake

def members (j : Json) (path : String) : Decoded (Json.Members) :=
  match j with
  | .object ms => .ok ms
  | _ => fail path (.notObject j.kindName)

/-- The items of a list; no list at all counts as an empty one. -/
def items (j : Option Json) (path : String) : Decoded (List Json) :=
  match j with
  | none => .ok []
  | some .null => .ok []
  | some (.list xs) => .ok xs
  | some j => fail path (.notList j.kindName)

/-- The integer a value stands for, if any. -/
def integer? : Json → Option Int
  | .whole n => some n
  | .text s => Text.integer? s
  | .real (.finite s m e) =>
    let (num, den) := Binary64.fraction s m e
    if num % den = 0 then some (num / den) else none
  | _ => none

def maxUnsigned : Nat := 0xffffffff

def unsigned (j : Json) (path : String) : Decoded Nat :=
  match j with
  | .bool _ => fail path (.notUnsigned "a boolean")
  | _ =>
    match integer? j with
    | none => fail path (.notUnsigned j.display)
    | some n =>
      if 0 ≤ n ∧ n ≤ maxUnsigned then .ok n.toNat else fail path (.outOfRange n)

def pointerNamed? (name : String) : Option Label :=
  if name = pointerLoad then some .load
  else if name = pointerStore then some .store
  else none

def pointer (j : Json) (path : String) : Decoded Label :=
  match j with
  | .text s =>
    match pointerNamed? s with
    | some l => .ok l
    | none => fail path (.unknownPointer (Text.quoted s))
  | _ => do
    let n ← unsigned j path
    match n with
    | 0 => return .load
    | 1 => return .store
    | _ => fail path (.unknownPointer (toString n))

def fieldOf (j : Json) (path : String) : Decoded Field := do
  let ms ← members j path
  let bits ← unsigned ((spelled? ms "bitSize" "bit_size").getD (.whole 0))
    (memberPath path "bitSize")
  let offset ← unsigned ((spelled? ms "byteOffset" "byte_offset").getD (.whole 0))
    (memberPath path "byteOffset")
  return ⟨bits, offset⟩

inductive Arm where
  | pointer
  | input
  | output
  | field
  deriving DecidableEq

/-- The arms of a label, each under its names. -/
def arms : List (String × Arm) :=
  [("ptr", .pointer), ("inParam", .input), ("in_param", .input), ("outParam", .output),
   ("out_param", .output), ("field", .field)]

def armOf (arm : Arm) (j : Json) (path : String) : Decoded Label :=
  match arm with
  | .pointer => pointer j path
  | .input => (unsigned j path).map .input
  | .output => (unsigned j path).map .output
  | .field => (fieldOf j path).map .field

def label (j : Json) (path : String) : Decoded Label := do
  let ms ← members j path
  match arms.filterMap fun (name, arm) => (Entries.lookup? ms name).map fun v => (name, arm, v) with
  | [(name, arm, v)] => armOf arm v (memberPath path name)
  | present => fail path (.labelArms (present.map (·.1)))

/-- Reads the items of a list in order, stopping at the first that does not fit. -/
def each {α : Type} (f : Json → String → Decoded α) (path : String) (xs : List Json) :
    Decoded (List α) :=
  xs.zipIdx.mapM fun (j, i) => f j (itemPath path i)

def baseName (j : Option Json) (path : String) : Decoded String :=
  match j with
  | some (.text s) => if s.isEmpty then fail path .emptyBase else .ok s
  | _ => fail path .emptyBase

def typeVar (j : Json) (path : String) : Decoded TypeVar := do
  let ms ← members j path
  let base ← baseName (spelled? ms "baseVar" "base_var") (memberPath path "baseVar")
  let labelsPath := memberPath path "fieldLabels"
  let labels ← items (spelled? ms "fieldLabels" "field_labels") labelsPath
  let steps ← each label labelsPath labels
  return ⟨base, steps⟩

def required (ms : Json.Members) (member path : String) : Decoded Json :=
  match Entries.lookup? ms member with
  | some j => .ok j
  | none => fail path (.missing member)

def subtyping (j : Json) (path : String) : Decoded Subtyping := do
  let ms ← members j path
  let lhs ← required ms "lhs" path
  let rhs ← required ms "rhs" path
  let sub ← typeVar lhs (memberPath path "lhs")
  let sup ← typeVar rhs (memberPath path "rhs")
  return ⟨sub, sup⟩

def targetId (j : Json) (path : String) : Decoded Target :=
  match j with
  | .text s => .ok (.name s)
  | .whole n => .ok (.number n)
  | _ => fail path (.targetId j.display)

def target (j : Json) (path : String) : Decoded Target :=
  match j with
  | .object ms =>
    match Entries.lookup? ms "id" with
    | some id => targetId id path
    | none => fail path .targetWithoutId
  | _ => targetId j path

/-- A member that must be there and not be null. -/
def present (j : Option Json) (member path : String) : Decoded Json :=
  match j with
  | none => fail path (.missing member)
  | some .null => fail path (.missing member)
  | some j => .ok j

def binding (j : Json) (path : String) : Decoded Binding := do
  let ms ← members j path
  let fact ← present (spelled? ms "subTy" "sub_ty") "subTy" path
  let target_ ← present (spelled? ms "targetVariable" "target_variable") "targetVariable" path
  let fact ← subtyping fact (memberPath path "subTy")
  let target_ ← target target_ (memberPath path "targetVariable")
  return ⟨target_, fact⟩

def constraintSet (j : Json) : Decoded ConstraintSet := do
  let ms ← members j top
  let factsPath := memberPath top "subtypingConstraints"
  let facts ← items (spelled? ms "subtypingConstraints" "subtyping_constraints") factsPath
  let facts ← each subtyping factsPath facts
  let bindingsPath := memberPath top "additionalConstraints"
  let bindings ←
    items (spelled? ms "additionalConstraints" "additional_constraints") bindingsPath
  let bindings ← each binding bindingsPath bindings
  return .ofLists facts bindings

/-! ## Texts -/

def read (mark : Text.Mark) (text : String) : Decoded ConstraintSet :=
  match Json.read mark text with
  | .ok j => constraintSet j
  | .error r =>
    let (line, column) := r.place text
    fail top (.notJson r.cause.message line column)

def write (style : Json.Style) (s : ConstraintSet) : String := (ofConstraintSet s).write style

end Document

end TypeRecovery
