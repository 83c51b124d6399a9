/-
  TypeRecovery.Message.Codec — constraint sets as binary messages.

  A message that has been read is judged as a document is: it is laid out as one, with
  absent scalars absent and the pointer direction by name where it has one, and refused
  with the paths of a document. A set has a message when its indices, sizes and offsets are
  unsigned integers of 32 bits and its target numbers signed integers of 64 bits.
-/

import TypeRecovery.Document
import TypeRecovery.Message.Schema

namespace TypeRecovery.Message

open Document (Decoded Mismatch)

/-! ## Documents of messages -/

/-- A member that is absent when its value is zero. -/
def scalarMember (name : String) (n : Nat) : Json.Members :=
  if n = 0 then [] else [(name, .whole n)]

def FieldMessage.document (m : FieldMessage) : Json :=
  .object (scalarMember "bitSize" m.bitSize ++ scalarMember "byteOffset" m.byteOffset)

def pointerDocument (n : Int) : Json :=
  if n = 0 then .text Document.pointerLoad
  else if n = 1 then .text Document.pointerStore
  else .whole n

def labelDocument : LabelMessage → Json
  | some (.pointer n) => .object [("ptr", pointerDocument n)]
  | some (.input n) => .object [("inParam", .whole n)]
  | some (.output n) => .object [("outParam", .whole n)]
  | some (.field f) => .object [("field", f.document)]
  | none => .object []

def VariableMessage.document (m : VariableMessage) : Json :=
  .object ((if m.base.isEmpty then [] else [("baseVar", .text m.base)]) ++
    [("fieldLabels", .list (m.labels.map labelDocument))])

def variableMember (name : String) : Option VariableMessage → Json.Members
  | some v => [(name, v.document)]
  | none => []

def SubtypingMessage.document (m : SubtypingMessage) : Json :=
  .object (variableMember "lhs" m.lhs ++ variableMember "rhs" m.rhs)

def targetDocument : TargetMessage → Json
  | some (.name s) => .object [("id", .text s)]
  | some (.number n) => .object [("id", .whole n)]
  | none => .object []

def BindingMessage.document (m : BindingMessage) : Json :=
  .object ((match m.fact with
      | some s => [("subTy", s.document)]
      | none => []) ++
    (match m.target with
      | some t => [("targetVariable", targetDocument t)]
      | none => []))

def SetMessage.document (m : SetMessage) : Json :=
  .object [("subtypingConstraints", .list (m.subtypings.map (·.document))),
    ("additionalConstraints", .list (m.bindings.map (·.document)))]

/-! ## Reading -/

def decodeSubtyping (bs : Bytes) : Decoded Subtyping :=
  match readSubtyping bs with
  | some m => Document.subtyping m.document Document.top
  | none => Document.fail Document.top .notMessage

def decode (bs : Bytes) : Decoded ConstraintSet :=
  match readSet bs with
  | some m => Document.constraintSet m.document
  | none => Document.fail Document.top .notMessage

/-! ## Writing -/

def unsigned32? (n : Int) : Option Nat := if 0 ≤ n ∧ n < 0x100000000 then some n.toNat else none

def signed64? (n : Int) : Option Int := if -0x8000000000000000 ≤ n ∧ n < 0x8000000000000000 then some n else none

def ofField (f : Field) : Option FieldMessage := do
  return ⟨← unsigned32? f.bits, ← unsigned32? f.offset⟩

def ofLabel : Label → Option LabelMessage
  | .load => some (some (.pointer 0))
  | .store => some (some (.pointer 1))
  | .input i => (unsigned32? i).map fun n => some (.input n)
  | .output i => (unsigned32? i).map fun n => some (.output n)
  | .field f => (ofField f).map fun m => some (.field m)

def ofTypeVar (v : TypeVar) : Option VariableMessage :=
  (v.path.mapM ofLabel).map fun labels => ⟨v.base, labels⟩

def ofSubtyping (s : Subtyping) : Option SubtypingMessage := do
  return ⟨some (← ofTypeVar s.sub), some (← ofTypeVar s.sup)⟩

def ofTarget : Target → Option TargetMessage
  | .name s => some (some (.name s))
  | .number n => (signed64? n).map fun n => some (.number n)

def ofBinding (b : Binding) : Option BindingMessage := do
  return ⟨some (← ofSubtyping b.fact), some (← ofTarget b.target)⟩

def ofConstraintSet (s : ConstraintSet) : Option SetMessage := do
  return ⟨← s.subtypings.mapM ofSubtyping, ← s.bindings.mapM ofBinding⟩

def encodeSubtyping (s : Subtyping) : Decoded Bytes :=
  match ofSubtyping s with
  | some m => .ok (encodeFields m.fields)
  | none => Document.fail Document.top .noMessage

def encode (s : ConstraintSet) : Decoded Bytes :=
  match ofConstraintSet s with
  | some m => .ok (encodeFields m.fields)
  | none => Document.fail Document.top .noMessage

end TypeRecovery.Message
