/-
  TypeRecovery.Message.Schema — the messages that carry a constraint set.

      Field       { uint32 bit_size = 1; uint32 byte_offset = 2; }
      Label       { one of: Pointer ptr = 1; uint32 in_param = 2; uint32 out_param = 3;
                            Field field = 4; }
      Variable    { string base_var = 1; repeated Label field_labels = 2; }
      Subtyping   { Variable lhs = 1; Variable rhs = 2; }
      Target      { one of: string name = 1; int64 number = 2; }
      Binding     { Subtyping sub_ty = 1; Target target_variable = 2; }
      Set         { repeated Subtyping subtyping_constraints = 1;
                    repeated Binding additional_constraints = 2; }

  A message is read field by field into one that starts empty. Of a scalar the last field
  counts, a repeated submessage is merged into the one read before, the last arm of a
  one-of stands, and fields of another number or wire type are passed over. A string must
  be valid UTF-8. On writing, fields stand in the order of their numbers; scalars that are
  zero or empty are left out, unless they are the arm of a one-of.
-/

import TypeRecovery.Message.Wire

namespace TypeRecovery.Message

structure FieldMessage where
  bitSize : Nat
  byteOffset : Nat
  deriving DecidableEq, Repr

def FieldMessage.empty : FieldMessage := ⟨0, 0⟩

inductive LabelArm where
  | pointer (n : Int)
  | input (n : Nat)
  | output (n : Nat)
  | field (f : FieldMessage)
  deriving DecidableEq, Repr

/-- A label with no arm set is no label, but it can be sent. -/
abbrev LabelMessage := Option LabelArm

structure VariableMessage where
  base : String
  labels : List LabelMessage
  deriving DecidableEq, Repr

def VariableMessage.empty : VariableMessage := ⟨"", []⟩

structure SubtypingMessage where
  lhs : Option VariableMessage
  rhs : Option VariableMessage
  deriving DecidableEq, Repr

def SubtypingMessage.empty : SubtypingMessage := ⟨none, none⟩

inductive TargetArm where
  | name (s : String)
  | number (n : Int)
  deriving DecidableEq, Repr

abbrev TargetMessage := Option TargetArm

structure BindingMessage where
  fact : Option SubtypingMessage
  target : Option TargetMessage
  deriving DecidableEq, Repr

def BindingMessage.empty : BindingMessage := ⟨none, none⟩

structure SetMessage where
  subtypings : List SubtypingMessage
  bindings : List BindingMessage
  deriving DecidableEq, Repr

def SetMessage.empty : SetMessage := ⟨[], []⟩

/-! ## Reading -/

def low32 (n : Nat) : Nat := n % 0x100000000

/-- The low `bits` bits as a signed number. -/
def signed (bits n : Nat) : Int := Int.bmod n (Nat.pow 2 bits)

/-- Reads the fields of a message, nested `depth` levels above the deepest allowed, into one
that may hold earlier fields. -/
def mergeInto {α : Type} (step : Nat → α → WireField → Option α) (depth : Nat) (m : α)
    (bs : Bytes) : Option α := do
  let fields ← fields? depth bs
  fields.foldlM (step depth) m

/-- Reads a submessage one level further down. -/
def within {α : Type} (step : Nat → α → WireField → Option α) (depth : Nat) (m : α)
    (bs : Bytes) : Option α :=
  match depth with
  | 0 => none
  | inner + 1 => mergeInto step inner m bs

def stepField (_ : Nat) (m : FieldMessage) (f : WireField) : Option FieldMessage :=
  match f.number, f.payload with
  | 1, .varint n => some { m with bitSize := low32 n }
  | 2, .varint n => some { m with byteOffset := low32 n }
  | _, _ => some m

def stepLabel (depth : Nat) (m : LabelMessage) (f : WireField) : Option LabelMessage :=
  match f.number, f.payload with
  | 1, .varint n => some (some (.pointer (signed 32 n)))
  | 2, .varint n => some (some (.input (low32 n)))
  | 3, .varint n => some (some (.output (low32 n)))
  | 4, .bytes bs =>
    let earlier := match m with
      | some (.field g) => g
      | _ => .empty
    (within stepField depth earlier bs).map fun g => some (.field g)
  | _, _ => some m

def stepVariable (depth : Nat) (m : VariableMessage) (f : WireField) : Option VariableMessage :=
  match f.number, f.payload with
  | 1, .bytes bs => (Text.ofBytes? bs).map fun s => { m with base := s }
  | 2, .bytes bs =>
    (within stepLabel depth none bs).map fun l => { m with labels := m.labels ++ [l] }
  | _, _ => some m

def stepSubtyping (depth : Nat) (m : SubtypingMessage) (f : WireField) :
    Option SubtypingMessage :=
  match f.number, f.payload with
  | 1, .bytes bs =>
    (within stepVariable depth (m.lhs.getD .empty) bs).map fun v => { m with lhs := some v }
  | 2, .bytes bs =>
    (within stepVariable depth (m.rhs.getD .empty) bs).map fun v => { m with rhs := some v }
  | _, _ => some m

def stepTarget (_ : Nat) (m : TargetMessage) (f : WireField) : Option TargetMessage :=
  match f.number, f.payload with
  | 1, .bytes bs => (Text.ofBytes? bs).map fun s => some (.name s)
  | 2, .varint n => some (some (.number (signed 64 n)))
  | _, _ => some m

def stepBinding (depth : Nat) (m : BindingMessage) (f : WireField) : Option BindingMessage :=
  match f.number, f.payload with
  | 1, .bytes bs =>
    (within stepSubtyping depth (m.fact.getD .empty) bs).map fun s => { m with fact := some s }
  | 2, .bytes bs =>
    (within stepTarget depth (m.target.getD none) bs).map fun t => { m with target := some t }
  | _, _ => some m

def stepSet (depth : Nat) (m : SetMessage) (f : WireField) : Option SetMessage :=
  match f.number, f.payload with
  | 1, .bytes bs =>
    (within stepSubtyping depth .empty bs).map fun s =>
      { m with subtypings := m.subtypings ++ [s] }
  | 2, .bytes bs =>
    (within stepBinding depth .empty bs).map fun b => { m with bindings := m.bindings ++ [b] }
  | _, _ => some m

/-- How many levels of messages and groups may lie inside a message. -/
def maxDepth : Nat := 100

def readSubtyping (bs : Bytes) : Option SubtypingMessage :=
  mergeInto stepSubtyping maxDepth .empty bs

def readSet (bs : Bytes) : Option SetMessage := mergeInto stepSet maxDepth .empty bs

/-! ## Writing -/

/-- A scalar that is left out when it is zero. -/
def scalar (number n : Nat) : List WireField := if n = 0 then [] else [⟨number, .varint n⟩]

def nested (number : Nat) (fields : List WireField) : WireField :=
  ⟨number, .bytes (encodeFields fields)⟩

/-- The 64-bit unit that carries a signed number. -/
def unsigned64 (n : Int) : Nat := (n % 0x10000000000000000).toNat

def FieldMessage.fields (m : FieldMessage) : List WireField :=
  scalar 1 m.bitSize ++ scalar 2 m.byteOffset

def LabelArm.fields : LabelArm → List WireField
  | .pointer n => [⟨1, .varint (unsigned64 n)⟩]
  | .input n => [⟨2, .varint n⟩]
  | .output n => [⟨3, .varint n⟩]
  | .field f => [nested 4 f.fields]

def labelFields : LabelMessage → List WireField
  | some arm => arm.fields
  | none => []

def VariableMessage.fields (m : VariableMessage) : List WireField :=
  (if m.base.isEmpty then [] else [⟨1, .bytes (Text.toBytes m.base)⟩]) ++
    m.labels.map fun l => nested 2 (labelFields l)

def variableFields (number : Nat) : Option VariableMessage → List WireField
  | some v => [nested number v.fields]
  | none => []

def SubtypingMessage.fields (m : SubtypingMessage) : List WireField :=
  variableFields 1 m.lhs ++ variableFields 2 m.rhs

def targetFields : TargetMessage → List WireField
  | some (.name s) => [⟨1, .bytes (Text.toBytes s)⟩]
  | some (.number n) => [⟨2, .varint (unsigned64 n)⟩]
  | none => []

def BindingMessage.fields (m : BindingMessage) : List WireField :=
  (match m.fact with
    | some s => [nested 1 s.fields]
    | none => []) ++
  (match m.target with
    | some t => [nested 2 (targetFields t)]
    | none => [])

def SetMessage.fields (m : SetMessage) : List WireField :=
  m.subtypings.map (fun s => nested 1 s.fields) ++ m.bindings.map fun b => nested 2 b.fields

end TypeRecovery.Message
