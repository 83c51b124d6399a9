/-
  TypeRecovery.Settings — the limits of one solve.

  Settings come from an object whose members override the defaults. A member that is not
  known, a policy that has no such name, a value that cannot be compared with a number and
  a number out of bounds are refused, in this order: unknown members, the policy, then the
  limits one by one. A policy that is not a string is kept as it stands; it admits like
  `truncate` and has no written form.
-/

import TypeRecovery.Json.Display

namespace TypeRecovery

inductive PathPolicy where
  /-- A constraint with a path that is too long is dropped. -/
  | reject
  /-- A path that is too long is cut. -/
  | truncate
  | other (value : Json)

namespace PathPolicy

def ofName? : String → Option PathPolicy
  | "reject" => some .reject
  | "truncate" => some .truncate
  | _ => none

def name? : PathPolicy → Option String
  | .reject => some "reject"
  | .truncate => some "truncate"
  | .other _ => none

def toJson : PathPolicy → Json
  | .reject => .text "reject"
  | .truncate => .text "truncate"
  | .other j => j

def isReject : PathPolicy → Bool
  | .reject => true
  | _ => false

end PathPolicy

structure Settings where
  maxPathLength : Amount
  pathPolicy : PathPolicy
  maxFieldBits : Amount
  maxFieldExtent : Amount
  pointerWidth : Amount
  maxSteps : Option Amount
  deadline : Option Amount
  deadlineInterval : Amount

namespace Settings

def standard : Settings where
  maxPathLength := .whole 16
  pathPolicy := .truncate
  maxFieldBits := .whole 512
  maxFieldExtent := .whole 0x1000000
  pointerWidth := .whole 64
  maxSteps := some (.whole 10000000)
  deadline := none
  deadlineInterval := .whole 4096

inductive Bound where
  | atLeastOne
  | positive
  | nonNegative

def Bound.text : Bound → String
  | .atLeastOne => "at least 1"
  | .positive => "positive"
  | .nonNegative => "non-negative"

inductive Refusal where
  | unknownMembers (names : List String)
  | unknownPolicy (name : String)
  /-- A value that cannot stand on one side of a comparison with an integer. -/
  | incomparable (comparison : String) (value : Json)
  | outOfBounds (member : String) (bound : Bound)

def Refusal.message : Refusal → String
  | .unknownMembers names => "unknown config keys: " ++ ", ".intercalate names
  | .unknownPolicy name => Text.quoted name ++ " is not a valid PathPolicy"
  | .incomparable comparison value =>
    "'" ++ comparison ++ "' not supported between instances of '" ++ value.kindName ++
      "' and 'int'"
  | .outOfBounds member bound => member ++ " must be " ++ bound.text

def memberNames : List String :=
  ["max_path_length", "path_policy", "max_field_bits", "max_field_extent_bytes",
   "pointer_width", "max_saturation_steps", "deadline_seconds", "deadline_check_interval"]

def readPolicy (members : Json.Members) : Except Refusal PathPolicy :=
  match Entries.lookup? members "path_policy" with
  | none => .ok standard.pathPolicy
  | some (.text s) =>
    match PathPolicy.ofName? s with
    | some p => .ok p
    | none => .error (.unknownPolicy s)
  | some j => .ok (.other j)

/-- A number that must not lie below `least`. -/
def readLimit (members : Json.Members) (name : String) (default_ : Amount)
    (least : Int) (bound : Bound) : Except Refusal Amount :=
  let j := (Entries.lookup? members name).getD default_.toJson
  match j.amount? with
  | none => .error (.incomparable "<" j)
  | some a => if a.less (.whole least) then .error (.outOfBounds name bound) else .ok a

def readSteps (members : Json.Members) : Except Refusal (Option Amount) :=
  match Entries.lookup? members "max_saturation_steps" with
  | none => .ok standard.maxSteps
  | some .null => .ok none
  | some j =>
    match j.amount? with
    | none => .error (.incomparable "<" j)
    | some a =>
      if a.less (.whole 0) then .error (.outOfBounds "max_saturation_steps" .nonNegative)
      else .ok (some a)

def readDeadline (members : Json.Members) : Except Refusal (Option Amount) :=
  match Entries.lookup? members "deadline_seconds" with
  | none => .ok standard.deadline
  | some .null => .ok none
  | some j =>
    match j.amount? with
    | none => .error (.incomparable "<=" j)
    | some a =>
      if a.atMost (.whole 0) then .error (.outOfBounds "deadline_seconds" .positive)
      else .ok (some a)

def sortNames (names : List String) : List String :=
  names.mergeSort fun a b => (Ord.compare a b).isLE

def ofMembers (members : Json.Members) : Except Refusal Settings := do
  let unknown := (members.map (·.1)).filter fun k => !memberNames.contains k
  if !unknown.isEmpty then throw (.unknownMembers (sortNames unknown))
  let pathPolicy ← readPolicy members
  let maxPathLength ← readLimit members "max_path_length" standard.maxPathLength 1 .atLeastOne
  let maxFieldBits ← readLimit members "max_field_bits" standard.maxFieldBits 1 .positive
  let maxFieldExtent ←
    readLimit members "max_field_extent_bytes" standard.maxFieldExtent 1 .positive
  let pointerWidth ← readLimit members "pointer_width" standard.pointerWidth 1 .positive
  let maxSteps ← readSteps members
  let deadline ← readDeadline members
  let deadlineInterval ←
    readLimit members "deadline_check_interval" standard.deadlineInterval 1 .atLeastOne
  return { maxPathLength, pathPolicy, maxFieldBits, maxFieldExtent, pointerWidth, maxSteps,
           deadline, deadlineInterval }

def optional : Option Amount → Json
  | some a => a.toJson
  | none => .null

def members (s : Settings) : Json.Members :=
  [("max_path_length", s.maxPathLength.toJson), ("path_policy", s.pathPolicy.toJson),
   ("max_field_bits", s.maxFieldBits.toJson), ("max_field_extent_bytes", s.maxFieldExtent.toJson),
   ("pointer_width", s.pointerWidth.toJson), ("max_saturation_steps", optional s.maxSteps),
   ("deadline_seconds", optional s.deadline),
   ("deadline_check_interval", s.deadlineInterval.toJson)]

/-- The written form, which a policy that is not a name does not have. -/
def toJson? (s : Settings) : Option Json := s.pathPolicy.name?.map fun _ => .object s.members

/-- The settings with some members changed. All members must be known. -/
def change (s : Settings) (changes : Json.Members) : Except Refusal Settings :=
  ofMembers (Entries.setAll s.members changes)

end Settings

end TypeRecovery
