/-
  TypeRecovery.Language.Printer — constraint sets as text.

  A name that is not an identifier is quoted. A name that holds a double quote, a line feed
  or a carriage return has no written form, nor has an empty base.
-/

import TypeRecovery.ConstraintSet
import TypeRecovery.Language.Lexeme
import TypeRecovery.Text.Quoted

namespace TypeRecovery.Language

inductive Unwritable where
  | emptyBase
  | base (name : String)
  | target (name : String)
  deriving DecidableEq, Repr

def Unwritable.message : Unwritable → String
  | .emptyBase => "empty base variable cannot be written in TSCL"
  | .base name => "base variable " ++ Text.quoted name ++ " cannot be written in TSCL"
  | .target name => "target " ++ Text.quoted name ++ " cannot be written in TSCL"

/-- Which of the two spellings of relation and fields is used. -/
inductive Spelling where
  | symbols
  | ascii
  deriving DecidableEq, Repr

namespace Spelling

def relation : Spelling → String
  | .symbols => "⊑"
  | .ascii => "<="

def label : Spelling → Label → String
  | .symbols => Label.text
  | .ascii => Label.asciiText

end Spelling

def isIdentifier (name : String) : Bool :=
  match name.toList with
  | [] => false
  | c :: rest => isNameStart c && rest.all isNameChar

/-- A name as an identifier or in quotes. -/
def writeName? (name : String) : Option String :=
  if isIdentifier name then some name
  else if name.toList.all isQuotable then some ("\"" ++ name ++ "\"")
  else none

def writeBase (name : String) : Except Unwritable String :=
  if name.isEmpty then .error .emptyBase
  else match writeName? name with
    | some s => .ok s
    | none => .error (.base name)

def writeTypeVar (spelling : Spelling) (v : TypeVar) : Except Unwritable String := do
  let base ← writeBase v.base
  return ".".intercalate (base :: v.path.map spelling.label)

/-- Numbers stand bare, names as identifiers or quoted, so that the two stay apart. -/
def writeTarget : Target → Except Unwritable String
  | .number n => .ok (toString n)
  | .name s =>
    match writeName? s with
    | some t => .ok t
    | none => .error (.target s)

def writeSubtyping (spelling : Spelling) (s : Subtyping) : Except Unwritable String := do
  let sub ← writeTypeVar spelling s.sub
  let sup ← writeTypeVar spelling s.sup
  return sub ++ " " ++ spelling.relation ++ " " ++ sup

/-- The fact is written before its target, so an error in it comes first. -/
def writeBinding (spelling : Spelling) (b : Binding) : Except Unwritable String := do
  let fact ← writeSubtyping spelling b.fact
  let target ← writeTarget b.target
  return "target " ++ target ++ ": " ++ fact

def writeLines (spelling : Spelling) (s : ConstraintSet) : Except Unwritable (List String) := do
  let facts ← s.subtypings.mapM (writeSubtyping spelling)
  let bindings ← s.bindings.mapM (writeBinding spelling)
  return facts ++ bindings

/-- One statement a line, each line ended. -/
def write (spelling : Spelling) (s : ConstraintSet) : Except Unwritable String := do
  let lines ← writeLines spelling s
  return String.join (lines.map (· ++ "\n"))

end TypeRecovery.Language
