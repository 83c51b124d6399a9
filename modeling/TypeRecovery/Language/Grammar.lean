/-
  TypeRecovery.Language.Grammar — the rules of the constraint language.

  A document holds one statement a line; `#` begins a comment that runs to the end of its
  line. A statement is a subtyping, `x.load.σ32@4 <= y`, or binds one to a target,
  `target 7: f.out_0 ⊑ s.σ32@0`. A base that is not an identifier stands in double quotes.
  A line may end in a line feed, alone or after a carriage return.
-/

import TypeRecovery.ConstraintSet
import TypeRecovery.Language.Rule

namespace TypeRecovery

inductive Statement where
  | subtyping (s : Subtyping)
  | binding (b : Binding)
  deriving DecidableEq, Repr

namespace Language

open Rule

/-! ## Words -/

def identifierRule : Rule String := lexeme identifier
def integerRule : Rule Int := lexeme integer
def quotedRule : Rule String := lexeme quoted
def quotedNameRule : Rule String := lexeme quotedName
def commentRule : Rule Unit := lexeme comment
def spacesRule : Rule Unit := lexeme spaces
def spaces1Rule : Rule Unit := lexeme spaces1
def lineBreakRule : Rule Unit := lexeme lineBreak
def lineEndRule : Rule Unit := lexeme lineEnd

def anyChar : Scanner Unit
  | [] => none
  | _ :: rest => some ⟨(), 1, rest⟩

/-- The end of the text: the rule looks for a character and must not find one. -/
def textEndRule : Rule Unit := whole fun c =>
  let r := part (scan anyChar) c
  match r.outcome with
  | some _ => ⟨none, r.trail⟩
  | none => ⟨some ((), c), r.trail⟩

/-! ## Type variables -/

def pointerLabelRule : Rule Label := lexeme pointerLabel
def inputLabelRule : Rule Label := lexeme inputLabel
def outputLabelRule : Rule Label := lexeme outputLabel
def fieldLabelRule : Rule Label := lexeme fieldLabel

def labelRule : Rule Label :=
  whole (fieldLabelRule.orElse (inputLabelRule.orElse (outputLabelRule.orElse pointerLabelRule)))

def labelSuffixRule : Rule Label := whole do
  fixed ['.']
  labelRule

def baseRule : Rule String := whole (identifierRule.orElse quotedNameRule)

def typeVarRule : Rule TypeVar := whole do
  let base ← baseRule
  let path ← many labelSuffixRule
  return ⟨base, path⟩

/-! ## Statements -/

def integerTarget : Rule Target := do return .number (← integerRule)

def quotedTarget : Rule Target := do return .name (← quotedRule)

def namedTarget : Rule Target := do return .name (← identifierRule)

def targetRule : Rule Target := whole (integerTarget.orElse (quotedTarget.orElse namedTarget))

def relationRule : Rule Unit := whole ((fixed ['<', '=']).orElse (fixed ['⊑']))

def subtypingRule : Rule Subtyping := whole do
  let sub ← typeVarRule
  spacesRule
  relationRule
  spacesRule
  let sup ← typeVarRule
  return ⟨sub, sup⟩

def bindingRule : Rule Binding := whole do
  fixed ['t', 'a', 'r', 'g', 'e', 't']
  spaces1Rule
  let target ← targetRule
  spacesRule
  fixed [':']
  spacesRule
  let fact ← subtypingRule
  return ⟨target, fact⟩

def boundStatement : Rule Statement := do return .binding (← bindingRule)

def plainStatement : Rule Statement := do return .subtyping (← subtypingRule)

def statementRule : Rule Statement := whole (boundStatement.orElse plainStatement)

/-! ## Lines -/

def statementLineRule : Rule (Option Statement) := whole do
  spacesRule
  let s ← statementRule
  spacesRule
  let _ ← optional commentRule
  lineEndRule
  return some s

def blankLineRule : Rule (Option Statement) := whole do
  spacesRule
  let _ ← optional commentRule
  lineEndRule
  return none

def lineRule : Rule (Option Statement) := whole (statementLineRule.orElse blankLineRule)

def furtherLineRule : Rule (Option Statement) := part do
  lineBreakRule
  lineRule

def documentRule : Rule (List Statement) := whole do
  let first ← lineRule
  let further ← many furtherLineRule
  textEndRule
  return (first :: further).filterMap id

/-- The rule of a name, as a recogniser. -/
def ruleNamed? (name : String) : Option (Rule Unit) :=
  let only {α : Type} (p : Rule α) : Option (Rule Unit) := some do let _ ← p; return ()
  match name with
  | "document" => only documentRule
  | "line" => only lineRule
  | "statement_line" => only statementLineRule
  | "blank_line" => only blankLineRule
  | "statement" => only statementRule
  | "additional" => only bindingRule
  | "subtyping" => only subtypingRule
  | "subtype_op" => only relationRule
  | "tid" => only targetRule
  | "dtv" => only typeVarRule
  | "base" => only baseRule
  | "label_suffix" => only labelSuffixRule
  | "label" => only labelRule
  | "pointer_label" => only pointerLabelRule
  | "in_label" => only inputLabelRule
  | "out_label" => only outputLabelRule
  | "field_label" => only fieldLabelRule
  | "identifier" => only identifierRule
  | "integer" => only integerRule
  | "quoted" => only quotedRule
  | "quoted_name" => only quotedNameRule
  | "comment" => only commentRule
  | "ws" => only spacesRule
  | "ws1" => only spaces1Rule
  | "newline" => only lineBreakRule
  | "eol" => only lineEndRule
  | "end" => only textEndRule
  | _ => none

end Language

end TypeRecovery
