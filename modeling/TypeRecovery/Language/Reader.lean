/-
  TypeRecovery.Language.Reader — constraint sets from text.

  A text that the grammar does not accept is refused at the furthest place the rules
  reached, or where the part that was accepted ends. The error shows up to twelve
  characters found there and the line they stand in.
-/

import TypeRecovery.Language.Grammar
import TypeRecovery.Text.Blank
import TypeRecovery.Text.Lines
import TypeRecovery.Text.Quoted

namespace TypeRecovery.Language

structure SyntaxError where
  message : String
  line : Nat
  column : Nat
  sourceLine : String
  file : Option String
  deriving DecidableEq, Repr

namespace SyntaxError

/-- What stands at a position, up to the end of its line. -/
def foundAt (cs : List Char) (position : Nat) : List Char :=
  ((cs.drop position).take 12).takeWhile (· ≠ '\n')

/-- The text of a 1-based line, empty when there is none. -/
def sourceLineAt (cs : List Char) (line : Nat) : List Char :=
  ((Text.lines cs)[line - 1]?).getD []

def at_ (cs : List Char) (position : Nat) (file : Option String) : SyntaxError :=
  let line := Text.lineNumber cs position
  let found := foundAt cs position
  { message :=
      if found.isEmpty then "unexpected end of line"
      else "unexpected " ++ Text.quoted (String.ofList found)
    line := line
    column := Text.columnNumber cs position
    sourceLine := String.ofList (sourceLineAt cs line)
    file := file }

def blanks (n : Nat) : String := String.ofList (List.replicate n ' ')

/-- The position and the message, and below them the line with a caret. -/
def text (e : SyntaxError) : String :=
  let whence := match e.file with
    | some f => if f.isEmpty then "" else f ++ ":"
    | none => ""
  let head := whence ++ toString e.line ++ ":" ++ toString e.column ++ ": " ++ e.message
  if e.sourceLine.isEmpty then head
  else head ++ "\n    " ++ e.sourceLine ++ "\n    " ++ blanks (e.column - 1) ++ "^"

end SyntaxError

/-- Reads a whole text by a rule. -/
def readBy {α : Type} (p : Rule α) (cs : List Char) (file : Option String) :
    Except SyntaxError α :=
  match p.apply cs with
  | .accepted a => .ok a
  | .incomplete position => .error (.at_ cs position file)
  | .refused position => .error (.at_ cs position file)

end TypeRecovery.Language

namespace TypeRecovery.ConstraintSet

def addStatement (s : ConstraintSet) : Statement → ConstraintSet
  | .subtyping c => s.insert c
  | .binding b => s.bind b

def ofStatements (statements : List Statement) : ConstraintSet :=
  statements.foldl addStatement empty

end TypeRecovery.ConstraintSet

namespace TypeRecovery.Language

/-- The set that a document writes, its statements taken in order. -/
def parse (text : String) (file : Option String) : Except SyntaxError ConstraintSet :=
  (readBy documentRule text.toList file).map ConstraintSet.ofStatements

/-- A single type variable, with blanks around it. -/
def parseTypeVar (text : String) : Except SyntaxError TypeVar :=
  readBy typeVarRule (Text.trim text).toList none

end TypeRecovery.Language
