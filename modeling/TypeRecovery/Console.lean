/-
  TypeRecovery.Console — reports as a terminal shows them.

  A report is one line: what it is about, its severity, the message and the kind. A syntax
  error comes with its source line and a caret. At the end stands one line that counts what
  was shown. On a terminal the parts have colours.
-/

import TypeRecovery.Language.Reader
import TypeRecovery.Report

namespace TypeRecovery

structure Console where
  coloured : Bool
  /-- The severities shown so far, in order. -/
  severities : List Severity
  text : String
  deriving DecidableEq, Repr

namespace Console

def start (coloured : Bool) : Console := ⟨coloured, [], ""⟩

def plain : Console := start false

/-- Switches the terminal to a mode, where there is one. -/
def mode (c : Console) (code : Nat) : String :=
  if c.coloured then "\x1b[" ++ toString code ++ "m" else ""

def reset : Nat := 0

def bold : Nat := 1

def green : Nat := 32

def colourOf : Severity → Nat
  | .error => 31
  | .warning => 35
  | .information => 36

def put (c : Console) (s : String) : Console := { c with text := c.text ++ s }

/-- Shows one line; an empty place is left out. -/
def announce (c : Console) (severity : Severity) (message place : String) : Console :=
  let whence := if place.isEmpty then "" else place ++ ": "
  { c with severities := c.severities ++ [severity] }.put
    (c.mode bold ++ whence ++ c.mode (colourOf severity) ++ severity.name ++ ":" ++
      c.mode reset ++ " " ++ message ++ "\n")

def error (c : Console) (message place : String) : Console := c.announce .error message place

def report (c : Console) (r : Report) : Console :=
  let place := match r.subject with
    | some s => s.text
    | none => ""
  c.announce r.severity (r.message ++ " [" ++ r.kind.name ++ "]") place

def reports (c : Console) (rs : List Report) : Console := rs.foldl report c

/-- The name under which a text without a file name is shown. -/
def fileName : Option String → String
  | some f => if f.isEmpty then "<input>" else f
  | none => "<input>"

def syntaxError (c : Console) (e : Language.SyntaxError) : Console :=
  let c := c.error e.message
    (fileName e.file ++ ":" ++ toString e.line ++ ":" ++ toString e.column)
  if e.sourceLine.isEmpty then c
  else
    c.put ("  " ++ Text.trimEnd e.sourceLine ++ "\n" ++ c.mode green ++
      Language.SyntaxError.blanks (e.column + 1) ++ "^" ++ c.mode reset ++ "\n")

def count (c : Console) (severity : Severity) : Nat := c.severities.count severity

def hasErrors (c : Console) : Bool := c.severities.contains .error

def nounOf : Severity → String
  | .error => "error(s)"
  | .warning => "warning(s)"
  | .information => "note(s)"

def tally (c : Console) (severity : Severity) : Option String :=
  if c.count severity = 0 then none
  else some (c.mode (colourOf severity) ++ toString (c.count severity) ++ " " ++
    nounOf severity ++ c.mode reset)

/-- Counts what was shown, if anything was. -/
def summary (c : Console) : Console :=
  let parts := Severity.all.filterMap c.tally
  if parts.isEmpty then c else c.put (", ".intercalate parts ++ " generated.\n")

end Console

end TypeRecovery
