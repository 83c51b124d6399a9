/-
  TypeRecovery.Command.Request — what a command line asks for.

  A command line names a task, gives the switches of the task and names the input. It may
  also ask for help or for the version, which ends the reading at once; without a task it
  gets the overview. Faults are found in the order of the arguments, but arguments that
  nothing takes are complained about last.
-/

import TypeRecovery.Command.Arguments
import TypeRecovery.Json.Basic
import TypeRecovery.Number.Reader

namespace TypeRecovery.Command

inductive InputFormat where
  | auto
  | language
  | document
  | message
  deriving DecidableEq, Repr

def InputFormat.names : List (String × InputFormat) :=
  [("auto", .auto), ("tscl", .language), ("json", .document), ("binary", .message)]

inductive TableFormat where
  | document
  | lines
  deriving DecidableEq, Repr

def TableFormat.names : List (String × TableFormat) := [("json", .document), ("text", .lines)]

inductive DocumentFormat where
  | document
  | language
  | message
  deriving DecidableEq, Repr

def DocumentFormat.names : List (String × DocumentFormat) :=
  [("json", .document), ("text", .language), ("binary", .message)]

def policyNames : List (String × String) := [("reject", "reject"), ("truncate", "truncate")]

structure Options where
  inputFormat : InputFormat
  /-- Where the output goes; empty for standard output. -/
  output : String
  verbosity : Nat
  /-- The file with settings; empty for none. -/
  settingsFile : String
  /-- Settings given by switches, which come after those of the file. -/
  overrides : Json.Members
  tableFormat : TableFormat
  /-- How many levels of sketches are written out, if that is known. -/
  depth : Option Nat
  quiet : Bool
  unsaturated : Bool
  documentFormat : DocumentFormat
  ascii : Bool

structure Request where
  task : Task
  input : String
  options : Options

namespace Options

def standard : Options where
  inputFormat := .auto
  output := ""
  verbosity := 0
  settingsFile := ""
  overrides := []
  tableFormat := .document
  depth := some 3
  quiet := false
  unsaturated := false
  documentFormat := .document
  ascii := false

/-- One of a few names. -/
def choice {α : Type} (names : List (String × α)) (title given : String) : Except Misuse α :=
  match names.find? fun e => e.1 = given with
  | some e => .ok e.2
  | none => .error (.notAmong title given (names.map (·.1)))

def integer (title given : String) : Except Misuse Int :=
  match Text.integer? given with
  | some n => .ok n
  | none => .error (.notNumber title "int" given)

def positive (title given : String) : Except Misuse Int :=
  match Text.integer? given with
  | some n => if n < 1 then .error (.tooSmall title n) else .ok n
  | none => .error (.notNumber title "_positive_int" given)

def real (title given : String) : Except Misuse Binary64 :=
  match Binary64.read? given with
  | some x => .ok x
  | none => .error (.notNumber title "float" given)

def override (o : Options) (member : String) (j : Json) : Options :=
  { o with overrides := Entries.set o.overrides member j }

/-- Takes a switch without an argument. One that wants an argument then stands for nothing:
no file, a setting that is an empty list, a format that is none of those with a name. -/
def takeBare (o : Options) (s : Switch) : Options :=
  match s.topic with
  | .help | .version => o
  | .inputFormat => { o with inputFormat := .language }
  | .output => { o with output := "" }
  | .verbosity => { o with verbosity := o.verbosity + 1 }
  | .settingsFile => { o with settingsFile := "" }
  | .maxPathLength => o.override "max_path_length" (.list [])
  | .pathPolicy => o.override "path_policy" (.list [])
  | .maxSteps => o.override "max_saturation_steps" (.list [])
  | .deadline => o.override "deadline_seconds" (.list [])
  | .pointerWidth => o.override "pointer_width" (.list [])
  | .tableFormat => { o with tableFormat := .lines }
  | .depth => { o with depth := none }
  | .quiet => { o with quiet := true }
  | .unsaturated => { o with unsaturated := true }
  | .documentFormat => { o with documentFormat := .language }
  | .ascii => { o with ascii := true }

/-- Takes a switch with its argument. -/
def takeValued (o : Options) (s : Switch) (given : String) : Except Misuse Options := do
  match s.topic with
  | .inputFormat => return { o with inputFormat := ← choice InputFormat.names s.title given }
  | .output => return { o with output := given }
  | .settingsFile => return { o with settingsFile := given }
  | .maxPathLength => return o.override "max_path_length" (.whole (← positive s.title given))
  | .pathPolicy => return o.override "path_policy" (.text (← choice policyNames s.title given))
  | .maxSteps => return o.override "max_saturation_steps" (.whole (← integer s.title given))
  | .deadline => return o.override "deadline_seconds" (.real (← real s.title given))
  | .pointerWidth => return o.override "pointer_width" (.whole (← positive s.title given))
  | .tableFormat => return { o with tableFormat := ← choice TableFormat.names s.title given }
  | .depth => return { o with depth := some (← positive s.title given).toNat }
  | .documentFormat =>
    return { o with documentFormat := ← choice DocumentFormat.names s.title given }
  | _ => return o.takeBare s

def take (o : Options) (s : Switch) : Option String → Except Misuse Options
  | none => .ok (o.takeBare s)
  | some given => o.takeValued s given

end Options

/-- What a command line comes to. -/
inductive Invocation where
  /-- No task is named. -/
  | overview
  | help (task : Option Task)
  | version
  | misuse (task : Option Task) (m : Misuse)
  | request (r : Request)

namespace Invocation

/-- Takes the items behind the name of a task. `strays` are the arguments that nothing has
taken so far. -/
def ofTaskItems (task : Task) :
    List String → Options → Option String → List Item → Invocation
  | _, _, none, [] => .misuse (some task) .inputRequired
  | strays, o, some input, [] =>
    if strays.isEmpty then .request ⟨task, input, o⟩ else .misuse none (.unrecognized strays)
  | strays, o, _, .operand input _ :: rest => ofTaskItems task strays o (some input) rest
  | strays, o, input, .stray a :: rest => ofTaskItems task (strays ++ [a]) o input rest
  | _, _, _, .fault m :: _ => .misuse (some task) m
  | strays, o, input, .given s argument :: rest =>
    if s.topic = .help then .help (some task)
    else
      match o.take s argument with
      | .error m => .misuse (some task) m
      | .ok o => ofTaskItems task strays o input rest

def ofTask (strays : List String) (task : Task) (args : List String) : Invocation :=
  match readArguments task.switches args with
  | .error m => .misuse (some task) m
  | .ok pieces =>
    ofTaskItems task strays .standard none (takeItems task.switches false true pieces)

def ofItems : List String → List Item → Invocation
  | strays, [] => if strays.isEmpty then .overview else .misuse none (.unrecognized strays)
  | strays, .stray a :: rest => ofItems (strays ++ [a]) rest
  | _, .fault m :: _ => .misuse none m
  | _, .given s _ :: _ => if s.topic = .version then .version else .help none
  | strays, .operand name rest :: _ =>
    match Task.ofName? name with
    | some task => ofTask strays task rest
    | none => .misuse none (.notAmong "<command>" name (Task.all.map (·.name)))

def ofArguments (args : List String) : Invocation :=
  match readArguments Switch.general args with
  | .error m => .misuse none m
  | .ok pieces => ofItems [] (takeItems Switch.general true true pieces)

end Invocation

/-! ## Usage -/

def programName : String := "tscl"

def programVersion : String := "0.2.0"

def Switch.usage (s : Switch) : String :=
  "[" ++ s.names.headD "" ++ (if s.takesArgument then " VALUE" else "") ++ "]"

/-- The name of the program, with the task if there is one. -/
def title : Option Task → String
  | none => programName
  | some t => programName ++ " " ++ t.name

def operandUsage : Option Task → String
  | none => "<command> ..."
  | some _ => "input"

def usage (task : Option Task) : String :=
  let switches := match task with
    | none => Switch.general
    | some t => t.switches
  "usage: " ++ title task ++ " " ++ " ".intercalate (switches.map (·.usage)) ++ " " ++
    operandUsage task ++ "\n"

/-- The last line of a complaint about the command line. -/
def Misuse.line (m : Misuse) (task : Option Task) : String :=
  title task ++ ": error: " ++ m.message

end TypeRecovery.Command
