/-
  TypeRecovery.Command.Switch — what the command line knows.

  A switch has names, of one letter behind one dash or of words behind two. Some switches
  take an argument. Every task has the switches that every task has, those of the solver
  where it solves, and its own.
-/

import TypeRecovery.Text.Quoted

namespace TypeRecovery.Command

/-- What a switch is about. -/
inductive Topic where
  | help
  | version
  | inputFormat
  | output
  | verbosity
  | settingsFile
  | maxPathLength
  | pathPolicy
  | maxSteps
  | deadline
  | pointerWidth
  | tableFormat
  | depth
  | quiet
  | unsaturated
  | documentFormat
  | ascii
  deriving DecidableEq, Repr

structure Switch where
  topic : Topic
  names : List String
  takesArgument : Bool
  deriving DecidableEq, Repr

namespace Switch

def flag (topic : Topic) (names : List String) : Switch := ⟨topic, names, false⟩

def valued (topic : Topic) (names : List String) : Switch := ⟨topic, names, true⟩

/-- How messages name a switch. -/
def title (s : Switch) : String := "/".intercalate s.names

def help : Switch := flag .help ["-h", "--help"]

def general : List Switch := [help, flag .version ["--version"]]

def files : List Switch :=
  [valued .inputFormat ["--input-format"], valued .output ["-o", "--output"],
   flag .verbosity ["-v", "--verbose"]]

def solver : List Switch :=
  [valued .settingsFile ["--config"], valued .maxPathLength ["--max-path-length"],
   valued .pathPolicy ["--path-policy"], valued .maxSteps ["--max-steps"],
   valued .deadline ["--deadline"], valued .pointerWidth ["--pointer-width"]]

end Switch

inductive Task where
  | solve
  | check
  | draw
  | convert
  deriving DecidableEq, Repr

namespace Task

def all : List Task := [.solve, .check, .draw, .convert]

def name : Task → String
  | .solve => "solve"
  | .check => "check"
  | .draw => "dump-graph"
  | .convert => "convert"

def ofName? (s : String) : Option Task := all.find? fun t => t.name = s

open Switch in
def own : Task → List Switch
  | .solve => [valued .tableFormat ["--format"], valued .depth ["--depth"]]
  | .check => [flag .quiet ["-q", "--quiet"]]
  | .draw => [flag .unsaturated ["--unsaturated"]]
  | .convert => [valued .documentFormat ["--to"], flag .ascii ["--ascii"]]

def hasSolver : Task → Bool
  | .convert => false
  | _ => true

/-- The switches of a task, in the order in which messages list them. -/
def switches (t : Task) : List Switch :=
  [Switch.help] ++ Switch.files ++ (if t.hasSolver then Switch.solver else []) ++ t.own

end Task

/-- Why a command line is not understood. -/
inductive Misuse where
  | ambiguous (given : String) (candidates : List String)
  | argumentExpected (title : String)
  | argumentIgnored (title argument : String)
  | notAmong (title given : String) (choices : List String)
  | notNumber (title form given : String)
  | tooSmall (title : String) (n : Int)
  | inputRequired
  | unrecognized (arguments : List String)
  deriving DecidableEq, Repr

namespace Misuse

def about (title complaint : String) : String := "argument " ++ title ++ ": " ++ complaint

def message : Misuse → String
  | .ambiguous given candidates =>
    "ambiguous option: " ++ given ++ " could match " ++ ", ".intercalate candidates
  | .argumentExpected title => about title "expected one argument"
  | .argumentIgnored title argument =>
    about title ("ignored explicit argument " ++ Text.quoted argument)
  | .notAmong title given choices =>
    about title ("invalid choice: " ++ Text.quoted given ++ " (choose from " ++
      ", ".intercalate (choices.map Text.quoted) ++ ")")
  | .notNumber title form given =>
    about title ("invalid " ++ form ++ " value: " ++ Text.quoted given)
  | .tooSmall title n => about title ("must be at least 1, got " ++ toString n)
  | .inputRequired => "the following arguments are required: input"
  | .unrecognized arguments => "unrecognized arguments: " ++ " ".intercalate arguments

end Misuse

end TypeRecovery.Command
