/-
  TypeRecovery.Command.Run — what a command line does.

  A run is a list of effects and an ending. A task has its effects on its way: its output goes
  out first, then the reports are shown. The log, as far as it is asked for, is remarked on as
  it arises. A task that is stopped ends with a complaint, or breaks off without one.
-/

import TypeRecovery.Command.Input
import TypeRecovery.Console
import TypeRecovery.Graph.Drawing
import TypeRecovery.Language.Printer
import TypeRecovery.Solution

namespace TypeRecovery.Command

inductive ExitCode where
  | success
  /-- An error was reported. -/
  | reported
  /-- The command line, the input or the settings cannot be used. -/
  | unusable
  /-- The closure exceeded its bounds. -/
  | exhausted
  deriving DecidableEq, Repr

def ExitCode.number : ExitCode → Nat
  | .success => 0
  | .reported => 1
  | .unusable => 2
  | .exhausted => 3

/-- How a run breaks off without an exit code. -/
inductive Breakdown where
  | undecodable
  | unencodable
  | uncuttable
  | badName
  | depthless
  | overlong
  | unwritable (f : FileFault)
  deriving DecidableEq, Repr

inductive Ending where
  | exit (code : ExitCode)
  | broken (b : Breakdown)
  deriving DecidableEq, Repr

structure Run where
  effects : List Effect
  ending : Ending
  deriving DecidableEq, Repr

open Course (say perform stop complain)

/-! ## Output -/

def withLineEnd (text : String) : String :=
  if text.toList.getLast? = some '\n' then text else text ++ "\n"

/-- Content goes to standard output unless there is a file for it, which has the path. -/
def Options.sending (o : Options) (path : String) (content : Bytes) : Effect :=
  if o.output.isEmpty then .print content else .write path content

/-- Sends text where the output goes. A file is there, and empty, before its text turns out to
have no bytes. -/
def Options.emit (o : Options) (mark : Text.Mark) (text : String) : Course Unit :=
  match mark.bytes? (withLineEnd text) with
  | some content => perform (o.sending o.output content)
  | none => do
    if !o.output.isEmpty then perform (.write o.output [])
    stop .unencodable

def Options.emitBytes (o : Options) (content : Bytes) : Course Unit :=
  perform (o.sending (PathName.normal o.output) content)

/-! ## Tasks -/

def targetLine (s : TargetSketch) (text : String) : String :=
  "target " ++ (Document.ofTargetId s.target).write .line ++ ": " ++ text

/-- The text of a sketch that has the same text at any depth. -/
def depthlessText? (t : SketchTable) (id : Int) : Option String :=
  match t.sketch? id with
  | some (.primitive width) => some (Sketch.primitiveName width)
  | _ => none

/-- A line for every target, if a depth is given or none is needed. -/
def targetLines? (t : SketchTable) : Option Nat → Option (List String)
  | some depth =>
    some (t.sortedTargets.map fun s => targetLine s ((t.render? s.sketch depth).getD ""))
  | none => t.sortedTargets.mapM fun s => (depthlessText? t s.sketch).map (targetLine s)

def tableText? (o : Options) (t : SketchTable) : Option String :=
  match o.tableFormat with
  | .document => some (t.toJson.write (.indented 2))
  | .lines => (targetLines? t o.depth).map ("\n".intercalate ·)

/-- Shows what a console has; an error on it decides the exit code. -/
def conclude (c : Console) : Course ExitCode := do
  perform (.remark c.summary.text)
  return if c.hasErrors then .reported else .success

def solution (s : Settings) (clock : Clock) (c : ConstraintSet) : Course Solution := do
  let solving := solve s clock 0 c
  say solving.events
  match solving.result with
  | .ok solution => return solution
  | .error (.exhausted e) => stop (.exhausted e.fault.text)
  | .error .uncuttable => stop .uncuttable
  | .error .overlong => stop .overlong

def solveTask (o : Options) (mark : Text.Mark) (s : Settings) (clock : Clock) (console : Console)
    (c : ConstraintSet) : Course ExitCode := do
  let solution ← solution s clock c
  match tableText? o solution.table with
  | none => stop .depthless
  | some text =>
    o.emit mark text
    let console := console.reports solution.reports
    conclude (if o.verbosity = 0 then console else console.put (solution.summary ++ "\n"))

/-- The graph of a constraint set, before it is closed. -/
def buildGraph (s : Settings) (c : ConstraintSet) : Course Intake := do
  match Intake.build s c with
  | .ok k =>
    say k.events
    return k
  | .error k =>
    say k.events
    stop .uncuttable

def passed (console : Console) (c : ConstraintSet) (k : Intake) : String :=
  console.mode Console.green ++ "✓" ++ console.mode Console.reset ++ " " ++ toString c.size ++
    " constraints, " ++ toString k.graph.size ++ " nodes.\n"

def checkTask (o : Options) (s : Settings) (console : Console) (c : ConstraintSet) :
    Course ExitCode := do
  let k ← buildGraph s c
  let console := console.reports k.reports
  conclude (if o.quiet || console.hasErrors then console else console.put (passed console c k))

def drawing (o : Options) (s : Settings) (clock : Clock) (c : ConstraintSet) : Course String := do
  let k ← buildGraph s c
  if o.unsaturated then
    return k.graph.draw "unsaturated"
  let closed := k.graph.close s clock 0
  match closed.result with
  | .error e => stop (.exhausted e.fault.text)
  | .ok stats =>
    if !stats.isMeasurable then stop .overlong
    say [stats.event]
    return closed.graph.draw "saturated"

def drawTask (o : Options) (mark : Text.Mark) (s : Settings) (clock : Clock) (c : ConstraintSet) :
    Course ExitCode := do
  let text ← drawing o s clock c
  o.emit mark text
  return .success

/-- The bases of variables and the names of targets. -/
def namesOf (c : ConstraintSet) : List String :=
  c.bases ++ c.bindings.filterMap fun b => match b.target with
    | .name s => some s
    | .number _ => none

/-- A message cannot hold half of a surrogate pair. -/
def encoded (mark : Text.Mark) (c : ConstraintSet) : Document.Decoded Bytes :=
  if (namesOf c).any mark.isIn then Document.fail Document.top .noMessage else Message.encode c

def convertTask (o : Options) (mark : Text.Mark) (c : ConstraintSet) : Course ExitCode := do
  match o.documentFormat with
  | .message =>
    let content ← ofDecoded (encoded mark c)
    o.emitBytes content
    return .success
  | .document =>
    o.emit mark (Document.write (.indented 2) c)
    return .success
  | .language =>
    match Language.write (if o.ascii then .ascii else .symbols) c with
    | .ok text =>
      o.emit mark text
      return .success
    | .error e => complain e.message

/-! ## Supplies -/

/-- The contents of the files that a request names, and the mark that spells halves. -/
structure Supplies where
  input : Except FileFault Bytes
  settings : Except FileFault Bytes
  mark : Text.Mark

/-- The files of a command line that names none. -/
def Supplies.nothing : Supplies := ⟨.error .missing, .error .missing, .first⟩

def holdsBytes (part : Bytes) : Bytes → Bool
  | [] => part.isEmpty
  | b :: rest => part.isPrefixOf (b :: rest) || holdsBytes part rest

/-- A file mentions the character in its text, or somewhere among its bytes if they are no text. -/
def mentions (c : Char) (bs : Bytes) : Bool :=
  match Text.ofBytes? bs with
  | some s => Json.mentions c s.toList
  | none => holdsBytes (Text.toBytes (String.singleton c)) bs

/-- A file of the request or its name mentions the character. -/
def Request.mentions (r : Request) (input settings : Except FileFault Bytes) (c : Char) : Bool :=
  r.input.toList.contains c || r.options.settingsFile.toList.contains c ||
    [input, settings].any fun content => match content with
      | .ok bs => Command.mentions c bs
      | .error _ => false

/-- The mark is one that the request does not mention. -/
def Request.supplies (r : Request) (input settings : Except FileFault Bytes) : Supplies where
  input := input
  settings := settings
  mark := .fresh (r.mentions input settings)

def Request.work (r : Request) (supplies : Supplies) (clock : Clock) (console : Console) :
    Course ExitCode := do
  let o := r.options
  let mark := supplies.mark
  let c ← loadInput mark o.inputFormat r.input supplies.input
  match r.task with
  | .convert => convertTask o mark c
  | .solve => solveTask o mark (← loadSettings mark o supplies.settings) clock console c
  | .check => checkTask o (← loadSettings mark o supplies.settings) console c
  | .draw => drawTask o mark (← loadSettings mark o supplies.settings) clock c

/-! ## Runs -/

/-- The least level that is shown. -/
def threshold (verbosity : Nat) : Level :=
  match verbosity with
  | 0 => .warning
  | 1 => .info
  | _ => .debug

/-- What an act comes to: an event is remarked on if its level is shown. -/
def Act.effect? (verbosity : Nat) : Act → Option Effect
  | .tell e =>
    if (threshold verbosity).rank ≤ e.level.rank then some (.remark (e.line ++ "\n")) else none
  | .perform e => some e

/-- The error stream shows halves as escapes. -/
def Effect.escaped (mark : Text.Mark) : Effect → Effect
  | .remark text => .remark (mark.escaped text)
  | e => e

/-- The complaint that a task ends with, if it does. -/
def Setback.remarks (console : Console) : Setback → List Effect
  | .malformed e => [.remark (console.syntaxError e).text]
  | .complaint message => [.remark (console.error message "").text]
  | .exhausted message => [.remark (console.error message "").text]
  | _ => []

def Setback.ending : Setback → Ending
  | .malformed _ | .complaint _ => .exit .unusable
  | .exhausted _ => .exit .exhausted
  | .undecodable => .broken .undecodable
  | .unencodable => .broken .unencodable
  | .uncuttable => .broken .uncuttable
  | .badName => .broken .badName
  | .depthless => .broken .depthless
  | .overlong => .broken .overlong

def Request.run (r : Request) (supplies : Supplies) (clock : Clock) (coloured : Bool) : Run :=
  let console := Console.start coloured
  let w := r.work supplies clock console
  let effects := w.acts.filterMap (Act.effect? r.options.verbosity)
  let (last, ending) := match w.result with
    | .ok code => ([], .exit code)
    | .error s => (s.remarks console, s.ending)
  ⟨(effects ++ last).map (Effect.escaped supplies.mark), ending⟩

def Invocation.run (supplies : Supplies) (clock : Clock) (coloured : Bool) : Invocation → Run
  | .overview => ⟨[.print (Text.toBytes (usage none))], .exit .unusable⟩
  | .help t => ⟨[.print (Text.toBytes (usage t))], .exit .success⟩
  | .version =>
    ⟨[.print (Text.toBytes (programName ++ " " ++ programVersion ++ "\n"))],
      .exit .success⟩
  | .misuse t m => ⟨[.remark (usage t ++ m.line t ++ "\n")], .exit .unusable⟩
  | .request r => r.run supplies clock coloured

end TypeRecovery.Command
