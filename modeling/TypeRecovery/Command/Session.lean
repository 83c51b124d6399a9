/-
  TypeRecovery.Command.Session — a command line run in a folder.

  The files that a request names are read from the folder first, a dash standing for
  standard input. Then the effects take place in order, up to the first file that cannot be
  written.
-/

import TypeRecovery.Command.Run

namespace TypeRecovery.Command

/-- What a run leaves behind. -/
structure Transcript where
  output : Bytes
  remarks : String
  folder : Folder
  ending : Ending
  deriving DecidableEq, Repr

namespace Transcript

def perform (t : Transcript) : List Effect → Transcript
  | [] => t
  | .print content :: rest => perform { t with output := t.output ++ content } rest
  | .remark text :: rest => perform { t with remarks := t.remarks ++ text } rest
  | .write path content :: rest =>
    match t.folder.write path content with
    | .ok folder => perform { t with folder := folder } rest
    | .error f => { t with ending := .broken (.unwritable f) }

def ofRun (folder : Folder) (r : Run) : Transcript := perform ⟨[], "", folder, r.ending⟩ r.effects

end Transcript

/-- Reads the files that a command line names. -/
def Invocation.supplies (folder : Folder) (standard : Bytes) : Invocation → Supplies
  | .request r =>
    let input :=
      if r.input = standardInput then .ok standard else folder.read (PathName.normal r.input)
    r.supplies input (folder.read r.options.settingsFile)
  | _ => .nothing

/-- Runs a command line, not on a terminal. -/
def session (args : List String) (folder : Folder) (standard : Bytes) (clock : Clock) :
    Transcript :=
  let invocation := Invocation.ofArguments args
  .ofRun folder (invocation.run (invocation.supplies folder standard) clock false)

end TypeRecovery.Command
