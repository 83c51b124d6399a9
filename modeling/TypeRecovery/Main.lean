/-
  TypeRecovery.Main — the program.

  Everything is decided by the run of the command line; here its files are read and its
  effects take place. The clock of a run stands still, so durations show as zero and no
  deadline passes.
-/

import TypeRecovery.Command.Run

namespace TypeRecovery.Command

/-- An error number, which may come with its sign turned. -/
def errorNumber (n : UInt32) : Nat :=
  if n.toNat < 0x80000000 then n.toNat else 0x100000000 - n.toNat

def numberedFault (n : Nat) (cause : String) : FileFault :=
  if n = FileFault.notFolder.number then .notFolder
  else if n = FileFault.isFolder.number then .isFolder
  else if n = FileFault.nameTooLong.number then .nameTooLong
  else .other n cause

def faultOf : IO.Error → FileFault
  | .noFileOrDirectory _ _ _ => .missing
  | .noSuchThing _ _ _ => .missing
  | .permissionDenied _ n cause => numberedFault (errorNumber n) cause
  | .inappropriateType _ n cause => numberedFault (errorNumber n) cause
  | .invalidArgument _ n cause => numberedFault (errorNumber n) cause
  | e => .other 5 (toString e)

def contentOf (path : String) : IO (Except FileFault Bytes) := do
  if path.toList.contains '\x00' then return .error .badName
  try
    let content ← IO.FS.readBinFile path
    return .ok content.toList
  catch e => return .error (faultOf e)

partial def readAll (input : IO.FS.Stream) (sofar : ByteArray) : IO ByteArray := do
  let chunk ← input.read 65536
  if chunk.isEmpty then return sofar else readAll input (sofar ++ chunk)

def suppliesOf : Invocation → IO Supplies
  | .request r => do
    let input ←
      if r.input = standardInput then
        pure (.ok (← readAll (← IO.getStdin) .empty).toList)
      else contentOf (PathName.normal r.input)
    return r.supplies input (← contentOf r.options.settingsFile)
  | _ => return .nothing

/-- Lets one effect take place; a file that cannot be written is the end. -/
def perform : Effect → IO (Option FileFault)
  | .print content => do
    let output ← IO.getStdout
    output.write ⟨content.toArray⟩
    output.flush
    return none
  | .remark text => do
    (← IO.getStderr).putStr text
    return none
  | .write path content => do
    if path.toList.contains '\x00' then return some .badName
    try
      IO.FS.writeBinFile path ⟨content.toArray⟩
      return none
    catch e => return some (faultOf e)

def performAll : List Effect → IO (Option FileFault)
  | [] => return none
  | e :: rest => do
    match ← perform e with
    | some f => return some f
    | none => performAll rest

def Breakdown.message : Breakdown → String
  | .undecodable => "the input is not UTF-8 text"
  | .unencodable => "the output holds half of a surrogate pair"
  | .uncuttable => "a path cannot be cut at a length that is not an integer"
  | .badName => FileFault.cause .badName
  | .depthless => "a sketch cannot be written without a depth"
  | .overlong => "a duration is too long to be shown"
  | .unwritable f => "[Errno " ++ toString f.number ++ "] " ++ f.cause

def leave : Ending → IO UInt32
  | .exit code => return code.number.toUInt32
  | .broken b => do
    (← IO.getStderr).putStrLn b.message
    return 1

def execute (args : List String) : IO UInt32 := do
  let invocation := Invocation.ofArguments args
  let supplies ← suppliesOf invocation
  let coloured := (← (← IO.getStderr).isTty) && (← IO.getEnv "NO_COLOR").isNone
  let run := invocation.run supplies (.ticking (.whole 0)) coloured
  match ← performAll run.effects with
  | some f => leave (.broken (.unwritable f))
  | none => leave run.ending

end TypeRecovery.Command

def main (args : List String) : IO UInt32 := TypeRecovery.Command.execute args
