/-
  TypeRecovery.Command.Folder — a folder of files.

  A folder has files and no folders in it. A path is walked part by part: an empty part or a
  dot stays in a folder, and two dots leave it. Below a file there is nothing. A part has at
  most 255 bytes, a path at most 4095, and neither holds the NUL character.

  Outside are the folders of the system. Their files cannot be read, and what is written
  there leaves no trace. The null device reads as an empty file and forgets what is written.
-/

import TypeRecovery.Entries
import TypeRecovery.Text.Blank
import TypeRecovery.Text.Quoted
import TypeRecovery.Text.Utf8

namespace TypeRecovery.Command

inductive FileFault where
  | missing
  | notFolder
  | isFolder
  | nameTooLong
  /-- The NUL character, which no path can hold. -/
  | badName
  /-- Anything else that a file system may say. -/
  | other (number : Nat) (cause : String)
  deriving DecidableEq, Repr

namespace FileFault

def number : FileFault → Nat
  | .missing => 2
  | .notFolder => 20
  | .isFolder => 21
  | .nameTooLong => 36
  | .badName => 22
  | .other number _ => number

def cause : FileFault → String
  | .missing => "No such file or directory"
  | .notFolder => "Not a directory"
  | .isFolder => "Is a directory"
  | .nameTooLong => "File name too long"
  | .badName => "embedded null byte"
  | .other _ cause => cause

def message (f : FileFault) (path : String) : String :=
  "[Errno " ++ toString f.number ++ "] " ++ f.cause ++ ": " ++ Text.quoted path

end FileFault

abbrev Folder := Entries String Bytes

/-- Where a path leads. -/
inductive Place where
  | here
  | file (name : String)
  /-- A name in the folder that no file has. -/
  | free (name : String)
  /-- The folder that holds all others. -/
  | root
  | devices
  /-- Any other folder. -/
  | outside
  /-- A name in a folder outside. -/
  | elsewhere (name : String)
  | null
  deriving DecidableEq, Repr

namespace Place

def maxNameBytes : Nat := 255

def maxPathBytes : Nat := 4095

/-- The folders that stand in the root. -/
def systemFolders : List String :=
  ["bin", "boot", "dev", "etc", "home", "lib", "lib64", "media", "mnt", "opt", "proc", "root",
   "run", "sbin", "srv", "sys", "tmp", "usr", "var"]

/-- Why a name that nothing has leads nowhere. -/
def absence (name : String) : FileFault :=
  if name.utf8ByteSize ≤ maxNameBytes then .missing else .nameTooLong

/-- Two dots lead up; what is up from a folder outside is taken for the root. -/
def up : Place → Place
  | .here => .outside
  | _ => .root

/-- What a folder has under a name. -/
def entry (f : Folder) (place : Place) (name : String) : Place :=
  match place with
  | .here => if Entries.has f name then .file name else .free name
  | .root =>
    if name = "dev" then .devices
    else if name ∈ systemFolders then .outside
    else .elsewhere name
  | .devices => if name = "null" then .null else .elsewhere name
  | _ => .elsewhere name

end Place

namespace Folder

def step (f : Folder) (place : Place) (part : String) : Except FileFault Place :=
  match place with
  | .file _ | .null => .error .notFolder
  | .free name | .elsewhere name => .error (Place.absence name)
  | .here | .root | .devices | .outside =>
    if part = "" ∨ part = "." then .ok place
    else if part = ".." then .ok place.up
    else .ok (place.entry f part)

def locate (f : Folder) (path : String) : Except FileFault Place :=
  match (path.toList.splitOn '/').map String.ofList with
  | [""] => .error .missing
  | "" :: parts => parts.foldlM f.step .root
  | parts => parts.foldlM f.step .here

/-- A path that can be walked at all. -/
def checkPath (path : String) : Except FileFault Unit :=
  if path.toList.contains '\x00' then .error .badName
  else if path.utf8ByteSize ≤ Place.maxPathBytes then .ok ()
  else .error .nameTooLong

def read (f : Folder) (path : String) : Except FileFault Bytes := do
  checkPath path
  match ← f.locate path with
  | .file name => .ok ((Entries.lookup? f name).getD [])
  | .null => .ok []
  | .here | .root | .devices | .outside => .error .isFolder
  | .free name | .elsewhere name => .error (Place.absence name)

def withoutSlashes (path : String) : String :=
  String.ofList (Text.trimEndBy (· = '/') path.toList)

/-- Writes a file anew, in the place of one that has the name. A slash at the end of a path
asks for a folder. -/
def write (f : Folder) (path : String) (content : Bytes) : Except FileFault Folder := do
  checkPath path
  let bare := withoutSlashes path
  if bare.isEmpty && !path.isEmpty then throw .isFolder
  let place ← f.locate bare
  if bare ≠ path then throw .isFolder
  match place with
  | .file name => return Entries.set f name content
  | .free name =>
    if name.utf8ByteSize ≤ Place.maxNameBytes then return Entries.set f name content
    else throw .nameTooLong
  | .elsewhere name =>
    if name.utf8ByteSize ≤ Place.maxNameBytes then return f else throw .nameTooLong
  | .null => return f
  | .here | .root | .devices | .outside => throw .isFolder

end Folder

end TypeRecovery.Command
