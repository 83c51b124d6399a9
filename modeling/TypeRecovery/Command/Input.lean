/-
  TypeRecovery.Command.Input — what a task reads.

  The input is a message, a document or a text of the language. Unless a format is asked
  for, the ending of the file's name tells a message, and a brace at the beginning tells a
  document. Files and standard input are read as UTF-8 with any line ends.

  Settings come from a file, if there is one, and from switches after that.

  Halves of surrogate pairs, which documents and settings may name, are spelled by a mark.
-/

import TypeRecovery.Command.Course
import TypeRecovery.Command.Folder
import TypeRecovery.Command.PathName
import TypeRecovery.Command.Request
import TypeRecovery.Message.Codec
import TypeRecovery.Settings

namespace TypeRecovery.Command

open Course (say stop complain)

/-- What stands for standard input among the names of files. -/
def standardInput : String := "-"

/-- How an input is named in messages. -/
def inputName (path : String) : String := if path = standardInput then "<stdin>" else path

def opened (path : String) (content : Except FileFault Bytes) : Course Bytes :=
  match content with
  | .ok bs => pure bs
  | .error .missing => complain ("input not found: " ++ path)
  | .error .badName => stop .badName
  | .error f => complain ("cannot read " ++ path ++ ": " ++ f.message (PathName.normal path))

/-- The text that a file holds, every line end a line feed. -/
def fileText? (bs : Bytes) : Option String :=
  (Text.ofBytes? bs).map fun s => String.ofList (Text.unifyLineEnds s.toList)

def inputText (path : String) (bs : Bytes) : Course String :=
  match fileText? bs with
  | some s => pure s
  | none =>
    if path = standardInput then stop .undecodable else complain ("cannot read " ++ path ++ ": ...")

def messageEndings : List String := [".pb", ".binpb"]

/-- The format after a look at the file's name. -/
def InputFormat.byName (format : InputFormat) (path : String) : InputFormat :=
  if format = .auto ∧ PathName.ending path ∈ messageEndings then .message else format

/-- A document begins with a brace, blanks aside. -/
def beginsObject (text : String) : Bool :=
  (text.toList.dropWhile Text.isBlank).head? = some '\x7b'

/-- The format after a look at the text. -/
def InputFormat.byText (format : InputFormat) (text : String) : InputFormat :=
  if format = .document ∨ (format = .auto ∧ beginsObject text) then .document else .language

def readingEvent (path kind : String) : Event :=
  ⟨.debug, .reading, "Reading " ++ inputName path ++ " as " ++ kind⟩

def ofDecoded {α : Type} : Document.Decoded α → Course α
  | .ok a => pure a
  | .error e => complain e.fault.text

def parsedEvent (path : String) (c : ConstraintSet) : Event :=
  ⟨.debug, .language, "Parsed " ++ toString c.subtypings.length ++ " subtyping and " ++
    toString c.bindings.length ++ " additional constraints from " ++ inputName path⟩

def parseInput (path text : String) : Course ConstraintSet :=
  match Language.parse text (some (inputName path)) with
  | .ok c => do
    say [parsedEvent path c]
    return c
  | .error e => stop (.malformed e)

def loadText (mark : Text.Mark) (format : InputFormat) (path text : String) :
    Course ConstraintSet := do
  match format.byText text with
  | .document =>
    say [readingEvent path "a JSON constraint document"]
    ofDecoded (Document.read mark text)
  | _ =>
    say [readingEvent path "TSCL text"]
    parseInput path text

/-- The constraint set of an input. -/
def loadInput (mark : Text.Mark) (format : InputFormat) (path : String)
    (content : Except FileFault Bytes) : Course ConstraintSet := do
  let bs ← opened path content
  match format.byName path with
  | .message =>
    say [readingEvent path "a binary constraint message"]
    ofDecoded (Message.decode bs)
  | format =>
    let text ← inputText path bs
    loadText mark format path text

/-- The members of a file with settings. -/
def settingsMembers (mark : Text.Mark) (path : String) (content : Except FileFault Bytes) :
    Course Json.Members :=
  match content with
  | .error .badName => stop .badName
  | .error f => complain ("cannot load config " ++ path ++ ": " ++ f.message path)
  | .ok bs =>
    match fileText? bs with
    | none => stop .undecodable
    | some text =>
      match Json.read mark text with
      | .ok (.object members) => pure members
      | .ok _ => complain ("config " ++ path ++ " must hold a JSON object")
      | .error r => complain ("cannot load config " ++ path ++ ": " ++ r.describe text)

def loadSettings (mark : Text.Mark) (o : Options) (content : Except FileFault Bytes) :
    Course Settings := do
  let members ←
    if o.settingsFile.isEmpty then pure [] else settingsMembers mark o.settingsFile content
  match Settings.ofMembers (Entries.setAll members o.overrides) with
  | .ok s => return s
  | .error r => complain ("invalid configuration: " ++ r.message)

end TypeRecovery.Command
