/-
  TypeRecovery.Command.Course — what a task does on its way, and how it comes out.

  A task tells events to the log and has effects: output goes to standard output or to a file,
  remarks go to the error stream. In the end it has a result, unless a setback stops it. What
  it did before the setback stays done.
-/

import TypeRecovery.Event
import TypeRecovery.Language.Reader
import TypeRecovery.Text.Utf8

namespace TypeRecovery.Command

inductive Effect where
  | print (content : Bytes)
  | write (path : String) (content : Bytes)
  | remark (text : String)
  deriving DecidableEq, Repr

/-- Why a task stops. -/
inductive Setback where
  | malformed (e : Language.SyntaxError)
  | complaint (message : String)
  | exhausted (message : String)
  /-- Bytes that are no text, where that is not complained about. -/
  | undecodable
  /-- Text that has no bytes, since it holds half of a surrogate pair. -/
  | unencodable
  /-- A path that would have to be cut at a limit that is not an integer. -/
  | uncuttable
  /-- A name of a file that no file can have. -/
  | badName
  /-- A depth that is needed but left out. -/
  | depthless
  /-- A duration that cannot be shown. -/
  | overlong
  deriving DecidableEq, Repr

inductive Act where
  | tell (e : Event)
  | perform (e : Effect)
  deriving DecidableEq, Repr

/-- The acts of a task in their order, and its result or what has stopped it. -/
structure Course (α : Type) where
  acts : List Act
  result : Except Setback α

namespace Course

variable {α β : Type}

def done (a : α) : Course α := ⟨[], .ok a⟩

def andThen (w : Course α) (f : α → Course β) : Course β :=
  match w.result with
  | .ok a => ⟨w.acts ++ (f a).acts, (f a).result⟩
  | .error s => ⟨w.acts, .error s⟩

instance : Monad Course where
  pure := done
  bind := andThen

def say (events : List Event) : Course Unit := ⟨events.map .tell, .ok ()⟩

def perform (e : Effect) : Course Unit := ⟨[.perform e], .ok ()⟩

def stop (s : Setback) : Course α := ⟨[], .error s⟩

def complain (message : String) : Course α := stop (.complaint message)

end Course

end TypeRecovery.Command
