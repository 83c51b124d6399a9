/-
  TypeRecovery.Command.PathName — names of files.

  A path is a root and parts divided by slashes. Empty parts and single dots say nothing and
  are dropped in the normal form. The ending of a path is the last dot of its last part with
  what follows, unless the dot is the first or the last character there.
-/

namespace TypeRecovery.Command.PathName

def parts (path : String) : List String :=
  ((path.toList.splitOn '/').map String.ofList).filter fun p => p ≠ "" ∧ p ≠ "."

/-- Two slashes in front are a root of their own; any other number is the same as one. -/
def root (path : String) : String :=
  match (path.toList.takeWhile (· = '/')).length with
  | 0 => ""
  | 2 => "//"
  | _ => "/"

def normal (path : String) : String :=
  let name := root path ++ "/".intercalate (parts path)
  if name.isEmpty then "." else name

/-- The ending of a part, with its dot. -/
def endingOf (part : List Char) : List Char :=
  let tail := (part.reverse.takeWhile (· ≠ '.')).reverse
  let stem := part.length - tail.length - 1
  if tail.isEmpty ∨ stem = 0 then [] else '.' :: tail

def ending (path : String) : String :=
  match (parts path).getLast? with
  | some p => String.ofList (endingOf p.toList)
  | none => ""

end TypeRecovery.Command.PathName
