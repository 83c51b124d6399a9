/-
  TypeRecovery.Json.Basic — JSON values.

  Integers have any size and stay apart from binary64 numbers. An object is the list of its
  members in the order of their first appearance, with no key twice.
-/

import TypeRecovery.Amount
import TypeRecovery.Entries

namespace TypeRecovery

inductive Json where
  | null
  | bool (b : Bool)
  | whole (n : Int)
  | real (x : Binary64)
  | text (s : String)
  | list (items : List Json)
  | object (members : List (String × Json))
  deriving Inhabited

namespace Json

/-- The members of an object. -/
abbrev Members := Entries String Json

/-- The number that a number or a truth value stands for. -/
def amount? : Json → Option Amount
  | .bool b => some (.truth b)
  | .whole n => some (.whole n)
  | .real x => some (.real x)
  | _ => none

end Json

def Amount.toJson : Amount → Json
  | .whole n => .whole n
  | .real x => .real x
  | .truth b => .bool b

end TypeRecovery
