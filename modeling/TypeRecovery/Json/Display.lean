/-
  TypeRecovery.Json.Display — values as messages show them.

  Messages write `True`, `False` and `None`, quote strings, put lists in brackets and
  objects in braces, and write numbers in their short form. A string that is itself the
  thing shown is not quoted (`shown`); one inside a list or object is (`display`).
-/

import TypeRecovery.Json.Basic
import TypeRecovery.Text.Quoted

namespace TypeRecovery.Json

def commaSeparated (items : List String) : String := ", ".intercalate items

mutual

def display : Json → String
  | .null => "None"
  | .bool b => (Amount.truth b).text
  | .whole n => (Amount.whole n).text
  | .real x => (Amount.real x).text
  | .text s => Text.quoted s
  | .list items => "[" ++ commaSeparated (displayItems items) ++ "]"
  | .object members => "\x7b" ++ commaSeparated (displayMembers members) ++ "\x7d"

def displayItems : List Json → List String
  | [] => []
  | j :: rest => display j :: displayItems rest

def displayMembers : List (String × Json) → List String
  | [] => []
  | (k, j) :: rest => (Text.quoted k ++ ": " ++ display j) :: displayMembers rest

end

def shown : Json → String
  | .text s => s
  | j => display j

/-- The word for the kind of a value in messages. -/
def kindName : Json → String
  | .null => "NoneType"
  | .bool _ => "bool"
  | .whole _ => "int"
  | .real _ => "float"
  | .text _ => "str"
  | .list _ => "list"
  | .object _ => "dict"

mutual

/-- Sameness of values: numbers and truth values by exact value, an undefined number only as
itself, objects whatever the order of their members. -/
def same : Json → Json → Bool
  | .null, .null => true
  | .text a, .text b => a = b
  | .list a, .list b => sameItems a b
  | .object a, .object b => a.length = b.length && sameMembers a b
  | .bool a, j => sameAmount (.truth a) j
  | .whole a, j => sameAmount (.whole a) j
  | .real a, j => sameAmount (.real a) j
  | _, _ => false

def sameAmount (a : Amount) (j : Json) : Bool :=
  match j.amount? with
  | some b => a = b || a.same b
  | none => false

def sameItems : List Json → List Json → Bool
  | [], [] => true
  | a :: as, b :: bs => same a b && sameItems as bs
  | _, _ => false

def sameMembers : List (String × Json) → List (String × Json) → Bool
  | [], _ => true
  | (k, a) :: rest, other =>
    (match Entries.lookup? other k with
      | some b => same a b
      | none => false) && sameMembers rest other

end

end TypeRecovery.Json
