/-
  TypeRecovery.Json.Writer — JSON text of a value.

  A text is written on one line, with a comma and a blank between items, or over several
  lines, each level indented by a text of its own, usually blanks. A writer may be told to
  escape every character outside ASCII by its 16-bit units.
-/

import TypeRecovery.Json.Basic
import TypeRecovery.Text.Quoted

namespace TypeRecovery.Json

structure Style where
  /-- The text that indents one level, or everything on one line. -/
  indent : Option (List Char)
  asciiOnly : Bool

def Style.line : Style := ⟨none, false⟩

def Style.asciiLine : Style := ⟨none, true⟩

def Style.indentedBy (unit : String) : Style := ⟨some unit.toList, false⟩

def Style.indented (width : Nat) : Style := ⟨some (List.replicate width ' '), false⟩

def unitEscape (unit : Nat) : List Char := '\\' :: 'u' :: Text.hexDigits 4 unit

def escapeChar (asciiOnly : Bool) (c : Char) : List Char :=
  if c = '"' then ['\\', '"']
  else if c = '\\' then ['\\', '\\']
  else if c = '\n' then ['\\', 'n']
  else if c = '\r' then ['\\', 'r']
  else if c = '\t' then ['\\', 't']
  else if c.toNat = 0x8 then ['\\', 'b']
  else if c.toNat = 0xc then ['\\', 'f']
  else if c.toNat < 0x20 then unitEscape c.toNat
  else if !asciiOnly || c.toNat < 0x7f then [c]
  else if c.toNat < 0x10000 then unitEscape c.toNat
  else
    let v := c.toNat - 0x10000
    unitEscape (0xd800 + v / 0x400) ++ unitEscape (0xdc00 + v % 0x400)

def writeText (asciiOnly : Bool) (s : String) : List Char :=
  '"' :: s.toList.flatMap (escapeChar asciiOnly) ++ ['"']

def writeReal : Binary64 → List Char
  | .infinite false => "Infinity".toList
  | .infinite true => "-Infinity".toList
  | .undefined => "NaN".toList
  | x => x.text.toList

def newLine (unit : List Char) (level : Nat) : List Char :=
  '\n' :: (List.replicate level unit).flatten

/-- What stands after an opening bracket and before a closing one. -/
def Style.margin (style : Style) (level : Nat) : List Char :=
  match style.indent with
  | none => []
  | some unit => newLine unit level

def Style.separator (style : Style) (level : Nat) : List Char :=
  match style.indent with
  | none => [',', ' ']
  | some unit => ',' :: newLine unit level

mutual

/-- The text of a value that stands at a level of nesting. -/
def writeAt (style : Style) (level : Nat) : Json → List Char
  | .null => ['n', 'u', 'l', 'l']
  | .bool true => ['t', 'r', 'u', 'e']
  | .bool false => ['f', 'a', 'l', 's', 'e']
  | .whole n => (toString n).toList
  | .real x => writeReal x
  | .text s => writeText style.asciiOnly s
  | .list [] => ['[', ']']
  | .list (j :: rest) =>
    '[' :: style.margin (level + 1) ++ writeAt style (level + 1) j ++
      writeItems style (level + 1) rest ++ style.margin level ++ [']']
  | .object [] => ['\x7b', '\x7d']
  | .object ((k, j) :: rest) =>
    '\x7b' :: style.margin (level + 1) ++ writeText style.asciiOnly k ++ [':', ' '] ++
      writeAt style (level + 1) j ++ writeMembers style (level + 1) rest ++
      style.margin level ++ ['\x7d']

def writeItems (style : Style) (level : Nat) : List Json → List Char
  | [] => []
  | j :: rest => style.separator level ++ writeAt style level j ++ writeItems style level rest

def writeMembers (style : Style) (level : Nat) : List (String × Json) → List Char
  | [] => []
  | (k, j) :: rest =>
    style.separator level ++ writeText style.asciiOnly k ++ [':', ' '] ++
      writeAt style level j ++ writeMembers style level rest

end

def write (style : Style) (j : Json) : String := String.ofList (writeAt style 0 j)

end TypeRecovery.Json
