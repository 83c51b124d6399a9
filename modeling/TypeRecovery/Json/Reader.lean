/-
  TypeRecovery.Json.Reader — values from JSON text.

  The text holds one value, with blanks, tabs and line breaks around and inside it. Beside
  the JSON grammar the names `NaN`, `Infinity` and `-Infinity` are numbers. Of a key that
  occurs twice the last value counts. A string may hold half of a surrogate pair, which is
  spelled by a mark. A text that does not fit is refused with the cause and the place: where
  a value, a name or a delimiter should have begun, at the opening quote of a string that
  does not end, at a control character inside a string, at the backslash of an unknown
  escape, and at the `u` of a malformed unicode escape.
-/

import TypeRecovery.Json.Basic
import TypeRecovery.Text.Cursor
import TypeRecovery.Text.Digits
import TypeRecovery.Text.Half
import TypeRecovery.Text.Lines

namespace TypeRecovery.Json

open Text (Cursor Mark Sign isDigit naturalOf)

inductive Cause where
  | valueExpected
  | nameExpected
  | colonExpected
  | commaExpected
  | extraData
  | unterminatedText
  | controlCharacter
  | unknownEscape
  | unicodeEscape
  | byteOrderMark
  deriving DecidableEq, Repr

def Cause.message : Cause → String
  | .valueExpected => "Expecting value"
  | .nameExpected => "Expecting property name enclosed in double quotes"
  | .colonExpected => "Expecting ':' delimiter"
  | .commaExpected => "Expecting ',' delimiter"
  | .extraData => "Extra data"
  | .unterminatedText => "Unterminated string starting at"
  | .controlCharacter => "Invalid control character at"
  | .unknownEscape => "Invalid \\escape"
  | .unicodeEscape => "Invalid \\uXXXX escape"
  | .byteOrderMark => "Unexpected UTF-8 BOM (decode using utf-8-sig)"

structure Refusal where
  cause : Cause
  position : Nat
  deriving DecidableEq, Repr

abbrev Reading (α : Type) := Except Refusal α

def refuse {α : Type} (cause : Cause) (position : Nat) : Reading α := .error ⟨cause, position⟩

def isSpace (c : Char) : Bool := c = ' ' || c = '\t' || c = '\n' || c = '\r'

/-! ## Strings -/

def hexValue? (c : Char) : Option Nat :=
  if '0' ≤ c ∧ c ≤ '9' then some (c.toNat - '0'.toNat)
  else if 'a' ≤ c ∧ c ≤ 'f' then some (c.toNat - 'a'.toNat + 10)
  else if 'A' ≤ c ∧ c ≤ 'F' then some (c.toNat - 'A'.toNat + 10)
  else none

/-- The 16-bit unit that four hexadecimal digits name, and the text after them, which must
not be empty: at least the closing quote has to follow. -/
def unit? : List Char → Option (Nat × List Char)
  | a :: b :: c :: d :: e :: rest => do
    let a ← hexValue? a
    let b ← hexValue? b
    let c ← hexValue? c
    let d ← hexValue? d
    return (((a * 16 + b) * 16 + c) * 16 + d, e :: rest)
  | _ => none

def plainEscape? (c : Char) : Option Char :=
  match c with
  | '"' => some '"'
  | '\\' => some '\\'
  | '/' => some '/'
  | 'b' => some (Char.ofNat 0x8)
  | 'f' => some (Char.ofNat 0xc)
  | 'n' => some '\n'
  | 'r' => some '\r'
  | 't' => some '\t'
  | _ => none

/-- The text mentions the character: it holds it, or the digits of an escape that names it. -/
def mentions (c : Char) : List Char → Bool
  | [] => false
  | d :: rest => d = c || (unit? (d :: rest)).any (fun e => e.1 = c.toNat) || mentions c rest

def isHighUnit (u : Nat) : Bool := 0xd800 ≤ u && u < 0xdc00

def isLowUnit (u : Nat) : Bool := 0xdc00 ≤ u && u < 0xe000

/-- A unit on its own: a character, or half of a pair. -/
def signOfUnit (u : Nat) : Sign :=
  if isHighUnit u || isLowUnit u then .half u else .char (Char.ofNat u)

/-- A unicode escape whose `u` stands at `position`, with the text behind the `u`: the sign,
how many characters were read behind the `u`, and the rest. Two escapes that form a pair are
read together. -/
def unicodeEscape (position : Nat) (cs : List Char) : Reading (Sign × Nat × List Char) :=
  match unit? cs with
  | none => refuse .unicodeEscape position
  | some (high, rest) =>
    match rest with
    | '\\' :: 'u' :: more =>
      if isHighUnit high && !(more.drop 4).isEmpty then
        match unit? more with
        | none => refuse .unicodeEscape (position + 6)
        | some (low, rest') =>
          if isLowUnit low then
            .ok (.char (Char.ofNat (0x10000 + (high - 0xd800) * 0x400 + (low - 0xdc00))), 10, rest')
          else .ok (signOfUnit high, 4, rest)
      else .ok (signOfUnit high, 4, rest)
    | _ => .ok (signOfUnit high, 4, rest)

/-- Reads a string behind its opening quote, which stands at `opening`. The budget is at
least the number of characters ahead. -/
def textFrom (opening : Nat) : Nat → Nat → List Char → Reading (List Sign × Cursor)
  | 0, _, _ => refuse .unterminatedText opening
  | budget + 1, position, cs =>
    match cs with
    | [] => refuse .unterminatedText opening
    | '"' :: rest => .ok ([], ⟨position + 1, rest⟩)
    | ['\\'] => refuse .unterminatedText opening
    | '\\' :: 'u' :: rest => do
      let (sign, n, rest) ← unicodeEscape (position + 1) rest
      let (tail, after) ← textFrom opening budget (position + 2 + n) rest
      return (sign :: tail, after)
    | '\\' :: e :: rest =>
      match plainEscape? e with
      | none => refuse .unknownEscape position
      | some c => do
        let (tail, after) ← textFrom opening budget (position + 2) rest
        return (.char c :: tail, after)
    | c :: rest =>
      if c.toNat ≤ 0x1f then refuse .controlCharacter position
      else do
        let (tail, after) ← textFrom opening budget (position + 1) rest
        return (.char c :: tail, after)

/-- Reads a string whose opening quote is the next character. -/
def readText (mark : Mark) (budget : Nat) (c : Cursor) : Reading (String × Cursor) := do
  let (signs, after) ← textFrom c.position budget (c.position + 1) (c.rest.drop 1)
  return (Text.spell mark signs, after)

/-! ## Numbers -/

/-- The digits of the whole part: a zero alone, or digits that begin with none. -/
def wholeDigits : List Char → List Char
  | [] => []
  | c :: rest => if c = '0' then ['0'] else if isDigit c then c :: rest.takeWhile isDigit else []

/-- The digits behind a point, when there is one with a digit behind it. -/
def pointDigits : List Char → List Char
  | '.' :: rest => rest.takeWhile isDigit
  | _ => []

/-- An exponent: its value and its length, zero when there is none. -/
def exponentPart : List Char → Int × Nat
  | e :: rest =>
    if e = 'e' ∨ e = 'E' then
      let (negative, signs, rest) := match rest with
        | '-' :: r => (true, 1, r)
        | '+' :: r => (false, 1, r)
        | r => (false, 0, r)
      let digits := rest.takeWhile isDigit
      if digits.isEmpty then (0, 0)
      else
        let n : Int := naturalOf digits
        (if negative then -n else n, 1 + signs + digits.length)
    else (0, 0)
  | [] => (0, 0)

/-- Reads a number, an integer unless it has a point or an exponent. -/
def readNumber (c : Cursor) : Reading (Json × Cursor) :=
  let (negative, body) := match c.rest with
    | '-' :: rest => (true, rest)
    | rest => (false, rest)
  let whole := wholeDigits body
  if whole.isEmpty then refuse .valueExpected c.position
  else
    let afterWhole := body.drop whole.length
    let point := pointDigits afterWhole
    let afterPoint := if point.isEmpty then afterWhole else afterWhole.drop (point.length + 1)
    let (exponent, size) := exponentPart afterPoint
    let read := (if negative then 1 else 0) + whole.length +
      (if point.isEmpty then 0 else point.length + 1) + size
    let after : Cursor := ⟨c.position + read, afterPoint.drop size⟩
    if point.isEmpty ∧ size = 0 then
      let n : Int := naturalOf whole
      .ok (.whole (if negative then -n else n), after)
    else
      .ok (.real (.ofDecimal negative (naturalOf (whole ++ point)) (exponent - point.length)), after)

/-! ## Values -/

/-- Drops a literal word that the text begins with. -/
def word? (w : List Char) (c : Cursor) : Option Cursor :=
  if w.isPrefixOf c.rest then some (c.advance w.length) else none

def literals : List (List Char × Json) :=
  [("null".toList, .null), ("true".toList, .bool true), ("false".toList, .bool false),
   ("NaN".toList, .real .undefined), ("Infinity".toList, .real (.infinite false)),
   ("-Infinity".toList, .real (.infinite true))]

def literal? (c : Cursor) : Option (Json × Cursor) :=
  literals.findSome? fun (w, j) => (word? w c).map fun after => (j, after)

mutual

/-- Reads one value that begins at the cursor. The budget, at least twice the number of
characters ahead and two more, bounds the nesting and the number of items. -/
def readValue (mark : Mark) (budget : Nat) (c : Cursor) : Reading (Json × Cursor) :=
  match budget with
  | 0 => refuse .valueExpected c.position
  | budget + 1 =>
    match c.rest with
    | [] => refuse .valueExpected c.position
    | '"' :: _ => do
      let (s, after) ← readText mark (budget + 1) c
      return (.text s, after)
    | '\x7b' :: rest =>
      let inner := (Cursor.mk (c.position + 1) rest).skip isSpace
      match inner.rest with
      | '\x7d' :: rest => .ok (.object [], ⟨inner.position + 1, rest⟩)
      | _ => do
        let (members, after) ← readMembers mark budget inner
        return (.object (Entries.setAll [] members), after)
    | '[' :: rest =>
      let inner := (Cursor.mk (c.position + 1) rest).skip isSpace
      match inner.rest with
      | ']' :: rest => .ok (.list [], ⟨inner.position + 1, rest⟩)
      | _ => do
        let (items, after) ← readItems mark budget inner
        return (.list items, after)
    | _ =>
      match literal? c with
      | some result => .ok result
      | none => readNumber c

/-- Reads the items of a list from the first to the closing bracket. -/
def readItems (mark : Mark) (budget : Nat) (c : Cursor) : Reading (List Json × Cursor) :=
  match budget with
  | 0 => refuse .valueExpected c.position
  | budget + 1 => do
    let (item, after) ← readValue mark budget c
    let after := after.skip isSpace
    match after.rest with
    | ']' :: rest => return ([item], ⟨after.position + 1, rest⟩)
    | ',' :: rest =>
      let (items, last) ← readItems mark budget ((Cursor.mk (after.position + 1) rest).skip isSpace)
      return (item :: items, last)
    | _ => refuse .commaExpected after.position

/-- Reads the members of an object from the first to the closing brace. -/
def readMembers (mark : Mark) (budget : Nat) (c : Cursor) :
    Reading (List (String × Json) × Cursor) :=
  match budget with
  | 0 => refuse .nameExpected c.position
  | budget + 1 =>
    match c.rest with
    | '"' :: _ => do
      let (name, afterName) ← readText mark (budget + 1) c
      let colon := afterName.skip isSpace
      match colon.rest with
      | ':' :: rest =>
        let (value, after) ← readValue mark budget ((Cursor.mk (colon.position + 1) rest).skip isSpace)
        let after := after.skip isSpace
        match after.rest with
        | '\x7d' :: rest => return ([(name, value)], ⟨after.position + 1, rest⟩)
        | ',' :: rest =>
          let (members, last) ←
            readMembers mark budget ((Cursor.mk (after.position + 1) rest).skip isSpace)
          return ((name, value) :: members, last)
        | _ => refuse .commaExpected after.position
      | _ => refuse .colonExpected colon.position
    | _ => refuse .nameExpected c.position

end

/-- Reads a whole text. -/
def readChars (mark : Mark) (cs : List Char) : Reading Json := do
  if cs.head? = some (Char.ofNat 0xfeff) then refuse .byteOrderMark 0
  let (j, after) ← readValue mark (2 * cs.length + 2) ((Cursor.start cs).skip isSpace)
  let after := after.skip isSpace
  if after.rest.isEmpty then return j else refuse .extraData after.position

def read (mark : Mark) (s : String) : Reading Json := readChars mark s.toList

/-- The 1-based line and column of a refusal. -/
def Refusal.place (r : Refusal) (text : String) : Nat × Nat :=
  (Text.lineNumber text.toList r.position, Text.columnNumber text.toList r.position)

/-- The cause with the place, the latter also as a number of characters. -/
def Refusal.describe (r : Refusal) (text : String) : String :=
  let (line, column) := r.place text
  r.cause.message ++ ": line " ++ toString line ++ " column " ++ toString column ++ " (char " ++
    toString r.position ++ ")"

end TypeRecovery.Json
