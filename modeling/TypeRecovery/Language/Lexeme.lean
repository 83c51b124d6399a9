/-
  TypeRecovery.Language.Lexeme — the words of the constraint language.

  A scanner reads one lexeme at the head of a text: its value, its length and the text after
  it. Names are made of ASCII letters, digits, `_`, `$` and `@`, and do not begin with a
  digit or `@`. A label or a number must not run on into a further name character.
-/

import TypeRecovery.Text.Digits
import TypeRecovery.TypeVar

namespace TypeRecovery.Language

open Text (isDigit naturalOf)

structure Lexeme (α : Type) where
  value : α
  length : Nat
  rest : List Char

abbrev Scanner (α : Type) := List Char → Option (Lexeme α)

def isNameStart (c : Char) : Bool :=
  ('A' ≤ c && c ≤ 'Z') || ('a' ≤ c && c ≤ 'z') || c = '_' || c = '$'

def isNameChar (c : Char) : Bool := isNameStart c || isDigit c || c = '@'

/-- No name character comes next. -/
def atNameEnd : List Char → Bool
  | [] => true
  | c :: _ => !isNameChar c

namespace Lexeme

def map {α β : Type} (f : α → β) (l : Lexeme α) : Lexeme β := ⟨f l.value, l.length, l.rest⟩

/-- The lexeme with `n` more characters in front. -/
def longer {α : Type} (n : Nat) (l : Lexeme α) : Lexeme α := { l with length := l.length + n }

/-- Refuses a lexeme that runs on into a name character. -/
def ended {α : Type} (l : Lexeme α) : Option (Lexeme α) :=
  if atNameEnd l.rest then some l else none

end Lexeme

/-- The longest run of characters that satisfy `p`, perhaps empty. -/
def run (p : Char → Bool) (cs : List Char) : Lexeme (List Char) :=
  let taken := cs.takeWhile p
  ⟨taken, taken.length, cs.dropWhile p⟩

/-- The same, but not empty. -/
def run1 (p : Char → Bool) : Scanner (List Char)
  | c :: rest => if p c then some (run p (c :: rest)) else none
  | [] => none

def word (w : List Char) : Scanner Unit := fun cs =>
  if w.isPrefixOf cs then some ⟨(), w.length, cs.drop w.length⟩ else none

def natural : Scanner Nat := fun cs => (run1 isDigit cs).map (Lexeme.map naturalOf)

def negative (n : Nat) : Int := -(n : Int)

def signed : Scanner Int
  | '-' :: rest => (natural rest).map fun l => (l.map negative).longer 1
  | cs => (natural cs).map (Lexeme.map Int.ofNat)

def integer : Scanner Int := fun cs => (signed cs).bind Lexeme.ended

def identifier : Scanner String
  | c :: rest =>
    if isNameStart c then
      some (((run isNameChar rest).map fun cs => String.ofList (c :: cs)).longer 1)
    else none
  | [] => none

def isQuotable (c : Char) : Bool := c ≠ '"' && c ≠ '\r' && c ≠ '\n'

def closeQuote (l : Lexeme (List Char)) : Option (Lexeme String) :=
  match l.rest with
  | '"' :: rest => some ⟨String.ofList l.value, l.length + 1, rest⟩
  | _ => none

/-- A name in double quotes, perhaps empty. -/
def quoted : Scanner String
  | '"' :: rest => (closeQuote (run isQuotable rest)).map (·.longer 1)
  | _ => none

/-- A name in double quotes, not empty. -/
def quotedName : Scanner String
  | '"' :: rest => ((run1 isQuotable rest).bind closeQuote).map (·.longer 1)
  | _ => none

def pointerLabel : Scanner Label := fun cs =>
  match word ['l', 'o', 'a', 'd'] cs with
  | some l => (l.map fun _ => Label.load).ended
  | none => (word ['s', 't', 'o', 'r', 'e'] cs).bind fun l => (l.map fun _ => Label.store).ended

/-- A word followed by an index. -/
def indexed (w : List Char) (make : Nat → Label) : Scanner Label := fun cs =>
  (word w cs).bind fun l =>
    (natural l.rest).bind fun n => ((n.map make).longer l.length).ended

def inputLabel : Scanner Label := indexed ['i', 'n', '_'] .input

def outputLabel : Scanner Label := indexed ['o', 'u', 't', '_'] .output

/-- Bits, `@` and an offset, behind the letter of a field. -/
def fieldGeometry (cs : List Char) : Option (Lexeme Label) :=
  (signed cs).bind fun bits =>
    (word ['@'] bits.rest).bind fun separator =>
      (signed separator.rest).bind fun offset =>
        ((offset.map fun k => Label.field ⟨bits.value, k⟩).longer
          (bits.length + separator.length)).ended

def fieldLabel : Scanner Label
  | c :: rest => if c = 'σ' ∨ c = 'f' then (fieldGeometry rest).map (·.longer 1) else none
  | [] => none

def isSpace (c : Char) : Bool := c = ' ' || c = '\t'

def isLineChar (c : Char) : Bool := c ≠ '\r' && c ≠ '\n'

def spaces : Scanner Unit := fun cs => some ((run isSpace cs).map fun _ => ())

def spaces1 : Scanner Unit := fun cs => (run1 isSpace cs).map (Lexeme.map fun _ => ())

def comment : Scanner Unit
  | '#' :: rest => some (((run isLineChar rest).map fun _ => ()).longer 1)
  | _ => none

def lineBreak : Scanner Unit
  | '\n' :: rest => some ⟨(), 1, rest⟩
  | '\r' :: '\n' :: rest => some ⟨(), 2, rest⟩
  | _ => none

/-- Holds where a line ends, and reads nothing. -/
def lineEnd : Scanner Unit := fun cs =>
  match cs with
  | c :: _ => if isLineChar c then none else some ⟨(), 0, cs⟩
  | [] => some ⟨(), 0, []⟩

end TypeRecovery.Language
