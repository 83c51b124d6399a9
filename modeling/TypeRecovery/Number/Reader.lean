/-
  TypeRecovery.Number.Reader — binary64 numbers from text.

  A number may stand between blanks and carry a sign. It is an infinity, an undefined
  number, or decimal digits with a point among or beside them and an exponent behind. Digits
  of any script count, single underscores may stand between two digits, and the size of
  letters does not matter.
-/

import TypeRecovery.Number.Binary64
import TypeRecovery.Text.DecimalDigit
import TypeRecovery.Text.Digits

namespace TypeRecovery.Binary64

open Text (isDigit naturalOf decimalValue?)

def plainDigit (c : Char) : Char :=
  match decimalValue? c with
  | some d => Char.ofNat ('0'.toNat + d)
  | none => c

/-- Drops underscores between two digits; there must be no others. -/
def dropUnderscores : List Char → Option (List Char)
  | [] => some []
  | '_' :: _ => none
  | c :: '_' :: d :: rest =>
    if isDigit c && isDigit d then (dropUnderscores (d :: rest)).map (c :: ·) else none
  | c :: rest => (dropUnderscores rest).map (c :: ·)

def splitSign : List Char → Bool × List Char
  | '-' :: cs => (true, cs)
  | '+' :: cs => (false, cs)
  | cs => (false, cs)

/-- What stands behind the digits: nothing, or an exponent. -/
def exponent? : List Char → Option Int
  | [] => some 0
  | e :: cs =>
    let (negative, digits) := splitSign cs
    if (e = 'e' ∨ e = 'E') ∧ !digits.isEmpty ∧ digits.all isDigit then
      let n : Int := naturalOf digits
      some (if negative then -n else n)
    else none

def unsignedDecimal? (negative : Bool) (cs : List Char) : Option Binary64 :=
  let whole := cs.takeWhile isDigit
  let (places, rest) := match cs.drop whole.length with
    | '.' :: after => (after.takeWhile isDigit, after.dropWhile isDigit)
    | after => ([], after)
  if whole.isEmpty && places.isEmpty then none
  else
    (exponent? rest).map fun e =>
      .ofDecimal negative (naturalOf (whole ++ places)) (e - places.length)

def unsigned? (negative : Bool) (cs : List Char) : Option Binary64 :=
  let word := String.ofList (cs.map Char.toLower)
  if word = "inf" ∨ word = "infinity" then some (.infinite negative)
  else if word = "nan" then some .undefined
  else unsignedDecimal? negative cs

def read? (s : String) : Option Binary64 := do
  let cs ← dropUnderscores ((Text.trimBy Text.isIntegerMargin s.toList).map plainDigit)
  let (negative, cs) := splitSign cs
  unsigned? negative cs

end TypeRecovery.Binary64
