/-
  TypeRecovery.Number.Shortest — the decimal text of a binary64 number.

  Two forms are written. The short form has the fewest digits that read back to the same
  number: for one digit, two digits and so on, the two neighbours of the number on that
  decimal grid are tried, and of two that read back the nearer is taken. The fixed form
  rounds the exact value to a number of decimal places, a tie to the even digit.
-/

import TypeRecovery.Number.Binary64

namespace TypeRecovery

/-- Where a short form is written without an exponent, and how an exponent is written. -/
structure DecimalLayout where
  firstPlain : Int
  lastPlain : Int
  exponentDigits : Nat

namespace DecimalLayout

/-- Exponents from -4 to 15 are written plainly; others have a sign and at least two digits. -/
def standard : DecimalLayout := ⟨-4, 15, 2⟩

end DecimalLayout

namespace Binary64

def decimal (n : Nat) : List Char := Nat.toDigits 10 n

/-- The least `k` with `num / den < 10^k`, for a positive fraction. -/
def decimalScale (num den : Nat) : Int :=
  if den ≤ num then (decimal (num / den)).length
  else
    let least := (den + num - 1) / num
    1 - ((decimal (least - 1)).length : Int)

/-- The point of the grid of step `10^p` at or below `num / den`, with the remainder and the
divisor that produced it. -/
def gridFloor (num den : Nat) (p : Int) : Nat × Nat × Nat :=
  let (n, d) := if p ≥ 0 then (num, den * Nat.pow 10 p.toNat) else (num * Nat.pow 10 (-p).toNat, den)
  (n / d, n % d, d)

/-- Tries grids of `n`, `n + 1`, … digits. -/
def shortestFrom (x : Binary64) (num den : Nat) (scale : Int) : Nat → Nat → Nat × Int
  | 0, n => ((gridFloor num den (scale - n)).1, scale - n)
  | tries + 1, n =>
    let p := scale - n
    let (low, rem, d) := gridFloor num den p
    let lowReads := ofDecimal false low p = x
    let highReads := ofDecimal false (low + 1) p = x
    let highNearer := 2 * rem > d ∨ (2 * rem = d ∧ low % 2 = 1)
    if lowReads ∧ ¬(highReads ∧ highNearer) then (low, p)
    else if highReads then (low + 1, p)
    else shortestFrom x num den scale tries (n + 1)

/-- The digits and the decimal exponent of the short form of a positive number. -/
def shortest (mantissa : Nat) (exponent : Int) : Nat × Int :=
  let (num, den) := fraction false mantissa exponent
  shortestFrom (.finite false mantissa exponent) num.natAbs den (decimalScale num.natAbs den) 17 1

/-- Digits without the zeros at their end. -/
def significant (digits : List Char) : List Char :=
  (digits.reverse.dropWhile (· = '0')).reverse

/-- Lays out `0.digits · 10^scale`. -/
def layOut (layout : DecimalLayout) (digits : List Char) (scale : Int) : List Char :=
  let e := scale - 1
  if layout.firstPlain ≤ e ∧ e ≤ layout.lastPlain then
    if scale ≤ 0 then '0' :: '.' :: List.replicate (-scale).toNat '0' ++ digits
    else
      let whole := digits.take scale.toNat
      let part := digits.drop scale.toNat
      whole ++ List.replicate (scale.toNat - whole.length) '0' ++
        '.' :: (if part.isEmpty then ['0'] else part)
  else
    let tail := digits.drop 1
    let size := decimal e.natAbs
    digits.take 1 ++ (if tail.isEmpty then [] else '.' :: tail) ++
      'e' :: (if e < 0 then '-' else '+') ::
        (List.replicate (layout.exponentDigits - size.length) '0' ++ size)

def sign (negative : Bool) : List Char := if negative then ['-'] else []

/-- The short form. -/
def text : Binary64 → String
  | .finite s 0 _ => String.ofList (sign s ++ ['0', '.', '0'])
  | .finite s m e =>
    let (n, p) := shortest m e
    let digits := decimal n
    String.ofList
      (sign s ++ layOut .standard (significant digits) (p + digits.length))
  | .infinite s => String.ofList (sign s ++ ['i', 'n', 'f'])
  | .undefined => "nan"

/-- The form with a fixed number of decimal places, at least one. -/
def fixedText (places : Nat) : Binary64 → String
  | .finite s m e =>
    let (num, den) := fraction false m e
    let n := roundQuotient (num.natAbs * Nat.pow 10 places) den
    let digits := decimal n
    let padded := List.replicate (places + 1 - digits.length) '0' ++ digits
    String.ofList (sign s ++ padded.take (padded.length - places) ++
      '.' :: padded.drop (padded.length - places))
  | .infinite s => String.ofList (sign s ++ ['i', 'n', 'f'])
  | .undefined => "nan"

end Binary64

end TypeRecovery
