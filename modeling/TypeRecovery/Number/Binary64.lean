/-
  TypeRecovery.Number.Binary64 — numbers of the binary64 format, held exactly.

  A finite number is `± mantissa · 2^exponent` in canonical form: the exponent is at least
  -1074, the mantissa below 2^53, and at least 2^52 unless the exponent is -1074. Every
  operation forms its exact result as a fraction and rounds once, to the nearest number of
  the format, a tie going to the even mantissa. So nothing here depends on how a machine
  represents such numbers.
-/

namespace TypeRecovery

inductive Binary64 where
  | finite (negative : Bool) (mantissa : Nat) (exponent : Int)
  | infinite (negative : Bool)
  | undefined
  deriving DecidableEq, Repr

namespace Binary64

/-- The quotient rounded to the nearest integer, a tie to the even one. -/
def roundQuotient (num den : Nat) : Nat :=
  let q := num / den
  let twice := 2 * (num % den)
  if twice > den ∨ (twice = den ∧ q % 2 = 1) then q + 1 else q

/-- `num / den` as a fraction of units of `2^e`. -/
def inUnits (num den : Nat) (e : Int) : Nat × Nat :=
  if e ≤ 0 then (num * Nat.pow 2 (-e).toNat, den) else (num, den * Nat.pow 2 e.toNat)

/-- The exponent at which a positive fraction has a mantissa of 53 bits. -/
def exponentOf (num den : Nat) : Int :=
  let k : Int := (num.log2 : Int) - (den.log2 : Int)
  let (n, d) := inUnits num den k
  if d ≤ n then k - 52 else k - 53

/-- The number nearest to `± num / den`. -/
def ofFraction (negative : Bool) (num den : Nat) : Binary64 :=
  if num = 0 then .finite negative 0 (-1074)
  else
    let e := max (exponentOf num den) (-1074)
    let (n, d) := inUnits num den e
    let m := roundQuotient n d
    let (m, e) := if m = 0x20000000000000 then (0x10000000000000, e + 1) else (m, e)
    if e > 971 then .infinite negative else .finite negative m e

def ofInt (n : Int) : Binary64 := ofFraction (n < 0) n.natAbs 1

/-- The number nearest to `± digits · 10^exponent`. Exponents far outside the format's range
are settled by their size. -/
def ofDecimal (negative : Bool) (digits : Nat) (exponent : Int) : Binary64 :=
  let magnitude := (Nat.toDigits 10 digits).length + exponent
  if digits = 0 ∨ magnitude < -400 then .finite negative 0 (-1074)
  else if magnitude > 400 then .infinite negative
  else if exponent ≥ 0 then ofFraction negative (digits * Nat.pow 10 exponent.toNat) 1
  else ofFraction negative digits (Nat.pow 10 (-exponent).toNat)

/-- The exact value of a finite number, as numerator and positive denominator. -/
def fraction (negative : Bool) (mantissa : Nat) (exponent : Int) : Int × Nat :=
  let (n, d) := if exponent ≥ 0 then (mantissa * Nat.pow 2 exponent.toNat, 1)
    else (mantissa, Nat.pow 2 (-exponent).toNat)
  (if negative then -(n : Int) else n, d)

/-- The product with a natural number, which is first brought into the format. -/
def timesNat (n : Nat) (x : Binary64) : Binary64 :=
  match ofInt n, x with
  | .finite _ m e, .finite s m' e' =>
    let (a, d) := fraction false m e
    let (b, d') := fraction false m' e'
    ofFraction s (a.natAbs * b.natAbs) (d * d')
  | .finite _ m _, .infinite s => if m = 0 then .undefined else .infinite s
  | .infinite _, .finite s m _ => if m = 0 then .undefined else .infinite s
  | .infinite _, .infinite s => .infinite s
  | _, _ => .undefined

def minus : Binary64 → Binary64 → Binary64
  | .finite s m e, .finite s' m' e' =>
    let (a, d) := fraction s m e
    let (b, d') := fraction s' m' e'
    let n := a * d' - b * d
    ofFraction (n < 0) n.natAbs (d * d')
  | .infinite s, .infinite s' => if s = s' then .undefined else .infinite s
  | .infinite s, .finite .. => .infinite s
  | .finite .., .infinite s => .infinite (!s)
  | _, _ => .undefined

end Binary64

end TypeRecovery
