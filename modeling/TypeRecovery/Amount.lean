/-
  TypeRecovery.Amount — numbers as documents and settings give them.

  A document writes a number as an integer of any size, as a binary64 number, or as a truth
  value, which counts as 1 or 0. The spelling is kept, because it is shown again; all
  comparisons are between exact values.
-/

import TypeRecovery.Number.Shortest

namespace TypeRecovery

inductive Amount where
  | whole (n : Int)
  | real (x : Binary64)
  | truth (b : Bool)
  deriving DecidableEq, Repr

namespace Amount

/-- An exact value: a fraction with positive denominator, an infinity, or none. -/
inductive Value where
  | fraction (num : Int) (den : Nat)
  | infinite (negative : Bool)
  | undefined
  deriving DecidableEq

def Value.less : Value → Value → Bool
  | .fraction a b, .fraction c d => a * d < c * b
  | .fraction .., .infinite negative => !negative
  | .infinite negative, .fraction .. => negative
  | .infinite a, .infinite b => a && !b
  | _, _ => false

def Value.same : Value → Value → Bool
  | .fraction a b, .fraction c d => a * d = c * b
  | .infinite a, .infinite b => a = b
  | _, _ => false

def value : Amount → Value
  | .whole n => .fraction n 1
  | .truth b => .fraction (if b then 1 else 0) 1
  | .real (.finite s m e) => let (n, d) := Binary64.fraction s m e; .fraction n d
  | .real (.infinite s) => .infinite s
  | .real .undefined => .undefined

/-- `a` lies strictly below `b`; an undefined number lies below nothing and above nothing. -/
def less (a b : Amount) : Bool := a.value.less b.value

def same (a b : Amount) : Bool := a.value.same b.value

/-- At most, which is not the negation of "above" where a number is undefined. -/
def atMost (a b : Amount) : Bool := a.less b || a.same b

def text : Amount → String
  | .whole n => toString n
  | .truth b => if b then "True" else "False"
  | .real x => x.text

def toBinary64 : Amount → Binary64
  | .whole n => .ofInt n
  | .truth b => .ofInt (if b then 1 else 0)
  | .real x => x

/-- The integer that an amount spelled as an integer or a truth value stands for. -/
def integer? : Amount → Option Int
  | .whole n => some n
  | .truth b => some (if b then 1 else 0)
  | .real _ => none

/-- Every `interval`-th count is due; the count is positive. -/
def isDue (interval : Amount) (count : Nat) : Bool :=
  match interval.value with
  | .fraction num den => num ≠ 0 && (count * den) % num.natAbs = 0
  | _ => false

def timesNat (n : Nat) : Amount → Amount
  | .whole k => .whole (n * k)
  | .truth b => .whole (if b then n else 0)
  | .real x => .real (x.timesNat n)

def minus (a b : Amount) : Amount :=
  match a.integer?, b.integer? with
  | some m, some n => .whole (m - n)
  | _, _ => .real (a.toBinary64.minus b.toBinary64)

/-- The amount counted in units of eight, when it is a whole number of them. -/
def eighths? : Amount → Option Amount
  | .whole n => if n % 8 = 0 then some (.whole (n / 8)) else none
  | .truth b => if b then none else some (.whole 0)
  | .real (.finite s m e) =>
    let (num, den) := Binary64.fraction false m e
    if num.natAbs % (8 * den) = 0 then some (.real (.ofFraction s num.natAbs (8 * den))) else none
  | .real _ => none

end Amount

end TypeRecovery
