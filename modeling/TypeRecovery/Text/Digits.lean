/-
  TypeRecovery.Text.Digits — the ten ASCII digits and the numbers they write.
-/

namespace TypeRecovery.Text

def isDigit (c : Char) : Bool := '0' ≤ c && c ≤ '9'

def digitValue (c : Char) : Nat := c.toNat - '0'.toNat

/-- The number that a run of digits writes, the most significant first. -/
def naturalOf (digits : List Char) : Nat := digits.foldl (fun n c => 10 * n + digitValue c) 0

end TypeRecovery.Text
