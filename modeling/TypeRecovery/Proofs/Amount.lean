/-
  TypeRecovery.Proofs.Amount — amounts compared with integers.

  A limit may be spelled as an integer, a truth value or a binary64 number; what is held
  against it is an integer. `Covers` says without the comparison when a limit is not exceeded,
  `AtLeast` when it is kept; they differ for a number that is undefined.
-/

import Mathlib.Data.Int.Order.Basic
import TypeRecovery.Amount

namespace TypeRecovery

namespace Amount

/-- `n` does not lie above the amount. An undefined number has nothing above it. -/
def Covers (a : Amount) (n : Int) : Prop :=
  match a.value with
  | .fraction num den => n * den ≤ num
  | .infinite negative => negative = false
  | .undefined => True

theorem less_whole_eq_false {a : Amount} {n : Int} : a.less (.whole n) = false ↔ a.Covers n := by
  unfold less Covers
  cases a.value <;> simp [value, Value.less]

/-- The amount is `n` or lies above it. An undefined number is no such amount. -/
def AtLeast (a : Amount) (n : Int) : Prop :=
  match a.value with
  | .fraction num den => n * den ≤ num
  | .infinite negative => negative = false
  | .undefined => False

theorem whole_atMost_eq_true {a : Amount} {n : Int} : (whole n).atMost a = true ↔ a.AtLeast n := by
  unfold atMost less same AtLeast
  cases a.value <;> simp [value, Value.less, Value.same, Int.le_iff_lt_or_eq]

theorem value_of_integer? {a : Amount} {m : Int} (h : a.integer? = some m) : a.value = .fraction m 1 := by
  cases a with
  | whole k => cases h; rfl
  | truth b => cases h; rfl
  | real x => cases h

theorem covers_of_integer? {a : Amount} {m : Int} (h : a.integer? = some m) (n : Int) : a.Covers n ↔ n ≤ m := by
  simp [Covers, value_of_integer? h]

theorem less_whole_of_integer? {a : Amount} {m : Int} (h : a.integer? = some m) (n : Int) :
    a.less (.whole n) = decide (m < n) := by
  rw [less, value_of_integer? h]
  simp [value, Value.less]

theorem whole_atMost_of_integer? {a : Amount} {m : Int} (h : a.integer? = some m) (n : Int) :
    (whole n).atMost a = decide (n ≤ m) := by
  rw [atMost, less, same, value_of_integer? h]
  simp [value, Value.less, Value.same, Int.le_iff_lt_or_eq]

end Amount

end TypeRecovery
