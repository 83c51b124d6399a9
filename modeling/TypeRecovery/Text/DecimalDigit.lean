/-
  TypeRecovery.Text.DecimalDigit — decimal digits of every script, and integers written
  with them.

  The decimal digits of Unicode 14 come in blocks of ten consecutive code points, so a
  block is named by its zero. An integer may stand between blanks, carry one sign, and
  have single underscores between its digits.
-/

import TypeRecovery.Text.Blank

namespace TypeRecovery.Text

def decimalZeros : List Nat :=
  [0x30, 0x660, 0x6f0, 0x7c0, 0x966, 0x9e6, 0xa66, 0xae6, 0xb66, 0xbe6, 0xc66,
   0xce6, 0xd66, 0xde6, 0xe50, 0xed0, 0xf20, 0x1040, 0x1090, 0x17e0, 0x1810, 0x1946,
   0x19d0, 0x1a80, 0x1a90, 0x1b50, 0x1bb0, 0x1c40, 0x1c50, 0xa620, 0xa8d0, 0xa900, 0xa9d0,
   0xa9f0, 0xaa50, 0xabf0, 0xff10, 0x104a0, 0x10d30, 0x11066, 0x110f0, 0x11136, 0x111d0, 0x112f0,
   0x11450, 0x114d0, 0x11650, 0x116c0, 0x11730, 0x118e0, 0x11950, 0x11c50, 0x11d50, 0x11da0, 0x16a60,
   0x16ac0, 0x16b50, 0x1d7ce, 0x1d7d8, 0x1d7e2, 0x1d7ec, 0x1d7f6, 0x1e140, 0x1e2f0, 0x1e950, 0x1fbf0]

def decimalValue? (c : Char) : Option Nat :=
  (decimalZeros.find? fun first => first ≤ c.toNat && c.toNat < first + 10).map (c.toNat - ·)

/-- Continues a number whose digits so far have the value `value`; `open_` says that an
underscore has just been read, so that a digit must follow. -/
def digitsFrom (value : Nat) (open_ : Bool) : List Char → Option Nat
  | [] => if open_ then none else some value
  | c :: rest =>
    if c = '_' then
      if open_ then none else digitsFrom value true rest
    else match decimalValue? c with
      | some d => digitsFrom (10 * value + d) false rest
      | none => none

def natural? : List Char → Option Nat
  | [] => none
  | c :: rest => (decimalValue? c).bind fun d => digitsFrom d false rest

/-- The blanks allowed around an integer: all but the four information separators. -/
def isIntegerMargin (c : Char) : Bool :=
  isBlank c && !(0x1c ≤ c.toNat && c.toNat ≤ 0x1f)

def integer? (s : String) : Option Int :=
  match trimBy isIntegerMargin s.toList with
  | '-' :: rest => (natural? rest).map fun n => -(n : Int)
  | '+' :: rest => (natural? rest).map fun n => (n : Int)
  | rest => (natural? rest).map fun n => (n : Int)

end TypeRecovery.Text
