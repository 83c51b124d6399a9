/-
  TypeRecovery.Text.Half — halves of surrogate pairs in texts.

  An escape in a JSON text names a 16-bit unit, which may be half of a surrogate pair without
  the other half. No character has that number. Names with a half in them are names like
  others, but a text that holds a half has no bytes, and where such a text is only shown, the
  half is shown as an escape.

  What is read are signs, characters and halves. They are kept as a text in which a half is
  spelled by a mark and its four hexadecimal digits. A mark is a Hangul syllable, which is
  printable and comes shortly before the halves in the order of code points. One is taken that
  nothing else at hand holds, so different signs are spelled differently; only texts that hold
  every one of the syllables leave none.
-/

import TypeRecovery.Text.Quoted
import TypeRecovery.Text.Utf8

namespace TypeRecovery.Text

/-- A syllable that stands in front of the digits of a half, by its number. -/
structure Mark where
  index : Fin 11172
  deriving DecidableEq, Repr

namespace Mark

def first : Mark := ⟨0⟩

def char (m : Mark) : Char := Char.ofNat (0xac00 + m.index)

/-- The last mark that is not taken, of those up to `n`, or else the first of all. -/
def freshUpTo (taken : Char → Bool) : Nat → Mark
  | 0 => first
  | n + 1 =>
    let m : Mark := ⟨Fin.ofNat 11172 (n + 1)⟩
    if taken m.char then freshUpTo taken n else m

def fresh (taken : Char → Bool) : Mark := freshUpTo taken 11171

/-- The text holds a half. -/
def isIn (m : Mark) (s : String) : Bool := s.toList.contains m.char

/-- The text as it is shown, a half as its escape. -/
def escaped (m : Mark) (s : String) : String :=
  String.ofList (s.toList.flatMap fun c => if c = m.char then ['\\', 'u'] else [c])

/-- The bytes of a text that holds no half. -/
def bytes? (m : Mark) (s : String) : Option Bytes := if m.isIn s then none else some (toBytes s)

end Mark

inductive Sign where
  | char (c : Char)
  | half (unit : Nat)
  deriving DecidableEq, Repr

def Sign.spelled (m : Mark) : Sign → List Char
  | .char c => [c]
  | .half unit => m.char :: hexDigits 4 unit

def spell (m : Mark) (signs : List Sign) : String := String.ofList (signs.flatMap (Sign.spelled m))

end TypeRecovery.Text
