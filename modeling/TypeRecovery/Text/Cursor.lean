/-
  TypeRecovery.Text.Cursor — a place in a text: how many characters lie behind it, and the
  characters ahead.
-/

namespace TypeRecovery.Text

structure Cursor where
  position : Nat
  rest : List Char
  deriving DecidableEq, Repr

namespace Cursor

def start (cs : List Char) : Cursor := ⟨0, cs⟩

/-- Moves over the characters that satisfy `p`, up to the first that does not. -/
def skip (p : Char → Bool) (c : Cursor) : Cursor :=
  go c.position c.rest
where
  go (position : Nat) : List Char → Cursor
    | [] => ⟨position, []⟩
    | x :: xs => if p x then go (position + 1) xs else ⟨position, x :: xs⟩

/-- Moves over `n` characters, fewer at the end of the text. -/
def advance (n : Nat) (c : Cursor) : Cursor :=
  ⟨c.position + (c.rest.take n).length, c.rest.drop n⟩

end Cursor

end TypeRecovery.Text
