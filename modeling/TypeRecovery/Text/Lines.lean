/-
  TypeRecovery.Text.Lines — lines of a text.

  Two notions live here. A position is counted in lines that end at line feeds alone. The
  text of a line, as shown under an error, ends at any line boundary of Unicode: line
  feed, vertical tab, form feed, carriage return (with a line feed after it, the two
  together), the information separators but the last, next line, line and paragraph
  separator.
-/

namespace TypeRecovery.Text

def isLineBoundary (c : Char) : Bool :=
  [0xa, 0xb, 0xc, 0xd, 0x1c, 0x1d, 0x1e, 0x85, 0x2028, 0x2029].contains c.toNat

/-- Splits at line boundaries; `line` holds the current line, last character first. A
boundary at the very end opens no further line. -/
def linesFrom (line : List Char) : List Char → List (List Char)
  | [] => if line.isEmpty then [] else [line.reverse]
  | '\r' :: '\n' :: rest => line.reverse :: linesFrom [] rest
  | c :: rest =>
    if isLineBoundary c then line.reverse :: linesFrom [] rest else linesFrom (c :: line) rest

def lines (cs : List Char) : List (List Char) := linesFrom [] cs

/-- The 1-based line of a position, counting line feeds before it. -/
def lineNumber (cs : List Char) (position : Nat) : Nat :=
  ((cs.take position).filter (· = '\n')).length + 1

/-- The 1-based column of a position in its line. -/
def columnNumber (cs : List Char) (position : Nat) : Nat :=
  ((cs.take position).reverse.takeWhile (· ≠ '\n')).length + 1

/-- Writes every line end, alone or paired, as a line feed. -/
def unifyLineEnds : List Char → List Char
  | [] => []
  | '\r' :: '\n' :: rest => '\n' :: unifyLineEnds rest
  | '\r' :: rest => '\n' :: unifyLineEnds rest
  | c :: rest => c :: unifyLineEnds rest

end TypeRecovery.Text
