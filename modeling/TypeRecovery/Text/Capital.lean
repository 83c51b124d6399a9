/-
  TypeRecovery.Text.Capital — capitalized words and camel case.

  A capitalized word has its first letter in capital form and the others in small form. A
  capital form may take several characters. The small form of a capital sigma depends on
  its place: behind a letter, and not in front of one, it is the final sigma.

  A name in camel case is a name in words divided by underscores, with every word but the
  first capitalized and the underscores dropped.
-/

import TypeRecovery.Text.CaseTable

namespace TypeRecovery.Text

def inRanges (ranges : List (Nat × Nat)) (c : Char) : Bool :=
  ranges.any fun r => r.1 ≤ c.toNat && c.toNat ≤ r.2

def mapped (runs : List CaseRun) (c : Char) : Char :=
  match runs.find? fun r => r.covers c.toNat with
  | some r => Char.ofNat (c.toNat + r.offset).toNat
  | none => c

def capitalOf (c : Char) : List Char :=
  match longCapitals.find? fun e => e.1 = c.toNat with
  | some e => e.2.map Char.ofNat
  | none => [mapped capitalRuns c]

/-- The first character that counts is a letter with a case. -/
def meetsLetter (cs : List Char) : Bool :=
  match cs.dropWhile (inRanges caseIgnorable) with
  | [] => false
  | c :: _ => inRanges cased c

/-- The small form of a character that stands behind `before`, nearest first, and in front
of `after`. -/
def smallOf (before : List Char) (c : Char) (after : List Char) : List Char :=
  if c = 'Σ' then [if meetsLetter before && !meetsLetter after then 'ς' else 'σ']
  else if c = 'İ' then ['i', Char.ofNat 0x307]
  else [mapped smallRuns c]

def smallFrom (before : List Char) : List Char → List Char
  | [] => []
  | c :: rest => smallOf before c rest ++ smallFrom (c :: before) rest

def capitalize : List Char → List Char
  | [] => []
  | c :: rest => capitalOf c ++ smallFrom [c] rest

def camelCase (name : String) : String :=
  match name.toList.splitOn '_' with
  | [] => ""
  | head :: words => String.ofList (head ++ words.flatMap capitalize)

end TypeRecovery.Text
