/-
  TypeRecovery.Command.Arguments — the pieces of a command line.

  Each argument is first read on its own: as the name of a switch, as an unknown switch, or
  as plain text. A name may be cut short as long as it fits one switch only. An argument of
  a switch follows it, or stands behind `=`, or behind a letter. Letters of switches without
  arguments can be joined. A negative number, a text with a space and a single dash are
  plain. Behind two dashes alone everything is plain. An argument that is two dashes alone
  counts as left out.

  Then the pieces are taken in order. The first plain piece that no switch takes is the
  operand. Either the operand takes all that follows it, or one pair of dashes around it is
  dropped. What is left over is stray.
-/

import TypeRecovery.Command.Switch
import TypeRecovery.Text.DecimalDigit

namespace TypeRecovery.Command

inductive Reading where
  | plain
  /-- Two dashes alone. -/
  | divider
  /-- A switch under one of its names, with the text attached to it. -/
  | switch (s : Switch) (name : String) (attached : Option (List Char))
  | unknown
  deriving DecidableEq, Repr

abbrev Table := List Switch

namespace Table

def names (t : Table) : List (String × Switch) := t.flatMap fun s => s.names.map fun n => (n, s)

def named? (t : Table) (name : String) : Option Switch :=
  (t.names.find? fun e => e.1 = name).map (·.2)

end Table

/-- Cuts a text at its first equals sign. -/
def atEquals? (cs : List Char) : Option (List Char × List Char) :=
  match cs.dropWhile (· ≠ '=') with
  | [] => none
  | _ :: after => some (cs.takeWhile (· ≠ '='), after)

def splitAtEquals (cs : List Char) : List Char × Option (List Char) :=
  match atEquals? cs with
  | some (head, after) => (head, some after)
  | none => (cs, none)

abbrev Candidate := Switch × String × Option (List Char)

/-- The switches that a text with two dashes in front may mean. -/
def longCandidates (t : Table) (cs : List Char) : List Candidate :=
  let (head, attached) := splitAtEquals cs
  t.names.filterMap fun (name, s) =>
    if head.isPrefixOf name.toList then some (s, name, attached) else none

/-- The switches that a text with one dash in front may mean: its first letter is the name,
or the text begins a name. -/
def shortCandidates (t : Table) (cs : List Char) : List Candidate :=
  t.names.filterMap fun (name, s) =>
    if name.toList = cs.take 2 then some (s, name, some (cs.drop 2))
    else if cs.isPrefixOf name.toList then some (s, name, none)
    else none

def candidates (t : Table) (cs : List Char) : List Candidate :=
  if ['-', '-'].isPrefixOf cs then longCandidates t cs else shortCandidates t cs

def isDecimal (c : Char) : Bool := (Text.decimalValue? c).isSome

/-- Digits, with a point before the last of them or without; a line feed may follow. -/
def isUnsigned (cs : List Char) : Bool :=
  let cs := if cs.getLast? = some '\n' then cs.dropLast else cs
  match cs.dropWhile isDecimal with
  | [] => !cs.isEmpty
  | '.' :: digits => !digits.isEmpty && digits.all isDecimal
  | _ => false

def looksNegative : List Char → Bool
  | '-' :: cs => isUnsigned cs
  | _ => false

/-- The switch that the text names in full, alone or in front of an equals sign. -/
def inFull? (t : Table) (arg : String) : Option Reading :=
  match t.named? arg with
  | some s => some (.switch s arg none)
  | none =>
    (atEquals? arg.toList).bind fun (head, after) =>
      (t.named? (String.ofList head)).map fun s =>
        .switch s (String.ofList head) (some after)

/-- Reads one argument that is not two dashes alone. -/
def readArgument (t : Table) (arg : String) : Except Misuse Reading :=
  match arg.toList with
  | '-' :: c :: rest =>
    match inFull? t arg with
    | some r => .ok r
    | none =>
      match candidates t ('-' :: c :: rest) with
      | [(s, name, attached)] => .ok (.switch s name attached)
      | [] =>
        if looksNegative ('-' :: c :: rest) || (c :: rest).contains ' ' then .ok .plain
        else .ok .unknown
      | several => .error (.ambiguous arg (several.map fun e => e.2.1))
  | _ => .ok .plain

abbrev Piece := String × Reading

def readArguments (t : Table) : List String → Except Misuse (List Piece)
  | [] => .ok []
  | arg :: rest =>
    if arg = "--" then .ok ((arg, .divider) :: rest.map fun a => (a, .plain))
    else do
      let r ← readArgument t arg
      return (arg, r) :: (← readArguments t rest)

/-! ## Switches in order -/

inductive Item where
  /-- A switch, with its argument where it has one that is not left out. -/
  | given (s : Switch) (argument : Option String)
  /-- The operand, with what follows it where it takes that. -/
  | operand (text : String) (rest : List String)
  | stray (text : String)
  | fault (m : Misuse)
  deriving DecidableEq, Repr

/-- What one piece says: switches without arguments, and how it ends. -/
inductive Cluster where
  | complete (flags : List Switch)
  | valued (flags : List Switch) (s : Switch) (argument : String)
  /-- The argument must be the next piece. -/
  | pending (flags : List Switch) (s : Switch)
  | fault (m : Misuse)
  deriving DecidableEq, Repr

namespace Cluster

def more (s : Switch) : Cluster → Cluster
  | .complete flags => .complete (s :: flags)
  | .valued flags t a => .valued (s :: flags) t a
  | .pending flags t => .pending (s :: flags) t
  | .fault m => .fault m

/-- A switch that nothing is attached to. -/
def bare (s : Switch) : Cluster := if s.takesArgument then .pending [] s else .complete [s]

def ignored (s : Switch) (text : List Char) : Cluster :=
  .fault (.argumentIgnored s.title (String.ofList text))

/-- A switch of one letter with text attached: its argument, or further letters. -/
def joined (t : Table) (s : Switch) (text : List Char) : Cluster :=
  if s.takesArgument then .valued [] s (String.ofList text)
  else
    match text with
    | [] => ignored s []
    | c :: rest =>
      match t.named? (String.ofList ['-', c]) with
      | none => ignored s (c :: rest)
      | some next => (if rest.isEmpty then bare next else joined t next rest).more s

def isShort (name : String) : Bool := (name.toList.take 2) ≠ ['-', '-']

def ofSwitch (t : Table) (s : Switch) (name : String) : Option (List Char) → Cluster
  | none => bare s
  | some text =>
    if isShort name then joined t s text
    else if s.takesArgument then .valued [] s (String.ofList text)
    else ignored s text

end Cluster

def flagItems (flags : List Switch) : List Item := flags.map fun s => .given s none

/-- A switch with an argument; two dashes alone leave it out. -/
def valuedItem (s : Switch) (argument : String) : Item :=
  .given s (if argument = "--" then none else some argument)

/-- Takes the pieces in order. `greedy` says whether the operand takes what follows it, and
`wanted` whether it is still to come. -/
def takeItems (t : Table) (greedy : Bool) (wanted : Bool) : List Piece → List Item
  | [] => []
  | (a, .unknown) :: rest => .stray a :: takeItems t greedy wanted rest
  | (_, .switch s name attached) :: rest =>
    match Cluster.ofSwitch t s name attached with
    | .complete flags => flagItems flags ++ takeItems t greedy wanted rest
    | .valued flags s a => flagItems flags ++ valuedItem s a :: takeItems t greedy wanted rest
    | .fault m => [.fault m]
    | .pending flags s =>
      match rest with
      | (a, .plain) :: rest => flagItems flags ++ valuedItem s a :: takeItems t greedy wanted rest
      | _ => [.fault (.argumentExpected s.title)]
  | (a, .plain) :: rest =>
    if !wanted then .stray a :: takeItems t greedy wanted rest
    else if greedy then [.operand a (rest.map (·.1))]
    else
      match rest with
      | (_, .divider) :: rest => .operand a [] :: takeItems t greedy false rest
      | rest => .operand a [] :: takeItems t greedy false rest
  | (a, .divider) :: rest =>
    match wanted, rest with
    | true, (b, .plain) :: rest =>
      if greedy then [.operand a (b :: rest.map (·.1))]
      else .operand b [] :: takeItems t greedy false rest
    | _, rest => .stray a :: takeItems t greedy wanted rest

end TypeRecovery.Command
