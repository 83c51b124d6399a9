/-
  TypeRecovery.Language.Rule — rules with ordered choice, and the furthest refusal.

  A rule reads from a place in the text and either gives a value and the place after it, or
  refuses. Beside that it keeps the trail, the refusal that an error is reported at. Of two
  refusals the later one in the text counts, of two at one place the one met last; but the
  refusal of a mere part of a rule counts only if it is the first.

  The outcome of a rule does not depend on the trail.
-/

import TypeRecovery.Text.Cursor
import TypeRecovery.Language.Lexeme

namespace TypeRecovery.Language

open Text (Cursor)

/-- Where a rule, or a part of one, did not apply. -/
structure Refusal where
  position : Nat
  whole : Bool
  deriving DecidableEq, Repr

abbrev Trail := Option Refusal

def Trail.note (refusal : Refusal) : Trail → Trail
  | none => some refusal
  | some r => if r.position ≤ refusal.position && refusal.whole then some refusal else some r

structure Reply (α : Type) where
  outcome : Option (α × Cursor)
  trail : Trail → Trail

def Rule (α : Type) := Cursor → Reply α

namespace Rule

variable {α β : Type}

def succeed (a : α) : Rule α := fun c => ⟨some (a, c), id⟩

def andThen (p : Rule α) (f : α → Rule β) : Rule β := fun c =>
  let r := p c
  match r.outcome with
  | none => ⟨none, r.trail⟩
  | some (a, after) =>
    let s := f a after
    ⟨s.outcome, s.trail ∘ r.trail⟩

instance : Monad Rule where
  pure := succeed
  bind := andThen

/-- The second rule is tried where the first refuses. -/
def orElse (p q : Rule α) : Rule α := fun c =>
  let r := p c
  match r.outcome with
  | some _ => r
  | none =>
    let s := q c
    ⟨s.outcome, s.trail ∘ r.trail⟩

/-- Notes the refusal of `p` at the place where `p` began. -/
def noting (whole : Bool) (p : Rule α) : Rule α := fun c =>
  let r := p c
  match r.outcome with
  | some _ => r
  | none => ⟨none, fun t => (r.trail t).note ⟨c.position, whole⟩⟩

/-- A rule of the grammar. -/
def whole (p : Rule α) : Rule α := noting true p

/-- A part of a rule. -/
def part (p : Rule α) : Rule α := noting false p

def scan (s : Scanner α) : Rule α := fun c =>
  match s c.rest with
  | some l => ⟨some (l.value, ⟨c.position + l.length, l.rest⟩), id⟩
  | none => ⟨none, id⟩

/-- A rule of the grammar that is one lexeme. -/
def lexeme (s : Scanner α) : Rule α := whole (scan s)

/-- Fixed text inside a rule. -/
def fixed (w : List Char) : Rule Unit := part (scan (word w))

/-- At most as many turns as the budget has elements; at the end of the text, or when
nothing was read, no further turn is taken. -/
def turns (p : Rule α) : List Char → Rule (List α)
  | [], c => ⟨some ([], c), id⟩
  | _ :: budget, c =>
    if c.rest.isEmpty then ⟨some ([], c), id⟩
    else
      let r := p c
      match r.outcome with
      | none => ⟨some ([], c), r.trail⟩
      | some (a, after) =>
        if after.position = c.position then ⟨some ([], c), r.trail⟩
        else
          let s := turns p budget after
          ⟨s.outcome.map fun (as, last) => (a :: as, last), s.trail ∘ r.trail⟩

/-- As many turns of `p` as there are. -/
def many (p : Rule α) : Rule (List α) := fun c => turns p c.rest c

/-- One turn of `p` or none; at the end of the text `p` is not tried. -/
def optional (p : Rule α) : Rule (Option α) := fun c =>
  if c.rest.isEmpty then ⟨some (none, c), id⟩
  else
    let r := p c
    match r.outcome with
    | none => ⟨some (none, c), r.trail⟩
    | some (a, after) => ⟨some (some a, after), r.trail⟩

/-- How a rule fares with a whole text. -/
inductive Verdict (α : Type) where
  | accepted (value : α)
  /-- The rule read only a beginning of the text. -/
  | incomplete (position : Nat)
  | refused (position : Nat)

def apply (p : Rule α) (cs : List Char) : Verdict α :=
  let r := p (Cursor.start cs)
  match r.outcome with
  | some (a, after) => if after.rest.isEmpty then .accepted a else .incomplete after.position
  | none => .refused (((r.trail none).map (·.position)).getD 0)

end Rule

end TypeRecovery.Language
