/-
  TypeRecovery.Registers — several constraint sets, built side by side.

  A change adds to one set: a constraint, everything another set holds, or the content of
  another set in place of its own. Each says whether it found something new, or what it
  recorded. A set that is named for the first time is empty.
-/

import TypeRecovery.ConstraintSet
import TypeRecovery.Entries

namespace TypeRecovery

abbrev Registers := Entries String ConstraintSet

/-- A step in the building of the set `name`. -/
inductive Change where
  | add (name : String) (c : Subtyping)
  | addBinding (name : String) (b : Binding)
  | bind (name : String) (target : Target) (fact : Subtyping)
  | update (name other : String)
  | copy (name other : String)
  deriving DecidableEq, Repr

inductive Answer where
  | nothing
  | isNew (b : Bool)
  | recorded (b : Binding)
  deriving DecidableEq, Repr

namespace Registers

def get (rs : Registers) (name : String) : ConstraintSet := (Entries.lookup? rs name).getD .empty

def put (rs : Registers) (name : String) (s : ConstraintSet) : Registers := Entries.set rs name s

def change (rs : Registers) : Change → Registers × Answer
  | .add name c =>
    let s := rs.get name
    (rs.put name (s.insert c), .isNew !(s.contains c))
  | .addBinding name b =>
    let s := rs.get name
    (rs.put name (s.bind b), .isNew !(s.containsBinding b))
  | .bind name target fact =>
    let b : Binding := ⟨target, fact⟩
    (rs.put name ((rs.get name).bind b), .recorded b)
  | .update name other => (rs.put name ((rs.get name).merge (rs.get other)), .nothing)
  | .copy name other =>
    let t := rs.get other
    (rs.put name (.ofLists t.subtypings t.bindings), .nothing)

end Registers

end TypeRecovery
