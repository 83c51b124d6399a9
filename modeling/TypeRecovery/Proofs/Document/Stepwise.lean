/-
  TypeRecovery.Proofs.Document.Stepwise — the readers of documents with all that their steps can raise.

  A reader is made of steps that are not defined everywhere: a member is taken that may not be
  there, an integer is made of a value that may have none, a direction of a number that may
  name none, an index of a number that may be negative. Here each such step can raise, the
  checks before it and the handlers around it are written out, and what no handler catches goes
  on to the caller. An infinite number raises what no handler catches, and so does a negative
  index; both are kept away from their steps by a check.

  Proved: step by step the readers come to what the readers of `Document` come to (`label_eq` up to
  `constraintSet_eq`). So nothing is raised but that a document does not fit.
-/

import TypeRecovery.Document
import TypeRecovery.Proofs.Entries

namespace TypeRecovery

namespace Document

/-- What a step can end in other than a value. -/
inductive Raised where
  /-- The document does not fit. -/
  | refused (e : Error)
  /-- A value of a kind for which the step is not defined. -/
  | wrongKind
  /-- A value of the right kind for which the step is not defined. -/
  | wrongValue
  | unbounded
  | absent

abbrev Stepped (α : Type) := Except Raised α

namespace Stepwise

def refuse {α : Type} (path : String) (mismatch : Mismatch) : Stepped α := .error (.refused ⟨path, mismatch⟩)

/-- What a reader comes to, when all that it raises is that the document does not fit. -/
def lift {α : Type} (x : Decoded α) : Stepped α := x.mapError .refused

/-- Takes what a step raises, where it is caught, for a mismatch. -/
def catching {α : Type} (caught : Raised → Bool) (path : String) (mismatch : Mismatch) (x : Stepped α) : Stepped α :=
  match x with
  | .ok a => .ok a
  | .error r => if caught r then refuse path mismatch else .error r

def isKindOrValue : Raised → Bool
  | .wrongKind => true
  | .wrongValue => true
  | _ => false

def isValue : Raised → Bool
  | .wrongValue => true
  | _ => false

/-! ## Steps that are not defined everywhere -/

def member (ms : Json.Members) (name : String) : Stepped Json :=
  match Entries.lookup? ms name with
  | some j => .ok j
  | none => .error .absent

/-- The integer made of a value; a number loses its fraction. -/
def toInteger : Json → Stepped Int
  | .bool b => .ok (if b then 1 else 0)
  | .whole n => .ok n
  | .real (.finite s m e) => let (num, den) := Binary64.fraction s m e; .ok (num.tdiv den)
  | .real (.infinite _) => .error .unbounded
  | .real .undefined => .error .wrongValue
  | .text s =>
    match Text.integer? s with
    | some n => .ok n
    | none => .error .wrongValue
  | .null => .error .wrongKind
  | .list _ => .error .wrongKind
  | .object _ => .error .wrongKind

/-- The pointer label of a number. -/
def direction (n : Int) : Stepped Label := if n = 0 then .ok .load else if n = 1 then .ok .store else .error .wrongValue

/-- The pointer label of a name. -/
def directionNamed (name : String) : Stepped Label :=
  match pointerNamed? name with
  | some l => .ok l
  | none => .error .absent

/-- A label whose index must not be negative. -/
def indexed (make : Int → Except Label.NegativeIndex Label) (n : Int) : Stepped Label :=
  (make n).mapError fun _ => .wrongValue

/-! ## Readers -/

def isWhole : Binary64 → Bool
  | .finite s m e => let (num, den) := Binary64.fraction s m e; num % den = 0
  | _ => false

def inRange (n : Int) (path : String) : Stepped Int :=
  if 0 ≤ n ∧ n ≤ maxUnsigned then .ok n else refuse path (.outOfRange n)

def unsigned (j : Json) (path : String) : Stepped Int :=
  match j with
  | .bool _ => refuse path (.notUnsigned "a boolean")
  | .real x =>
    if isWhole x then do
      let n ← catching isKindOrValue path (.notUnsigned j.display) (toInteger (.real x))
      inRange n path
    else refuse path (.notUnsigned j.display)
  | _ => do
    let n ← catching isKindOrValue path (.notUnsigned j.display) (toInteger j)
    inRange n path

def pointer (j : Json) (path : String) : Stepped Label :=
  match j with
  | .text s =>
    if s = pointerLoad ∨ s = pointerStore then directionNamed s
    else refuse path (.unknownPointer (Text.quoted s))
  | _ => do
    let n ← unsigned j path
    catching isValue path (.unknownPointer (toString n)) (direction n)

def fieldOf (j : Json) (path : String) : Stepped Field := do
  let ms ← lift (members j path)
  let bits ← unsigned ((spelled? ms "bitSize" "bit_size").getD (.whole 0)) (memberPath path "bitSize")
  let offset ← unsigned ((spelled? ms "byteOffset" "byte_offset").getD (.whole 0)) (memberPath path "byteOffset")
  return ⟨bits, offset⟩

def armOf (arm : Arm) (j : Json) (path : String) : Stepped Label :=
  match arm with
  | .pointer => pointer j path
  | .input => do
    let n ← unsigned j path
    indexed Label.inputAt n
  | .output => do
    let n ← unsigned j path
    indexed Label.outputAt n
  | .field => do
    let f ← fieldOf j path
    return .field f

def label (j : Json) (path : String) : Stepped Label := do
  let ms ← lift (members j path)
  match arms.filter fun a => Entries.has ms a.1 with
  | [(name, arm)] =>
    let v ← member ms name
    armOf arm v (memberPath path name)
  | present => refuse path (.labelArms (present.map (·.1)))

def each {α : Type} (f : Json → String → Stepped α) (path : String) (xs : List Json) : Stepped (List α) :=
  xs.zipIdx.mapM fun (j, i) => f j (itemPath path i)

def typeVar (j : Json) (path : String) : Stepped TypeVar := do
  let ms ← lift (members j path)
  let base ← lift (baseName (spelled? ms "baseVar" "base_var") (memberPath path "baseVar"))
  let labels ← lift (items (spelled? ms "fieldLabels" "field_labels") (memberPath path "fieldLabels"))
  let steps ← each label (memberPath path "fieldLabels") labels
  return ⟨base, steps⟩

def subtyping (j : Json) (path : String) : Stepped Subtyping := do
  let ms ← lift (members j path)
  if Entries.has ms "lhs" then
    if Entries.has ms "rhs" then
      let sub ← typeVar (← member ms "lhs") (memberPath path "lhs")
      let sup ← typeVar (← member ms "rhs") (memberPath path "rhs")
      return ⟨sub, sup⟩
    else refuse path (.missing "rhs")
  else refuse path (.missing "lhs")

def target (j : Json) (path : String) : Stepped Target :=
  match j with
  | .object ms =>
    if Entries.has ms "id" then do
      let id ← member ms "id"
      lift (targetId id path)
    else refuse path .targetWithoutId
  | _ => lift (targetId j path)

def binding (j : Json) (path : String) : Stepped Binding := do
  let ms ← lift (members j path)
  let fact ← lift (present (spelled? ms "subTy" "sub_ty") "subTy" path)
  let target_ ← lift (present (spelled? ms "targetVariable" "target_variable") "targetVariable" path)
  let fact ← subtyping fact (memberPath path "subTy")
  let target_ ← target target_ (memberPath path "targetVariable")
  return ⟨target_, fact⟩

def constraintSet (j : Json) : Stepped ConstraintSet := do
  let ms ← lift (members j top)
  let facts ← lift (items (spelled? ms "subtypingConstraints" "subtyping_constraints") (memberPath top "subtypingConstraints"))
  let facts ← each subtyping (memberPath top "subtypingConstraints") facts
  let bindings ←
    lift (items (spelled? ms "additionalConstraints" "additional_constraints") (memberPath top "additionalConstraints"))
  let bindings ← each binding (memberPath top "additionalConstraints") bindings
  return .ofLists facts bindings

/-! ## Nothing else is raised -/

@[simp] theorem lift_ok {α : Type} (a : α) : lift (.ok a : Decoded α) = .ok a := rfl

@[simp] theorem lift_fail {α : Type} (path : String) (m : Mismatch) : lift (fail path m : Decoded α) = refuse path m := rfl

@[simp] theorem lift_pure {α : Type} (a : α) : lift (pure a : Decoded α) = pure a := rfl

@[simp] theorem lift_bind {α β : Type} (x : Decoded α) (f : α → Decoded β) :
    lift (x >>= f) = lift x >>= fun a => lift (f a) := by
  cases x <;> rfl

theorem inRange_eq (n : Int) (path : String) : inRange n path = (do
    let m ← lift (if 0 ≤ n ∧ n ≤ maxUnsigned then .ok n.toNat else fail path (.outOfRange n) : Decoded Nat)
    return (m : Int)) := by
  rw [inRange]
  split
  · rename_i h
    show Except.ok n = Except.ok (n.toNat : Int)
    rw [Int.toNat_of_nonneg h.1]
  · rfl

/-- A number without bounds is told apart before an integer is made of it. -/
theorem unsigned_eq (j : Json) (path : String) :
    unsigned j path = (do let n ← lift (Document.unsigned j path); return (n : Int)) := by
  cases j with
  | null => rfl
  | bool b => rfl
  | whole n => exact inRange_eq n path
  | real x =>
    cases x with
    | finite s m e =>
      simp only [unsigned, isWhole, toInteger, Document.unsigned, integer?]
      by_cases hd : (Binary64.fraction s m e).1 % (Binary64.fraction s m e).2 = 0
      · have hcut := Int.tdiv_eq_ediv_of_dvd (Int.dvd_of_emod_eq_zero hd)
        simp only [hd, decide_true, if_true, catching, ok_bind, hcut]
        exact inRange_eq _ path
      · simp only [hd, decide_false, Bool.false_eq_true, if_false]
        rfl
    | infinite s => rfl
    | undefined => rfl
  | text s =>
    simp only [unsigned, toInteger, Document.unsigned, integer?]
    cases Text.integer? s with
    | none => rfl
    | some n => exact inRange_eq n path
  | list xs => rfl
  | object ms => rfl

theorem pointer_eq (j : Json) (path : String) : pointer j path = lift (Document.pointer j path) := by
  cases j with
  | text s =>
    simp only [pointer, Document.pointer, directionNamed, pointerNamed?]
    by_cases hload : s = pointerLoad
    · simp [hload]
    · by_cases hstore : s = pointerStore
      · simp [hstore, pointerLoad, pointerStore]
      · simp [hload, hstore]
  | _ =>
    simp only [pointer, Document.pointer, unsigned_eq, lift_bind, bind_assoc, pure_bind]
    refine bind_congr fun n => ?_
    rcases n with _ | _ | n
    · rfl
    · rfl
    · have h0 : ((n + 2 : Nat) : Int) ≠ 0 := by omega
      have h1 : ((n + 2 : Nat) : Int) ≠ 1 := by omega
      simp only [direction, h0, h1, if_false]
      rfl

theorem fieldOf_eq (j : Json) (path : String) : fieldOf j path = lift (Document.fieldOf j path) := by
  simp only [fieldOf, Document.fieldOf, unsigned_eq, lift_bind, lift_pure, bind_assoc, pure_bind]

/-- An index is in range before a label is made of it. -/
theorem indexed_eq {make : Int → Except Label.NegativeIndex Label} {label : Nat → Label}
    (h : ∀ n : Nat, make n = .ok (label n)) (x : Decoded Nat) :
    (lift x >>= fun n => indexed make n) = lift (x.map label) := by
  cases x with
  | error e => rfl
  | ok n =>
    show (make n).mapError _ = _
    rw [h n]
    rfl

theorem inputAt_natCast (n : Nat) : Label.inputAt n = .ok (.input n) := by
  have h : ¬(n : Int) < 0 := by omega
  simp [Label.inputAt, h]

theorem outputAt_natCast (n : Nat) : Label.outputAt n = .ok (.output n) := by
  have h : ¬(n : Int) < 0 := by omega
  simp [Label.outputAt, h]

theorem armOf_eq (arm : Arm) (j : Json) (path : String) : armOf arm j path = lift (Document.armOf arm j path) := by
  cases arm with
  | pointer => exact pointer_eq j path
  | input => simp only [armOf, Document.armOf, unsigned_eq, bind_assoc, pure_bind, indexed_eq inputAt_natCast]
  | output => simp only [armOf, Document.armOf, unsigned_eq, bind_assoc, pure_bind, indexed_eq outputAt_natCast]
  | field =>
    rw [armOf, Document.armOf, fieldOf_eq]
    cases Document.fieldOf j path <;> rfl

theorem has_eq (ms : Json.Members) (name : String) : Entries.has ms name = (Entries.lookup? ms name).isSome := by
  rw [Bool.eq_iff_iff, Entries.has_iff, Option.isSome_iff_ne_none, ne_eq, Entries.lookup?_eq_none_iff, not_not]

/-- The arms that are there, each with what is taken of it. -/
def armsOf (ms : Json.Members) (as : List (String × Arm)) : List (String × Arm × Json) :=
  as.filterMap fun (name, arm) => (Entries.lookup? ms name).map fun v => (name, arm, v)

theorem filter_arms (ms : Json.Members) (as : List (String × Arm)) :
    as.filter (fun a => Entries.has ms a.1) = (armsOf ms as).map fun a => (a.1, a.2.1) := by
  induction as with
  | nil => rfl
  | cons a as ih =>
    unfold armsOf at ih ⊢
    cases ha : Entries.lookup? ms a.1 with
    | none => simp [has_eq, ha, ← ih]
    | some v => simp [has_eq, ha, ← ih]

theorem member_armsOf {ms : Json.Members} {as : List (String × Arm)} {a : String × Arm × Json} (ha : a ∈ armsOf ms as) :
    member ms a.1 = .ok a.2.2 := by
  obtain ⟨b, -, hb⟩ := List.mem_filterMap.mp ha
  obtain ⟨v, hv, rfl⟩ := Option.map_eq_some_iff.mp hb
  simp [member, hv]

theorem label_eq (j : Json) (path : String) : label j path = lift (Document.label j path) := by
  simp only [label, Document.label, lift_bind]
  refine bind_congr fun ms => ?_
  generalize hpresent : List.filterMap _ arms = present
  have harms : armsOf ms arms = present := hpresent
  have hmem : ∀ a ∈ present, member ms a.1 = .ok a.2.2 := fun a ha => member_armsOf (harms ▸ ha)
  rw [filter_arms, harms]
  rcases present with _ | ⟨a, _ | ⟨b, rest⟩⟩
  · rfl
  · simp only [List.map_cons, List.map_nil, hmem a List.mem_cons_self, ok_bind, armOf_eq]
  · simp [List.map_map, Function.comp_def]

theorem mapM_lift {α β : Type} (g : α → Decoded β) (xs : List α) : xs.mapM (fun x => lift (g x)) = lift (xs.mapM g) := by
  induction xs with
  | nil => rfl
  | cons x xs ih =>
    rw [List.mapM_cons, List.mapM_cons, lift_bind, ih]
    simp only [lift_bind, lift_pure]

theorem each_eq {α : Type} {f : Json → String → Stepped α} {g : Json → String → Decoded α}
    (h : ∀ j path, f j path = lift (g j path)) (path : String) (xs : List Json) :
    each f path xs = lift (Document.each g path xs) := by
  rw [each, Document.each, ← mapM_lift]
  exact congrArg (xs.zipIdx.mapM ·) (funext fun (j, i) => h j (itemPath path i))

theorem typeVar_eq (j : Json) (path : String) : typeVar j path = lift (Document.typeVar j path) := by
  simp only [typeVar, Document.typeVar, each_eq label_eq, lift_bind, lift_pure]

theorem subtyping_eq (j : Json) (path : String) : subtyping j path = lift (Document.subtyping j path) := by
  simp only [subtyping, Document.subtyping, lift_bind, lift_pure, required, member, has_eq, typeVar_eq]
  congr 1
  funext ms
  cases Entries.lookup? ms "lhs" with
  | none => rfl
  | some lhs =>
    cases Entries.lookup? ms "rhs" with
    | none => rfl
    | some rhs => rfl

theorem target_eq (j : Json) (path : String) : target j path = lift (Document.target j path) := by
  cases j with
  | object ms =>
    simp only [target, Document.target, member, has_eq]
    cases Entries.lookup? ms "id" <;> rfl
  | _ => rfl

theorem binding_eq (j : Json) (path : String) : binding j path = lift (Document.binding j path) := by
  simp only [binding, Document.binding, subtyping_eq, target_eq, lift_bind, lift_pure]

theorem constraintSet_eq (j : Json) : constraintSet j = lift (Document.constraintSet j) := by
  simp only [constraintSet, Document.constraintSet, each_eq subtyping_eq, each_eq binding_eq, lift_bind, lift_pure]

end Stepwise

end Document

end TypeRecovery
