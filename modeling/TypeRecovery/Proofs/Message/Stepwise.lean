/-
  TypeRecovery.Proofs.Message.Stepwise — the reader of messages with all that its steps can raise.

  A message that has been read is laid out before it is judged: lists without items are left
  out, a number of 64 bits is written in decimal digits, and a target stands under the name of
  its arm. The targets are then put where a document has them, which takes members that may not
  be there and makes an integer of a text that may write none; what comes of it is read as a
  document, by the readers of `Document.Stepwise`. Every step that is not defined everywhere can
  raise, and nothing catches what the targets raise.

  Proved: `withTargets_layout`, the targets raise nothing on what a message was laid out as;
  `constraintSet_layout`, that a list is left out makes no difference; `decode_eq`, step by step
  the reader comes to what `Message.decode` comes to.
-/

import TypeRecovery.Proofs.Document.Stepwise
import TypeRecovery.Proofs.Message.Document
import TypeRecovery.Proofs.Text.Digits

namespace TypeRecovery

namespace Message

/-! ## Layout -/

/-- A member that is left out when its list has no items. -/
def listMember (name : String) (items : List Json) : Json.Members :=
  if items.isEmpty then [] else [(name, .list items)]

def VariableMessage.layout (m : VariableMessage) : Json :=
  .object ((if m.base.isEmpty then [] else [("baseVar", .text m.base)]) ++
    listMember "fieldLabels" (m.labels.map labelDocument))

def variableLayout (name : String) : Option VariableMessage → Json.Members
  | some v => [(name, v.layout)]
  | none => []

def SubtypingMessage.layout (m : SubtypingMessage) : Json :=
  .object (variableLayout "lhs" m.lhs ++ variableLayout "rhs" m.rhs)

def targetLayout : TargetMessage → Json
  | some (.name s) => .object [("name", .text s)]
  | some (.number n) => .object [("number", .text (toString n))]
  | none => .object []

section Layout

variable (ofTarget : TargetMessage → Json)

def BindingMessage.layout (m : BindingMessage) : Json :=
  .object ((match m.fact with
      | some s => [("subTy", s.layout)]
      | none => []) ++
    (match m.target with
      | some t => [("targetVariable", ofTarget t)]
      | none => []))

def SetMessage.layout (m : SetMessage) : Json :=
  .object (listMember "subtypingConstraints" (m.subtypings.map (·.layout)) ++
    listMember "additionalConstraints" (m.bindings.map (·.layout ofTarget)))

end Layout

namespace Stepwise

open Document (Decoded Stepped)
open Document.Stepwise (lift refuse member toInteger)

/-! ## Steps -/

/-- The document of a target that was laid out. -/
def targetOf : Json → Stepped Json
  | .object ms =>
    if Entries.has ms "name" then do
      let name ← member ms "name"
      return .object [("id", name)]
    else if Entries.has ms "number" then do
      let number ← member ms "number"
      let n ← toInteger number
      return .object [("id", .whole n)]
    else return .object []
  | _ => .error .wrongKind

/-- Puts the target of a binding where documents have it. -/
def withTarget : Json → Stepped Json
  | .object ms =>
    if Entries.has ms "targetVariable" then do
      let laid ← member ms "targetVariable"
      let target ← targetOf laid
      return .object (Entries.set ms "targetVariable" target)
    else return .object ms
  | _ => .error .wrongKind

def withTargets : Json → Stepped Json
  | .object ms =>
    match Entries.lookup? ms "additionalConstraints" with
    | none => return .object ms
    | some (.list bindings) => do
      let bindings ← bindings.mapM withTarget
      return .object (Entries.set ms "additionalConstraints" (.list bindings))
    | some _ => .error .wrongKind
  | _ => .error .wrongKind

def decode (bs : Bytes) : Stepped ConstraintSet :=
  match readSet bs with
  | none => refuse Document.top .notMessage
  | some m => do
    let j ← withTargets (m.layout targetLayout)
    Document.Stepwise.constraintSet j

/-! ## Nothing is raised over a target -/

theorem targetOf_layout (t : TargetMessage) : targetOf (targetLayout t) = .ok (targetDocument t) := by
  rcases t with _ | arm
  · rfl
  · cases arm with
    | name s => rfl
    | number n =>
      have hn : toInteger (.text (toString n)) = .ok n := by rw [toInteger, Text.integer?_toString]
      show (toInteger (.text (toString n)) >>= fun n => pure (Json.object [("id", .whole n)])) = _
      rw [hn]
      rfl

theorem withTarget_layout (m : BindingMessage) : withTarget (m.layout targetLayout) = .ok (m.layout targetDocument) := by
  obtain ⟨fact, target⟩ := m
  cases target with
  | none => cases fact <;> rfl
  | some t =>
    have hput : ∀ ms : Json.Members, member ms "targetVariable" = .ok (targetLayout t) → Entries.has ms "targetVariable" = true →
        withTarget (.object ms) = .ok (.object (Entries.set ms "targetVariable" (targetDocument t))) := by
      intro ms hmember hhas
      simp only [withTarget, hhas, if_true, hmember, ok_bind, targetOf_layout]
      rfl
    cases fact with
    | none => exact hput _ rfl rfl
    | some s => exact hput _ rfl rfl

theorem withTargets_layout (m : SetMessage) : withTargets (m.layout targetLayout) = .ok (m.layout targetDocument) := by
  obtain ⟨subtypings, bindings⟩ := m
  have hbindings : (bindings.map (·.layout targetLayout)).mapM withTarget = .ok (bindings.map (·.layout targetDocument)) := by
    rw [mapM_eq_ok, List.forall₂_map_left_iff, List.forall₂_map_right_iff, List.forall₂_same]
    exact fun b _ => withTarget_layout b
  cases bindings with
  | nil => cases subtypings <;> rfl
  | cons b bs =>
    have hput : ∀ before : Json.Members, Entries.lookup? before "additionalConstraints" = none →
        withTargets (.object (before ++ [("additionalConstraints", .list ((b :: bs).map (·.layout targetLayout)))])) =
          .ok (.object (Entries.set (before ++ [("additionalConstraints", .list ((b :: bs).map (·.layout targetLayout)))])
            "additionalConstraints" (.list ((b :: bs).map (·.layout targetDocument))))) := by
      intro before hbefore
      simp only [withTargets, Entries.lookup?_append_new hbefore, if_true, hbindings, ok_bind]
      rfl
    cases subtypings with
    | nil => exact hput [] rfl
    | cons c cs => exact hput [_] rfl

/-! ## Lists that are left out -/

theorem lookup?_listMember {name k : String} (h : name ≠ k) (xs : List Json) : Entries.lookup? (listMember name xs) k = none := by
  cases xs with
  | nil => rfl
  | cons x xs => simp [listMember, Entries.lookup?_cons, h]

theorem items_listMember {before after : Json.Members} {camel snake : String}
    (hcamel : Entries.lookup? before camel = none) (hsnake : Entries.lookup? before snake = none)
    (hcamel' : Entries.lookup? after camel = none) (hsnake' : Entries.lookup? after snake = none) (xs : List Json) (path : String) :
    Document.items (Document.spelled? (before ++ listMember camel xs ++ after) camel snake) path = .ok xs := by
  cases xs with
  | nil =>
    have habsent : Document.spelled? (before ++ listMember camel [] ++ after) camel snake = none := by
      simp [Document.spelled?, listMember, Entries.lookup?_append, hcamel, hsnake, hcamel', hsnake']
    rw [habsent]
    rfl
  | cons x xs =>
    have hthere : Document.spelled? (before ++ listMember camel (x :: xs) ++ after) camel snake = some (.list (x :: xs)) := by
      simp [Document.spelled?, listMember, Entries.lookup?_append, Entries.lookup?_cons, hcamel]
    rw [hthere]
    rfl

theorem each_congr {α β : Type} {f : Json → String → Decoded α} {a b : β → Json} (h : ∀ m path, f (a m) path = f (b m) path)
    (ms : List β) (path : String) : Document.each f path (ms.map a) = Document.each f path (ms.map b) := by
  simp only [Document.each, List.zipIdx_map, List.mapM_map]
  exact congrArg (ms.zipIdx.mapM ·) (funext fun e => h e.1 _)

theorem typeVar_layout (m : VariableMessage) (path : String) :
    Document.typeVar m.layout path = Document.typeVar m.document path := by
  obtain ⟨base, labels⟩ := m
  generalize hname : (if base.isEmpty then [] else [("baseVar", Json.text base)] : Json.Members) = name
  have habsent : ∀ k, k ≠ "baseVar" → Entries.lookup? name k = none := by
    intro k hk
    rw [← hname]
    split
    · rfl
    · simp [Entries.lookup?_cons, Ne.symm hk]
  have hbase : ∀ p, Document.baseName (Document.spelled? (name ++ listMember "fieldLabels" (labels.map labelDocument)) "baseVar"
      "base_var") p = Document.baseName (some (.text base)) p := by
    intro p
    rw [← hname]
    by_cases hz : base = "" <;>
      simp [hz, Document.spelled?, Entries.lookup?_cons, lookup?_listMember, Document.baseName]
  have hlabels : ∀ p, Document.items (Document.spelled? (name ++ listMember "fieldLabels" (labels.map labelDocument)) "fieldLabels"
      "field_labels") p = .ok (labels.map labelDocument) := by
    intro p
    rw [← List.append_nil (name ++ _)]
    exact items_listMember (habsent _ (by decide)) (habsent _ (by decide)) rfl rfl (labels.map labelDocument) p
  rw [typeVar_document]
  simp only [Document.typeVar, VariableMessage.layout, hname, Document.members, ok_bind, hbase, hlabels]

theorem subtyping_layout (m : SubtypingMessage) (path : String) :
    Document.subtyping m.layout path = Document.subtyping m.document path := by
  obtain ⟨lhs, rhs⟩ := m
  rcases lhs with _ | v
  · cases rhs <;> rfl
  · rcases rhs with _ | w
    · rfl
    · show (Document.typeVar v.layout _ >>= fun sub => Document.typeVar w.layout _ >>= fun sup => pure _) = _
      rw [typeVar_layout v, typeVar_layout w]
      rfl

theorem present_targetDocument (t : TargetMessage) (path : String) :
    Document.present (some (targetDocument t)) "targetVariable" path = .ok (targetDocument t) := by
  rcases t with _ | _ | _ <;> rfl

theorem binding_layout (m : BindingMessage) (path : String) :
    Document.binding (m.layout targetDocument) path = Document.binding m.document path := by
  obtain ⟨fact, target⟩ := m
  rcases fact with _ | s
  · cases target <;> rfl
  · rcases target with _ | t
    · rfl
    · have htarget : ∀ (j : Json) (p : String), Document.present (Document.spelled? [("subTy", j), ("targetVariable", targetDocument t)]
          "targetVariable" "target_variable") "targetVariable" p = .ok (targetDocument t) := fun _ p => present_targetDocument t p
      have hfact : ∀ (ms : Json.Members) (p : String), Document.present (Document.spelled? [("subTy", .object ms),
          ("targetVariable", targetDocument t)] "subTy" "sub_ty") "subTy" p = .ok (.object ms) := fun _ _ => rfl
      have hsame := subtyping_layout s (Document.memberPath path "subTy")
      simp only [SubtypingMessage.layout, SubtypingMessage.document] at hsame
      simp only [Document.binding, BindingMessage.layout, BindingMessage.document, SubtypingMessage.layout,
        SubtypingMessage.document, List.singleton_append, Document.members, ok_bind, hfact, htarget, hsame]

theorem constraintSet_layout (m : SetMessage) :
    Document.constraintSet (m.layout targetDocument) = Document.constraintSet m.document := by
  obtain ⟨subtypings, bindings⟩ := m
  have hsubtypings : ∀ p, Document.items (Document.spelled? (listMember "subtypingConstraints" (subtypings.map (·.layout)) ++
      listMember "additionalConstraints" (bindings.map (·.layout targetDocument))) "subtypingConstraints"
        "subtyping_constraints") p = .ok (subtypings.map (·.layout)) :=
    @items_listMember [] _ _ _ rfl rfl (lookup?_listMember (by decide) _) (lookup?_listMember (by decide) _) _
  have hbindings : ∀ p, Document.items (Document.spelled? (listMember "subtypingConstraints" (subtypings.map (·.layout)) ++
      listMember "additionalConstraints" (bindings.map (·.layout targetDocument))) "additionalConstraints"
        "additional_constraints") p = .ok (bindings.map (·.layout targetDocument)) := by
    intro p
    rw [← List.append_nil (_ ++ _)]
    exact items_listMember (lookup?_listMember (by decide) _) (lookup?_listMember (by decide) _) rfl rfl _ p
  simp only [Document.constraintSet, SetMessage.layout, Document.members, ok_bind, hsubtypings, hbindings,
    each_congr subtyping_layout, each_congr binding_layout]
  rfl

theorem decode_eq (bs : Bytes) : decode bs = lift (Message.decode bs) := by
  unfold decode Message.decode
  cases readSet bs with
  | none => rfl
  | some m => simp only [withTargets_layout, ok_bind, Document.Stepwise.constraintSet_eq, constraintSet_layout]

end Stepwise

end Message

end TypeRecovery
