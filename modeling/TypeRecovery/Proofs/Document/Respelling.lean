/-
  TypeRecovery.Proofs.Document.Respelling — documents that differ in their spelling only.

  A member can stand under its name in camel case or in snake case, a pointer direction under
  its name or its number, and an index, a size or an offset as a number or in decimal digits.
  A step of respelling changes one place of a document from the first spelling to the second;
  any places at all change by steps in turn. A step may go to a place that no reader looks at.

  A reader takes the same value of a document before and after a step, or takes neither; the
  errors can differ, since they show what was found. No reader calls itself, so a step is
  followed member by member and not by induction: the members of an object are looked up by
  their spellings, and under each there is one value that is the same, has been respelled
  inside, or is a direction or a number in its other form (`Matched`). A reader of single
  values refuses an object and a list, so it need not look inside (`Scalar`), and what a reader
  makes of a list is made of the items one by one (`each_agree`).

  Proved:
  - `Respelled.object`: what a step does to the members of an object.
  - `unsigned_agree`, `pointer_agree`, `label_agree`, `typeVar_agree`, `subtyping_agree`,
    `binding_agree`, `constraintSet_agree`: what each reader makes of a step.
  - `constraintSet_respelled`: any number of steps.
-/

import Mathlib.Logic.Relation
import TypeRecovery.Proofs.Document.Refusal
import TypeRecovery.Proofs.Text.Digits

namespace TypeRecovery

namespace Document

open Stepwise (armsOf)

/-! ## Spellings -/

/-- The members that have a name in snake case, under both names. -/
def spellings : List (String × String) :=
  [("subtypingConstraints", "subtyping_constraints"), ("additionalConstraints", "additional_constraints"),
   ("subTy", "sub_ty"), ("targetVariable", "target_variable"), ("baseVar", "base_var"), ("fieldLabels", "field_labels"),
   ("inParam", "in_param"), ("outParam", "out_param"), ("bitSize", "bit_size"), ("byteOffset", "byte_offset")]

/-- The members that hold indices, sizes and offsets. -/
def numbered : List String :=
  ["inParam", "in_param", "outParam", "out_param", "bitSize", "bit_size", "byteOffset", "byte_offset"]

/-- The pointer directions by name and number. -/
def directions : List (String × Int) := [(pointerLoad, 0), (pointerStore, 1)]

/-- A number without a fraction and the integer it is. -/
inductive Integral : Json → Int → Prop
  | whole (n : Int) : Integral (.whole n) n
  | real {x : Binary64} {n : Int} (h : integer? (.real x) = some n) : Integral (.real x) n

/-- One place of a document spelled in the other way. -/
inductive Respelled : Json → Json → Prop
  /-- The object holds the member under no other of its names. -/
  | name {before after : Json.Members} {camel snake : String} {j : Json} (hname : (camel, snake) ∈ spellings)
      (hbefore : ∀ e ∈ before, e.1 ≠ camel ∧ e.1 ≠ snake) (hafter : ∀ e ∈ after, e.1 ≠ camel ∧ e.1 ≠ snake) :
      Respelled (.object (before ++ (camel, j) :: after)) (.object (before ++ (snake, j) :: after))
  | pointer {before after : Json.Members} {name : String} {n : Int} (h : (name, n) ∈ directions) :
      Respelled (.object (before ++ ("ptr", .text name) :: after)) (.object (before ++ ("ptr", .whole n) :: after))
  | number {before after : Json.Members} {name : String} {j : Json} {n : Int} (hname : name ∈ numbered) (hj : Integral j n) :
      Respelled (.object (before ++ (name, j) :: after)) (.object (before ++ (name, .text (toString n)) :: after))
  | member {before after : Json.Members} {name : String} {j j' : Json} (h : Respelled j j') :
      Respelled (.object (before ++ (name, j) :: after)) (.object (before ++ (name, j') :: after))
  | item {before after : List Json} {j j' : Json} (h : Respelled j j') :
      Respelled (.list (before ++ j :: after)) (.list (before ++ j' :: after))

/-- A document and what it is after at most one step. -/
abbrev Close : Json → Json → Prop := Relation.ReflGen Respelled

/-- What a member holds before and after at most one step. -/
inductive Changed (name : String) : Json → Json → Prop
  | close {j j' : Json} (h : Close j j') : Changed name j j'
  | pointer {s : String} {n : Int} (hname : name = "ptr") (h : (s, n) ∈ directions) : Changed name (.text s) (.whole n)
  | number {j : Json} {n : Int} (hname : name ∈ numbered) (hj : Integral j n) : Changed name j (.text (toString n))

theorem Changed.refl (name : String) (j : Json) : Changed name j j := .close .refl

theorem Changed.of_snake {p : String × String} (hp : p ∈ spellings) {j j' : Json} (h : Changed p.2 j j') : Changed p.1 j j' := by
  have hnumbered : ∀ q ∈ spellings, q.2 ∈ numbered → q.1 ∈ numbered := by decide
  have hpointer : ∀ q ∈ spellings, q.2 ≠ "ptr" := by decide
  cases h with
  | close h => exact .close h
  | pointer hname _ => exact absurd hname (hpointer p hp)
  | number hname hj => exact .number (hnumbered p hp hname) hj

/-- Only a direction and a number have another form. -/
theorem Changed.toClose {name : String} (hpointer : name ≠ "ptr") (hnumber : name ∉ numbered) {j j' : Json}
    (h : Changed name j j') : Close j j' := by
  cases h with
  | close h => exact h
  | pointer hname _ => exact absurd hname hpointer
  | number hname _ => exact absurd hname hnumber

/-- A step inside a document goes to an object or a list. -/
theorem Respelled.inside {j j' : Json} (h : Respelled j j') :
    (∃ ms ms', j = .object ms ∧ j' = .object ms') ∨ ∃ xs xs', j = .list xs ∧ j' = .list xs' := by
  cases h with
  | name _ _ _ => exact Or.inl ⟨_, _, rfl, rfl⟩
  | pointer _ => exact Or.inl ⟨_, _, rfl, rfl⟩
  | number _ _ => exact Or.inl ⟨_, _, rfl, rfl⟩
  | member _ => exact Or.inl ⟨_, _, rfl, rfl⟩
  | item _ => exact Or.inr ⟨_, _, rfl, rfl⟩

/-! ## Members -/

/-- What an object holds under the two names of a member. -/
def found (ms : Json.Members) (p : String × String) : List Json :=
  (Entries.lookup? ms p.1).toList ++ (Entries.lookup? ms p.2).toList

/-- The members of an object before and after at most one step. -/
structure Matched (ms ms' : Json.Members) : Prop where
  alone : ∀ name, (∀ p ∈ spellings, p.1 ≠ name ∧ p.2 ≠ name) →
    Option.Rel (Changed name) (Entries.lookup? ms name) (Entries.lookup? ms' name)
  both : ∀ p ∈ spellings, List.Forall₂ (Changed p.1) (found ms p) (found ms' p)

theorem rel_refl (name : String) (o : Option Json) : Option.Rel (Changed name) o o := by
  cases o with
  | none => exact .none
  | some j => exact .some (.refl name j)

theorem forall₂_toList {R : Json → Json → Prop} {o o' : Option Json} (h : Option.Rel R o o') :
    List.Forall₂ R o.toList o'.toList := by
  cases h with
  | none => exact .nil
  | some h => exact .cons h .nil

theorem rel_mono {R S : Json → Json → Prop} (h : ∀ {j j'}, R j j' → S j j') {o o' : Option Json} (ho : Option.Rel R o o') :
    Option.Rel S o o' := by
  cases ho with
  | none => exact .none
  | some hj => exact .some (h hj)

/-- Members that are looked up alike under every name. -/
theorem Matched.of_lookup? {ms ms' : Json.Members}
    (h : ∀ name, Option.Rel (Changed name) (Entries.lookup? ms name) (Entries.lookup? ms' name)) : Matched ms ms' where
  alone name _ := h name
  both p hp := List.rel_append (forall₂_toList (h p.1)) (forall₂_toList (rel_mono (Changed.of_snake hp) (h p.2)))

theorem Matched.refl (ms : Json.Members) : Matched ms ms := .of_lookup? fun name => rel_refl name _

theorem Matched.value {before after : Json.Members} {name : String} {j j' : Json} (h : Changed name j j') :
    Matched (before ++ (name, j) :: after) (before ++ (name, j') :: after) := by
  refine .of_lookup? fun k => ?_
  rw [Entries.lookup?_append, Entries.lookup?_append, Entries.lookup?_cons, Entries.lookup?_cons]
  cases Entries.lookup? before k with
  | some _ => exact rel_refl k _
  | none =>
    rw [Option.none_or, Option.none_or]
    split
    · rename_i hk
      exact .some (hk ▸ h)
    · exact rel_refl k _

/-- A name that a member has neither before nor after it is renamed is looked up as without the member. -/
theorem lookup?_renamed {before after : Json.Members} {k name : String} (hk : k ≠ name) (j : Json) :
    Entries.lookup? (before ++ (k, j) :: after) name = Entries.lookup? (before ++ after) name := by
  rw [Entries.lookup?_append, Entries.lookup?_append, Entries.lookup?_cons, if_neg hk]

theorem lookup?_absent {ms : Json.Members} {name : String} (h : ∀ e ∈ ms, e.1 ≠ name) : Entries.lookup? ms name = none := by
  rw [Entries.lookup?_eq_none_iff]
  intro hmem
  obtain ⟨e, he, hname⟩ := List.mem_map.mp hmem
  exact h e he hname

theorem Matched.name {before after : Json.Members} {camel snake : String} (j : Json) (hname : (camel, snake) ∈ spellings)
    (hbefore : ∀ e ∈ before, e.1 ≠ camel ∧ e.1 ≠ snake) (hafter : ∀ e ∈ after, e.1 ≠ camel ∧ e.1 ≠ snake) :
    Matched (before ++ (camel, j) :: after) (before ++ (snake, j) :: after) where
  alone name hnot := by
    obtain ⟨hcamel, hsnake⟩ := hnot _ hname
    rw [lookup?_renamed hcamel, lookup?_renamed hsnake]
    exact rel_refl name _
  both p hp := by
    have hdistinct : ∀ p ∈ spellings, ∀ q ∈ spellings, p = q ∨ p.1 ≠ q.1 ∧ p.1 ≠ q.2 ∧ p.2 ≠ q.1 ∧ p.2 ≠ q.2 := by decide
    rcases hdistinct _ hname p hp with rfl | ⟨hcc, hcs, hsc, hss⟩
    · have hne : camel ≠ snake := (show ∀ p ∈ spellings, p.1 ≠ p.2 by decide) _ hname
      have hcamel : found (before ++ (camel, j) :: after) (camel, snake) = [j] := by
        simp [found, Entries.lookup?_append, Entries.lookup?_cons, hne, lookup?_absent fun e he => (hbefore e he).1,
          lookup?_absent fun e he => (hbefore e he).2, lookup?_absent fun e he => (hafter e he).2]
      have hsnake : found (before ++ (snake, j) :: after) (camel, snake) = [j] := by
        simp [found, Entries.lookup?_append, Entries.lookup?_cons, Ne.symm hne, lookup?_absent fun e he => (hbefore e he).1,
          lookup?_absent fun e he => (hbefore e he).2, lookup?_absent fun e he => (hafter e he).1]
      rw [hcamel, hsnake]
      exact .cons (.refl _ j) .nil
    · have hsame : found (before ++ (camel, j) :: after) p = found (before ++ (snake, j) :: after) p := by
        simp only [found, lookup?_renamed hcc, lookup?_renamed hcs, lookup?_renamed hsc, lookup?_renamed hss]
      rw [hsame]
      exact List.forall₂_same.mpr fun _ _ => .refl _ _

theorem Respelled.object {ms : Json.Members} {j' : Json} (h : Respelled (.object ms) j') :
    ∃ ms', j' = .object ms' ∧ Matched ms ms' := by
  cases h with
  | name hname hbefore hafter => exact ⟨_, rfl, .name _ hname hbefore hafter⟩
  | pointer h => exact ⟨_, rfl, .value (.pointer rfl h)⟩
  | number hname hj => exact ⟨_, rfl, .value (.number hname hj)⟩
  | member h => exact ⟨_, rfl, .value (.close (.single h))⟩

theorem spelled?_eq (ms : Json.Members) (p : String × String) : spelled? ms p.1 p.2 = (found ms p).head? := by
  unfold spelled? found
  cases Entries.lookup? ms p.1 with
  | some j => rfl
  | none => cases Entries.lookup? ms p.2 <;> rfl

theorem Matched.spelled {ms ms' : Json.Members} (h : Matched ms ms') {camel snake : String}
    (hp : (camel, snake) ∈ spellings) : Option.Rel (Changed camel) (spelled? ms camel snake) (spelled? ms' camel snake) := by
  have hboth := h.both _ hp
  rw [spelled?_eq ms (camel, snake), spelled?_eq ms' (camel, snake)]
  generalize found ms (camel, snake) = xs at hboth ⊢
  generalize found ms' (camel, snake) = xs' at hboth ⊢
  cases hboth with
  | nil => exact .none
  | cons hj _ => exact .some hj

/-- The member of an object that is neither a direction nor a number. -/
theorem Matched.spelledClose {ms ms' : Json.Members} (h : Matched ms ms') {camel snake : String}
    (hp : (camel, snake) ∈ spellings) (hnumber : camel ∉ numbered) :
    Option.Rel Close (spelled? ms camel snake) (spelled? ms' camel snake) :=
  have hpointer : camel ≠ "ptr" := (show ∀ p ∈ spellings, p.1 ≠ "ptr" by decide) _ hp
  rel_mono (fun hj => hj.toClose hpointer hnumber) (h.spelled hp)

/-- A member that has one name and is neither a direction nor a number. -/
theorem Matched.aloneClose {ms ms' : Json.Members} (h : Matched ms ms') {name : String}
    (hname : ∀ p ∈ spellings, p.1 ≠ name ∧ p.2 ≠ name) (hpointer : name ≠ "ptr") (hnumber : name ∉ numbered) :
    Option.Rel Close (Entries.lookup? ms name) (Entries.lookup? ms' name) :=
  rel_mono (fun hj => hj.toClose hpointer hnumber) (h.alone name hname)

/-! ## Outcomes -/

/-- Two readers that both come to a value or both come to none. -/
inductive Agree {α β : Type} (R : α → β → Prop) : Decoded α → Decoded β → Prop
  | ok {a : α} {b : β} (h : R a b) : Agree R (.ok a) (.ok b)
  | error (e e' : Error) : Agree R (.error e) (.error e')

namespace Agree

variable {α β γ δ : Type} {R : α → β → Prop}

theorem bind {S : γ → δ → Prop} {x : Decoded α} {y : Decoded β} {f : α → Decoded γ} {g : β → Decoded δ} (h : Agree R x y)
    (hf : ∀ {a b}, R a b → Agree S (f a) (g b)) : Agree S (x >>= f) (y >>= g) := by
  cases h with
  | ok h => exact hf h
  | error e e' => exact .error e e'

theorem map {x y : Decoded α} (h : Agree Eq x y) (f : α → β) : Agree Eq (x.map f) (y.map f) := by
  cases h with
  | ok h => exact .ok (congrArg f h)
  | error e e' => exact .error e e'

theorem eq_ok {x y : Decoded α} (h : Agree Eq x y) (a : α) : x = .ok a ↔ y = .ok a := by
  cases h with
  | ok h => rw [h]
  | error e e' => exact ⟨fun h => (nomatch h), fun h => (nomatch h)⟩

end Agree

/-- What a reader takes does not depend on where the document stands. -/
theorem Anchored.agree {α : Type} {read : String → Decoded α} (h : Anchored read) (path path' : String) :
    Agree Eq (read path) (read path') := by
  have hread : ∀ p, read p = (read "").mapError (Error.under p) := by
    intro p
    have hp := h p ""
    rwa [String.append_empty] at hp
  rw [hread path, hread path']
  cases read "" with
  | ok a => exact .ok rfl
  | error e => exact .error _ _

/-! ## Readers -/

variable {j j' : Json} {path path' : String}

theorem members_agree (h : Close j j') : Agree Matched (members j path) (members j' path') := by
  cases h with
  | refl =>
    cases j with
    | object ms => exact .ok (.refl ms)
    | _ => exact .error _ _
  | single h =>
    rcases h.inside with ⟨ms, ms', rfl, rfl⟩ | ⟨xs, xs', rfl, rfl⟩
    · obtain ⟨_, he, hms⟩ := h.object
      cases he
      exact .ok hms
    · exact .error _ _

theorem Close.list {xs xs' : List Json} (h : Close (.list xs) (.list xs')) : List.Forall₂ Close xs xs' := by
  have hrefl : ∀ ys : List Json, List.Forall₂ Close ys ys := fun ys => List.forall₂_same.mpr fun _ _ => .refl
  cases h with
  | refl => exact hrefl xs
  | single h =>
    cases h with
    | item h => exact List.rel_append (hrefl _) (.cons (.single h) (hrefl _))

theorem items_agree {o o' : Option Json} (h : Option.Rel Close o o') :
    Agree (List.Forall₂ Close) (items o path) (items o' path') := by
  cases h with
  | none => exact .ok .nil
  | some h =>
    cases h with
    | refl =>
      rename_i j
      cases j with
      | null => exact .ok .nil
      | list xs => exact .ok (Close.list .refl)
      | _ => exact .error _ _
    | single h =>
      rcases h.inside with ⟨ms, ms', rfl, rfl⟩ | ⟨xs, xs', rfl, rfl⟩
      · exact .error _ _
      · exact .ok (Close.list (.single h))

theorem each_agree {α : Type} {f : Json → String → Decoded α}
    (hf : ∀ {j j' path path'}, Close j j' → Agree Eq (f j path) (f j' path')) {xs xs' : List Json}
    (h : List.Forall₂ Close xs xs') : Agree Eq (each f path xs) (each f path' xs') := by
  have hfrom : ∀ i, Agree Eq ((xs.zipIdx i).mapM fun e => f e.1 (itemPath path e.2))
      ((xs'.zipIdx i).mapM fun e => f e.1 (itemPath path' e.2)) := by
    induction h with
    | nil => exact fun i => .ok rfl
    | cons hj _ ih =>
      intro i
      simp only [List.zipIdx_cons, List.mapM_cons]
      refine (hf hj).bind fun ha => (ih (i + 1)).bind fun has => ?_
      rw [ha, has]
      exact .ok rfl
  exact hfrom 0

/-- A reader that takes no object and no list, and uses the path for errors only. -/
structure Scalar {α : Type} (f : Json → String → Decoded α) : Prop where
  anchored : ∀ j, Anchored (f j)
  object : ∀ ms path, ∃ e, f (.object ms) path = .error e
  list : ∀ xs path, ∃ e, f (.list xs) path = .error e

theorem Scalar.agree {α : Type} {f : Json → String → Decoded α} (hf : Scalar f) (h : Close j j') :
    Agree Eq (f j path) (f j' path') := by
  cases h with
  | refl => exact (hf.anchored j).agree path path'
  | single h =>
    rcases h.inside with ⟨ms, ms', rfl, rfl⟩ | ⟨xs, xs', rfl, rfl⟩
    · obtain ⟨e, he⟩ := hf.object ms path
      obtain ⟨e', he'⟩ := hf.object ms' path'
      rw [he, he']
      exact .error e e'
    · obtain ⟨e, he⟩ := hf.list xs path
      obtain ⟨e', he'⟩ := hf.list xs' path'
      rw [he, he']
      exact .error e e'

theorem scalar_unsigned : Scalar unsigned := ⟨anchored_unsigned, fun _ _ => ⟨_, rfl⟩, fun _ _ => ⟨_, rfl⟩⟩

theorem scalar_pointer : Scalar pointer := ⟨anchored_pointer, fun _ _ => ⟨_, rfl⟩, fun _ _ => ⟨_, rfl⟩⟩

theorem scalar_targetId : Scalar targetId := ⟨anchored_targetId, fun _ _ => ⟨_, rfl⟩, fun _ _ => ⟨_, rfl⟩⟩

theorem scalar_baseName : Scalar fun j => baseName (some j) :=
  ⟨fun j => anchored_baseName (some j), fun _ _ => ⟨_, rfl⟩, fun _ _ => ⟨_, rfl⟩⟩

theorem unsigned_of_integral {n : Int} (h : Integral j n) :
    unsigned j path = if 0 ≤ n ∧ n ≤ maxUnsigned then .ok n.toNat else fail path (.outOfRange n) := by
  cases h with
  | whole n => rfl
  | real h => simp only [unsigned, h]

theorem unsigned_agree (name : String) (hname : name ∈ numbered) (h : Changed name j j') :
    Agree Eq (unsigned j path) (unsigned j' path') := by
  cases h with
  | close h => exact scalar_unsigned.agree h
  | pointer hptr _ => exact absurd hname (by rw [hptr]; decide)
  | @number _ n _ hj =>
    have htext : integer? (.text (toString n)) = some n := Text.integer?_toString n
    rw [unsigned_of_integral hj]
    simp only [unsigned, htext]
    split
    · exact .ok rfl
    · exact .error _ _

theorem pointer_agree (h : Changed "ptr" j j') : Agree Eq (pointer j path) (pointer j' path') := by
  cases h with
  | close h => exact scalar_pointer.agree h
  | pointer _ h =>
    rcases List.mem_pair.mp h with h | h
    · cases h; exact .ok rfl
    · cases h; exact .ok rfl
  | number hname _ => exact absurd hname (by decide)

theorem fieldOf_agree (h : Close j j') : Agree Eq (fieldOf j path) (fieldOf j' path') := by
  have hnumber : ∀ {name : String} {o o' : Option Json}, Option.Rel (Changed name) o o' →
      Changed name (o.getD (.whole 0)) (o'.getD (.whole 0)) := by
    intro name o o' ho
    cases ho with
    | none => exact .refl name _
    | some hj => exact hj
  refine (members_agree h).bind fun hms => ?_
  refine (unsigned_agree "bitSize" (by decide) (hnumber (hms.spelled (by decide)))).bind fun hbits => ?_
  refine (unsigned_agree "byteOffset" (by decide) (hnumber (hms.spelled (by decide)))).bind fun hoffset => ?_
  rw [hbits, hoffset]
  exact .ok rfl

/-- The name of an arm in camel case. -/
def Arm.name : Arm → String
  | .pointer => "ptr"
  | .input => "inParam"
  | .output => "outParam"
  | .field => "field"

theorem armOf_agree {arm : Arm} (h : Changed arm.name j j') : Agree Eq (armOf arm j path) (armOf arm j' path') := by
  cases arm with
  | pointer => exact pointer_agree h
  | input => exact (unsigned_agree _ (by decide) h).map _
  | output => exact (unsigned_agree _ (by decide) h).map _
  | field => exact (fieldOf_agree (h.toClose (by decide) (by decide))).map _

/-- The arms of a label that are there, each under its names. -/
def held (ms : Json.Members) : List (Arm × Json) :=
  (Entries.lookup? ms "ptr").toList.map (Prod.mk .pointer) ++ (found ms ("inParam", "in_param")).map (Prod.mk .input) ++
    (found ms ("outParam", "out_param")).map (Prod.mk .output) ++ (Entries.lookup? ms "field").toList.map (Prod.mk .field)

theorem map_armsOf (ms : Json.Members) : (armsOf ms arms).map (·.2) = held ms := by
  have hcons : ∀ (a : String × Arm) (as : List (String × Arm)),
      (armsOf ms (a :: as)).map (·.2) = (Entries.lookup? ms a.1).toList.map (Prod.mk a.2) ++ (armsOf ms as).map (·.2) := by
    intro a as
    unfold armsOf
    cases h : Entries.lookup? ms a.1 <;> simp [h]
  have hnil : (armsOf ms []).map (·.2) = [] := rfl
  simp only [arms, hcons, hnil, held, found, List.map_append, List.append_assoc, List.append_nil]

/-- An arm before and after at most one step. -/
def SameArm (a b : Arm × Json) : Prop := a.1 = b.1 ∧ Changed a.1.name a.2 b.2

theorem Matched.held {ms ms' : Json.Members} (h : Matched ms ms') : List.Forall₂ SameArm (held ms) (held ms') := by
  have harm : ∀ (arm : Arm) {xs xs' : List Json}, List.Forall₂ (Changed arm.name) xs xs' →
      List.Forall₂ SameArm (xs.map (Prod.mk arm)) (xs'.map (Prod.mk arm)) := by
    intro arm xs xs' hxs
    rw [List.forall₂_map_left_iff, List.forall₂_map_right_iff]
    exact hxs.imp fun _ _ hj => ⟨rfl, hj⟩
  have hptr := harm .pointer (forall₂_toList (h.alone "ptr" (by decide)))
  have hinput := harm .input (h.both ("inParam", "in_param") (by decide))
  have houtput := harm .output (h.both ("outParam", "out_param") (by decide))
  have hfield := harm .field (forall₂_toList (h.alone "field" (by decide)))
  exact List.rel_append (List.rel_append (List.rel_append hptr hinput) houtput) hfield

theorem label_agree (h : Close j j') : Agree Eq (label j path) (label j' path') := by
  refine (members_agree h).bind fun {ms ms'} hms => ?_
  have harms := hms.held
  rw [← map_armsOf, ← map_armsOf, List.forall₂_map_left_iff, List.forall₂_map_right_iff] at harms
  unfold armsOf at harms
  generalize List.filterMap _ arms = as at harms ⊢
  generalize List.filterMap _ arms = as' at harms ⊢
  rcases harms with _ | ⟨hfirst, _ | ⟨_, _⟩⟩
  · exact .error _ _
  · rename_i a a'
    obtain ⟨name, arm, j⟩ := a
    obtain ⟨name', arm', j'⟩ := a'
    obtain ⟨he, hj⟩ := hfirst
    cases he
    exact armOf_agree hj
  · exact .error _ _

theorem baseName_agree {o o' : Option Json} (h : Option.Rel Close o o') :
    Agree Eq (baseName o path) (baseName o' path') := by
  cases h with
  | none => exact .error _ _
  | some h => exact scalar_baseName.agree h

theorem typeVar_agree (h : Close j j') : Agree Eq (typeVar j path) (typeVar j' path') := by
  refine (members_agree h).bind fun hms => ?_
  refine (baseName_agree (hms.spelledClose (by decide) (by decide))).bind fun hbase => ?_
  refine (items_agree (hms.spelledClose (by decide) (by decide))).bind fun hlabels => ?_
  refine (each_agree label_agree hlabels).bind fun hsteps => ?_
  rw [hbase, hsteps]
  exact .ok rfl

theorem required_agree {ms ms' : Json.Members} {name : String}
    (h : Option.Rel Close (Entries.lookup? ms name) (Entries.lookup? ms' name)) :
    Agree Close (required ms name path) (required ms' name path') := by
  unfold required
  generalize Entries.lookup? ms name = o at h ⊢
  generalize Entries.lookup? ms' name = o' at h ⊢
  cases h with
  | none => exact .error _ _
  | some h => exact .ok h

theorem subtyping_agree (h : Close j j') : Agree Eq (subtyping j path) (subtyping j' path') := by
  refine (members_agree h).bind fun hms => ?_
  refine (required_agree (hms.aloneClose (by decide) (by decide) (by decide))).bind fun hlhs => ?_
  refine (required_agree (hms.aloneClose (by decide) (by decide) (by decide))).bind fun hrhs => ?_
  refine (typeVar_agree hlhs).bind fun hsub => (typeVar_agree hrhs).bind fun hsup => ?_
  rw [hsub, hsup]
  exact .ok rfl

theorem target_agree (h : Close j j') : Agree Eq (target j path) (target j' path') := by
  cases h with
  | refl => exact (anchored_target j).agree path path'
  | single h =>
    rcases h.inside with ⟨ms, ms', rfl, rfl⟩ | ⟨xs, xs', rfl, rfl⟩
    · obtain ⟨_, he, hms⟩ := h.object
      cases he
      have hid : Option.Rel Close (Entries.lookup? ms "id") (Entries.lookup? ms' "id") :=
        hms.aloneClose (by decide) (by decide) (by decide)
      simp only [target]
      generalize Entries.lookup? ms "id" = o at hid ⊢
      generalize Entries.lookup? ms' "id" = o' at hid ⊢
      cases hid with
      | none => exact .error _ _
      | some hj => exact scalar_targetId.agree hj
    · exact .error _ _

theorem present_agree {o o' : Option Json} (name : String) (h : Option.Rel Close o o') :
    Agree Close (present o name path) (present o' name path') := by
  cases h with
  | none => exact .error _ _
  | some h =>
    cases h with
    | refl =>
      rename_i j
      cases j with
      | null => exact .error _ _
      | _ => exact .ok .refl
    | single h =>
      rcases h.inside with ⟨ms, ms', rfl, rfl⟩ | ⟨xs, xs', rfl, rfl⟩
      · exact .ok (.single h)
      · exact .ok (.single h)

theorem binding_agree (h : Close j j') : Agree Eq (binding j path) (binding j' path') := by
  refine (members_agree h).bind fun hms => ?_
  refine (present_agree _ (hms.spelledClose (by decide) (by decide))).bind fun hfact => ?_
  refine (present_agree _ (hms.spelledClose (by decide) (by decide))).bind fun htarget => ?_
  refine (subtyping_agree hfact).bind fun hc => (target_agree htarget).bind fun ht => ?_
  rw [hc, ht]
  exact .ok rfl

theorem constraintSet_agree (h : Close j j') : Agree Eq (constraintSet j) (constraintSet j') := by
  refine (members_agree h).bind fun hms => ?_
  refine (items_agree (hms.spelledClose (by decide) (by decide))).bind fun hfacts => ?_
  refine (each_agree subtyping_agree hfacts).bind fun hcs => ?_
  refine (items_agree (hms.spelledClose (by decide) (by decide))).bind fun hbindings => ?_
  refine (each_agree binding_agree hbindings).bind fun hbs => ?_
  rw [hcs, hbs]
  exact .ok rfl

/-- However many places are respelled, the same set is read, or none before and after. -/
theorem constraintSet_respelled {d d' : Json} (h : Relation.ReflTransGen Respelled d d') (s : ConstraintSet) :
    constraintSet d = .ok s ↔ constraintSet d' = .ok s := by
  induction h with
  | refl => rfl
  | tail _ hstep ih => exact ih.trans ((constraintSet_agree (.single hstep)).eq_ok s)

/-- The document of one fact, its list and its two sides as they are given. -/
def factDocument (facts : String) (lhs rhs : Json) : Json :=
  .object [(facts, .list [.object [("lhs", lhs), ("rhs", rhs)]])]

/-- A variable with one label. -/
def labelled (base labels name : String) (label : Json) : Json :=
  .object [(base, .text name), (labels, .list [label])]

/-- `snakeCase` with all names in camel case, the pointer by its name and the index as a number. -/
def camelCase : Json :=
  factDocument "subtypingConstraints" (labelled "baseVar" "fieldLabels" "x" (.object [("ptr", .text pointerStore)]))
    (labelled "baseVar" "fieldLabels" "y" (.object [("inParam", .whole 3)]))

theorem snakeCase_respelled : Relation.ReflTransGen Respelled camelCase snakeCase ∧
    constraintSet camelCase = .ok ⟨[⟨⟨"x", [.store]⟩, ⟨"y", [.input 3]⟩⟩], []⟩ := by
  have hfact : ∀ {l l' r r' : Json}, Respelled (.object [("lhs", l), ("rhs", r)]) (.object [("lhs", l'), ("rhs", r')]) →
      Respelled (factDocument "subtyping_constraints" l r) (factDocument "subtyping_constraints" l' r') :=
    fun h => @Respelled.member [] [] _ _ _ (@Respelled.item [] [] _ _ h)
  have hlhs : ∀ {l l' r : Json}, Respelled l l' →
      Respelled (factDocument "subtyping_constraints" l r) (factDocument "subtyping_constraints" l' r) :=
    fun h => hfact (@Respelled.member [] [("rhs", _)] _ _ _ h)
  have hrhs : ∀ {l r r' : Json}, Respelled r r' →
      Respelled (factDocument "subtyping_constraints" l r) (factDocument "subtyping_constraints" l r') :=
    fun h => hfact (@Respelled.member [("lhs", _)] [] _ _ _ h)
  have hbase : ∀ (name : String) (label : Json),
      Respelled (labelled "baseVar" "fieldLabels" name label) (labelled "base_var" "fieldLabels" name label) :=
    fun name label => @Respelled.name [] [("fieldLabels", .list [label])] _ _ _ (by decide) (by simp) (by simp)
  have hlabels : ∀ (name : String) (label : Json),
      Respelled (labelled "base_var" "fieldLabels" name label) (labelled "base_var" "field_labels" name label) :=
    fun name label => @Respelled.name [("base_var", .text name)] [] _ _ _ (by decide) (by simp) (by simp)
  have hlabel : ∀ {name : String} {label label' : Json}, Respelled label label' →
      Respelled (labelled "base_var" "field_labels" name label) (labelled "base_var" "field_labels" name label') :=
    fun h => @Respelled.member [("base_var", .text _)] [] _ _ _ (@Respelled.item [] [] _ _ h)
  have hsteps : Relation.ReflTransGen Respelled camelCase snakeCase :=
    .head (@Respelled.name [] [] _ "subtyping_constraints" _ (by decide) (by simp) (by simp)) <|
    .head (hlhs (hbase _ _)) <| .head (hlhs (hlabels _ _)) <|
    .head (hlhs (hlabel (@Respelled.pointer [] [] _ 1 (by decide)))) <|
    .head (hrhs (hbase _ _)) <| .head (hrhs (hlabels _ _)) <|
    .head (hrhs (hlabel (@Respelled.name [] [] _ "in_param" _ (by decide) (by simp) (by simp)))) <|
    .single (hrhs (hlabel (@Respelled.number [] [] _ _ 3 (by decide) (.whole 3))))
  exact ⟨hsteps, (constraintSet_respelled hsteps _).mpr rfl⟩

end Document

end TypeRecovery
