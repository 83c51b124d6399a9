/-
  TypeRecovery.Proofs.Document.Refusal — which documents are refused, and where.

  A reader is given the path of its document only to name it: the path stands in front of every
  error and decides nothing else (`Anchored`). So whether an element of a list fits does not
  depend on its place, and a list is refused at its first element that does not fit, with the
  error of that element at its place. A constraint set reads its facts before its bindings.

  Proved:
  - `anchored_label`, `anchored_typeVar`, `anchored_subtyping`, `anchored_binding`: readers are anchored.
  - `each_fits`, `each_eq_error`: which lists are read, and what the others are refused with.
  - `constraintSet_decodes`: the same of constraint sets, which come to nothing else.
-/

import TypeRecovery.Proofs.Document
import TypeRecovery.Proofs.Document.Stepwise

namespace TypeRecovery

namespace Document

/-! ## Paths in errors -/

/-- The error of an element, told from further up. -/
def Error.under (outer : String) (e : Error) : Error := ⟨outer ++ e.path, e.mismatch⟩

/-- The path is all that an outcome takes from where the document stands. -/
def Anchored {α : Type} (read : String → Decoded α) : Prop :=
  ∀ outer path, read (outer ++ path) = (read path).mapError (Error.under outer)

theorem memberPath_append (outer path name : String) : memberPath (outer ++ path) name = outer ++ memberPath path name := by
  simp only [memberPath, String.append_assoc]

theorem itemPath_append (outer path : String) (i : Nat) : itemPath (outer ++ path) i = outer ++ itemPath path i := by
  simp only [itemPath, String.append_assoc]

namespace Anchored

variable {α β : Type} {read : String → Decoded α}

theorem ok (a : α) : Anchored fun _ => .ok a := fun _ _ => rfl

theorem returns (a : α) : Anchored fun _ => (return a : Decoded α) := fun _ _ => rfl

theorem fail (mismatch : Mismatch) : Anchored fun path => (Document.fail path mismatch : Decoded α) := fun _ _ => rfl

theorem bind (h : Anchored read) {next : String → α → Decoded β} (h' : ∀ a, Anchored fun path => next path a) :
    Anchored fun path => read path >>= next path := by
  intro outer path
  show read (outer ++ path) >>= next (outer ++ path) = (read path >>= next path).mapError (Error.under outer)
  rw [h outer path]
  cases read path with
  | error e => rfl
  | ok a => exact h' a outer path

theorem map (h : Anchored read) (f : α → β) : Anchored fun path => (read path).map f := by
  intro outer path
  show (read (outer ++ path)).map f = ((read path).map f).mapError (Error.under outer)
  rw [h outer path]
  cases read path <;> rfl

theorem member (h : Anchored read) (name : String) : Anchored fun path => read (memberPath path name) := by
  intro outer path
  show read (memberPath (outer ++ path) name) = _
  rw [memberPath_append]
  exact h outer _

theorem item (h : Anchored read) (i : Nat) : Anchored fun path => read (itemPath path i) := by
  intro outer path
  show read (itemPath (outer ++ path) i) = _
  rw [itemPath_append]
  exact h outer _

theorem each {f : Json → String → Decoded α} (h : ∀ j, Anchored (f j)) (xs : List Json) :
    Anchored fun path => Document.each f path xs := by
  unfold Document.each
  induction xs.zipIdx with
  | nil => exact returns []
  | cons e es ih =>
    simp only [List.mapM_cons]
    exact ((h e.1).item e.2).bind fun a => ih.bind fun as => returns (a :: as)

/-- Whether a document fits does not depend on where it stands. -/
theorem fits (h : Anchored read) (path path' : String) : (∃ a, read path = .ok a) ↔ ∃ a, read path' = .ok a := by
  have hread : ∀ p, (∃ a, read p = .ok a) ↔ ∃ a, read "" = .ok a := by
    intro p
    have hp := h p ""
    rw [String.append_empty] at hp
    rw [hp]
    cases read "" with
    | error e => exact ⟨fun ⟨_, h⟩ => (nomatch h), fun ⟨_, h⟩ => (nomatch h)⟩
    | ok a => exact ⟨fun _ => ⟨a, rfl⟩, fun _ => ⟨a, rfl⟩⟩
  rw [hread path, hread path']

end Anchored

/-! ## Readers -/

theorem anchored_members (j : Json) : Anchored (members j) := by
  cases j with
  | object ms => exact .ok ms
  | _ => exact .fail _

theorem anchored_items (j : Option Json) : Anchored (items j) := by
  rcases j with _ | j
  · exact .ok []
  · cases j with
    | null => exact .ok []
    | list xs => exact .ok xs
    | _ => exact .fail _

theorem anchored_unsigned (j : Json) : Anchored (unsigned j) := by
  intro outer path
  unfold unsigned
  split
  · rfl
  · cases integer? j with
    | none => rfl
    | some n =>
      by_cases hn : 0 ≤ n ∧ n ≤ maxUnsigned
      · simp only [hn, and_self, if_true]
        rfl
      · simp only [hn, if_false]
        rfl

theorem anchored_pointer (j : Json) : Anchored (pointer j) := by
  cases j with
  | text s =>
    intro outer path
    simp only [pointer]
    cases pointerNamed? s <;> rfl
  | _ =>
    refine (anchored_unsigned _).bind fun n => ?_
    rcases n with _ | _ | n
    · exact .returns _
    · exact .returns _
    · exact .fail _

theorem anchored_fieldOf (j : Json) : Anchored (fieldOf j) := by
  refine (anchored_members j).bind fun ms => ?_
  refine ((anchored_unsigned _).member "bitSize").bind fun _ => ?_
  exact ((anchored_unsigned _).member "byteOffset").bind fun _ => .returns _

theorem anchored_armOf (arm : Arm) (j : Json) : Anchored (armOf arm j) := by
  cases arm with
  | pointer => exact anchored_pointer j
  | input => exact (anchored_unsigned j).map _
  | output => exact (anchored_unsigned j).map _
  | field => exact (anchored_fieldOf j).map _

theorem anchored_label (j : Json) : Anchored (label j) := by
  refine (anchored_members j).bind fun ms => ?_
  split
  · rename_i name arm v _
    exact (anchored_armOf arm v).member name
  · exact .fail _

theorem anchored_baseName (j : Option Json) : Anchored (baseName j) := by
  unfold baseName
  intro outer path
  split
  · split <;> rfl
  · rfl

theorem anchored_typeVar (j : Json) : Anchored (typeVar j) := by
  refine (anchored_members j).bind fun ms => ?_
  refine ((anchored_baseName _).member "baseVar").bind fun _ => ?_
  refine ((anchored_items _).member "fieldLabels").bind fun labels => ?_
  exact ((Anchored.each anchored_label labels).member "fieldLabels").bind fun _ => .returns _

theorem anchored_required (ms : Json.Members) (name : String) : Anchored (required ms name) := by
  unfold required
  cases Entries.lookup? ms name with
  | some j => exact .ok j
  | none => exact .fail _

theorem anchored_subtyping (j : Json) : Anchored (subtyping j) := by
  refine (anchored_members j).bind fun ms => ?_
  refine (anchored_required ms "lhs").bind fun lhs => (anchored_required ms "rhs").bind fun rhs => ?_
  refine ((anchored_typeVar lhs).member "lhs").bind fun _ => ?_
  exact ((anchored_typeVar rhs).member "rhs").bind fun _ => .returns _

theorem anchored_targetId (j : Json) : Anchored (targetId j) := by
  cases j with
  | text s => exact .ok _
  | whole n => exact .ok _
  | _ => exact .fail _

theorem anchored_target (j : Json) : Anchored (target j) := by
  intro outer path
  unfold target
  split
  · rename_i ms
    cases Entries.lookup? ms "id" with
    | some id => exact anchored_targetId id outer path
    | none => rfl
  · exact anchored_targetId j outer path

theorem anchored_present (j : Option Json) (name : String) : Anchored (present j name) := by
  rcases j with _ | j
  · exact .fail _
  · cases j with
    | null => exact .fail _
    | _ => exact .ok _

theorem anchored_binding (j : Json) : Anchored (binding j) := by
  refine (anchored_members j).bind fun ms => ?_
  refine (anchored_present _ "subTy").bind fun fact => (anchored_present _ "targetVariable").bind fun target => ?_
  refine ((anchored_subtyping fact).member "subTy").bind fun _ => ?_
  exact ((anchored_target target).member "targetVariable").bind fun _ => .returns _

/-! ## Lists -/

/-- A document that a reader takes where documents begin. -/
def Fits {α : Type} (f : Json → String → Decoded α) (j : Json) : Prop := ∃ a, f j top = .ok a

/-- The error of the first element that does not fit, at its place in the list. -/
def FirstRefused {α : Type} (f : Json → String → Decoded α) (path : String) (xs : List Json) (e : Error) : Prop :=
  ∃ before x after, xs = before ++ x :: after ∧ (∀ y ∈ before, Fits f y) ∧ f x (itemPath path before.length) = .error e

section Lists

variable {α : Type} {f : Json → String → Decoded α} (hf : ∀ j, Anchored (f j)) {path : String} {xs : List Json}
include hf

theorem each_fits : (∃ as, each f path xs = .ok as) ↔ ∀ x ∈ xs, Fits f x := by
  unfold each
  simp only [mapM_eq_ok, exists_forall₂]
  constructor
  · intro h x hx
    obtain ⟨i, hi, rfl⟩ := List.getElem_of_mem hx
    have hmem : (xs[i], i) ∈ xs.zipIdx := by simp [List.mem_zipIdx_iff_getElem?]
    exact ((hf _).fits top (itemPath path i)).mpr (h _ hmem)
  · intro h e hmem
    obtain ⟨x, i⟩ := e
    have hx : x ∈ xs := List.mem_of_getElem? (List.mem_zipIdx_iff_getElem?.mp hmem)
    exact ((hf x).fits top (itemPath path i)).mp (h x hx)

theorem each_eq_error {e : Error} : each f path xs = .error e ↔ FirstRefused f path xs e := by
  have hfits : ∀ (j : Json) (i : Nat), (∃ a, f j (itemPath path i) = .ok a) ↔ Fits f j := fun j i => (hf j).fits _ _
  unfold each FirstRefused
  rw [mapM_eq_error]
  constructor
  · rintro ⟨before, ⟨x, i⟩, after, hsplit, hbefore, hx⟩
    obtain ⟨before, rest, rfl, rfl, hrest⟩ := List.zipIdx_eq_append_iff.mp hsplit
    obtain ⟨y, after, rfl, hy, -⟩ := List.zipIdx_eq_cons_iff.mp hrest.symm
    cases hy
    refine ⟨before, x, after, rfl, fun y hy => ?_, by simpa using hx⟩
    obtain ⟨i, hi, rfl⟩ := List.getElem_of_mem hy
    exact (hfits _ i).mp (hbefore (before[i], i) (by simp [List.mem_zipIdx_iff_getElem?]))
  · rintro ⟨before, x, after, rfl, hbefore, hx⟩
    refine ⟨before.zipIdx, (x, before.length), after.zipIdx (before.length + 1), ?_, ?_, hx⟩
    · rw [List.zipIdx_append, List.zipIdx_cons, Nat.zero_add]
    · intro e he
      have hmem : e.1 ∈ before := List.mem_of_getElem? (List.mem_zipIdx_iff_getElem?.mp he)
      exact (hfits e.1 e.2).mpr (hbefore e.1 hmem)

end Lists

/-! ## Constraint sets -/

theorem constraintSet_object {ms : Json.Members} {facts bindings : List Json}
    (hfacts : spelled? ms "subtypingConstraints" "subtyping_constraints" = some (.list facts))
    (hbindings : spelled? ms "additionalConstraints" "additional_constraints" = some (.list bindings)) :
    constraintSet (.object ms) = do
      let facts ← each subtyping "$.subtypingConstraints" facts
      let bindings ← each binding "$.additionalConstraints" bindings
      return .ofLists facts bindings := by
  simp only [constraintSet, members, hfacts, hbindings, items, ok_bind]
  rfl

/-- A document comes to a set or does not fit. In a set no base name is empty and all numbers of
labels are unsigned integers of 32 bits. Two lists come to one exactly if all their elements fit,
each where documents begin; the error is otherwise that of the first element that does not, at its
place, those of the facts before those of the bindings. -/
theorem constraintSet_decodes (j : Json) :
    ((∃ s, Stepwise.constraintSet j = .ok s ∧ constraintSet j = .ok s) ∨
      ∃ e, Stepwise.constraintSet j = .error (.refused e) ∧ constraintSet j = .error e) ∧
    (∀ s, constraintSet j = .ok s → Readable s) ∧
    ∀ ms facts bindings, j = .object ms →
      spelled? ms "subtypingConstraints" "subtyping_constraints" = some (.list facts) →
      spelled? ms "additionalConstraints" "additional_constraints" = some (.list bindings) →
        ((∃ s, constraintSet j = .ok s) ↔ (∀ x ∈ facts, Fits subtyping x) ∧ ∀ x ∈ bindings, Fits binding x) ∧
        ∀ e, constraintSet j = .error e ↔ FirstRefused subtyping "$.subtypingConstraints" facts e ∨
          (∀ x ∈ facts, Fits subtyping x) ∧ FirstRefused binding "$.additionalConstraints" bindings e := by
  refine ⟨?_, fun s hs => (constraintSet_readable hs).2, ?_⟩
  · rw [Stepwise.constraintSet_eq]
    cases constraintSet j with
    | ok s => exact Or.inl ⟨s, rfl, rfl⟩
    | error e => exact Or.inr ⟨e, rfl, rfl⟩
  · rintro ms facts bindings rfl hfacts hbindings
    have hfactsFit : (∃ as, each subtyping "$.subtypingConstraints" facts = .ok as) ↔ _ := each_fits anchored_subtyping
    have hbindingsFit : (∃ as, each binding "$.additionalConstraints" bindings = .ok as) ↔ _ := each_fits anchored_binding
    simp only [constraintSet_object hfacts hbindings, ← hfactsFit, ← hbindingsFit, ← each_eq_error anchored_subtyping,
      ← each_eq_error anchored_binding]
    cases each subtyping "$.subtypingConstraints" facts with
    | error e => simp [bind, Except.bind]
    | ok as =>
      cases each binding "$.additionalConstraints" bindings with
      | error e => simp [bind, Except.bind]
      | ok bs => simp [bind, Except.bind, pure, Except.pure]

/-- The document of a fact between bare names. -/
def bareFact (lhs rhs : String) : Json :=
  .object [("lhs", .object [("baseVar", .text lhs)]), ("rhs", .object [("baseVar", .text rhs)])]

/-- A fact with a field of infinite size. -/
def endlessFact : Json :=
  .object [("lhs", .object [("baseVar", .text "p")]), ("rhs", .object [("baseVar", .text "x"),
    ("fieldLabels", .list [.object [("field", .object [("bitSize", .real (.infinite false))])]])])]

/-- Nothing after the endless fact is looked at, no second fact that does not fit and no binding. -/
theorem endlessFact_refused :
    let ms := [("subtypingConstraints", .list [bareFact "x" "y", endlessFact, .null]),
      ("additional_constraints", .list [.bool true])]
    constraintSet (.object ms) =
        .error ⟨"$.subtypingConstraints[1].rhs.fieldLabels[0].field.bitSize", .notUnsigned "inf"⟩ ∧
      ¬∃ s, constraintSet (.object ms) = .ok s := by
  intro ms
  have hsecond : FirstRefused subtyping "$.subtypingConstraints" [bareFact "x" "y", endlessFact, .null]
      ⟨"$.subtypingConstraints[1].rhs.fieldLabels[0].field.bitSize", .notUnsigned "inf"⟩ := by
    refine ⟨[bareFact "x" "y"], endlessFact, [.null], rfl, ?_, rfl⟩
    intro y hy
    cases List.mem_singleton.mp hy
    exact ⟨⟨⟨"x", []⟩, ⟨"y", []⟩⟩, rfl⟩
  obtain ⟨-, -, hlists⟩ := constraintSet_decodes (.object ms)
  obtain ⟨hset, herror⟩ := hlists ms _ _ rfl rfl rfl
  refine ⟨(herror _).mpr (Or.inl hsecond), ?_⟩
  rw [hset]
  intro h
  obtain ⟨c, hc⟩ := h.1 .null (by simp)
  cases hc

end Document

end TypeRecovery
