/-
  TypeRecovery.Proofs.Sketch.Uses — the uses of a class, label by label.

  The labels of a class are taken in their order, and each adds the class it leads to under
  its own kind of use. No label occurs twice, so what is entered under a label is exactly where
  the class leads by it.

  Proved of a class whose edges are tidy:
  - `mem_labels_iff`: its labels are those by which it leads somewhere.
  - `lookup?_inputs`, `lookup?_outputs`, `load_ofClass`, `store_ofClass`, `mem_fields`: where each
    use leads.
  - `isCalled_iff`: which classes are called.
  - `ofLabels_rename`: uses commute with a change of the class numbers.
-/

import TypeRecovery.Proofs.Partition.Classes
import TypeRecovery.Proofs.Sketch.Layout
import TypeRecovery.Sketch.Shape

namespace TypeRecovery

open TypeRecovery.Partition (Tidy)

/-! ## Labels of a class -/

namespace TypeClass

variable {c : TypeClass} (hc : Tidy c.edges)
include hc

theorem target?_eq_none_iff {l : Label} : c.target? l = none ↔ l ∉ c.labels := by
  rw [labels, List.mem_mergeSort, target?, destinations, ← Entries.lookup?_eq_none_iff]
  cases h : Entries.lookup? c.edges l with
  | none => simp
  | some ds => simpa using (hc.lists h).2

/-- The labels of a class are those by which it leads somewhere. -/
theorem mem_labels_iff {l : Label} : l ∈ c.labels ↔ ∃ d, c.target? l = some d := by
  constructor
  · intro h
    cases hd : c.target? l with
    | none => exact absurd h ((target?_eq_none_iff hc).mp hd)
    | some d => exact ⟨d, rfl⟩
  · rintro ⟨d, hd⟩
    by_contra h
    rw [(target?_eq_none_iff hc).mpr h] at hd
    cases hd

end TypeClass

namespace Uses

/-! ## Uses by a list of labels -/

section Labels

variable (lead? : Label → Option Nat)

def step (u : Uses) (l : Label) : Uses :=
  match lead? l with
  | some d => u.add l d
  | none => u

/-- The uses by some labels, each leading where `lead?` says. -/
def ofLabels (ls : List Label) : Uses := ls.foldl (step lead?) empty

theorem ofClass_eq (c : TypeClass) : ofClass c = ofLabels c.target? c.labels := rfl

/-- A list of uses that each label adds at most one element to. -/
theorem foldl_step_list {β : Type} (view : Uses → List β) (one? : Label → Nat → Option β)
    (hadd : ∀ u l d, view (u.add l d) = view u ++ (one? l d).toList) (ls : List Label) (u : Uses) :
    view (ls.foldl (step lead?) u) = view u ++ ls.filterMap fun l => (lead? l).bind (one? l) := by
  induction ls generalizing u with
  | nil => simp
  | cons l ls ih =>
    rw [List.foldl_cons, ih, List.filterMap_cons, step]
    cases lead? l with
    | none => simp
    | some d =>
      rw [hadd, List.append_assoc]
      cases h : one? l d <;> simp [h]

/-- A use that one label alone sets. -/
theorem foldl_step_single (view : Uses → Option Nat) (k : Label)
    (hadd : ∀ u l d, view (u.add l d) = if l = k then some d else view u) (ls : List Label) (u : Uses) :
    view (ls.foldl (step lead?) u) = (if k ∈ ls then lead? k else none).or (view u) := by
  induction ls generalizing u with
  | nil => simp
  | cons l ls ih =>
    rw [List.foldl_cons, ih, step]
    cases hd : lead? l with
    | none =>
      by_cases hl : l = k
      · subst hl; simp [hd]
      · simp [Ne.symm hl]
    | some d =>
      simp only [hadd]
      by_cases hl : l = k
      · subst hl
        by_cases hmem : l ∈ ls <;> simp [hd, hmem]
      · simp [hl, Ne.symm hl]

def inputUse? : Label → Nat → Option (Nat × Nat)
  | .input i, d => some (i, d)
  | _, _ => none

def outputUse? : Label → Nat → Option (Nat × Nat)
  | .output i, d => some (i, d)
  | _, _ => none

def fieldUse? : Label → Nat → Option FieldUse
  | .field f, d => some (f, (d : Int))
  | _, _ => none

theorem inputs_ofLabels (ls : List Label) :
    (ofLabels lead? ls).inputs = ls.filterMap fun l => (lead? l).bind (inputUse? l) :=
  foldl_step_list lead? (·.inputs) inputUse? (fun u l d => by cases l <;> simp [add, inputUse?]) ls empty

theorem outputs_ofLabels (ls : List Label) :
    (ofLabels lead? ls).outputs = ls.filterMap fun l => (lead? l).bind (outputUse? l) :=
  foldl_step_list lead? (·.outputs) outputUse? (fun u l d => by cases l <;> simp [add, outputUse?]) ls empty

theorem fields_ofLabels (ls : List Label) :
    (ofLabels lead? ls).fields = ls.filterMap fun l => (lead? l).bind (fieldUse? l) :=
  foldl_step_list lead? (·.fields) fieldUse? (fun u l d => by cases l <;> simp [add, fieldUse?]) ls empty

theorem load_ofLabels (ls : List Label) : (ofLabels lead? ls).load = if .load ∈ ls then lead? .load else none :=
  (foldl_step_single lead? (·.load) .load (fun u l d => by cases l <;> simp [add]) ls empty).trans Option.or_none

theorem store_ofLabels (ls : List Label) : (ofLabels lead? ls).store = if .store ∈ ls then lead? .store else none :=
  (foldl_step_single lead? (·.store) .store (fun u l d => by cases l <;> simp [add]) ls empty).trans Option.or_none

end Labels

/-! ## Uses of a class -/

section Class

variable {c : TypeClass} (hc : Tidy c.edges)
include hc

theorem mem_inputs {i d : Nat} : (i, d) ∈ (ofClass c).inputs ↔ c.target? (.input i) = some d := by
  rw [ofClass_eq, inputs_ofLabels, List.mem_filterMap]
  constructor
  · rintro ⟨l, -, h⟩
    obtain ⟨e, he, h⟩ := Option.bind_eq_some_iff.mp h
    cases l <;> simp_all [inputUse?]
  · intro h
    exact ⟨.input i, (TypeClass.mem_labels_iff hc).mpr ⟨d, h⟩, by simp [h, inputUse?]⟩

theorem mem_outputs {i d : Nat} : (i, d) ∈ (ofClass c).outputs ↔ c.target? (.output i) = some d := by
  rw [ofClass_eq, outputs_ofLabels, List.mem_filterMap]
  constructor
  · rintro ⟨l, -, h⟩
    obtain ⟨e, he, h⟩ := Option.bind_eq_some_iff.mp h
    cases l <;> simp_all [outputUse?]
  · intro h
    exact ⟨.output i, (TypeClass.mem_labels_iff hc).mpr ⟨d, h⟩, by simp [h, outputUse?]⟩

theorem mem_fields {f : Field} {t : Int} :
    (f, t) ∈ (ofClass c).fields ↔ ∃ d : Nat, c.target? (.field f) = some d ∧ t = d := by
  rw [ofClass_eq, fields_ofLabels, List.mem_filterMap]
  constructor
  · rintro ⟨l, -, h⟩
    obtain ⟨d, hd, h⟩ := Option.bind_eq_some_iff.mp h
    cases l <;> simp_all [fieldUse?]
  · rintro ⟨d, h, rfl⟩
    exact ⟨.field f, (TypeClass.mem_labels_iff hc).mpr ⟨d, h⟩, by simp [h, fieldUse?]⟩

theorem lookup?_inputs (i : Nat) : Entries.lookup? (ofClass c).inputs i = c.target? (.input i) :=
  Entries.lookup?_eq_of_mem_iff fun _ => mem_inputs hc

theorem lookup?_outputs (i : Nat) : Entries.lookup? (ofClass c).outputs i = c.target? (.output i) :=
  Entries.lookup?_eq_of_mem_iff fun _ => mem_outputs hc

theorem load_ofClass : (ofClass c).load = c.target? .load := by
  rw [ofClass_eq, load_ofLabels]
  split
  · rfl
  · rename_i h
    exact ((TypeClass.target?_eq_none_iff hc).mpr h).symm

theorem store_ofClass : (ofClass c).store = c.target? .store := by
  rw [ofClass_eq, store_ofLabels]
  split
  · rfl
  · rename_i h
    exact ((TypeClass.target?_eq_none_iff hc).mpr h).symm

/-- A class is called when it leads anywhere by an input or an output. -/
theorem isCalled_iff : (ofClass c).isCalled = true ↔
    ∃ i d, c.target? (.input i) = some d ∨ c.target? (.output i) = some d := by
  simp only [isCalled, Bool.or_eq_true, Bool.not_eq_true', List.isEmpty_eq_false_iff_exists_mem, Prod.exists,
    mem_inputs hc, mem_outputs hc, exists_or]

end Class

/-! ## Other numbers for the classes -/

/-- The sketch of a class whose number is changed by `f`. -/
def liftId (f : Nat → Nat) (id : Int) : Int := (f id.toNat : Nat)

@[simp] theorem liftId_natCast (f : Nat → Nat) (d : Nat) : liftId f d = (f d : Nat) := by simp [liftId]

def rename (f : Nat → Nat) (u : Uses) : Uses where
  inputs := u.inputs.map fun e => (e.1, f e.2)
  outputs := u.outputs.map fun e => (e.1, f e.2)
  load := u.load.map f
  store := u.store.map f
  fields := u.fields.map (Layout.renameUse (liftId f))

theorem add_rename (f : Nat → Nat) (u : Uses) (l : Label) (d : Nat) : (u.rename f).add l (f d) = (u.add l d).rename f := by
  cases l <;> simp [add, rename, Layout.renameUse]

theorem ofLabels_rename (f : Nat → Nat) (lead? : Label → Option Nat) (ls : List Label) :
    ofLabels (fun l => (lead? l).map f) ls = (ofLabels lead? ls).rename f := by
  suffices ∀ u : Uses, ls.foldl (step fun l => (lead? l).map f) (u.rename f) = (ls.foldl (step lead?) u).rename f from
    this empty
  induction ls with
  | nil => exact fun u => rfl
  | cons l ls ih =>
    intro u
    rw [List.foldl_cons, List.foldl_cons, ← ih]
    congr 1
    cases h : lead? l with
    | none => simp [step, h]
    | some d => simp [step, h, add_rename]

end Uses

end TypeRecovery
