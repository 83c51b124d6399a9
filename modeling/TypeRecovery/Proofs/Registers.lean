/-
  TypeRecovery.Proofs.Registers — constraint sets as their histories.

  What was put into a set is one sequence of constraints and one of bindings, with repeats: an
  update puts in all that was ever put into the other set, a copy starts again from that. Each set
  shows the first occurrences of its sequences (`Shows`), whatever was done to it and to the others,
  since inserting first occurrences comes to the same as inserting everything. The answers and the
  other views are then those of the sequences.

  Proved:
  - `foldl_appendNew_eraseDups`: insertion keeps the first occurrences.
  - `change_shows`, `run_shows`: what one change preserves, and what holds after any changes.
  - `Shows.merge_merge`, `ConstraintSet.same_iff`: updates and comparisons.
  - `after_changes`: every view and every answer, after any changes to any number of sets.
-/

import Mathlib.Data.Finset.Card
import Mathlib.Data.List.Induction
import TypeRecovery.Proofs.ConstraintSet
import TypeRecovery.Registers

namespace TypeRecovery

/-! ## First occurrences -/

section FirstOccurrences

variable {α β : Type} [DecidableEq α] [DecidableEq β]

theorem eraseDups_concat (xs : List α) (x : α) : (xs ++ [x]).eraseDups = appendNew xs.eraseDups x := by
  rw [List.eraseDups_append, appendNew]
  by_cases hx : x ∈ xs <;> simp [List.removeAll, List.eraseDups_cons, hx]

theorem foldl_appendNew_eraseDups (xs ys : List α) : ys.foldl appendNew xs.eraseDups = (xs ++ ys).eraseDups := by
  induction ys generalizing xs with
  | nil => simp
  | cons y ys ih => rw [List.foldl_cons, ← eraseDups_concat, ih, List.append_assoc, List.singleton_append]

theorem firstOccurrences_eq_eraseDups (xs : List α) : firstOccurrences xs = xs.eraseDups := foldl_appendNew_eraseDups [] xs

theorem nodup_eraseDups (xs : List α) : xs.eraseDups.Nodup := by
  rw [← firstOccurrences_eq_eraseDups]
  exact nodup_foldl_appendNew List.nodup_nil

theorem eraseDups_append_of_subset {xs ys : List α} (h : ys ⊆ xs) : (xs ++ ys).eraseDups = xs.eraseDups := by
  have hnone : ys.removeAll xs = [] := by
    refine List.filter_eq_nil_iff.mpr fun y hy => ?_
    simpa using h hy
  rw [List.eraseDups_append, hnone, List.eraseDups_nil, List.append_nil]

/-- Repeats do not matter where first occurrences are taken afterwards. -/
theorem eraseDups_append_map_eraseDups (f : α → β) (xs : List β) (ys : List α) :
    (xs ++ ys.eraseDups.map f).eraseDups = (xs ++ ys.map f).eraseDups := by
  induction ys using List.reverseRecOn with
  | nil => rfl
  | append_singleton ys y ih =>
    have hlast : (xs ++ (ys ++ [y]).map f).eraseDups = appendNew (xs ++ ys.eraseDups.map f).eraseDups (f y) := by
      rw [List.map_append, List.map_singleton, ← List.append_assoc, eraseDups_concat, ih]
    rw [hlast, eraseDups_concat]
    unfold appendNew
    by_cases hy : y ∈ ys.eraseDups
    · have hmem : f y ∈ (xs ++ ys.eraseDups.map f).eraseDups :=
        List.mem_eraseDups.mpr (List.mem_append_right _ (List.mem_map_of_mem hy))
      rw [if_pos hy, if_pos hmem]
    · rw [if_neg hy, List.map_append, List.map_singleton, ← List.append_assoc, eraseDups_concat]
      rfl

theorem eraseDups_append_eraseDups (xs ys : List α) : (xs ++ ys.eraseDups).eraseDups = (xs ++ ys).eraseDups := by
  have h := eraseDups_append_map_eraseDups id xs ys
  rwa [List.map_id, List.map_id] at h

theorem length_eraseDups (xs : List α) : xs.eraseDups.length = xs.toFinset.card := by
  have hset : xs.eraseDups.toFinset = xs.toFinset := by
    ext x
    simp
  rw [← hset, List.toFinset_card_of_nodup (nodup_eraseDups xs)]

end FirstOccurrences

/-! ## Histories -/

/-- All that was put into a set, in turn and with repeats. -/
structure Insertions where
  subtypings : List Subtyping
  bindings : List Binding

namespace Insertions

def none : Insertions := ⟨[], []⟩

def add (l : Insertions) (c : Subtyping) : Insertions := { l with subtypings := l.subtypings ++ [c] }

def bind (l : Insertions) (b : Binding) : Insertions := { l with bindings := l.bindings ++ [b] }

def followedBy (l m : Insertions) : Insertions := ⟨l.subtypings ++ m.subtypings, l.bindings ++ m.bindings⟩

end Insertions

abbrev Histories := String → Insertions

def Histories.change (hs : Histories) : Change → Histories
  | .add name c => Function.update hs name ((hs name).add c)
  | .addBinding name b => Function.update hs name ((hs name).bind b)
  | .bind name target fact => Function.update hs name ((hs name).bind ⟨target, fact⟩)
  | .update name other => Function.update hs name ((hs name).followedBy (hs other))
  | .copy name other => Function.update hs name (hs other)

def Histories.run (changes : List Change) : Histories := changes.foldl Histories.change fun _ => .none

def Registers.run (changes : List Change) : Registers := changes.foldl (fun rs c => (rs.change c).1) []

/-- The set holds the first occurrences of what was put into it. -/
structure Shows (s : ConstraintSet) (l : Insertions) : Prop where
  subtypings : s.subtypings = l.subtypings.eraseDups
  bindings : s.bindings = l.bindings.eraseDups

namespace Shows

variable {s t : ConstraintSet} {l m : Insertions}

theorem empty : Shows .empty .none := ⟨rfl, rfl⟩

theorem insert (h : Shows s l) (c : Subtyping) : Shows (s.insert c) (l.add c) where
  subtypings := by rw [Insertions.add, eraseDups_concat, ← h.subtypings, ConstraintSet.insert]
  bindings := h.bindings

theorem bind (h : Shows s l) (b : Binding) : Shows (s.bind b) (l.bind b) where
  subtypings := h.subtypings
  bindings := by rw [Insertions.bind, eraseDups_concat, ← h.bindings, ConstraintSet.bind]

theorem merge (h : Shows s l) (h' : Shows t m) : Shows (s.merge t) (l.followedBy m) := by
  rw [ConstraintSet.merge, ConstraintSet.foldl_insert, ConstraintSet.foldl_bind]
  constructor
  · show t.subtypings.foldl appendNew s.subtypings = (l.subtypings ++ m.subtypings).eraseDups
    rw [h.subtypings, h'.subtypings, foldl_appendNew_eraseDups, eraseDups_append_eraseDups]
  · show t.bindings.foldl appendNew s.bindings = (l.bindings ++ m.bindings).eraseDups
    rw [h.bindings, h'.bindings, foldl_appendNew_eraseDups, eraseDups_append_eraseDups]

theorem distinct (h : Shows s l) : s.Distinct where
  subtypings := h.subtypings ▸ nodup_eraseDups _
  bindings := h.bindings ▸ nodup_eraseDups _

theorem ofLists (h : Shows s l) : Shows (.ofLists s.subtypings s.bindings) l := by
  rw [ConstraintSet.ofLists_eq h.distinct]
  exact h

/-- A set is determined by the first occurrences of what was put into it. -/
theorem eq_of (h : Shows s l) (h' : Shows t m) (hsubtypings : l.subtypings.eraseDups = m.subtypings.eraseDups)
    (hbindings : l.bindings.eraseDups = m.bindings.eraseDups) : s = t := by
  cases s
  cases t
  exact congrArg₂ ConstraintSet.mk ((h.subtypings.trans hsubtypings).trans h'.subtypings.symm)
    ((h.bindings.trans hbindings).trans h'.bindings.symm)

/-- What is there already changes nothing, so neither does a set itself. -/
theorem eq_of_followedBy (h : Shows s l) (h' : Shows t (l.followedBy m)) (hsubtypings : m.subtypings ⊆ l.subtypings)
    (hbindings : m.bindings ⊆ l.bindings) : t = s :=
  h'.eq_of h (eraseDups_append_of_subset hsubtypings) (eraseDups_append_of_subset hbindings)

theorem merge_self (h : Shows s l) : s.merge s = s :=
  h.eq_of_followedBy (h.merge h) (List.Subset.refl _) (List.Subset.refl _)

theorem merge_merge (h : Shows s l) (h' : Shows t m) : (s.merge t).merge t = s.merge t :=
  (h.merge h').eq_of_followedBy ((h.merge h').merge h') (List.subset_append_right _ _) (List.subset_append_right _ _)

theorem mem_subtypings (h : Shows s l) {c : Subtyping} : c ∈ s.subtypings ↔ c ∈ l.subtypings := by
  rw [h.subtypings, List.mem_eraseDups]

theorem mem_bindings (h : Shows s l) {b : Binding} : b ∈ s.bindings ↔ b ∈ l.bindings := by
  rw [h.bindings, List.mem_eraseDups]

theorem contains_iff (h : Shows s l) (c : Subtyping) : s.contains c = decide (c ∈ l.subtypings) := by
  simp [ConstraintSet.contains, h.mem_subtypings]

theorem containsBinding_iff (h : Shows s l) (b : Binding) : s.containsBinding b = decide (b ∈ l.bindings) := by
  simp [ConstraintSet.containsBinding, h.mem_bindings]

theorem size_eq (h : Shows s l) : s.size = l.subtypings.toFinset.card + l.bindings.toFinset.card := by
  rw [ConstraintSet.size, h.subtypings, h.bindings, length_eraseDups, length_eraseDups]

theorem facts_eq (h : Shows s l) : s.facts = l.subtypings.eraseDups ++ l.bindings.eraseDups.map (·.fact) := by
  rw [ConstraintSet.facts, h.subtypings, h.bindings]

theorem targets_eq (h : Shows s l) : s.targets = (l.bindings.map (·.target)).eraseDups := by
  rw [ConstraintSet.targets, firstOccurrences_eq_eraseDups, h.bindings]
  exact eraseDups_append_map_eraseDups _ [] _

end Shows

theorem ConstraintSet.sameElements_iff {α : Type} [DecidableEq α] {xs ys : List α} :
    sameElements xs ys = true ↔ ∀ x, x ∈ xs ↔ x ∈ ys := by
  simp only [sameElements, Bool.and_eq_true, List.all_eq_true, List.contains_iff_mem]
  exact ⟨fun ⟨h, h'⟩ x => ⟨h x, h' x⟩, fun h => ⟨fun x => (h x).mp, fun x => (h x).mpr⟩⟩

theorem ConstraintSet.same_iff {s t : ConstraintSet} : s.same t = true ↔
    (∀ c, c ∈ s.subtypings ↔ c ∈ t.subtypings) ∧ ∀ b, b ∈ s.bindings ↔ b ∈ t.bindings := by
  rw [same, Bool.and_eq_true, sameElements_iff, sameElements_iff]

namespace Registers

theorem get_put (rs : Registers) (name : String) (s : ConstraintSet) (name' : String) :
    (rs.put name s).get name' = if name' = name then s else rs.get name' := by
  simp only [get, put, Entries.lookup?_set]
  split <;> rfl

theorem put_shows {rs : Registers} {hs : Histories} (h : ∀ name, Shows (rs.get name) (hs name)) {name : String}
    {s : ConstraintSet} {l : Insertions} (hl : Shows s l) (name' : String) :
    Shows ((rs.put name s).get name') (Function.update hs name l name') := by
  rw [get_put, Function.update_apply]
  split
  · exact hl
  · exact h name'

theorem change_shows {rs : Registers} {hs : Histories} (h : ∀ name, Shows (rs.get name) (hs name)) (c : Change) :
    ∀ name, Shows ((rs.change c).1.get name) (hs.change c name) := by
  cases c with
  | add name c => exact put_shows h ((h name).insert c)
  | addBinding name b => exact put_shows h ((h name).bind b)
  | bind name target fact => exact put_shows h ((h name).bind ⟨target, fact⟩)
  | update name other => exact put_shows h ((h name).merge (h other))
  | copy name other => exact put_shows h (h other).ofLists

theorem run_shows (changes : List Change) : ∀ name, Shows ((run changes).get name) (Histories.run changes name) := by
  induction changes using List.reverseRecOn with
  | nil => exact fun name => .empty
  | append_singleton changes c ih =>
    rw [run, Histories.run, List.foldl_concat, List.foldl_concat]
    exact change_shows ih c

section Update

variable {rs : Registers} {hs : Histories} (h : ∀ name, Shows (rs.get name) (hs name)) (name other : String)
include h

/-- An update leaves the set it takes from as it is, its own included. -/
theorem get_update_other : (rs.change (.update name other)).1.get other = rs.get other := by
  simp only [change, get_put]
  split
  · rename_i heq
    subst heq
    exact (h other).merge_self
  · rfl

theorem get_update_update (name' : String) :
    ((rs.change (.update name other)).1.change (.update name other)).1.get name' =
      (rs.change (.update name other)).1.get name' := by
  have hother := get_update_other h name other
  have hname : (rs.change (.update name other)).1.get name = (rs.get name).merge (rs.get other) := by
    simp [change, get_put]
  have htwice := (h name).merge_merge (h other)
  generalize rs.change (.update name other) = once at hother hname
  simp only [change, get_put, hother, hname, htwice]
  split
  · rename_i heq
    rw [heq, hname]
  · rfl

end Update

/-- Any changes to any number of sets leave in each the first occurrences of what was put into it,
and every view and every answer is that of what was put in. An update made twice is made once, and
leaves the other set as it is; two sets are the same when both views have the same elements. -/
theorem after_changes (changes : List Change) :
    let rs := run changes
    let hs := Histories.run changes
    (∀ name, (rs.get name).subtypings = (hs name).subtypings.eraseDups ∧
      (rs.get name).bindings = (hs name).bindings.eraseDups) ∧
    (∀ name c, (rs.change (.add name c)).2 = .isNew (decide (c ∉ (hs name).subtypings))) ∧
    (∀ name b, (rs.change (.addBinding name b)).2 = .isNew (decide (b ∉ (hs name).bindings))) ∧
    (∀ name, (rs.get name).size = (hs name).subtypings.toFinset.card + (hs name).bindings.toFinset.card ∧
      (∀ c, (rs.get name).contains c = decide (c ∈ (hs name).subtypings)) ∧
      (∀ b, (rs.get name).containsBinding b = decide (b ∈ (hs name).bindings)) ∧
      (rs.get name).targets = ((hs name).bindings.map (·.target)).eraseDups ∧
      (rs.get name).facts = (hs name).subtypings.eraseDups ++ (hs name).bindings.eraseDups.map (·.fact)) ∧
    (∀ name other, let once := (rs.change (.update name other)).1
      once.get other = rs.get other ∧ ∀ name', (once.change (.update name other)).1.get name' = once.get name') ∧
    ∀ name other, (rs.get name).same (rs.get other) = true ↔
      (∀ c, c ∈ (rs.get name).subtypings ↔ c ∈ (rs.get other).subtypings) ∧
      ∀ b, b ∈ (rs.get name).bindings ↔ b ∈ (rs.get other).bindings := by
  intro rs hs
  have hshows := run_shows changes
  refine ⟨fun name => ⟨(hshows name).subtypings, (hshows name).bindings⟩, fun name c => ?_, fun name b => ?_,
    fun name => ⟨(hshows name).size_eq, (hshows name).contains_iff, (hshows name).containsBinding_iff,
      (hshows name).targets_eq, (hshows name).facts_eq⟩,
    fun name other => ⟨get_update_other hshows name other, get_update_update hshows name other⟩,
    fun name other => ConstraintSet.same_iff⟩
  · rw [change, (hshows name).contains_iff, decide_not]
  · rw [change, (hshows name).containsBinding_iff, decide_not]

end Registers

end TypeRecovery
