/-
  TypeRecovery.Proofs.Sketch.Closed — tables without dangling references.

  A table is closed when whatever one of its sketches names is in it. A walk then never leaves
  the table: what it has seen are different sketches of the table, so no more wait than are left,
  and its budget lasts. A text never leaves it either, however deep it goes.

  Proved of a closed table:
  - `Closed.walk`: a walk with enough budget ends, and meets sketches of the table only.
  - `Closed.reachable?`, `Closed.render?`: both give a result for every sketch of the table.
-/

import Mathlib.Data.List.Perm.Subperm
import TypeRecovery.Proofs.Entries
import TypeRecovery.Sketch.Table

namespace TypeRecovery.SketchTable

/-- Every reference of a sketch of the table leads to a sketch of the table. -/
def Closed (t : SketchTable) : Prop :=
  ∀ id sketch, t.sketch? id = some sketch → ∀ r ∈ sketch.references, (t.sketch? r).isSome = true

/-! ## Walks -/

theorem enqueue_cons (seen queue : List Int) (r : Int) (rest : List Int) : enqueue seen queue (r :: rest) =
    if r ∈ seen then enqueue seen queue rest else enqueue (seen ++ [r]) (queue ++ [r]) rest := by
  unfold enqueue
  rw [List.foldl_cons]
  by_cases hr : r ∈ seen <;> simp [hr]

/-- The references not seen yet are seen and wait. -/
theorem enqueue_spec (references : List Int) {seen : List Int} (queue : List Int) (hn : seen.Nodup) :
    ∃ new, enqueue seen queue references = (seen ++ new, queue ++ new) ∧ (seen ++ new).Nodup ∧
      ∀ r ∈ new, r ∈ references := by
  induction references generalizing seen queue with
  | nil => exact ⟨[], by simp [enqueue], by simpa using hn, by simp⟩
  | cons r rest ih =>
    rw [enqueue_cons]
    by_cases hr : r ∈ seen
    · obtain ⟨new, he, hnew, hmem⟩ := ih queue hn
      exact ⟨new, by rw [if_pos hr, he], hnew, fun x hx => List.mem_cons_of_mem _ (hmem x hx)⟩
    · have hn' : (seen ++ [r]).Nodup := by
        refine List.nodup_append.mpr ⟨hn, by simp, fun x hx y hy hxy => ?_⟩
        rw [hxy, List.mem_singleton.mp hy] at hx
        exact hr hx
      obtain ⟨new, he, hnew, hmem⟩ := ih (queue ++ [r]) hn'
      refine ⟨r :: new, ?_, by simpa using hnew, fun x hx => ?_⟩
      · rw [if_neg hr, he, List.append_assoc, List.append_assoc]
        rfl
      · rcases List.mem_cons.mp hx with rfl | hx
        · exact List.mem_cons_self
        · exact List.mem_cons_of_mem _ (hmem x hx)

theorem mem_ids_iff {t : SketchTable} {id : Int} : id ∈ t.sketches.map (·.1) ↔ (t.sketch? id).isSome = true := by
  rw [sketch?, Option.isSome_iff_ne_none, ne_eq, Entries.lookup?_eq_none_iff, not_not]

theorem isSome_mapM {α β : Type} {f : α → Option β} {xs : List α} (h : ∀ x ∈ xs, (f x).isSome = true) :
    (xs.mapM f).isSome = true := by
  obtain ⟨ys, hys⟩ := exists_forall₂.mpr fun x hx => Option.isSome_iff_exists.mp (h x hx)
  exact Option.isSome_iff_exists.mpr ⟨ys, mapM_eq_some.mpr hys⟩

section Closed

variable {t : SketchTable} (ht : t.Closed)
include ht

/-- What has been seen are different sketches of the table, and every one that is not waiting has
used up one of the budget, which therefore lasts. -/
theorem Closed.walk (budget : Nat) (seen queue : List Int) (hn : seen.Nodup)
    (hseen : ∀ id ∈ seen, (t.sketch? id).isSome = true) (hqueue : ∀ id ∈ queue, (t.sketch? id).isSome = true)
    (hbudget : t.size + queue.length < budget + seen.length) :
    ∃ ids, t.walk budget seen queue = some ids ∧ (∀ id ∈ queue, id ∈ ids) ∧ ∀ id ∈ ids, (t.sketch? id).isSome = true := by
  induction budget generalizing seen queue with
  | zero =>
    have hle : seen.length ≤ t.size := by
      have hsub : seen ⊆ t.sketches.map (·.1) := fun id h => mem_ids_iff.mpr (hseen id h)
      simpa [size] using (hn.subperm hsub).length_le
    omega
  | succ budget ih =>
    cases queue with
    | nil => exact ⟨[], rfl, by simp, by simp⟩
    | cons id queue =>
      obtain ⟨sketch, hsketch⟩ := Option.isSome_iff_exists.mp (hqueue id List.mem_cons_self)
      obtain ⟨new, he, hnew, hmem⟩ := enqueue_spec sketch.references queue hn
      have hin : ∀ r ∈ new, (t.sketch? r).isSome = true := fun r hr => ht id sketch hsketch r (hmem r hr)
      obtain ⟨rest, hrest, hwait, htable⟩ := ih (seen ++ new) (queue ++ new) hnew
        (fun x hx => (List.mem_append.mp hx).elim (hseen x) (hin x))
        (fun x hx => (List.mem_append.mp hx).elim (fun h => hqueue x (List.mem_cons_of_mem _ h)) (hin x))
        (by simp only [List.length_append, List.length_cons] at hbudget ⊢; omega)
      refine ⟨id :: rest, ?_, fun x hx => ?_, fun x hx => ?_⟩
      · simp [SketchTable.walk, hsketch, he, hrest]
      · rcases List.mem_cons.mp hx with rfl | hx
        · exact List.mem_cons_self
        · exact List.mem_cons_of_mem _ (hwait x (List.mem_append_left _ hx))
      · rcases List.mem_cons.mp hx with rfl | hx
        · exact hqueue x List.mem_cons_self
        · exact htable x hx

theorem Closed.reachable? {root : Int} (h : (t.sketch? root).isSome = true) :
    ∃ ids, t.reachable? root = some ids ∧ root ∈ ids ∧ ∀ id ∈ ids, (t.sketch? id).isSome = true := by
  have hroot : ∀ id ∈ [root], (t.sketch? id).isSome = true := fun id hid => List.mem_singleton.mp hid ▸ h
  obtain ⟨ids, hids, hqueue, htable⟩ :=
    ht.walk (t.size + 1) [root] [root] (List.nodup_singleton root) hroot hroot (by simp)
  exact ⟨ids, hids, hqueue root List.mem_cons_self, htable⟩

/-! ## Text -/

theorem Closed.renderIn (depth : Nat) (active : List Int) {id : Int} (h : (t.sketch? id).isSome = true) :
    (t.renderIn depth active id).isSome = true := by
  induction depth generalizing active id with
  | zero =>
    obtain ⟨sketch, hsketch⟩ := Option.isSome_iff_exists.mp h
    cases sketch <;> simp [SketchTable.renderIn, hsketch]
  | succ depth ih =>
    obtain ⟨sketch, hsketch⟩ := Option.isSome_iff_exists.mp h
    have href := ht id sketch hsketch
    rw [SketchTable.renderIn]
    by_cases hactive : id ∈ active
    · cases sketch <;> simp [hsketch, hactive]
    · cases sketch with
      | primitive width => simp [hsketch]
      | pointer pointee =>
        have hpointee := ih (id :: active) (href pointee List.mem_cons_self)
        simpa [hsketch, hactive] using hpointee
      | struct fields =>
        have hfields : (fields.mapM fun f => (t.renderIn depth (id :: active) f.sketch).map (fieldText f)).isSome = true := by
          refine isSome_mapM fun f hf => ?_
          rw [Option.isSome_map]
          exact ih (id :: active) (href f.sketch (List.mem_map_of_mem hf))
        simpa [hsketch, hactive] using hfields
      | function params returns =>
        have hslots : ∀ slots, slots ⊆ params ++ returns → (slots.mapM (t.renderIn depth (id :: active))).isSome = true :=
          fun slots hs => isSome_mapM fun r hr => ih (id :: active) (href r (hs hr))
        obtain ⟨ps, hps⟩ := Option.isSome_iff_exists.mp (hslots params (List.subset_append_left _ _))
        obtain ⟨rs, hrs⟩ := Option.isSome_iff_exists.mp (hslots returns (List.subset_append_right _ _))
        simp [hsketch, hactive, hps, hrs]

theorem Closed.render? {id : Int} (h : (t.sketch? id).isSome = true) (depth : Nat) :
    ∃ text, t.render? id depth = some text :=
  Option.isSome_iff_exists.mp (ht.renderIn depth [] h)

end Closed

end TypeRecovery.SketchTable
