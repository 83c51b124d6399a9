/-
  TypeRecovery.Proofs.Components.Correct — the components of a directed graph are found.

  The work a walk has left is the nodes not met and the edges still to follow. Every step
  takes one unit of it, so the budget of a run is enough to empty the way, and then every node
  met is in a component.

  Proved:
  - `components_perm`: each node is in exactly one component.
  - `mem_components_iff`: the nodes of a component are those that reach each other.
  - `Placed.not_leads`, `components_order`: a component reaches none that is found later.
-/

import Mathlib.Algebra.BigOperators.Group.Finset.Basic
import Mathlib.Algebra.GroupWithZero.Nat
import Mathlib.Algebra.Order.BigOperators.Group.Finset
import TypeRecovery.Proofs.Components.Walk

namespace TypeRecovery

namespace Walk

variable {succ : Nat → List Nat} {n : Nat} {w : Walk}

/-! ## Seen nodes stay seen -/

theorem seen_step {x : Nat} (h : w.visit x ≠ .unseen) : (w.step succ).visit x ≠ .unseen := by
  rcases step_cases succ w with ⟨-, hs⟩ | ⟨v, way, -, hs⟩ | ⟨v, u, rest, way, -, ⟨-, hs⟩ | ⟨-, hs⟩ | ⟨-, hs⟩⟩
  · rwa [hs]
  · rw [hs]
    rcases leave_eq { w with path := way } v with ⟨g, below, -, -, he⟩ | ⟨-, he⟩
    · rw [he, visit_place]
      split
      · decide
      · exact h
    · rwa [he]
  · rw [hs, visit_enter]
    split
    · decide
    · exact h
  · rwa [hs]
  · rwa [hs]

theorem seen_run {x : Nat} {budget : Nat} (h : w.visit x ≠ .unseen) : (w.run succ budget).visit x ≠ .unseen := by
  induction budget generalizing w with
  | zero => exact h
  | succ budget ih =>
    unfold run
    split
    · exact h
    · exact ih (seen_step h)

theorem Inv.run (hsucc : ∀ v < n, ∀ u ∈ succ v, u < n) (hi : Inv succ n w.Pending w) {budget : Nat} :
    Inv succ n (w.run succ budget).Pending (w.run succ budget) := by
  induction budget generalizing w with
  | zero => exact hi
  | succ budget ih =>
    unfold Walk.run
    split
    · exact hi
    · exact ih (hi.step hsucc)

/-! ## The work left -/

def toMeet (w : Walk) : Finset Nat := (Finset.range w.visits.size).filter fun v => w.visit v = .unseen

/-- Each node still to be entered or left, and each edge still to be followed. -/
def work (succ : Nat → List Nat) (w : Walk) : Nat :=
  ∑ v ∈ w.toMeet, ((succ v).length + 1) + (w.path.map fun e => e.2.length + 1).sum

theorem work_enter {v : Nat} (h : w.visit v = .unseen) : (w.enter v (succ v)).work succ = w.work succ := by
  have hlt : v < w.visits.size := lt_of_visit (by rw [h]; decide)
  have hmem : v ∈ w.toMeet := Finset.mem_filter.mpr ⟨Finset.mem_range.mpr hlt, h⟩
  have hmeet : (w.enter v (succ v)).toMeet = w.toMeet.erase v := by
    ext u
    have hsize : (w.enter v (succ v)).visits.size = w.visits.size := Array.size_setIfInBounds ..
    simp only [toMeet, Finset.mem_filter, Finset.mem_range, Finset.mem_erase, visit_enter, hsize, hlt, and_true]
    by_cases hu : u = v <;> simp [hu]
  have hsum := Finset.add_sum_erase w.toMeet (fun v => (succ v).length + 1) hmem
  show ∑ u ∈ (w.enter v (succ v)).toMeet, _ + (((v, succ v) :: w.path).map _).sum = _
  rw [hmeet, work]
  simp only [List.map_cons, List.sum_cons]
  omega

theorem work_mono {w w' : Walk} (hmeet : w'.toMeet ⊆ w.toMeet)
    (hpath : (w'.path.map fun e => e.2.length + 1).sum < (w.path.map fun e => e.2.length + 1).sum) :
    w'.work succ < w.work succ := by
  have h : ∑ v ∈ w'.toMeet, ((succ v).length + 1) ≤ ∑ v ∈ w.toMeet, ((succ v).length + 1) :=
    Finset.sum_le_sum_of_subset hmeet
  simp only [work]
  omega

theorem toMeet_leave (w : Walk) (v : Nat) : (w.leave v).toMeet ⊆ w.toMeet ∧ (w.leave v).path = w.path := by
  rcases leave_eq w v with ⟨g, below, -, -, he⟩ | ⟨-, he⟩
  · refine ⟨fun u hu => ?_, by rw [he]⟩
    rw [he] at hu
    simp only [toMeet, Finset.mem_filter, Finset.mem_range, visit_place, size_foldl_set] at hu ⊢
    refine ⟨hu.1, ?_⟩
    have hv := hu.2
    split at hv
    · cases hv
    · exact hv
  · rw [he]; exact ⟨fun _ h => h, rfl⟩

theorem work_step (succ : Nat → List Nat) (h : w.path ≠ []) : (w.step succ).work succ < w.work succ := by
  rcases step_cases succ w with ⟨hw, -⟩ | ⟨v, way, hw, hs⟩ | ⟨v, u, rest, way, hw, ⟨hu, hs⟩ | ⟨-, hs⟩ | ⟨-, hs⟩⟩
  · exact absurd hw h
  · obtain ⟨hmeet, hpath⟩ := toMeet_leave { w with path := way } v
    rw [hs]
    refine work_mono hmeet ?_
    rw [hpath, hw]
    simp
  · rw [hs, work_enter (show ({ w with path := (v, rest) :: way } : Walk).visit u = .unseen from hu)]
    exact work_mono (fun _ h => h) (by rw [hw]; simp)
  · rw [hs]; exact work_mono (fun _ h => h) (by rw [hw]; simp)
  · rw [hs]; exact work_mono (fun _ h => h) (by rw [hw]; simp)

theorem path_run {budget : Nat} (h : w.work succ ≤ budget) : (w.run succ budget).path = [] := by
  induction budget generalizing w with
  | zero =>
    cases hw : w.path with
    | nil => exact hw
    | cons e way => simp [work, hw] at h
  | succ budget ih =>
    unfold run
    split
    · rename_i hw; exact List.isEmpty_iff.mp hw
    · rename_i hw
      have := work_step succ (show w.path ≠ [] by simpa using hw)
      exact ih (by omega)

theorem work_le (succ : Nat → List Nat) (hw : w.path = []) : w.work succ ≤ ∑ v ∈ Finset.range w.visits.size, ((succ v).length + 1) := by
  simp only [work, hw, List.map_nil, List.sum_nil, Nat.add_zero]
  exact Finset.sum_le_sum_of_subset (Finset.filter_subset _ _)

theorem walkBudget_eq (n : Nat) (succ : Nat → List Nat) :
    walkBudget n succ = 1 + ∑ v ∈ Finset.range n, ((succ v).length + 1) := by
  unfold walkBudget
  induction n with
  | zero => rfl
  | succ n ih =>
    rw [List.range_succ, List.foldl_append, ih, Finset.sum_range_succ, List.foldl_cons, List.foldl_nil]
    omega

/-! ## Walks from all roots -/

theorem start_inv (succ : Nat → List Nat) (n : Nat) : Inv succ n (start n).Pending (start n) where
  size := Array.size_replicate
  held_iff := by
    intro v
    by_cases hv : v < n <;> simp [start, visit, hv]
  placed_iff := by
    intro v hv
    simp [start, visit, hv]
  found_lt := by simp [start]
  knit := by simp [start]
  stacked := .nil
  aligned := .nil
  followed := by simp [start]
  waits := by rintro x y ⟨rest, hm, -⟩; cases hm
  found := ⟨.nil, by simp [start], by simp [start], by simp [start], .nil⟩

theorem Inv.groups_eq (hi : Inv succ n w.Pending w) (hw : w.path = []) : w.groups = [] := by
  have ha := hi.aligned
  rw [hw, List.map_nil] at ha
  cases hg : w.groups with
  | nil => rfl
  | cons g below => rw [hg] at ha; cases ha

theorem Inv.enter_root (hi : Inv succ n w.Pending w) (hw : w.path = []) {root : Nat} (hv : w.visit root = .unseen) :
    Inv succ n (w.enter root (succ root)).Pending (w.enter root (succ root)) := by
  refine hi.enter hv (fun g hg => ?_) (fun x y hxy => ?_) fun y hy => ⟨succ root, List.mem_cons_self, hy⟩
  · rw [hi.groups_eq hw] at hg
    cases hg
  · obtain ⟨rest, hm, -⟩ := hxy
    rw [hw] at hm
    cases hm

theorem walkFrom_spec (hsucc : ∀ v < n, ∀ u ∈ succ v, u < n) (hi : Inv succ n w.Pending w) (hw : w.path = [])
    (root : Nat) : let w' := w.walkFrom succ (walkBudget n succ) root
      Inv succ n w'.Pending w' ∧ w'.path = [] ∧ w'.visit root ≠ .unseen ∧
        ∀ x, w.visit x ≠ .unseen → w'.visit x ≠ .unseen := by
  unfold walkFrom
  cases hv : w.visit root with
  | unseen =>
    have hlt : root < w.visits.size := lt_of_visit (by rw [hv]; decide)
    have hroot : (w.enter root (succ root)).visit root = .held := by rw [visit_enter, if_pos ⟨rfl, hlt⟩]
    refine ⟨(hi.enter_root hw hv).run hsucc, path_run ?_, seen_run (by rw [hroot]; decide), fun x hx => seen_run ?_⟩
    · have := work_le succ hw
      rw [work_enter hv, walkBudget_eq, ← hi.size]
      omega
    · rw [visit_enter]
      split
      · decide
      · exact hx
  | held => exact ⟨hi, hw, by rw [hv]; decide, fun _ h => h⟩
  | placed => exact ⟨hi, hw, by rw [hv]; decide, fun _ h => h⟩

theorem walks_spec (hsucc : ∀ v < n, ∀ u ∈ succ v, u < n) (roots : List Nat) (hi : Inv succ n w.Pending w)
    (hw : w.path = []) : let w' := roots.foldl (walkFrom succ (walkBudget n succ)) w
      Inv succ n w'.Pending w' ∧ w'.path = [] ∧ ∀ x, w.visit x ≠ .unseen ∨ x ∈ roots → w'.visit x ≠ .unseen := by
  induction roots generalizing w with
  | nil => exact ⟨hi, hw, fun x hx => hx.resolve_right (by simp)⟩
  | cons root roots ih =>
    obtain ⟨hi', hw', hroot, hkeep⟩ := walkFrom_spec hsucc hi hw root
    obtain ⟨hi'', hw'', hseen⟩ := ih hi' hw'
    refine ⟨hi'', hw'', fun x hx => hseen x ?_⟩
    rcases hx with hx | hx
    · exact Or.inl (hkeep x hx)
    · rcases List.mem_cons.mp hx with rfl | hx
      · exact Or.inl hroot
      · exact Or.inr hx

/-! ## Reachability between components -/

namespace Placed

variable {found : List (List Nat)}

/-- From a component one reaches it and those found before. -/
theorem reach (h : Placed succ found) {later earlier : List (List Nat)} {c : List Nat}
    (hsplit : found = later ++ c :: earlier) {x y : Nat} (hx : x ∈ c) (hxy : Leads succ x y) :
    y ∈ (c :: earlier).flatten := by
  refine hxy.stays (fun v hv u hu => ?_) (List.mem_flatten.mpr ⟨c, List.mem_cons_self, hx⟩)
  have hord := h.order
  rw [hsplit] at hord
  obtain ⟨d, hd, hvd⟩ := List.mem_flatten.mp hv
  have hmem : u ∈ found.flatten := h.closed v (by
    rw [hsplit, List.flatten_append]; exact List.mem_append_right _ hv) u hu
  rw [hsplit, List.flatten_append] at hmem
  refine (List.mem_append.mp hmem).resolve_left fun hl => ?_
  obtain ⟨l, hl, hul⟩ := List.mem_flatten.mp hl
  exact (List.pairwise_append.mp hord).2.2 l hl d hd v hvd u hu hul

theorem disjoint (h : Placed succ found) {later earlier : List (List Nat)} (hsplit : found = later ++ earlier)
    {d : List Nat} (hd : d ∈ later) {y : Nat} (hy : y ∈ d) : y ∉ earlier.flatten := by
  have hn := h.nodup
  rw [hsplit, List.flatten_append] at hn
  exact fun he => (List.nodup_append.mp hn).2.2 y (List.mem_flatten.mpr ⟨d, hd, hy⟩) y he rfl

/-- A component reaches none that is found later. -/
theorem not_leads (h : Placed succ found) {later earlier : List (List Nat)} (hsplit : found = later ++ earlier)
    {c d : List Nat} (hd : d ∈ later) (hc : c ∈ earlier) {x y : Nat} (hx : x ∈ c) (hy : y ∈ d) : ¬Leads succ x y := by
  intro hxy
  obtain ⟨e, e', rfl⟩ := List.append_of_mem hc
  rw [← List.append_assoc] at hsplit
  exact h.disjoint hsplit (List.mem_append_left _ hd) hy (h.reach hsplit hx hxy)

theorem mem_iff (h : Placed succ found) {c : List Nat} (hc : c ∈ found) {x y : Nat} (hx : x ∈ c)
    (hy : y ∈ found.flatten) : y ∈ c ↔ Leads succ x y ∧ Leads succ y x := by
  constructor
  · exact fun hyc => ⟨h.strong c hc x hx y hyc, h.strong c hc y hyc x hx⟩
  · rintro ⟨hxy, hyx⟩
    obtain ⟨d, hd, hyd⟩ := List.mem_flatten.mp hy
    obtain ⟨later, earlier, hsplit⟩ := List.append_of_mem hc
    rw [hsplit] at hd
    -- of two components the one found first does not reach the other
    rcases List.mem_append.mp hd with hd | hd
    · exact absurd hxy (h.not_leads hsplit hd List.mem_cons_self hx hyd)
    · rcases List.mem_cons.mp hd with rfl | hd
      · exact hyd
      · rw [← List.singleton_append, ← List.append_assoc] at hsplit
        exact absurd hyx (h.not_leads hsplit (by simp) hd hyd hx)

end Placed

end Walk

/-! ## Components -/

section Components

variable {succ : Nat → List Nat} {n : Nat} (hsucc : ∀ v < n, ∀ u ∈ succ v, u < n)
include hsucc

theorem components_placed :
    ∃ found, components n succ = found.reverse ∧ Walk.Placed succ found ∧ ∀ v, v ∈ found.flatten ↔ v < n := by
  obtain ⟨hi, hw, hseen⟩ := Walk.walks_spec hsucc (List.range n) (Walk.start_inv succ n) rfl
  refine ⟨_, rfl, hi.found, fun v => ⟨hi.found_lt v, fun hv => (hi.placed_iff hv).mp ?_⟩⟩
  have hv' := hseen v (Or.inr (List.mem_range.mpr hv))
  generalize hw' : (List.range n).foldl (Walk.walkFrom succ (walkBudget n succ)) (Walk.start n) = w at *
  cases hvw : w.visit v with
  | unseen => exact absurd hvw hv'
  | placed => rfl
  | held =>
    obtain ⟨g, hg, -⟩ := hi.held_iff.mp hvw
    rw [hi.groups_eq hw] at hg
    cases hg

/-- Each node is in one component. -/
theorem components_perm : (components n succ).flatten.Perm (List.range n) := by
  obtain ⟨found, he, hp, hmem⟩ := components_placed hsucc
  rw [he]
  refine (List.reverse_perm found).flatten.trans ?_
  refine (List.perm_ext_iff_of_nodup hp.nodup List.nodup_range).mpr fun v => ?_
  rw [hmem, List.mem_range]

theorem components_nonempty {c : List Nat} (hc : c ∈ components n succ) : c ≠ [] := by
  obtain ⟨found, he, hp, -⟩ := components_placed hsucc
  rw [he, List.mem_reverse] at hc
  exact hp.nonempty c hc

/-- Two nodes are in one component when each reaches the other. -/
theorem mem_components_iff {c : List Nat} (hc : c ∈ components n succ) {x y : Nat} (hx : x ∈ c) (hy : y < n) :
    y ∈ c ↔ Leads succ x y ∧ Leads succ y x := by
  obtain ⟨found, he, hp, hmem⟩ := components_placed hsucc
  rw [he, List.mem_reverse] at hc
  exact hp.mem_iff hc hx ((hmem y).mpr hy)

theorem exists_mem_component {x : Nat} (hx : x < n) : ∃ c ∈ components n succ, x ∈ c := by
  rw [← List.mem_flatten, (components_perm hsucc).mem_iff]
  exact List.mem_range.mpr hx

/-- A component that an edge leaves comes after the one the edge enters. -/
theorem components_order {c d : List Nat} (hc : c ∈ components n succ) (hd : d ∈ components n succ) (hne : c ≠ d) {x y : Nat} (hx : x ∈ c) (hy : y ∈ d) (hxy : y ∈ succ x) :
    [d, c].Sublist (components n succ) := by
  obtain ⟨found, he, hplaced, -⟩ := components_placed hsucc
  rw [he] at hc hd ⊢
  obtain ⟨later, earlier, hsplit⟩ := List.append_of_mem (List.mem_reverse.mp hc)
  have hmem := List.mem_reverse.mp hd
  rw [hsplit] at hmem
  have hearlier : d ∈ earlier := by
    rcases List.mem_append.mp hmem with hlater | hmem
    · exact absurd (Leads.edge hxy) (hplaced.not_leads hsplit hlater List.mem_cons_self hx hy)
    · exact (List.mem_cons.mp hmem).resolve_left (Ne.symm hne)
  have hpair : [c, d].Sublist found := by
    rw [hsplit]
    exact ((List.singleton_sublist.mpr hearlier).cons_cons c).trans (List.sublist_append_right ..)
  exact hpair.reverse

end Components

end TypeRecovery
