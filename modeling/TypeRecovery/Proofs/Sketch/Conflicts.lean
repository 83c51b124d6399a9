/-
  TypeRecovery.Proofs.Sketch.Conflicts — what is reported of the fields of a struct.

  The offsets that occur among the fields, ascending and each once, stand for the groups. So the
  conflicts of a layout are said offset by offset, of the fields as they came and of the fields
  placed: the widths of an offset where several fields begin, and the widest field of an offset
  where none is placed. There is one report for each, in this order, and no other.

  Proved:
  - `offsets_eq`, `usesAt_perm`: the groups are the offsets, each with its fields.
  - `ofFields_conflicts`: the conflicts, offset by offset.
  - `placed_offsets`: the placed fields are one for each offset where one is placed.
  - `ofFields_reports`: the reports of a layout, their number, and that no field is dropped silently.
-/

import Mathlib.Data.List.Dedup
import Mathlib.Data.List.Permutation
import TypeRecovery.Proofs.Order
import TypeRecovery.Proofs.Sketch.Layout
import TypeRecovery.Sketch.Shape

namespace TypeRecovery

namespace Layout

/-! ## Offsets -/

theorem intAtMost_total (a b : Int) : (intAtMost a b || intAtMost b a) = true := by
  simp only [intAtMost, Bool.or_eq_true, decide_eq_true_eq]
  omega

theorem intAtMost_trans (a b c : Int) (hab : intAtMost a b = true) (hbc : intAtMost b c = true) : intAtMost a c = true := by
  simp only [intAtMost, decide_eq_true_eq] at *
  omega

theorem intAtMost_antisymm {a b : Int} (hab : intAtMost a b = true) (hba : intAtMost b a = true) : a = b :=
  Int.le_antisymm (of_decide_eq_true hab) (of_decide_eq_true hba)

/-- Numbers have one ascending list. -/
theorem sorted_of_perm {ks ks' : List Int} (h : ks.Perm ks') : ks.mergeSort intAtMost = ks'.mergeSort intAtMost :=
  mergeSort_eq_of_perm intAtMost_trans intAtMost_total (fun _ _ _ _ => intAtMost_antisymm) h

/-- The offsets that occur, ascending and each once. -/
def offsets (fields : List FieldUse) : List Int := (fields.map (·.1.offset)).dedup.mergeSort intAtMost

theorem mem_offsets {fields : List FieldUse} {k : Int} : k ∈ offsets fields ↔ ∃ e ∈ fields, e.1.offset = k := by
  simp [offsets]

theorem offsets_ascending (fields : List FieldUse) : (offsets fields).Pairwise (· < ·) := by
  have hsorted := pairwise_not_le_mergeSort intAtMost_trans intAtMost_total (fun _ _ _ _ => intAtMost_antisymm)
    (List.nodup_dedup (fields.map (·.1.offset)))
  exact hsorted.imp fun h => Int.not_le.mp (of_decide_eq_false h)

def offsetOf : List FieldUse → Int
  | [] => 0
  | e :: _ => e.1.offset

/-- The groups are the offsets. -/
theorem offsets_eq (fields : List FieldUse) : offsets fields = (groups fields).map offsetOf := by
  refine List.Pairwise.eq_of_mem_iff (offsets_ascending fields) (List.pairwise_map.mpr ?_) fun k => ?_
  · refine (groups_ascending fields).imp_of_mem fun {G H} hG hH h => ?_
    obtain ⟨a, as, rfl⟩ := List.exists_cons_of_ne_nil (ne_nil_of_mem_groups hG)
    obtain ⟨b, bs, rfl⟩ := List.exists_cons_of_ne_nil (ne_nil_of_mem_groups hH)
    exact h a List.mem_cons_self b List.mem_cons_self
  · rw [mem_offsets, List.mem_map]
    constructor
    · rintro ⟨e, he, rfl⟩
      obtain ⟨a, as, hG, heG⟩ := exists_group he
      exact ⟨_, hG, (groups_front hG e heG).1.symm⟩
    · rintro ⟨G, hG, rfl⟩
      obtain ⟨a, as, rfl⟩ := List.exists_cons_of_ne_nil (ne_nil_of_mem_groups hG)
      exact ⟨a, mem_of_mem_group hG List.mem_cons_self, rfl⟩

/-! ## The fields of an offset -/

/-- The fields of an offset, in the order in which they came. -/
def usesAt (fields : List FieldUse) (k : Int) : List FieldUse := fields.filter fun e => e.1.offset = k

/-- The widths at an offset, ascending. -/
def widthsAt (fields : List FieldUse) (k : Int) : List Int := ((usesAt fields k).map (·.1.bits)).mergeSort intAtMost

/-- The widest access at an offset. -/
def widestAt (fields : List FieldUse) (k : Int) : Field := ⟨(((usesAt fields k).map (·.1.bits)).max?).getD 0, k⟩

/-- A group holds the fields of its offset. -/
theorem usesAt_perm {fields rest : List FieldUse} {e : FieldUse} (h : e :: rest ∈ groups fields) :
    (usesAt fields e.1.offset).Perm (e :: rest) := by
  have hasc := groups_ascending fields
  have hfront := groups_front h
  obtain ⟨lower, upper, hsplit⟩ := List.append_of_mem h
  rw [hsplit, List.pairwise_append] at hasc
  obtain ⟨-, hupper, hlower⟩ := hasc
  have hnone : ∀ gs : List (List FieldUse), (∀ G ∈ gs, ∀ a ∈ G, a.1.offset ≠ e.1.offset) →
      usesAt gs.flatten e.1.offset = [] := by
    intro gs hgs
    refine List.filter_eq_nil_iff.mpr fun a ha => ?_
    obtain ⟨G, hG, haG⟩ := List.mem_flatten.mp ha
    simpa using hgs G hG a haG
  have hlow : usesAt lower.flatten e.1.offset = [] := hnone lower fun G hG a ha =>
    Int.ne_of_lt (hlower G hG _ List.mem_cons_self a ha e List.mem_cons_self)
  have hupp : usesAt upper.flatten e.1.offset = [] := hnone upper fun G hG a ha =>
    Int.ne_of_gt ((List.pairwise_cons.mp hupper).1 G hG e List.mem_cons_self a ha)
  have hall : usesAt (e :: rest) e.1.offset = e :: rest :=
    List.filter_eq_self.mpr fun b hb => decide_eq_true (hfront b hb).1
  have hflat : usesAt (groups fields).flatten e.1.offset = e :: rest := by
    rw [hsplit, List.flatten_append, List.flatten_cons, usesAt, List.filter_append, List.filter_append]
    show usesAt lower.flatten _ ++ (usesAt (e :: rest) _ ++ usesAt upper.flatten _) = _
    rw [hlow, hall, hupp, List.nil_append, List.append_nil]
  rw [← hflat]
  exact ((groups_perm fields).filter _).symm

theorem widthsAt_eq {fields rest : List FieldUse} {e : FieldUse} (h : e :: rest ∈ groups fields) :
    widthsAt fields e.1.offset = ((e :: rest).map (·.1.bits)).mergeSort intAtMost :=
  sorted_of_perm ((usesAt_perm h).map _)

theorem widestAt_eq {fields rest : List FieldUse} {e : FieldUse} (h : e :: rest ∈ groups fields) :
    widestAt fields e.1.offset = e.1 := by
  have hmax : ((usesAt fields e.1.offset).map (·.1.bits)).max? = some e.1.bits := by
    rw [List.max?_eq_some_iff]
    refine ⟨List.mem_map.mpr ⟨e, (usesAt_perm h).mem_iff.mpr List.mem_cons_self, rfl⟩, fun w hw => ?_⟩
    obtain ⟨b, hb, rfl⟩ := List.mem_map.mp hw
    exact (groups_front h b ((usesAt_perm h).mem_iff.mp hb)).2
  rw [widestAt, hmax]
  rfl

/-! ## Conflicts, offset by offset -/

/-- What is reported of an offset, when `placed` are the placed fields. -/
def conflictsAt (fields : List FieldUse) (placed : List StructField) (k : Int) : List LayoutConflict :=
  (if 1 < (usesAt fields k).length then [.widths k (widthsAt fields k) (widestAt fields k).bits] else []) ++
    if placesAt placed k then [] else [.overlap (widestAt fields k) (endBefore placed k)]

theorem groupConflicts_eq {fields G : List FieldUse} (hG : G ∈ groups fields) (placed : List StructField) :
    groupConflicts placed G = conflictsAt fields placed (offsetOf G) := by
  obtain ⟨e, rest, rfl⟩ := List.exists_cons_of_ne_nil (ne_nil_of_mem_groups hG)
  simp only [groupConflicts, widthConflict, overlapConflict, conflictsAt, offsetOf, widthsAt_eq hG, widestAt_eq hG,
    (usesAt_perm hG).length_eq, gt_iff_lt]

theorem ofFields_conflicts (fields : List FieldUse) :
    (ofFields fields).conflicts = (offsets fields).flatMap (conflictsAt fields (ofFields fields).placed) := by
  rw [(ofFields_taken fields).conflicts, offsets_eq, List.flatMap_map]
  exact List.flatMap_congr fun G hG => groupConflicts_eq hG _

/-- One field is placed for each offset where one is placed. -/
theorem placed_offsets (fields : List FieldUse) :
    (ofFields fields).placed.map (·.offset) = (offsets fields).filter (placesAt (ofFields fields).placed) := by
  have htrans : IsTrans StructField fun p q => p.offset < q.offset := ⟨fun _ _ _ => Int.lt_trans⟩
  have hchain : (ofFields fields).placed.IsChain fun p q => p.offset < q.offset :=
    (ofFields_taken fields).chain.imp fun _ _ h => h.1
  refine List.Pairwise.eq_of_mem_iff (List.pairwise_map.mpr (List.isChain_iff_pairwise.mp hchain))
    ((offsets_ascending fields).filter _) fun k => ?_
  rw [List.mem_map, List.mem_filter, placesAt_iff, mem_offsets]
  refine ⟨fun ⟨p, hp, hk⟩ => ⟨?_, p, hp, hk⟩, And.right⟩
  obtain ⟨e, rest, he, rfl⟩ := (ofFields_taken fields).front hp
  exact ⟨e, mem_of_mem_group he List.mem_cons_self, hk⟩

/-! ## Reports -/

theorem flatMap_if {α β : Type} (c : α → Bool) (f : α → β) (xs : List α) :
    xs.flatMap (fun x => if c x then [f x] else []) = (xs.filter c).map f := by
  induction xs with
  | nil => rfl
  | cons x xs ih => cases hx : c x <;> simp [hx, ih]

section Reports

variable (c : TypeClass) (fields : List FieldUse)

theorem reports_of_kind (kind : ReportKind) : ((ofFields fields).conflicts.map c.conflictReport).filter (·.kind = kind) =
    (offsets fields).flatMap fun k =>
      ((conflictsAt fields (ofFields fields).placed k).map c.conflictReport).filter (·.kind = kind) := by
  rw [ofFields_conflicts, List.map_flatMap, List.filter_flatMap]

theorem width_reports : ((ofFields fields).conflicts.map c.conflictReport).filter (·.kind = .conflictingWidth) =
    ((offsets fields).filter fun k => 1 < (usesAt fields k).length).map fun k =>
      c.conflictReport (.widths k (widthsAt fields k) (widestAt fields k).bits) := by
  rw [reports_of_kind, ← flatMap_if]
  refine List.flatMap_congr fun k _ => ?_
  by_cases hmany : 1 < (usesAt fields k).length <;> cases hat : placesAt (ofFields fields).placed k <;>
    simp [conflictsAt, hmany, hat, TypeClass.conflictReport, TypeClass.report]

theorem overlap_reports : ((ofFields fields).conflicts.map c.conflictReport).filter (·.kind = .overlappingField) =
    ((offsets fields).filter fun k => !placesAt (ofFields fields).placed k).map fun k =>
      c.conflictReport (.overlap (widestAt fields k) (endBefore (ofFields fields).placed k)) := by
  rw [reports_of_kind, ← flatMap_if]
  refine List.flatMap_congr fun k _ => ?_
  by_cases hmany : 1 < (usesAt fields k).length <;> cases hat : placesAt (ofFields fields).placed k <;>
    simp [conflictsAt, hmany, hat, TypeClass.conflictReport, TypeClass.report]

theorem kind_of_report {r : Report} (h : r ∈ (ofFields fields).conflicts.map c.conflictReport) :
    r.kind = .conflictingWidth ∨ r.kind = .overlappingField := by
  obtain ⟨w, -, rfl⟩ := List.mem_map.mp h
  cases w with
  | widths => exact Or.inl rfl
  | overlap => exact Or.inr rfl

end Reports

theorem unplaced_blocked {fields : List FieldUse} {k : Int} (hk : k ∈ offsets fields)
    (hat : placesAt (ofFields fields).placed k = false) :
    ∃ p, lastBefore? (ofFields fields).placed k = some p ∧ k < p.access.endOffset := by
  rw [offsets_eq, List.mem_map] at hk
  obtain ⟨G, hG, rfl⟩ := hk
  obtain ⟨e, rest, rfl⟩ := List.exists_cons_of_ne_nil (ne_nil_of_mem_groups hG)
  obtain ⟨p, -, hp, hblock, -⟩ := front_blocked hG hat
  exact ⟨p, hp, hblock.2⟩

/-- An offset where something is placed and not this field has several fields. -/
theorem several_of_not_placed {fields : List FieldUse} {e : FieldUse} (he : e ∈ fields)
    (hne : placedAs e ∉ (ofFields fields).placed) (hat : placesAt (ofFields fields).placed e.1.offset = true) :
    1 < (usesAt fields e.1.offset).length := by
  obtain ⟨a, as, hG, heG⟩ := exists_group he
  have ho := (groups_front hG e heG).1
  rw [ho, (usesAt_perm hG).length_eq]
  rw [ho] at hat
  rcases List.mem_cons.mp heG with rfl | hmem
  · exact absurd (front_placed hG hat) hne
  · have := List.length_pos_of_mem hmem
    simp only [List.length_cons]
    omega

theorem dropped_reported (c : TypeClass) {fields : List FieldUse} {e : FieldUse} (he : e ∈ fields)
    (hne : placedAs e ∉ (ofFields fields).placed) :
    c.conflictReport (.widths e.1.offset (widthsAt fields e.1.offset) (widestAt fields e.1.offset).bits) ∈
      (ofFields fields).conflicts.map c.conflictReport ∨
    c.conflictReport (.overlap (widestAt fields e.1.offset) (endBefore (ofFields fields).placed e.1.offset)) ∈
      (ofFields fields).conflicts.map c.conflictReport := by
  have hk : e.1.offset ∈ offsets fields := mem_offsets.mpr ⟨e, he, rfl⟩
  have hall : ∀ w ∈ conflictsAt fields (ofFields fields).placed e.1.offset,
      c.conflictReport w ∈ (ofFields fields).conflicts.map c.conflictReport := by
    intro w hw
    refine List.mem_map_of_mem ?_
    rw [ofFields_conflicts]
    exact List.mem_flatMap.mpr ⟨_, hk, hw⟩
  cases hat : placesAt (ofFields fields).placed e.1.offset with
  | true => exact Or.inl (hall _ (by simp [conflictsAt, several_of_not_placed he hne hat]))
  | false => exact Or.inr (hall _ (by simp [conflictsAt, hat]))

/-- The reports of a layout are one for each offset of several fields, with all their widths, and
one for each offset where none is placed, with its widest field and the end of the last field
placed before. So each offset is that of a placed field or of an overlap, and a field that is not
placed is among those reported. -/
theorem ofFields_reports (c : TypeClass) (fields : List FieldUse) :
    let placed := (ofFields fields).placed
    let reports := (ofFields fields).conflicts.map c.conflictReport
    ((offsets fields).Pairwise (· < ·) ∧ ∀ k, k ∈ offsets fields ↔ ∃ e ∈ fields, e.1.offset = k) ∧
    reports.filter (·.kind = .conflictingWidth) =
      (((offsets fields).filter fun k => 1 < (usesAt fields k).length).map fun k =>
        c.conflictReport (.widths k (widthsAt fields k) (widestAt fields k).bits)) ∧
    reports.filter (·.kind = .overlappingField) =
      (((offsets fields).filter fun k => !placesAt placed k).map fun k =>
        c.conflictReport (.overlap (widestAt fields k) (endBefore placed k))) ∧
    (∀ r ∈ reports, r.kind = .conflictingWidth ∨ r.kind = .overlappingField) ∧
    (∀ k ∈ offsets fields, placesAt placed k = false → ∃ p, lastBefore? placed k = some p ∧ k < p.access.endOffset) ∧
    (offsets fields).length = placed.length + (reports.filter (·.kind = .overlappingField)).length ∧
    ∀ e ∈ fields, placedAs e ∉ placed →
      c.conflictReport (.widths e.1.offset (widthsAt fields e.1.offset) (widestAt fields e.1.offset).bits) ∈ reports ∨
      c.conflictReport (.overlap (widestAt fields e.1.offset) (endBefore placed e.1.offset)) ∈ reports := by
  intro placed reports
  refine ⟨⟨offsets_ascending fields, fun k => mem_offsets⟩, width_reports c fields, overlap_reports c fields,
    fun r hr => kind_of_report c fields hr, fun k hk hat => unplaced_blocked hk hat, ?_,
    fun e he hne => dropped_reported c he hne⟩
  have hcount : placed.length = ((offsets fields).filter (placesAt placed)).length := by
    rw [← placed_offsets, List.length_map]
  rw [overlap_reports, List.length_map, hcount]
  exact List.length_eq_length_filter_add _

/-- Two fields of one offset inside a wider one. -/
def contested : List FieldUse := [(⟨8, 4⟩, 1), (⟨64, 0⟩, 2), (⟨32, 4⟩, 3)]

/-- An offset may be in both kinds of conflict. -/
theorem contested_reports :
    (ofFields contested).conflicts = [.widths 4 [8, 32] 32, .overlap ⟨32, 4⟩ 8] ∧
    (4 ∈ offsets contested ∧ placesAt (ofFields contested).placed 4 = false ∧
      ∃ p, lastBefore? (ofFields contested).placed 4 = some p ∧ 4 < p.access.endOffset) ∧
    (∃ e ∈ contested, placedAs e ∉ (ofFields contested).placed) ∧ (offsets contested).length = 2 := by
  have hplaced : (ofFields contested).placed = [⟨0, 64, 2⟩] := by cbv
  have hconflicts : (ofFields contested).conflicts = [.widths 4 [8, 32] 32, .overlap ⟨32, 4⟩ 8] := by cbv
  have hat : placesAt (ofFields contested).placed 4 = false := by rw [hplaced]; decide
  obtain ⟨⟨-, hoffsets⟩, -, -, -, hblocked, hcount, -⟩ := ofFields_reports ⟨0, [], [], [], [], []⟩ contested
  have hmem : (4 : Int) ∈ offsets contested := (hoffsets 4).mpr ⟨(⟨8, 4⟩, 1), by decide, rfl⟩
  refine ⟨hconflicts, ⟨hmem, hat, hblocked 4 hmem hat⟩, ⟨(⟨8, 4⟩, 1), by decide, by rw [hplaced]; decide⟩, ?_⟩
  rw [hcount, hplaced, hconflicts]
  decide

end Layout

end TypeRecovery
