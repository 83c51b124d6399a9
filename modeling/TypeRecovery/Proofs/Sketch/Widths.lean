/-
  TypeRecovery.Proofs.Sketch.Widths — what a report of several widths says of the struct.

  Where fields of several widths begin at one offset, the report names the widest as the one kept.
  It is written before it is known whether a field placed earlier reaches past the offset. If none
  does, the field named is placed; if one does, nothing is placed there, the field named is
  reported a second time as dropped, and the first report is wrong.

  Proved:
  - `ended_of_before`: of two placed fields the first has ended where the second begins.
  - `front_kept_iff`: the widest field of an offset is placed unless a placed one is in its way.
  - `width_report_front`: a report of widths names the offset and the widest field there.
  - `width_report_kept_iff`: when the field it calls kept is placed, and what is reported otherwise.
-/

import TypeRecovery.Proofs.Sketch.Conflicts
import TypeRecovery.Proofs.Sketch.Placement

namespace TypeRecovery

namespace Layout

/-- The field is placed, with its width and at its offset. -/
def Keeps (placed : List StructField) (f : Field) : Prop := ∃ p ∈ placed, p.access = f

/-- Of two placed fields the one that begins first has ended where the other begins. -/
theorem ended_of_before {fields : List FieldUse} (hbits : ∀ e ∈ fields, 0 < e.1.bits) {p q : StructField}
    (hp : p ∈ (ofFields fields).placed) (hq : q ∈ (ofFields fields).placed) (hlt : p.offset < q.offset) :
    p.access.endOffset ≤ q.offset := by
  have hpair : (ofFields fields).placed.Pairwise fun p q => Follows p q ∨ Follows q p :=
    (placed_pairwise hbits).imp Or.inl
  have hsymm : Std.Symm fun p q => Follows p q ∨ Follows q p := ⟨fun _ _ => Or.symm⟩
  have hne : p ≠ q := fun h => Int.lt_irrefl _ (h ▸ hlt)
  rcases hpair.forall hp hq hne with h | h
  · exact h.2
  · have := h.1
    omega

theorem front_kept_iff {fields rest : List FieldUse} {e : FieldUse} (hbits : ∀ e ∈ fields, 0 < e.1.bits)
    (h : e :: rest ∈ groups fields) :
    Keeps (ofFields fields).placed e.1 ↔ ∀ p ∈ (ofFields fields).placed, ¬Blocks p e.1 := by
  constructor
  · intro ⟨q, hq, hqe⟩ p hp ⟨hlt, hend⟩
    have hqo : q.offset = e.1.offset := by rw [← hqe]; rfl
    have := ended_of_before hbits hp hq (by omega)
    omega
  · intro hfree
    cases hat : placesAt (ofFields fields).placed e.1.offset with
    | true => exact ⟨placedAs e, front_placed h hat, rfl⟩
    | false =>
      obtain ⟨p, hp, -, hblock, -⟩ := front_blocked h hat
      exact absurd hblock (hfree p hp)

/-- Either the front field of a group is placed, or nothing is, and what is in its way is told. -/
theorem front_kept_or {fields rest : List FieldUse} {e : FieldUse} (h : e :: rest ∈ groups fields) :
    Keeps (ofFields fields).placed e.1 ∨
      (∀ p ∈ (ofFields fields).placed, p.offset ≠ e.1.offset) ∧
      ∃ p ∈ (ofFields fields).placed, Blocks p e.1 ∧ .overlap e.1 p.access.endOffset ∈ (ofFields fields).conflicts := by
  cases hat : placesAt (ofFields fields).placed e.1.offset with
  | true => exact Or.inl ⟨placedAs e, front_placed h hat, rfl⟩
  | false =>
    obtain ⟨p, hp, -, hblock, hcon⟩ := front_blocked h hat
    refine Or.inr ⟨fun q hq hqo => ?_, p, hp, hblock, hcon⟩
    rw [placesAt_iff.mpr ⟨q, hq, hqo⟩] at hat
    cases hat

section Report

variable (c : TypeClass) {fields : List FieldUse} {r : Report}

theorem width_report_front (hr : r ∈ (ofFields fields).conflicts.map c.conflictReport)
    (hkind : r.kind = .conflictingWidth) : ∃ e rest, e :: rest ∈ groups fields ∧ rest ≠ [] ∧
      r = c.conflictReport (.widths e.1.offset (widthsAt fields e.1.offset) e.1.bits) := by
  have hmem : r ∈ ((ofFields fields).conflicts.map c.conflictReport).filter (·.kind = .conflictingWidth) :=
    List.mem_filter.mpr ⟨hr, decide_eq_true hkind⟩
  rw [width_reports] at hmem
  obtain ⟨k, hk, rfl⟩ := List.mem_map.mp hmem
  obtain ⟨hk, hmany⟩ := List.mem_filter.mp hk
  rw [offsets_eq, List.mem_map] at hk
  obtain ⟨G, hG, rfl⟩ := hk
  obtain ⟨e, rest, rfl⟩ := List.exists_cons_of_ne_nil (ne_nil_of_mem_groups hG)
  refine ⟨e, rest, hG, ?_, by rw [offsetOf, widestAt_eq hG]⟩
  intro hnil
  simp [offsetOf, (usesAt_perm hG).length_eq, hnil] at hmany

/-- A report of several widths names an offset and the widest field there as kept. It is, as long as
no placed field reaches past the offset. If one does, nothing is placed at the offset, and the
field named is reported as dropped as well. -/
theorem width_report_kept_iff (hbits : ∀ e ∈ fields, 0 < e.1.bits)
    (hr : r ∈ (ofFields fields).conflicts.map c.conflictReport) (hkind : r.kind = .conflictingWidth) :
    ∃ f : Field, Widest fields f ∧ 1 < (usesAt fields f.offset).length ∧
      Entries.lookup? r.evidence "byte_offset" = some (.ofInt f.offset) ∧
      Entries.lookup? r.evidence "kept" = some (.ofInt f.bits) ∧
      (Keeps (ofFields fields).placed f ↔ ∀ p ∈ (ofFields fields).placed, ¬Blocks p f) ∧
      (Keeps (ofFields fields).placed f ∨
        (∀ p ∈ (ofFields fields).placed, p.offset ≠ f.offset) ∧
        ∃ p ∈ (ofFields fields).placed, Blocks p f ∧
          c.conflictReport (.overlap f p.access.endOffset) ∈ (ofFields fields).conflicts.map c.conflictReport) := by
  obtain ⟨e, rest, hG, hrest, rfl⟩ := width_report_front c hr hkind
  have hmany : 1 < (usesAt fields e.1.offset).length := by
    have := List.length_pos_iff.mpr hrest
    simp only [(usesAt_perm hG).length_eq, List.length_cons]
    omega
  refine ⟨e.1, front_widest hG, hmany, rfl, rfl, front_kept_iff hbits hG, ?_⟩
  refine (front_kept_or hG).imp_right fun ⟨hnone, p, hp, hblock, hcon⟩ => ?_
  exact ⟨hnone, p, hp, hblock, List.mem_map_of_mem hcon⟩

end Report

/-- Two fields of one offset inside a wider one, and two of one offset behind it. -/
def shadowed : List FieldUse := [(⟨64, 0⟩, 1), (⟨32, 4⟩, 2), (⟨16, 4⟩, 3), (⟨32, 8⟩, 4), (⟨8, 8⟩, 5)]

theorem shadowed_placed : (ofFields shadowed).placed = [⟨0, 64, 1⟩, ⟨8, 32, 4⟩] := by cbv

theorem shadowed_conflicts : (ofFields shadowed).conflicts =
    [.widths 4 [16, 32] 32, .overlap ⟨32, 4⟩ 8, .widths 8 [8, 32] 32] := by cbv

def someClass : TypeClass := ⟨0, [], [], [], [], []⟩

theorem shadowed_kept_iff :
    (∀ e ∈ shadowed, 0 < e.1.bits) ∧
    let r := someClass.conflictReport (.widths 8 [8, 32] 32)
    (r ∈ (ofFields shadowed).conflicts.map someClass.conflictReport ∧ r.kind = .conflictingWidth) ∧
    ∃ f : Field, Entries.lookup? r.evidence "byte_offset" = some (.ofInt f.offset) ∧
      Entries.lookup? r.evidence "kept" = some (.ofInt f.bits) ∧ Keeps (ofFields shadowed).placed f := by
  have hbits : ∀ e ∈ shadowed, 0 < e.1.bits := by decide
  have hr : someClass.conflictReport (.widths 8 [8, 32] 32) ∈
      (ofFields shadowed).conflicts.map someClass.conflictReport := by
    rw [shadowed_conflicts]
    exact List.mem_map_of_mem (by simp)
  refine ⟨hbits, ⟨hr, rfl⟩, ?_⟩
  obtain ⟨f, -, -, hoffset, hkept, hiff, -⟩ := width_report_kept_iff someClass hbits hr rfl
  refine ⟨f, hoffset, hkept, hiff.mpr ?_⟩
  have hf : f.offset = 8 := by
    have : some (Subject.ofInt 8) = some (.ofInt f.offset) := hoffset
    simpa [Subject.ofInt] using this.symm
  simp [shadowed_placed, Blocks, hf, StructField.access, Field.endOffset, Field.byteSize]

/-- The field at offset 4 is reported as kept and is not in the struct. -/
theorem shadowed_not_kept :
    (∀ e ∈ shadowed, 0 < e.1.bits ∧ 0 ≤ e.1.offset) ∧
    ∃ r ∈ (ofFields shadowed).conflicts.map someClass.conflictReport, r.kind = .conflictingWidth ∧
      Entries.lookup? r.evidence "byte_offset" = some (.ofInt 4) ∧
      Entries.lookup? r.evidence "kept" = some (.ofInt 32) ∧ ¬Keeps (ofFields shadowed).placed ⟨32, 4⟩ := by
  refine ⟨by decide, someClass.conflictReport (.widths 4 [16, 32] 32), ?_, rfl, rfl, rfl, ?_⟩
  · rw [shadowed_conflicts]
    exact List.mem_map_of_mem (by simp)
  · simp [Keeps, shadowed_placed, StructField.access]

end Layout

end TypeRecovery
