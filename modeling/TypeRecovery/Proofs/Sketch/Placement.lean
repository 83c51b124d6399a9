/-
  TypeRecovery.Proofs.Sketch.Placement — which fields a struct keeps.

  Each placed field begins where the one placed before it has ended or later, and since every
  access has bits, the ends of the placed fields ascend as well: no byte belongs to two of them.
  A field that is not placed stands behind the widest one of its offset. If that one is placed,
  the two overlap; if not, a field placed before reaches past their offset, and overlaps both.
  Fields of distinct accesses are sorted in one way only, in whatever order they came.

  Proved:
  - `placed_pairwise`: of two placed fields the second begins when the first has ended.
  - `overlaps_of_not_placed`: what is not placed overlaps what is placed.
  - `groups_of_perm`: fields of distinct accesses have one division into groups.
  - `ofFields_packed`: placed fields ascend and share no byte, each is the widest of its offset, no
    other could be added, and the order of the fields does not matter.
-/

import Mathlib
import TypeRecovery.Proofs.Graph.Admissible
import TypeRecovery.Proofs.Order
import TypeRecovery.Proofs.Sketch.Layout

namespace TypeRecovery

/-- The bytes an access touches, a part of a byte counting as one. -/
def Field.bytes (f : Field) : Set Int := { b | f.offset ≤ b ∧ b < f.offset + ⌈(f.bits : ℚ) / 8⌉ }

theorem Field.mem_bytes {f : Field} {b : Int} : b ∈ f.bytes ↔ f.offset ≤ b ∧ b < f.endOffset := by
  rw [endOffset, f.byteSize_eq_ceil]
  rfl

theorem Field.offset_lt_endOffset {f : Field} (h : 0 < f.bits) : f.offset < f.endOffset := by
  simp only [endOffset, byteSize]
  omega

theorem Field.overlaps_iff {f g : Field} : f.overlaps g = true ↔ f.offset < g.endOffset ∧ g.offset < f.endOffset := by
  simp [overlaps]

namespace Layout

section Placed

variable {fields : List FieldUse} (hbits : ∀ e ∈ fields, 0 < e.1.bits)

theorem widest_of_placed {p : StructField} (hp : p ∈ (ofFields fields).placed) :
    (p.access, p.sketch) ∈ fields ∧ Widest fields p.access := by
  obtain ⟨e, rest, he, rfl⟩ := (ofFields_taken fields).front hp
  exact ⟨mem_of_mem_group he List.mem_cons_self, front_widest he⟩

include hbits

theorem placed_pairwise : (ofFields fields).placed.Pairwise fun p q =>
    p.offset < q.offset ∧ p.access.endOffset ≤ q.offset := by
  have hpos : ∀ p ∈ (ofFields fields).placed, p.offset < p.access.endOffset := fun p hp =>
    Field.offset_lt_endOffset (hbits _ (widest_of_placed hp).1)
  -- ends ascend along the chain, so what holds of neighbours holds of any two
  have htrans : IsTrans StructField fun p q => p.offset < q.offset ∧ p.access.endOffset ≤ q.offset ∧
      q.offset < q.access.endOffset := ⟨fun p q r h h' => by omega⟩
  have hchain : (ofFields fields).placed.IsChain fun p q => p.offset < q.offset ∧ p.access.endOffset ≤ q.offset ∧
      q.offset < q.access.endOffset :=
    (ofFields_taken fields).chain.imp_of_mem_imp fun p q _ hq h => ⟨h.1, h.2, hpos q hq⟩
  exact (List.isChain_iff_pairwise.mp hchain).imp fun h => ⟨h.1, h.2.1⟩

theorem overlaps_of_not_placed {e : FieldUse} (he : e ∈ fields) :
    placedAs e ∈ (ofFields fields).placed ∨
      ∃ p ∈ (ofFields fields).placed, p.offset ≤ e.1.offset ∧ e.1.overlaps p.access = true := by
  obtain ⟨w, rest, hG, heG⟩ := exists_group he
  obtain ⟨ho, -⟩ := groups_front hG e heG
  have hend := Field.offset_lt_endOffset (hbits e he)
  cases hat : placesAt (ofFields fields).placed w.1.offset with
  | true =>
    have hw := front_placed hG hat
    have hwend := Field.offset_lt_endOffset (hbits _ (widest_of_placed hw).1)
    simp only [access_placedAs] at hwend
    refine Or.inr ⟨placedAs w, hw, ho.ge, Field.overlaps_iff.mpr ?_⟩
    simp only [access_placedAs]
    omega
  | false =>
    obtain ⟨p, hp, -, ⟨hlt, hblock⟩, -⟩ := front_blocked hG hat
    refine Or.inr ⟨p, hp, by omega, Field.overlaps_iff.mpr ?_⟩
    have hpo : p.access.offset = p.offset := rfl
    omega

end Placed

/-- Nothing stands in the way of a field of the smallest offset. -/
theorem first_placed {fields : List FieldUse} (hdistinct : (fields.map (·.1)).Nodup) {e : FieldUse} (he : e ∈ fields)
    (hwidest : Widest fields e.1) (hfirst : ∀ e' ∈ fields, e.1.offset ≤ e'.1.offset) :
    placedAs e ∈ (ofFields fields).placed := by
  obtain ⟨w, rest, hG, heG⟩ := exists_group he
  have hw : w ∈ fields := mem_of_mem_group hG List.mem_cons_self
  obtain ⟨ho, hle⟩ := groups_front hG e heG
  have hge := hwidest.bits_le hw ho.symm
  -- the front field has the offset and the width of `e`, so it is `e`
  have heq : w.1 = e.1 := Field.eq_of (by omega) ho.symm
  obtain rfl : w = e := List.inj_on_of_nodup_map hdistinct hw he heq
  cases hat : placesAt (ofFields fields).placed w.1.offset with
  | true => exact front_placed hG hat
  | false =>
    obtain ⟨p, hp, -, ⟨hlt, -⟩, -⟩ := front_blocked hG hat
    have := hfirst _ (widest_of_placed hp).1
    exact absurd hlt (by simpa [StructField.access] using this)

/-! ## The order of the fields -/

theorem before_antisymm {a b : FieldUse} (hab : before a b = true) (hba : before b a = true) : a.1 = b.1 := by
  rw [before_iff] at hab hba
  exact Field.eq_of (by omega) (by omega)

theorem groups_of_perm {fields fields' : List FieldUse} (hdistinct : (fields.map (·.1)).Nodup) (h : fields'.Perm fields) :
    groups fields' = groups fields := by
  have hsort : fields'.mergeSort before = fields.mergeSort before :=
    mergeSort_eq_of_perm before_trans before_total (fun a ha b hb hab hba =>
      List.inj_on_of_nodup_map hdistinct (h.subset ha) (h.subset hb) (before_antisymm hab hba)) h
  rw [groups, groups, hsort]

/-- Fields of distinct accesses that have bits are packed into a struct: the placed ones ascend and
share no byte, each is the widest of its offset, every other overlaps one that begins no later, the
widest of the first offset is placed, and the order in which the fields came does not matter. -/
theorem ofFields_packed {fields : List FieldUse} (hbits : ∀ e ∈ fields, 0 < e.1.bits)
    (hdistinct : (fields.map (·.1)).Nodup) :
    ((ofFields fields).placed.Pairwise fun p q => p.offset < q.offset ∧ Disjoint p.access.bytes q.access.bytes) ∧
    (∀ p ∈ (ofFields fields).placed, (p.access, p.sketch) ∈ fields ∧ Widest fields p.access) ∧
    (∀ e ∈ fields, placedAs e ∉ (ofFields fields).placed →
      ∃ p ∈ (ofFields fields).placed, p.offset ≤ e.1.offset ∧ e.1.overlaps p.access = true) ∧
    (∀ e ∈ fields, Widest fields e.1 → (∀ e' ∈ fields, e.1.offset ≤ e'.1.offset) →
      placedAs e ∈ (ofFields fields).placed) ∧
    ∀ fields', fields'.Perm fields → ofFields fields' = ofFields fields := by
  refine ⟨?_, fun p hp => widest_of_placed hp, ?_, fun e he => first_placed hdistinct he, ?_⟩
  · refine (placed_pairwise hbits).imp fun {p q} h => ⟨h.1, ?_⟩
    refine Set.disjoint_left.mpr fun b hp hq => ?_
    have hend := (Field.mem_bytes.mp hp).2
    have hbegin : q.offset ≤ b := (Field.mem_bytes.mp hq).1
    omega
  · intro e he hne
    exact (overlaps_of_not_placed hbits he).resolve_left hne
  · intro fields' h
    rw [ofFields, ofFields, groups_of_perm hdistinct h]

/-- Two fields inside a wider one, two of one offset that reach past its end, one that begins where
it ends, and widths that fill no byte. -/
def crowded : List FieldUse :=
  [(⟨64, 6⟩, 1), (⟨1, 12⟩, 2), (⟨32, 4⟩, 3), (⟨64, 0⟩, 4), (⟨16, 4⟩, 5), (⟨8, 8⟩, 6), (⟨12, 0⟩, 7), (⟨9, 12⟩, 8),
    (⟨8, 6⟩, 9)]

theorem crowded_packed :
    ((∀ e ∈ crowded, 0 < e.1.bits) ∧ (crowded.map (·.1)).Nodup) ∧
    (ofFields crowded).placed = [⟨0, 64, 4⟩, ⟨8, 8, 6⟩, ⟨12, 9, 8⟩] ∧
    ([⟨0, 64, 4⟩, ⟨8, 8, 6⟩, ⟨12, 9, 8⟩] : List StructField).Pairwise
      (fun p q => p.offset < q.offset ∧ Disjoint p.access.bytes q.access.bytes) ∧
    (∃ p ∈ (ofFields crowded).placed, p.offset ≤ 6 ∧ Field.overlaps ⟨8, 6⟩ p.access = true) ∧
    ofFields crowded.reverse = ofFields crowded := by
  have hbits : ∀ e ∈ crowded, 0 < e.1.bits := by decide
  have hdistinct : (crowded.map (·.1)).Nodup := by decide
  have hplaced : (ofFields crowded).placed = [⟨0, 64, 4⟩, ⟨8, 8, 6⟩, ⟨12, 9, 8⟩] := by cbv
  obtain ⟨hapart, -, hothers, -, hperm⟩ := ofFields_packed hbits hdistinct
  refine ⟨⟨hbits, hdistinct⟩, hplaced, hplaced ▸ hapart, ?_, hperm _ (List.reverse_perm crowded)⟩
  exact hothers (⟨8, 6⟩, 9) (by decide) (by rw [hplaced]; decide)

end Layout

end TypeRecovery
