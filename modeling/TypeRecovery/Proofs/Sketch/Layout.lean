/-
  TypeRecovery.Proofs.Sketch.Layout — what becomes of the fields of a struct.

  The fields are divided into groups of one offset, by ascending offset, each with its widest
  field in front. The groups are taken in turn, and of those taken so far the invariant `Taken`
  says what they come to: only front fields are placed, each begins after the one placed before
  it and not before that one has ended, and the conflicts are those of the groups. The conflicts
  of a group are read off the fields placed; they do not depend on what is placed behind the
  group, so they can be said of the finished layout.

  Proved:
  - `groups_perm`, `groups_front`, `groups_ascending`: what the groups are.
  - `addGroup_taken`, `ofFields_taken`: the invariant, group by group and for a whole struct.
  - `ofFields_settles`: every field is placed with its sketch, or narrower than the widest one
    of its offset, or the widest one there and in the way of a placed field; the last two are
    reported.
  - `ofFields_rename`: a layout commutes with a change of the sketches.
-/

import Mathlib.Data.List.SplitBy
import Mathlib.Data.List.Sort
import TypeRecovery.Sketch.Layout

namespace TypeRecovery

/-- The access by which a placed field is reached. -/
def StructField.access (p : StructField) : Field := ⟨p.bits, p.offset⟩

theorem Field.eq_of {f g : Field} (hbits : f.bits = g.bits) (hoffset : f.offset = g.offset) : f = g := by
  cases f
  cases g
  cases hbits
  cases hoffset
  rfl

namespace Layout

/-! ## Groups of one offset -/

theorem before_iff (a b : FieldUse) : before a b = true ↔
    a.1.offset < b.1.offset ∨ (a.1.offset = b.1.offset ∧ b.1.bits ≤ a.1.bits) := by
  simp [before]

theorem before_total (a b : FieldUse) : (before a b || before b a) = true := by
  simp only [Bool.or_eq_true, before_iff]
  omega

theorem before_trans (a b c : FieldUse) (hab : before a b = true) (hbc : before b c = true) : before a c = true := by
  simp only [before_iff] at *
  omega

theorem groups_perm (fields : List FieldUse) : (groups fields).flatten.Perm fields := by
  rw [groups, List.flatten_splitBy]
  exact List.mergeSort_perm fields before

theorem groups_sorted (fields : List FieldUse) : (groups fields).flatten.Pairwise fun a b => before a b = true := by
  rw [groups, List.flatten_splitBy]
  exact List.pairwise_mergeSort before_trans before_total fields

theorem ne_nil_of_mem_groups {fields G : List FieldUse} (h : G ∈ groups fields) : G ≠ [] :=
  List.ne_nil_of_mem_splitBy h

theorem sameOffset_of_mem_group {fields G : List FieldUse} (hG : G ∈ groups fields) :
    ∀ a ∈ G, ∀ b ∈ G, a.1.offset = b.1.offset := by
  have hchain : G.IsChain fun a b => a.1.offset = b.1.offset :=
    (List.isChain_of_mem_splitBy hG).imp fun a b h => by simpa [sameOffset] using h
  have : IsTrans FieldUse fun a b => a.1.offset = b.1.offset := ⟨fun _ _ _ h h' => h.trans h'⟩
  have : Std.Symm fun a b : FieldUse => a.1.offset = b.1.offset := ⟨fun _ _ h => h.symm⟩
  intro a ha b hb
  exact List.Pairwise.forall_of_forall (R := fun a b : FieldUse => a.1.offset = b.1.offset) (fun _ _ => rfl)
    (List.isChain_iff_pairwise.mp hchain) ha hb

/-- The front field of a group is the widest. -/
theorem groups_front {fields rest : List FieldUse} {e : FieldUse} (h : e :: rest ∈ groups fields) :
    ∀ b ∈ e :: rest, b.1.offset = e.1.offset ∧ b.1.bits ≤ e.1.bits := by
  intro b hb
  have ho := sameOffset_of_mem_group h b hb e List.mem_cons_self
  refine ⟨ho, ?_⟩
  rcases List.mem_cons.mp hb with rfl | hb
  · exact Int.le_refl _
  · have hsorted := (List.pairwise_flatten.mp (groups_sorted fields)).1 _ h
    have := (before_iff e b).mp ((List.pairwise_cons.mp hsorted).1 b hb)
    omega

/-- Neighbouring groups differ in their offsets, so sorted groups ascend strictly. -/
theorem ascending_of_chain {gs : List (List FieldUse)} (hne : ∀ G ∈ gs, G ≠ [])
    (hsame : ∀ G ∈ gs, ∀ a ∈ G, ∀ b ∈ G, a.1.offset = b.1.offset)
    (hsorted : gs.Pairwise fun G H => ∀ a ∈ G, ∀ b ∈ H, before a b = true)
    (hchain : gs.IsChain fun G H => ∃ hG hH, sameOffset (G.getLast hG) (H.head hH) = false) :
    gs.Pairwise fun G H => ∀ a ∈ G, ∀ b ∈ H, a.1.offset < b.1.offset := by
  induction gs with
  | nil => exact .nil
  | cons G gs ih =>
    obtain ⟨hG, hsorted⟩ := List.pairwise_cons.mp hsorted
    have hrest := ih (fun H h => hne H (List.mem_cons_of_mem _ h)) (fun H h => hsame H (List.mem_cons_of_mem _ h))
      hsorted hchain.tail
    refine List.pairwise_cons.mpr ⟨fun H hH a ha b hb => ?_, hrest⟩
    cases gs with
    | nil => cases hH
    | cons H₀ gs =>
      obtain ⟨⟨hne₁, hne₂, hdiff⟩, -⟩ := List.isChain_cons_cons.mp hchain
      have hfirst : a.1.offset < (H₀.head hne₂).1.offset := by
        have hle := (before_iff _ _).mp (hG H₀ List.mem_cons_self a ha _ (List.head_mem hne₂))
        have heq := hsame G List.mem_cons_self a ha _ (List.getLast_mem hne₁)
        simp only [sameOffset, decide_eq_false_iff_not] at hdiff
        omega
      rcases List.mem_cons.mp hH with rfl | hH
      · have := hsame H (List.mem_cons_of_mem _ List.mem_cons_self) _ (List.head_mem hne₂) b hb
        omega
      · have := (List.pairwise_cons.mp hrest).1 H hH _ (List.head_mem hne₂) b hb
        omega

/-- Every field of a group lies before every field of a later one. -/
theorem groups_ascending (fields : List FieldUse) :
    (groups fields).Pairwise fun G H => ∀ a ∈ G, ∀ b ∈ H, a.1.offset < b.1.offset :=
  ascending_of_chain (fun _ => ne_nil_of_mem_groups) (fun _ => sameOffset_of_mem_group)
    (List.pairwise_flatten.mp (groups_sorted fields)).2
    (List.isChain_getLast_head_splitBy sameOffset (fields.mergeSort before))

theorem mem_of_mem_group {fields G : List FieldUse} (hG : G ∈ groups fields) {e : FieldUse} (he : e ∈ G) : e ∈ fields :=
  (groups_perm fields).mem_iff.mp (List.mem_flatten.mpr ⟨G, hG, he⟩)

theorem exists_group {fields : List FieldUse} {e : FieldUse} (he : e ∈ fields) :
    ∃ w rest, w :: rest ∈ groups fields ∧ e ∈ w :: rest := by
  obtain ⟨G, hG, heG⟩ := List.mem_flatten.mp ((groups_perm fields).mem_iff.mpr he)
  obtain ⟨w, rest, rfl⟩ := List.exists_cons_of_ne_nil (ne_nil_of_mem_groups hG)
  exact ⟨w, rest, hG, heG⟩

/-! ## What the placed fields say of an offset -/

def placedAs (e : FieldUse) : StructField := ⟨e.1.offset, e.1.bits, e.2⟩

@[simp] theorem access_placedAs (e : FieldUse) : (placedAs e).access = e.1 := rfl

/-- `p` stands in the way of an access that begins later. -/
def Blocks (p : StructField) (f : Field) : Prop := p.offset < f.offset ∧ f.offset < p.access.endOffset

/-- A field is placed at offset `k`. -/
def placesAt (placed : List StructField) (k : Int) : Bool := placed.any fun p => p.offset = k

/-- The last of the placed fields that begin before `k`. -/
def lastBefore? (placed : List StructField) (k : Int) : Option StructField :=
  (placed.filter fun p => p.offset < k).getLast?

/-- The end of the last field placed before `k`. -/
def endBefore (placed : List StructField) (k : Int) : Int := ((lastBefore? placed k).map (·.access.endOffset)).getD 0

theorem placesAt_iff {placed : List StructField} {k : Int} : placesAt placed k = true ↔ ∃ p ∈ placed, p.offset = k := by
  simp [placesAt]

/-- What is placed behind an offset does not change what is said of it. -/
theorem placesAt_append {placed : List StructField} {q : StructField} {k : Int} (h : k < q.offset) :
    placesAt (placed ++ [q]) k = placesAt placed k := by
  have hq : q.offset ≠ k := by omega
  simp [placesAt, hq]

theorem lastBefore?_append {placed : List StructField} {q : StructField} {k : Int} (h : k < q.offset) :
    lastBefore? (placed ++ [q]) k = lastBefore? placed k := by
  have hq : ¬q.offset < k := by omega
  simp [lastBefore?, hq]

theorem lastBefore?_of_forall {placed : List StructField} {k : Int} (h : ∀ p ∈ placed, p.offset < k) :
    lastBefore? placed k = placed.getLast? := by
  rw [lastBefore?, List.filter_eq_self.mpr]
  intro p hp
  exact decide_eq_true (h p hp)

/-! ## The conflicts of a group -/

def overlapConflict (placed : List StructField) (f : Field) : List LayoutConflict :=
  if placesAt placed f.offset then [] else [.overlap f (endBefore placed f.offset)]

/-- What is reported of a group, when `placed` are the placed fields. -/
def groupConflicts (placed : List StructField) : List FieldUse → List LayoutConflict
  | [] => []
  | e :: rest => widthConflict e.1 (e :: rest) ++ overlapConflict placed e.1

theorem groupConflicts_append {placed : List StructField} {q : StructField} {G : List FieldUse}
    (h : ∀ a ∈ G, a.1.offset < q.offset) : groupConflicts (placed ++ [q]) G = groupConflicts placed G := by
  cases G with
  | nil => rfl
  | cons e rest =>
    have he := h e List.mem_cons_self
    simp only [groupConflicts, overlapConflict, endBefore, placesAt_append he, lastBefore?_append he]

/-! ## Group by group -/

/-- Of two placed fields the second begins later, and not before the first has ended. -/
def Follows (p q : StructField) : Prop := p.offset < q.offset ∧ p.access.endOffset ≤ q.offset

/-- `l` is what the groups in `done` come to, no more and no less. -/
structure Taken (done : List (List FieldUse)) (l : Layout) : Prop where
  front {p : StructField} : p ∈ l.placed → ∃ e rest, e :: rest ∈ done ∧ p = placedAs e
  chain : l.placed.IsChain Follows
  last {p : StructField} : l.placed.getLast? = some p → p.access.endOffset = l.endOffset
  conflicts : l.conflicts = done.flatMap (groupConflicts l.placed)
  blocked {e : FieldUse} {rest : List FieldUse} : e :: rest ∈ done → placesAt l.placed e.1.offset = false →
    ∃ p, lastBefore? l.placed e.1.offset = some p ∧ Blocks p e.1

theorem empty_taken : Taken [] empty where
  front h := by cases h
  chain := .nil
  last h := by cases h
  conflicts := rfl
  blocked h := by cases h

theorem Taken.before {done : List (List FieldUse)} {l : Layout} (h : Taken done l) {k : Int}
    (hafter : ∀ G ∈ done, ∀ a ∈ G, a.1.offset < k) : ∀ p ∈ l.placed, p.offset < k := by
  intro p hp
  obtain ⟨e, rest, he, rfl⟩ := h.front hp
  exact hafter _ he e List.mem_cons_self

theorem addGroup_cons (l : Layout) (e : FieldUse) (rest : List FieldUse) : l.addGroup (e :: rest) =
    if l.placed ≠ [] ∧ e.1.offset < l.endOffset then
      { l with conflicts := l.conflicts ++ widthConflict e.1 (e :: rest) ++ [.overlap e.1 l.endOffset] }
    else
      { placed := l.placed ++ [placedAs e]
        endOffset := e.1.endOffset
        conflicts := l.conflicts ++ widthConflict e.1 (e :: rest) } := by
  simp only [addGroup, Bool.and_eq_true, Bool.not_eq_true', List.isEmpty_eq_false_iff, decide_eq_true_eq]
  rfl

section Add

variable {done : List (List FieldUse)} {l : Layout} {e : FieldUse} {rest : List FieldUse} (h : Taken done l)
  (hafter : ∀ G ∈ done, ∀ a ∈ G, a.1.offset < e.1.offset)
include h hafter

/-- A field in the way of the next one is the last that was placed. -/
theorem Taken.dropped (hne : l.placed ≠ []) (hlt : e.1.offset < l.endOffset) : Taken (done ++ [e :: rest])
    { l with conflicts := l.conflicts ++ widthConflict e.1 (e :: rest) ++ [.overlap e.1 l.endOffset] } := by
  have hbefore := h.before hafter
  obtain ⟨p, hp⟩ := List.getLast?_isSome.mpr hne |> Option.isSome_iff_exists.mp
  have hlast : lastBefore? l.placed e.1.offset = some p := (lastBefore?_of_forall hbefore).trans hp
  have hend := h.last hp
  have hfree : placesAt l.placed e.1.offset = false := by
    rw [Bool.eq_false_iff]
    intro hat
    obtain ⟨q, hq, heq⟩ := placesAt_iff.mp hat
    have := hbefore q hq
    omega
  exact {
    front := by
      intro q hq
      obtain ⟨a, as, ha, rfl⟩ := h.front hq
      exact ⟨a, as, List.mem_append_left _ ha, rfl⟩
    chain := h.chain
    last := h.last
    conflicts := by
      simp [h.conflicts, groupConflicts, overlapConflict, hfree, endBefore, hlast, hend]
    blocked := by
      intro a as ha hat
      rcases List.mem_append.mp ha with ha | ha
      · exact h.blocked ha hat
      · cases List.mem_singleton.mp ha
        exact ⟨p, hlast, hbefore p (List.mem_of_getLast? hp), hend ▸ hlt⟩ }

theorem Taken.kept (hfree : l.placed ≠ [] → l.endOffset ≤ e.1.offset) : Taken (done ++ [e :: rest])
    { placed := l.placed ++ [placedAs e]
      endOffset := e.1.endOffset
      conflicts := l.conflicts ++ widthConflict e.1 (e :: rest) } := by
  have hbefore := h.before hafter
  have hplaced : placesAt (l.placed ++ [placedAs e]) e.1.offset = true :=
    placesAt_iff.mpr ⟨placedAs e, by simp, rfl⟩
  have hearlier : done.flatMap (groupConflicts (l.placed ++ [placedAs e])) = done.flatMap (groupConflicts l.placed) :=
    List.flatMap_congr fun G hG => groupConflicts_append (hafter G hG)
  exact {
    front := by
      intro p hp
      rcases List.mem_append.mp hp with hp | hp
      · obtain ⟨a, as, ha, rfl⟩ := h.front hp
        exact ⟨a, as, List.mem_append_left _ ha, rfl⟩
      · exact ⟨e, rest, by simp, List.mem_singleton.mp hp⟩
    chain := by
      refine h.chain.append (List.isChain_singleton _) ?_
      intro p hp q hq
      cases hq
      have hmem : p ∈ l.placed := List.mem_of_getLast? hp
      exact ⟨hbefore p hmem, (h.last hp).trans_le (hfree (List.ne_nil_of_mem hmem))⟩
    last := by
      intro p hp
      rw [List.getLast?_concat] at hp
      cases hp
      rfl
    conflicts := by
      simp [h.conflicts, hearlier, groupConflicts, overlapConflict, hplaced]
    blocked := by
      intro a as ha hat
      rcases List.mem_append.mp ha with ha | ha
      · have hlt : a.1.offset < (placedAs e).offset := hafter _ ha a List.mem_cons_self
        rw [placesAt_append hlt] at hat
        rw [lastBefore?_append hlt]
        exact h.blocked ha hat
      · cases List.mem_singleton.mp ha
        exact absurd hplaced (by rw [hat]; decide) }

theorem addGroup_taken : Taken (done ++ [e :: rest]) (l.addGroup (e :: rest)) := by
  rw [addGroup_cons]
  split
  · rename_i hblock
    exact h.dropped hafter hblock.1 hblock.2
  · rename_i hfree
    refine h.kept hafter fun hne => ?_
    by_contra hlt
    exact hfree ⟨hne, by omega⟩

end Add

theorem foldl_addGroup_taken {done gs : List (List FieldUse)} {l : Layout} (h : Taken done l) (hne : ∀ G ∈ gs, G ≠ [])
    (hasc : (done ++ gs).Pairwise fun G H => ∀ a ∈ G, ∀ b ∈ H, a.1.offset < b.1.offset) :
    Taken (done ++ gs) (gs.foldl addGroup l) := by
  induction gs generalizing done l with
  | nil => simpa using h
  | cons G gs ih =>
    obtain ⟨e, rest, rfl⟩ := List.exists_cons_of_ne_nil (hne G List.mem_cons_self)
    have hafter : ∀ H ∈ done, ∀ a ∈ H, a.1.offset < e.1.offset := fun H hH a ha =>
      (List.pairwise_append.mp hasc).2.2 H hH _ List.mem_cons_self a ha e List.mem_cons_self
    rw [List.append_cons] at hasc ⊢
    exact ih (addGroup_taken h hafter) (fun H hH => hne H (List.mem_cons_of_mem _ hH)) hasc

theorem ofFields_taken (fields : List FieldUse) : Taken (groups fields) (ofFields fields) :=
  foldl_addGroup_taken empty_taken (fun _ => ne_nil_of_mem_groups) (groups_ascending fields)

/-! ## Every field accounted for -/

/-- `f` is the widest field of its offset. -/
structure Widest (fields : List FieldUse) (f : Field) : Prop where
  used : ∃ t, (f, t) ∈ fields
  bits_le {e : FieldUse} : e ∈ fields → e.1.offset = f.offset → e.1.bits ≤ f.bits

theorem group_eq_of_offset {fields G H : List FieldUse} (hG : G ∈ groups fields) (hH : H ∈ groups fields) {a b : FieldUse}
    (ha : a ∈ G) (hb : b ∈ H) (hab : a.1.offset = b.1.offset) : G = H := by
  let R : List FieldUse → List FieldUse → Prop := fun G H =>
    ∀ a ∈ G, ∀ b ∈ H, a.1.offset = b.1.offset → G = H
  have : Std.Symm R := ⟨fun G H h b hb a ha he => (h a ha b hb he.symm).symm⟩
  have hpair : (groups fields).Pairwise R := (groups_ascending fields).imp fun h a ha b hb he =>
    absurd (h a ha b hb) (by omega)
  exact hpair.forall_of_forall (fun _ _ _ _ _ _ _ => rfl) hG hH a ha b hb hab

theorem front_widest {fields rest : List FieldUse} {e : FieldUse} (h : e :: rest ∈ groups fields) : Widest fields e.1 where
  used := ⟨e.2, mem_of_mem_group h List.mem_cons_self⟩
  bits_le {b} hb ho := by
    obtain ⟨w, rest, hG, hbG⟩ := exists_group hb
    cases group_eq_of_offset hG h hbG List.mem_cons_self ho
    exact (groups_front h b hbG).2

theorem widths_mem {fields rest : List FieldUse} {e : FieldUse} (h : e :: rest ∈ groups fields) {w : LayoutConflict}
    (hw : w ∈ widthConflict e.1 (e :: rest)) : w ∈ (ofFields fields).conflicts := by
  rw [(ofFields_taken fields).conflicts]
  exact List.mem_flatMap.mpr ⟨_, h, List.mem_append_left _ hw⟩

/-- What is placed at the offset of a group is the group's front field. -/
theorem placed_front {fields rest : List FieldUse} {e : FieldUse} (h : e :: rest ∈ groups fields) {p : StructField}
    (hp : p ∈ (ofFields fields).placed) (ho : p.offset = e.1.offset) : p = placedAs e := by
  obtain ⟨a, as, ha, rfl⟩ := (ofFields_taken fields).front hp
  cases group_eq_of_offset ha h List.mem_cons_self List.mem_cons_self ho
  rfl

theorem front_placed {fields rest : List FieldUse} {e : FieldUse} (h : e :: rest ∈ groups fields)
    (hat : placesAt (ofFields fields).placed e.1.offset = true) : placedAs e ∈ (ofFields fields).placed := by
  obtain ⟨p, hp, ho⟩ := placesAt_iff.mp hat
  exact placed_front h hp ho ▸ hp

/-- A group whose front field is not placed is blocked by the last field placed before it, and
reported. -/
theorem front_blocked {fields rest : List FieldUse} {e : FieldUse} (h : e :: rest ∈ groups fields)
    (hat : placesAt (ofFields fields).placed e.1.offset = false) :
    ∃ p ∈ (ofFields fields).placed, lastBefore? (ofFields fields).placed e.1.offset = some p ∧ Blocks p e.1 ∧
      .overlap e.1 p.access.endOffset ∈ (ofFields fields).conflicts := by
  obtain ⟨p, hp, hb⟩ := (ofFields_taken fields).blocked h hat
  have hmem : .overlap e.1 p.access.endOffset ∈ overlapConflict (ofFields fields).placed e.1 := by
    simp [overlapConflict, hat, endBefore, hp]
  refine ⟨p, (List.mem_filter.mp (List.mem_of_getLast? hp)).1, hp, hb, ?_⟩
  rw [(ofFields_taken fields).conflicts]
  exact List.mem_flatMap.mpr ⟨_, h, List.mem_append_right _ hmem⟩

/-- A field is placed, or narrower than the widest of its offset, or that one and blocked. -/
theorem ofFields_settles {fields : List FieldUse} {e : FieldUse} (he : e ∈ fields)
    (huniq : ∀ e' ∈ fields, e'.1 = e.1 → e' = e) :
    placedAs e ∈ (ofFields fields).placed ∨
      (∃ ws kept, .widths e.1.offset ws kept ∈ (ofFields fields).conflicts ∧ e.1.bits ∈ ws ∧ e.1.bits < kept ∧
        Widest fields ⟨kept, e.1.offset⟩) ∨
      (Widest fields e.1 ∧ ∃ p ∈ (ofFields fields).placed, Blocks p e.1 ∧
        .overlap e.1 p.access.endOffset ∈ (ofFields fields).conflicts) := by
  obtain ⟨h, rest, hG, heG⟩ := exists_group he
  have hwidest := front_widest hG
  obtain ⟨ho, hle⟩ := groups_front hG e heG
  by_cases hlt : e.1.bits < h.1.bits
  · -- `e` is not in front, so its group has more than one field
    have hlen : (h :: rest).length > 1 := by
      rcases List.mem_cons.mp heG with rfl | hmem
      · exact absurd hlt (Int.lt_irrefl _)
      · simpa using List.length_pos_of_mem hmem
    refine Or.inr (Or.inl ⟨((h :: rest).map (·.1.bits)).mergeSort intAtMost, h.1.bits, widths_mem hG ?_, ?_, hlt, ?_⟩)
    · rw [widthConflict, if_pos hlen, ho]
      exact List.mem_singleton.mpr rfl
    · exact List.mem_mergeSort.mpr (List.mem_map_of_mem (f := (·.1.bits)) heG)
    · rw [ho]
      exact hwidest
  · have heq : h.1 = e.1 := Field.eq_of (by omega) ho.symm
    have hmem : h ∈ fields := mem_of_mem_group hG List.mem_cons_self
    cases huniq h hmem heq
    cases hat : placesAt (ofFields fields).placed e.1.offset with
    | true => exact Or.inl (front_placed hG hat)
    | false =>
      obtain ⟨p, hp, -, hblock, hcon⟩ := front_blocked hG hat
      exact Or.inr (Or.inr ⟨hwidest, p, hp, hblock, hcon⟩)

/-! ## Other names for the sketches -/

def renameUse (ρ : Int → Int) (e : FieldUse) : FieldUse := (e.1, ρ e.2)

def renameField (ρ : Int → Int) (p : StructField) : StructField := { p with sketch := ρ p.sketch }

def rename (ρ : Int → Int) (l : Layout) : Layout := { l with placed := l.placed.map (renameField ρ) }

theorem groups_rename (ρ : Int → Int) (fields : List FieldUse) :
    groups (fields.map (renameUse ρ)) = (groups fields).map (·.map (renameUse ρ)) := by
  have hsort : (fields.map (renameUse ρ)).mergeSort before = (fields.mergeSort before).map (renameUse ρ) :=
    (List.map_mergeSort fun a _ b _ => by rfl).symm
  rw [groups, groups, hsort, List.splitBy_eq_iff]
  refine ⟨?_, ?_, ?_, ?_⟩
  · rw [← List.map_flatten, List.flatten_splitBy]
  · intro h
    obtain ⟨G, hG, hnil⟩ := List.mem_map.mp h
    exact List.ne_nil_of_mem_splitBy hG (List.map_eq_nil_iff.mp hnil)
  · intro G hG
    obtain ⟨H, hH, rfl⟩ := List.mem_map.mp hG
    rw [List.isChain_map]
    exact List.isChain_of_mem_splitBy hH
  · rw [List.isChain_map]
    refine (List.isChain_getLast_head_splitBy sameOffset (fields.mergeSort before)).imp ?_
    rintro G H ⟨hG, hH, h⟩
    refine ⟨by simpa using hG, by simpa using hH, ?_⟩
    rw [List.getLast_map, List.head_map]
    exact h

theorem addGroup_rename (ρ : Int → Int) (l : Layout) (G : List FieldUse) :
    (l.rename ρ).addGroup (G.map (renameUse ρ)) = (l.addGroup G).rename ρ := by
  cases G with
  | nil => rfl
  | cons e rest =>
    have hwidths : widthConflict (renameUse ρ e).1 ((e :: rest).map (renameUse ρ)) = widthConflict e.1 (e :: rest) := by
      simp [widthConflict, renameUse, Function.comp_def]
    rw [List.map_cons] at hwidths ⊢
    rw [addGroup_cons, addGroup_cons, hwidths]
    by_cases h : l.placed ≠ [] ∧ e.1.offset < l.endOffset
    · have h' : (l.rename ρ).placed ≠ [] ∧ (renameUse ρ e).1.offset < (l.rename ρ).endOffset := by
        simpa [rename, renameUse] using h
      rw [if_pos h, if_pos h']
      rfl
    · have h' : ¬((l.rename ρ).placed ≠ [] ∧ (renameUse ρ e).1.offset < (l.rename ρ).endOffset) := by
        simpa [rename, renameUse] using h
      rw [if_neg h, if_neg h']
      simp [rename, renameField, renameUse, placedAs]

theorem ofFields_rename (ρ : Int → Int) (fields : List FieldUse) :
    ofFields (fields.map (renameUse ρ)) = (ofFields fields).rename ρ := by
  rw [ofFields, ofFields, groups_rename]
  suffices ∀ (gs : List (List FieldUse)) (l : Layout),
      (gs.map (·.map (renameUse ρ))).foldl addGroup (l.rename ρ) = (gs.foldl addGroup l).rename ρ from
    this (groups fields) empty
  intro gs
  induction gs with
  | nil => exact fun l => rfl
  | cons G gs ih =>
    intro l
    rw [List.map_cons, List.foldl_cons, List.foldl_cons, addGroup_rename]
    exact ih _

end Layout

end TypeRecovery
