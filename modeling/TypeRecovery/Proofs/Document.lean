/-
  TypeRecovery.Proofs.Document — constraint sets written as JSON documents and read back.

  The writer checks nothing: it writes empty names, numbers of any size and targets as they
  are. The reader takes a name only if it is not empty, and an index, a size or an offset only
  if it is an unsigned integer of 32 bits; the numbers of targets have no bounds. So what is
  written of a set is read as that set if it is `Readable`, and refused otherwise. Whatever a
  reader makes of a document is readable, so it can be written and read again.

  Proved:
  - `yields_ofLabel`, `yields_ofTypeVar`, `yields_ofSubtyping`, `yields_ofBinding`: what each reader makes
    of what the writer wrote.
  - `label_inRange`, `typeVar_readable`, `subtyping_readable`, `binding_readable`: what a reader takes.
  - `constraintSet_eq_ok`, `constraintSet_readable`: the same of whole documents.
  - `plain_ofConstraintSet`: a document has a text that is read back.
  - `read_written`: texts of constraint sets.
-/

import TypeRecovery.Proofs.Json.RoundTrip
import TypeRecovery.Proofs.Message.RoundTrip

namespace TypeRecovery

namespace Document

open Message (Yields each_eq_ok unsigned_eq_ok label_object baseName_eq_ok numbersOf LabelSendable labelSendable_field
  TypeVarSendable FactSendable Named)

/-! ## What the readers make of what was written -/

theorem fieldOf_eq_ok {bits offset : Int} {path : String} {f : Field} :
    fieldOf (.object [("bitSize", .whole bits), ("byteOffset", .whole offset)]) path = .ok f ↔
      LabelSendable (.field ⟨bits, offset⟩) ∧ f = ⟨bits, offset⟩ := by
  have hbits : (spelled? [("bitSize", .whole bits), ("byteOffset", .whole offset)] "bitSize" "bit_size").getD (.whole 0) =
      .whole bits := rfl
  have hoffset : (spelled? [("bitSize", .whole bits), ("byteOffset", .whole offset)] "byteOffset" "byte_offset").getD
      (.whole 0) = .whole offset := rfl
  simp only [fieldOf, members, ok_bind, hbits, hoffset, bind_eq_ok, unsigned_eq_ok, labelSendable_field]
  constructor
  · rintro ⟨m, ⟨hm, rfl⟩, n, ⟨hn, rfl⟩, hf⟩
    cases hf
    exact ⟨⟨hm, hn⟩, rfl⟩
  · rintro ⟨⟨hm, hn⟩, rfl⟩
    exact ⟨bits.toNat, ⟨hm, Int.toNat_of_nonneg hm.1⟩, offset.toNat, ⟨hn, Int.toNat_of_nonneg hn.1⟩, by
      rw [Int.toNat_of_nonneg hm.1, Int.toNat_of_nonneg hn.1]; rfl⟩

/-- An index is read back exactly if it is sendable. -/
theorem indexed_eq_ok {make : Nat → Label} {i : Nat} {path : String} {l : Label} :
    (unsigned (.whole i) path).map make = .ok l ↔ (0 ≤ (i : Int) ∧ (i : Int) < 0x100000000) ∧ l = make i := by
  simp only [map_eq_ok, unsigned_eq_ok]
  constructor
  · rintro ⟨n, ⟨hi, hn⟩, rfl⟩
    exact ⟨hi, congrArg make (Int.ofNat.inj hn)⟩
  · rintro ⟨hi, rfl⟩
    exact ⟨i, ⟨hi, rfl⟩, rfl⟩

theorem yields_ofLabel (l : Label) : Yields label (ofLabel l) (LabelSendable l) l := by
  intro path b
  cases l with
  | load =>
    rw [ofLabel, label_object "ptr" _ .pointer (by decide)]
    exact ⟨fun h => ⟨fun _ hn => (nomatch hn), (Except.ok.inj h).symm⟩, fun h => congrArg Except.ok h.2.symm⟩
  | store =>
    rw [ofLabel, label_object "ptr" _ .pointer (by decide)]
    exact ⟨fun h => ⟨fun _ hn => (nomatch hn), (Except.ok.inj h).symm⟩, fun h => congrArg Except.ok h.2.symm⟩
  | input i =>
    rw [ofLabel, label_object "inParam" _ .input (by decide), armOf, indexed_eq_ok, LabelSendable, numbersOf,
      List.forall_mem_singleton]
  | output i =>
    rw [ofLabel, label_object "outParam" _ .output (by decide), armOf, indexed_eq_ok, LabelSendable, numbersOf,
      List.forall_mem_singleton]
  | field f =>
    rw [ofLabel, label_object "field" _ .field (by decide), armOf, map_eq_ok]
    simp only [fieldOf_eq_ok]
    constructor
    · rintro ⟨g, ⟨hf, rfl⟩, rfl⟩
      exact ⟨hf, rfl⟩
    · rintro ⟨hf, rfl⟩
      exact ⟨f, ⟨hf, rfl⟩, rfl⟩

/-- Documents that are made of the elements of a list one by one. -/
theorem each_map_eq_ok {α : Type} {f : Json → String → Decoded α} {document : α → Json} {P : α → Prop}
    (h : ∀ a, Yields f (document a) (P a) a) {as bs : List α} {path : String} :
    each f path (as.map document) = .ok bs ↔ (∀ a ∈ as, P a) ∧ bs = as := by
  refine each_eq_ok ?_ path bs
  rw [List.forall₂_map_left_iff, List.forall₂_same]
  exact fun a _ => h a

theorem yields_ofTypeVar (v : TypeVar) : Yields typeVar (ofTypeVar v) (v.base ≠ "" ∧ TypeVarSendable v) v := by
  intro path w
  have hbase : spelled? [("baseVar", .text v.base), ("fieldLabels", .list (v.path.map ofLabel))] "baseVar" "base_var" =
      some (.text v.base) := rfl
  have hlabels : ∀ p, items (spelled? [("baseVar", .text v.base), ("fieldLabels", .list (v.path.map ofLabel))] "fieldLabels"
      "field_labels") p = .ok (v.path.map ofLabel) := fun p => rfl
  simp only [typeVar, ofTypeVar, members, ok_bind, hbase, hlabels, bind_eq_ok, baseName_eq_ok, each_map_eq_ok yields_ofLabel]
  constructor
  · rintro ⟨base, ⟨hne, rfl⟩, ls, ⟨hls, rfl⟩, hw⟩
    cases hw
    exact ⟨⟨hne, hls⟩, rfl⟩
  · rintro ⟨⟨hne, hls⟩, rfl⟩
    exact ⟨w.base, ⟨hne, rfl⟩, w.path, ⟨hls, rfl⟩, rfl⟩

/-- What a reader takes: no base is empty and every number of a label is one of 32 bits. -/
def ReadableFact (c : Subtyping) : Prop := Named c ∧ FactSendable c

theorem yields_ofSubtyping (c : Subtyping) : Yields subtyping (ofSubtyping c) (ReadableFact c) c := by
  intro path d
  have hlhs : ∀ p, required [("lhs", ofTypeVar c.sub), ("rhs", ofTypeVar c.sup)] "lhs" p = .ok (ofTypeVar c.sub) := fun p => rfl
  have hrhs : ∀ p, required [("lhs", ofTypeVar c.sub), ("rhs", ofTypeVar c.sup)] "rhs" p = .ok (ofTypeVar c.sup) := fun p => rfl
  simp only [subtyping, ofSubtyping, members, ok_bind, hlhs, hrhs, bind_eq_ok, yields_ofTypeVar _ _ _]
  constructor
  · rintro ⟨sub, ⟨⟨hsub, hsub'⟩, rfl⟩, sup, ⟨⟨hsup, hsup'⟩, rfl⟩, hd⟩
    cases hd
    exact ⟨⟨⟨hsub, hsup⟩, hsub', hsup'⟩, rfl⟩
  · rintro ⟨⟨⟨hsub, hsup⟩, hsub', hsup'⟩, rfl⟩
    exact ⟨d.sub, ⟨⟨hsub, hsub'⟩, rfl⟩, d.sup, ⟨⟨hsup, hsup'⟩, rfl⟩, rfl⟩

theorem target_ofTarget (t : Target) (path : String) : target (ofTarget t) path = .ok t := by
  cases t <;> rfl

theorem yields_ofBinding (b : Binding) : Yields binding (ofBinding b) (ReadableFact b.fact) b := by
  intro path d
  have hfact : ∀ p, present (spelled? [("subTy", ofSubtyping b.fact), ("targetVariable", ofTarget b.target)] "subTy" "sub_ty")
      "subTy" p = .ok (ofSubtyping b.fact) := fun p => rfl
  have htarget : ∀ p, present (spelled? [("subTy", ofSubtyping b.fact), ("targetVariable", ofTarget b.target)] "targetVariable"
      "target_variable") "targetVariable" p = .ok (ofTarget b.target) := fun p => rfl
  simp only [binding, ofBinding, members, ok_bind, hfact, htarget, bind_eq_ok, yields_ofSubtyping _ _ _, target_ofTarget]
  constructor
  · rintro ⟨fact, ⟨hreadable, rfl⟩, hd⟩
    cases hd
    exact ⟨hreadable, rfl⟩
  · rintro ⟨hreadable, rfl⟩
    exact ⟨d.fact, ⟨hreadable, rfl⟩, rfl⟩

/-- No base name is empty, and every index, bit size and byte offset is an unsigned integer of 32 bits. -/
def Readable (s : ConstraintSet) : Prop :=
  (∀ name ∈ s.bases, name ≠ "") ∧ ∀ v ∈ s.typeVars, ∀ l ∈ v.path, ∀ n ∈ numbersOf l, 0 ≤ n ∧ n < 0x100000000

instance (s : ConstraintSet) : Decidable (Readable s) := inferInstanceAs (Decidable (_ ∧ _))

theorem readable_iff {s : ConstraintSet} : Readable s ↔ ∀ c ∈ s.facts, ReadableFact c := by
  have hnumbers : (∀ v ∈ s.typeVars, ∀ l ∈ v.path, ∀ n ∈ numbersOf l, 0 ≤ n ∧ n < 0x100000000) ↔
      ∀ c ∈ s.facts, FactSendable c := ConstraintSet.forall_typeVars (P := TypeVarSendable)
  rw [Readable, ConstraintSet.forall_bases, hnumbers]
  exact ⟨fun h c hc => ⟨h.1 c hc, h.2 c hc⟩, fun h => ⟨fun c hc => (h c hc).1, fun c hc => (h c hc).2⟩⟩

theorem constraintSet_eq_ok {s t : ConstraintSet} (hs : s.Distinct) :
    constraintSet (ofConstraintSet s) = .ok t ↔ Readable s ∧ t = s := by
  have hfacts : ∀ p, items (spelled? [("subtypingConstraints", .list (s.subtypings.map ofSubtyping)),
      ("additionalConstraints", .list (s.bindings.map ofBinding))] "subtypingConstraints" "subtyping_constraints") p =
        .ok (s.subtypings.map ofSubtyping) := fun p => rfl
  have hbindings : ∀ p, items (spelled? [("subtypingConstraints", .list (s.subtypings.map ofSubtyping)),
      ("additionalConstraints", .list (s.bindings.map ofBinding))] "additionalConstraints" "additional_constraints") p =
        .ok (s.bindings.map ofBinding) := fun p => rfl
  rw [readable_iff, ConstraintSet.forall_facts]
  simp only [constraintSet, ofConstraintSet, members, ok_bind, hfacts, hbindings, bind_eq_ok, each_map_eq_ok yields_ofSubtyping,
    each_map_eq_ok yields_ofBinding]
  constructor
  · rintro ⟨cs, ⟨hc, rfl⟩, bs, ⟨hb, rfl⟩, ht⟩
    cases ht
    exact ⟨⟨hc, hb⟩, ConstraintSet.ofLists_eq hs⟩
  · rintro ⟨⟨hc, hb⟩, rfl⟩
    exact ⟨_, ⟨hc, rfl⟩, _, ⟨hb, rfl⟩, congrArg Except.ok (ConstraintSet.ofLists_eq hs)⟩

/-! ## What a reader takes -/

theorem unsigned_inRange {j : Json} {path : String} {n : Nat} (h : unsigned j path = .ok n) : n < 0x100000000 := by
  have hmax : (maxUnsigned : Int) = 0xffffffff := rfl
  unfold unsigned at h
  split at h
  · cases h
  · cases hi : integer? j with
    | none => rw [hi] at h; cases h
    | some k =>
      rw [hi] at h
      by_cases hk : 0 ≤ k ∧ k ≤ maxUnsigned
      · cases (if_pos hk).symm.trans h
        omega
      · cases (if_neg hk).symm.trans h

theorem numbersOf_pointerNamed {name : String} {l : Label} (h : pointerNamed? name = some l) : numbersOf l = [] := by
  unfold pointerNamed? at h
  split_ifs at h <;> cases h <;> rfl

theorem numbersOf_pointer {j : Json} {path : String} {l : Label} (h : pointer j path = .ok l) : numbersOf l = [] := by
  unfold pointer at h
  split at h
  · rename_i name
    cases hn : pointerNamed? name with
    | none => rw [hn] at h; cases h
    | some l' => rw [hn] at h; cases h; exact numbersOf_pointerNamed hn
  · obtain ⟨n, -, h⟩ := bind_eq_ok.mp h
    split at h
    · cases h; rfl
    · cases h; rfl
    · cases h

theorem fieldOf_inRange {j : Json} {path : String} {f : Field} (h : fieldOf j path = .ok f) : LabelSendable (.field f) := by
  obtain ⟨ms, -, h⟩ := bind_eq_ok.mp h
  obtain ⟨bits, hbits, h⟩ := bind_eq_ok.mp h
  obtain ⟨offset, hoffset, h⟩ := bind_eq_ok.mp h
  have hbits := unsigned_inRange hbits
  have hoffset := unsigned_inRange hoffset
  cases h
  rw [labelSendable_field]
  show (0 ≤ (bits : Int) ∧ (bits : Int) < 0x100000000) ∧ 0 ≤ (offset : Int) ∧ (offset : Int) < 0x100000000
  omega

theorem armOf_inRange {arm : Arm} {j : Json} {path : String} {l : Label} (h : armOf arm j path = .ok l) : LabelSendable l := by
  have hindex : ∀ n : Nat, n < 0x100000000 → ∀ m ∈ [(n : Int)], 0 ≤ m ∧ m < 0x100000000 := by
    intro n hn m hm
    rw [List.mem_singleton.mp hm]
    omega
  cases arm with
  | pointer =>
    intro n hn
    rw [numbersOf_pointer h] at hn
    cases hn
  | input =>
    obtain ⟨n, hn, rfl⟩ := map_eq_ok.mp h
    exact hindex n (unsigned_inRange hn)
  | output =>
    obtain ⟨n, hn, rfl⟩ := map_eq_ok.mp h
    exact hindex n (unsigned_inRange hn)
  | field =>
    obtain ⟨f, hf, rfl⟩ := map_eq_ok.mp h
    exact fieldOf_inRange hf

theorem label_inRange {j : Json} {path : String} {l : Label} (h : label j path = .ok l) : LabelSendable l := by
  obtain ⟨ms, -, h⟩ := bind_eq_ok.mp h
  split at h
  · exact armOf_inRange h
  · cases h

theorem forall_of_each {α : Type} {f : Json → String → Decoded α} {P : α → Prop} (hf : ∀ {j path a}, f j path = .ok a → P a)
    {js : List Json} {path : String} {as : List α} (h : each f path js = .ok as) : ∀ a ∈ as, P a := by
  intro a ha
  obtain ⟨e, he⟩ := exists_of_mem_forall₂ (mapM_eq_ok.mp h) ha
  exact hf he

theorem baseName_ne_empty {j : Option Json} {path name : String} (h : baseName j path = .ok name) : name ≠ "" := by
  unfold baseName at h
  split at h
  · rename_i s
    by_cases hs : s.isEmpty = true
    · cases (if_pos hs).symm.trans h
    · cases (if_neg hs).symm.trans h
      exact fun he => hs (String.isEmpty_iff.mpr he)
  · cases h

theorem typeVar_readable {j : Json} {path : String} {v : TypeVar} (h : typeVar j path = .ok v) :
    v.base ≠ "" ∧ TypeVarSendable v := by
  obtain ⟨ms, -, h⟩ := bind_eq_ok.mp h
  obtain ⟨base, hbase, h⟩ := bind_eq_ok.mp h
  obtain ⟨labels, -, h⟩ := bind_eq_ok.mp h
  obtain ⟨steps, hsteps, h⟩ := bind_eq_ok.mp h
  cases h
  exact ⟨baseName_ne_empty hbase, forall_of_each label_inRange hsteps⟩

theorem subtyping_readable {j : Json} {path : String} {c : Subtyping} (h : subtyping j path = .ok c) : ReadableFact c := by
  obtain ⟨ms, -, h⟩ := bind_eq_ok.mp h
  obtain ⟨lhs, -, h⟩ := bind_eq_ok.mp h
  obtain ⟨rhs, -, h⟩ := bind_eq_ok.mp h
  obtain ⟨sub, hsub, h⟩ := bind_eq_ok.mp h
  obtain ⟨sup, hsup, h⟩ := bind_eq_ok.mp h
  cases h
  exact ⟨⟨(typeVar_readable hsub).1, (typeVar_readable hsup).1⟩, (typeVar_readable hsub).2, (typeVar_readable hsup).2⟩

theorem binding_readable {j : Json} {path : String} {b : Binding} (h : binding j path = .ok b) : ReadableFact b.fact := by
  obtain ⟨ms, -, h⟩ := bind_eq_ok.mp h
  obtain ⟨fact, -, h⟩ := bind_eq_ok.mp h
  obtain ⟨target, -, h⟩ := bind_eq_ok.mp h
  obtain ⟨c, hc, h⟩ := bind_eq_ok.mp h
  obtain ⟨t, -, h⟩ := bind_eq_ok.mp h
  cases h
  exact subtyping_readable hc

theorem constraintSet_readable {j : Json} {s : ConstraintSet} (h : constraintSet j = .ok s) : s.Distinct ∧ Readable s := by
  obtain ⟨ms, -, h⟩ := bind_eq_ok.mp h
  obtain ⟨js, -, h⟩ := bind_eq_ok.mp h
  obtain ⟨subtypings, hsubtypings, h⟩ := bind_eq_ok.mp h
  obtain ⟨ks, -, h⟩ := bind_eq_ok.mp h
  obtain ⟨bindings, hbindings, h⟩ := bind_eq_ok.mp h
  cases h
  refine ⟨ConstraintSet.ofLists_distinct _ _, readable_iff.mpr fun c hc => ?_⟩
  rcases ConstraintSet.mem_facts_ofLists.mp hc with hc | ⟨b, hb, rfl⟩
  · exact forall_of_each subtyping_readable hsubtypings c hc
  · exact forall_of_each (P := fun b => ReadableFact b.fact) binding_readable hbindings b hb

/-! ## Texts -/

theorem plain_single {k : String} {j : Json} (hj : j.Plain) : (Json.object [(k, j)]).Plain :=
  .object (List.nodup_singleton k) (List.forall_mem_singleton.mpr hj)

theorem plain_pair {k k' : String} {j j' : Json} (hk : k ≠ k') (hj : j.Plain) (hj' : j'.Plain) :
    (Json.object [(k, j), (k', j')]).Plain :=
  .object (List.nodup_cons.mpr ⟨fun h => hk (List.mem_singleton.mp h), List.nodup_singleton k'⟩)
    (List.forall_mem_cons.mpr ⟨hj, List.forall_mem_singleton.mpr hj'⟩)

theorem plain_map {α : Type} {document : α → Json} (h : ∀ a, (document a).Plain) (as : List α) :
    (Json.list (as.map document)).Plain :=
  .list (List.forall_mem_map.mpr fun a _ => h a)

theorem plain_ofLabel (l : Label) : (ofLabel l).Plain := by
  cases l with
  | load => exact plain_single (.text _)
  | store => exact plain_single (.text _)
  | input i => exact plain_single (.whole _)
  | output i => exact plain_single (.whole _)
  | field f => exact plain_single (plain_pair (by decide) (.whole _) (.whole _))

theorem plain_ofTypeVar (v : TypeVar) : (ofTypeVar v).Plain :=
  plain_pair (by decide) (.text _) (plain_map plain_ofLabel v.path)

theorem plain_ofSubtyping (c : Subtyping) : (ofSubtyping c).Plain :=
  plain_pair (by decide) (plain_ofTypeVar _) (plain_ofTypeVar _)

theorem plain_ofTarget (t : Target) : (ofTarget t).Plain := by
  cases t with
  | number n => exact plain_single (.whole n)
  | name s => exact plain_single (.text s)

theorem plain_ofBinding (b : Binding) : (ofBinding b).Plain :=
  plain_pair (by decide) (plain_ofSubtyping _) (plain_ofTarget _)

theorem plain_ofConstraintSet (s : ConstraintSet) : (ofConstraintSet s).Plain :=
  plain_pair (by decide) (plain_map plain_ofSubtyping _) (plain_map plain_ofBinding _)

theorem read_eq_ok {mark : Text.Mark} {style : Json.Style} (hb : style.Blank) {s t : ConstraintSet} (hs : s.Distinct) :
    read mark (write style s) = .ok t ↔ Readable s ∧ t = s := by
  rw [read, write, Json.read_write mark hb (plain_ofConstraintSet s)]
  exact constraintSet_eq_ok hs

/-- What was read of a document can be written and is read again. -/
theorem read_again (mark : Text.Mark) {style : Json.Style} (hb : style.Blank) {j : Json} {s : ConstraintSet}
    (h : constraintSet j = .ok s) : read mark (write style s) = .ok s := by
  obtain ⟨hs, hreadable⟩ := constraintSet_readable h
  exact (read_eq_ok hb hs).mpr ⟨hreadable, rfl⟩

theorem exists_of_read {mark : Text.Mark} {text : String} {s : ConstraintSet} (h : read mark text = .ok s) :
    ∃ j, constraintSet j = .ok s := by
  unfold read at h
  split at h
  · exact ⟨_, h⟩
  · cases h

theorem blank_line : Json.Style.line.Blank := fun _ h => nomatch h

theorem blank_indented (width : Nat) : (Json.Style.indented width).Blank := by
  intro unit hu c hc
  cases hu
  rw [List.eq_of_mem_replicate hc]
  rfl

/-- Written in whatever style indents by blanks, a set is read as itself if it is readable, and
refused if it is not. What was read of any document is written and read again. -/
theorem read_written (mark : Text.Mark) {style : Json.Style} (hb : style.Blank) :
    (∀ s : ConstraintSet, s.Distinct → (read mark (write style s) = .ok s ↔ Readable s) ∧
      ((∃ e, read mark (write style s) = .error e) ↔ ¬Readable s)) ∧
    (∀ j s, constraintSet j = .ok s → read mark (write style s) = .ok s) ∧
    ∀ text s, read mark text = .ok s → read mark (write style s) = .ok s := by
  refine ⟨fun s hs => ⟨?_, ?_⟩, fun j s h => read_again mark hb h, fun text s h => ?_⟩
  · rw [read_eq_ok hb hs]
    exact ⟨fun h => h.1, fun h => ⟨h, rfl⟩⟩
  · cases hr : read mark (write style s) with
    | ok t => exact ⟨fun ⟨e, he⟩ => (nomatch he), fun hn => absurd ((read_eq_ok hb hs).mp hr).1 hn⟩
    | error e =>
      refine ⟨fun _ hreadable => ?_, fun _ => ⟨e, rfl⟩⟩
      rw [(read_eq_ok hb hs).mpr ⟨hreadable, rfl⟩] at hr
      cases hr
  · obtain ⟨j, hj⟩ := exists_of_read h
    exact read_again mark hb hj

/-- Every kind of label at both ends of its range, and targets and names of every kind. -/
def boundaries : ConstraintSet where
  subtypings := [⟨⟨"x", [.load, .input 0, .output 0, .field ⟨0, 0⟩]⟩,
    ⟨"σ \"\\\n\x00", [.store, .input 4294967295, .output 4294967295, .field ⟨4294967295, 4294967295⟩]⟩⟩]
  bindings := [⟨.number (-1), ⟨⟨"x", []⟩, ⟨"😀", []⟩⟩⟩, ⟨.name "-1", ⟨⟨"x", []⟩, ⟨"😀", []⟩⟩⟩,
    ⟨.name "", ⟨⟨"x", []⟩, ⟨"😀", []⟩⟩⟩, ⟨.number 100000000000000000000, ⟨⟨"x", []⟩, ⟨"😀", []⟩⟩⟩]

/-- An offset below zero. -/
def misplaced : ConstraintSet := ⟨[], [⟨.number 0, ⟨⟨"x", []⟩, ⟨"y", [.field ⟨8, -1⟩]⟩⟩⟩]⟩

/-- An index above 32 bits. -/
def outsized : ConstraintSet := ⟨[⟨⟨"x", [.load]⟩, ⟨"y", [.output 4294967296]⟩⟩], []⟩

def unnamed : ConstraintSet := ⟨[⟨⟨"", [.load]⟩, ⟨"y", []⟩⟩], []⟩

/-- A document in snake case, with a pointer by its number and an index as a string. -/
def snakeCase : Json :=
  .object [("subtyping_constraints", .list [.object [
    ("lhs", .object [("base_var", .text "x"), ("field_labels", .list [.object [("ptr", .whole 1)]])]),
    ("rhs", .object [("base_var", .text "y"), ("field_labels", .list [.object [("in_param", .text "3")]])])]])]

theorem boundaries_read_written :
    ((Json.Style.indented 2).Blank ∧ boundaries.Distinct ∧ Readable boundaries ∧
      read .first (write (.indented 2) boundaries) = .ok boundaries) ∧
    (Json.Style.line.Blank ∧ misplaced.Distinct ∧ ¬Readable misplaced ∧ (∃ e, read .first (write .line misplaced) = .error e) ∧
      outsized.Distinct ∧ ¬Readable outsized ∧ (∃ e, read .first (write .line outsized) = .error e) ∧
      unnamed.Distinct ∧ ¬Readable unnamed ∧ ∃ e, read .first (write .line unnamed) = .error e) ∧
    constraintSet snakeCase = .ok ⟨[⟨⟨"x", [.store]⟩, ⟨"y", [.input 3]⟩⟩], []⟩ ∧
      read .first (write .line ⟨[⟨⟨"x", [.store]⟩, ⟨"y", [.input 3]⟩⟩], []⟩) = .ok ⟨[⟨⟨"x", [.store]⟩, ⟨"y", [.input 3]⟩⟩], []⟩ := by
  have hboundaries : boundaries.Distinct := ⟨by decide, by decide⟩
  have hmisplaced : misplaced.Distinct := ⟨by decide, by decide⟩
  have houtsized : outsized.Distinct := ⟨by decide, by decide⟩
  have hunnamed : unnamed.Distinct := ⟨by decide, by decide⟩
  have hsnake : constraintSet snakeCase = .ok ⟨[⟨⟨"x", [.store]⟩, ⟨"y", [.input 3]⟩⟩], []⟩ := rfl
  obtain ⟨hline, hagain, -⟩ := read_written .first blank_line
  refine ⟨⟨blank_indented 2, hboundaries, by decide, ?_⟩, ⟨blank_line, hmisplaced, by decide, ?_, houtsized, by decide, ?_,
    hunnamed, by decide, ?_⟩, hsnake, hagain _ _ hsnake⟩
  · exact ((read_written .first (blank_indented 2)).1 boundaries hboundaries).1.mpr (by decide)
  · exact (hline misplaced hmisplaced).2.mpr (by decide)
  · exact (hline outsized houtsized).2.mpr (by decide)
  · exact (hline unnamed hunnamed).2.mpr (by decide)

end Document

end TypeRecovery
