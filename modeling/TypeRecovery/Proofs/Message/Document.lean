/-
  TypeRecovery.Proofs.Message.Document — messages that were made of constraints, read as documents.

  The document of a message lacks the members that the message left out, and a reader takes
  what is missing for zero; a base that was left out is empty, and no reader takes it. So the
  document of a constraint's message `Yields` the constraint, provided that its bases are not
  empty, and nothing else ever.

  Proved:
  - `inRange_label`, `inRange_variable`, `inRange_subtyping`, `inRange_target`, `inRange_binding`,
    `inRange_set`: what was made of a constraint is in range.
  - `fieldOf_document`, `typeVar_document`: what was left out is read as zero and as empty.
  - `yields_label`, `yields_typeVar`, `yields_subtyping`, `target_document`, `yields_binding`: what the
    readers make of what was made of a constraint.
  - `constraintSet_document`: what is read of the message of a set.
-/

import TypeRecovery.Message.Codec
import TypeRecovery.Proofs.Entries
import TypeRecovery.Proofs.Message.Schema

namespace TypeRecovery.Message

open Document (Decoded)

variable {α : Type}

/-! ## Numbers in range -/

theorem unsigned32?_eq_some {n : Int} {k : Nat} : unsigned32? n = some k ↔ (k : Int) = n ∧ k < 0x100000000 := by
  rw [unsigned32?]
  split
  · simp only [Option.some.injEq]
    omega
  · simp only [reduceCtorEq, false_iff]
    omega

theorem signed64?_eq_some {n k : Int} : signed64? n = some k ↔ k = n ∧ -0x8000000000000000 ≤ n ∧ n < 0x8000000000000000 := by
  rw [signed64?]
  split
  · simp only [Option.some.injEq]
    omega
  · simp only [reduceCtorEq, false_iff]
    omega

/-! ## What messages are made of -/

theorem ofField_eq_some {f : Field} {m : FieldMessage} :
    ofField f = some m ↔ (m.bitSize : Int) = f.bits ∧ (m.byteOffset : Int) = f.offset ∧ m.InRange := by
  obtain ⟨bits, offset⟩ := m
  simp only [ofField, Option.bind_eq_bind, Option.bind_eq_some_iff, unsigned32?_eq_some, Option.pure_def, Option.some.injEq,
    FieldMessage.mk.injEq, FieldMessage.InRange]
  constructor
  · rintro ⟨b, ⟨hb, hb'⟩, o, ⟨ho, ho'⟩, rfl, rfl⟩
    exact ⟨hb, ho, hb', ho'⟩
  · rintro ⟨hb, ho, hb', ho'⟩
    exact ⟨bits, ⟨hb, hb'⟩, offset, ⟨ho, ho'⟩, rfl, rfl⟩

theorem ofTypeVar_eq_some {v : TypeVar} {m : VariableMessage} :
    ofTypeVar v = some m ↔ m.base = v.base ∧ List.Forall₂ (fun l lm => ofLabel l = some lm) v.path m.labels := by
  obtain ⟨base, labels⟩ := m
  simp only [ofTypeVar, Option.map_eq_some_iff, mapM_eq_some, VariableMessage.mk.injEq]
  constructor
  · rintro ⟨ls, hls, rfl, rfl⟩
    exact ⟨rfl, hls⟩
  · rintro ⟨rfl, hls⟩
    exact ⟨labels, hls, rfl, rfl⟩

theorem ofSubtyping_eq_some {c : Subtyping} {m : SubtypingMessage} :
    ofSubtyping c = some m ↔ ∃ lhs rhs, ofTypeVar c.sub = some lhs ∧ ofTypeVar c.sup = some rhs ∧ m = ⟨some lhs, some rhs⟩ := by
  simp only [ofSubtyping, Option.bind_eq_bind, Option.bind_eq_some_iff, Option.pure_def, Option.some.injEq]
  constructor
  · rintro ⟨lhs, hlhs, rhs, hrhs, rfl⟩
    exact ⟨lhs, rhs, hlhs, hrhs, rfl⟩
  · rintro ⟨lhs, rhs, hlhs, hrhs, rfl⟩
    exact ⟨lhs, hlhs, rhs, hrhs, rfl⟩

theorem ofBinding_eq_some {b : Binding} {m : BindingMessage} :
    ofBinding b = some m ↔ ∃ fact target, ofSubtyping b.fact = some fact ∧ ofTarget b.target = some target ∧
      m = ⟨some fact, some target⟩ := by
  simp only [ofBinding, Option.bind_eq_bind, Option.bind_eq_some_iff, Option.pure_def, Option.some.injEq]
  constructor
  · rintro ⟨fact, hfact, target, htarget, rfl⟩
    exact ⟨fact, target, hfact, htarget, rfl⟩
  · rintro ⟨fact, target, hfact, htarget, rfl⟩
    exact ⟨fact, hfact, target, htarget, rfl⟩

theorem ofConstraintSet_eq_some {s : ConstraintSet} {m : SetMessage} :
    ofConstraintSet s = some m ↔ List.Forall₂ (fun c cm => ofSubtyping c = some cm) s.subtypings m.subtypings ∧
      List.Forall₂ (fun b bm => ofBinding b = some bm) s.bindings m.bindings := by
  obtain ⟨subtypings, bindings⟩ := m
  simp only [ofConstraintSet, Option.bind_eq_bind, Option.bind_eq_some_iff, mapM_eq_some, Option.pure_def, Option.some.injEq,
    SetMessage.mk.injEq]
  constructor
  · rintro ⟨cs, hcs, bs, hbs, rfl, rfl⟩
    exact ⟨hcs, hbs⟩
  · rintro ⟨hcs, hbs⟩
    exact ⟨subtypings, hcs, bindings, hbs, rfl, rfl⟩

/-! ## Messages in range -/

theorem inRange_label {l : Label} {m : LabelMessage} (h : ofLabel l = some m) : ∀ arm ∈ m, arm.InRange := by
  intro arm harm
  cases l with
  | load =>
    cases h
    rw [← Option.some.inj harm]
    constructor <;> decide
  | store =>
    cases h
    rw [← Option.some.inj harm]
    constructor <;> decide
  | input i =>
    rw [ofLabel, Option.map_eq_some_iff] at h
    obtain ⟨n, hn, rfl⟩ := h
    rw [← Option.some.inj harm]
    exact (unsigned32?_eq_some.mp hn).2
  | output i =>
    rw [ofLabel, Option.map_eq_some_iff] at h
    obtain ⟨n, hn, rfl⟩ := h
    rw [← Option.some.inj harm]
    exact (unsigned32?_eq_some.mp hn).2
  | field f =>
    rw [ofLabel, Option.map_eq_some_iff] at h
    obtain ⟨fm, hf, rfl⟩ := h
    rw [← Option.some.inj harm]
    exact (ofField_eq_some.mp hf).2.2

theorem inRange_variable {v : TypeVar} {m : VariableMessage} (h : ofTypeVar v = some m) : m.InRange := by
  intro l hl
  obtain ⟨x, hx⟩ := exists_of_mem_forall₂ (ofTypeVar_eq_some.mp h).2 hl
  exact inRange_label hx

theorem inRange_subtyping {c : Subtyping} {m : SubtypingMessage} (h : ofSubtyping c = some m) : m.InRange := by
  obtain ⟨lhs, rhs, hlhs, hrhs, rfl⟩ := ofSubtyping_eq_some.mp h
  exact ⟨fun v hv => Option.some.inj hv ▸ inRange_variable hlhs, fun v hv => Option.some.inj hv ▸ inRange_variable hrhs⟩

theorem inRange_target {t : Target} {m : TargetMessage} (h : ofTarget t = some m) : ∀ arm ∈ m, arm.InRange := by
  intro arm harm
  cases t with
  | name s => cases h; cases harm; trivial
  | number n =>
    rw [ofTarget, Option.map_eq_some_iff] at h
    obtain ⟨k, hk, rfl⟩ := h
    obtain ⟨rfl, hrange⟩ := signed64?_eq_some.mp hk
    rw [← Option.some.inj harm]
    exact hrange

theorem inRange_binding {b : Binding} {m : BindingMessage} (h : ofBinding b = some m) : m.InRange := by
  obtain ⟨fact, target, hfact, htarget, rfl⟩ := ofBinding_eq_some.mp h
  exact ⟨fun s hs => Option.some.inj hs ▸ inRange_subtyping hfact, fun t ht => Option.some.inj ht ▸ inRange_target htarget⟩

theorem inRange_set {s : ConstraintSet} {m : SetMessage} (h : ofConstraintSet s = some m) : m.InRange := by
  obtain ⟨hcs, hbs⟩ := ofConstraintSet_eq_some.mp h
  refine ⟨fun cm hcm => ?_, fun bm hbm => ?_⟩
  · obtain ⟨c, hc⟩ := exists_of_mem_forall₂ hcs hcm
    exact inRange_subtyping hc
  · obtain ⟨b, hb⟩ := exists_of_mem_forall₂ hbs hbm
    exact inRange_binding hb

/-! ## Documents of messages -/

/-- The reader makes `a` of the document wherever it stands, provided that `P`, and nothing else. -/
def Yields (f : Json → String → Decoded α) (j : Json) (P : Prop) (a : α) : Prop := ∀ path b, f j path = .ok b ↔ P ∧ b = a

theorem yields_of_eq {f : Json → String → Decoded α} {j : Json} {a : α} (h : ∀ path, f j path = .ok a) :
    Yields f j True a := fun path b => by
  rw [h path, Except.ok.injEq, true_and, eq_comm]

theorem each_eq_ok {f : Json → String → Decoded α} {P : α → Prop} {js : List Json} {as : List α}
    (h : List.Forall₂ (fun j a => Yields f j (P a) a) js as) (path : String) (ys : List α) :
    Document.each f path js = .ok ys ↔ (∀ a ∈ as, P a) ∧ ys = as := by
  have hfrom : ∀ start, List.Forall₂ (fun e y => f e.1 (Document.itemPath path e.2) = .ok y) (js.zipIdx start) ys ↔
      (∀ a ∈ as, P a) ∧ ys = as := by
    induction h generalizing ys with
    | nil => intro start; simp
    | cons hj _ ih =>
      intro start
      simp only [List.zipIdx_cons, List.forall₂_cons_left_iff, hj _ _, ih, List.forall_mem_cons]
      constructor
      · rintro ⟨b, bs, ⟨hp, rfl⟩, ⟨hps, rfl⟩, rfl⟩
        exact ⟨⟨hp, hps⟩, rfl⟩
      · rintro ⟨⟨hp, hps⟩, rfl⟩
        exact ⟨_, _, ⟨hp, rfl⟩, ⟨hps, rfl⟩, rfl⟩
  rw [Document.each, mapM_eq_ok]
  exact hfrom 0

theorem unsigned_eq_ok {n : Int} {path : String} {k : Nat} :
    Document.unsigned (.whole n) path = .ok k ↔ (0 ≤ n ∧ n < 0x100000000) ∧ (k : Int) = n := by
  have hmax : (Document.maxUnsigned : Int) = 0xffffffff := rfl
  simp only [Document.unsigned, Document.integer?]
  by_cases h : 0 ≤ n ∧ n ≤ Document.maxUnsigned
  · rw [if_pos h, Except.ok.injEq]
    omega
  · rw [if_neg h]
    constructor
    · intro he
      cases he
    · omega

theorem unsigned_whole {n : Nat} (h : n < 0x100000000) (path : String) : Document.unsigned (.whole n) path = .ok n :=
  unsigned_eq_ok.mpr ⟨by omega, rfl⟩

/-- A size or an offset that was left out is zero. -/
theorem fieldOf_document (m : FieldMessage) (path : String) : Document.fieldOf m.document path = (do
    let bits ← Document.unsigned (.whole m.bitSize) (Document.memberPath path "bitSize")
    let offset ← Document.unsigned (.whole m.byteOffset) (Document.memberPath path "byteOffset")
    return ⟨bits, offset⟩) := by
  have hbits : (Document.spelled? (scalarMember "bitSize" m.bitSize ++ scalarMember "byteOffset" m.byteOffset) "bitSize"
      "bit_size").getD (.whole 0) = .whole m.bitSize := by
    by_cases hb : m.bitSize = 0 <;> by_cases ho : m.byteOffset = 0 <;>
      simp [scalarMember, hb, ho, Document.spelled?, Entries.lookup?]
  have hoffset : (Document.spelled? (scalarMember "bitSize" m.bitSize ++ scalarMember "byteOffset" m.byteOffset) "byteOffset"
      "byte_offset").getD (.whole 0) = .whole m.byteOffset := by
    by_cases hb : m.bitSize = 0 <;> by_cases ho : m.byteOffset = 0 <;>
      simp [scalarMember, hb, ho, Document.spelled?, Entries.lookup?]
  simp only [Document.fieldOf, FieldMessage.document, Document.members, ok_bind, hbits, hoffset]

/-- A document with one member, named for an arm, is read as that arm. -/
theorem label_object (name : String) (j : Json) (arm : Document.Arm) (h : (name, arm) ∈ Document.arms) (path : String) :
    Document.label (.object [(name, j)]) path = Document.armOf arm j (Document.memberPath path name) := by
  simp only [Document.arms, List.mem_cons, Prod.mk.injEq, List.not_mem_nil, or_false] at h
  rcases h with ⟨rfl, rfl⟩ | ⟨rfl, rfl⟩ | ⟨rfl, rfl⟩ | ⟨rfl, rfl⟩ | ⟨rfl, rfl⟩ | ⟨rfl, rfl⟩ <;> rfl

theorem yields_label {l : Label} {m : LabelMessage} (h : ofLabel l = some m) :
    Yields Document.label (labelDocument m) True l := yields_of_eq fun path => by
  cases l with
  | load =>
    cases h
    exact label_object "ptr" _ .pointer (by decide) path
  | store =>
    cases h
    exact label_object "ptr" _ .pointer (by decide) path
  | input i =>
    rw [ofLabel, Option.map_eq_some_iff] at h
    obtain ⟨n, hn, rfl⟩ := h
    obtain ⟨hi, hlt⟩ := unsigned32?_eq_some.mp hn
    rw [labelDocument, label_object "inParam" _ .input (by decide), Document.armOf, unsigned_whole hlt, Int.ofNat.inj hi]
    rfl
  | output i =>
    rw [ofLabel, Option.map_eq_some_iff] at h
    obtain ⟨n, hn, rfl⟩ := h
    obtain ⟨hi, hlt⟩ := unsigned32?_eq_some.mp hn
    rw [labelDocument, label_object "outParam" _ .output (by decide), Document.armOf, unsigned_whole hlt, Int.ofNat.inj hi]
    rfl
  | field f =>
    rw [ofLabel, Option.map_eq_some_iff] at h
    obtain ⟨fm, hf, rfl⟩ := h
    obtain ⟨hbits, hoffset, hrange⟩ := ofField_eq_some.mp hf
    rw [labelDocument, label_object "field" _ .field (by decide), Document.armOf, fieldOf_document, unsigned_whole hrange.1,
      unsigned_whole hrange.2]
    show Except.ok (Label.field ⟨fm.bitSize, fm.byteOffset⟩) = _
    rw [hbits, hoffset]

/-- The documents of the messages of a list, each beside what its message was made of. -/
theorem forall₂_documents {β : Type} {made : α → Option β} {document : β → Json} {f : Json → String → Decoded α}
    {P : α → Prop} {as : List α} {ms : List β} (h : List.Forall₂ (fun a m => made a = some m) as ms)
    (hy : ∀ a m, made a = some m → Yields f (document m) (P a) a) :
    List.Forall₂ (fun j a => Yields f j (P a) a) (ms.map document) as := by
  rw [List.forall₂_map_left_iff]
  exact List.Forall₂.flip (h.imp hy)

theorem baseName_eq_ok {s name path : String} :
    Document.baseName (some (.text s)) path = .ok name ↔ s ≠ "" ∧ name = s := by
  rw [Document.baseName]
  by_cases hs : s = ""
  · simp [hs, Document.fail]
  · rw [eq_comm (a := name)]
    simp [hs]

/-- A base that was left out is empty. -/
theorem typeVar_document (m : VariableMessage) (path : String) : Document.typeVar m.document path = (do
    let base ← Document.baseName (some (.text m.base)) (Document.memberPath path "baseVar")
    let steps ← Document.each Document.label (Document.memberPath path "fieldLabels") (m.labels.map labelDocument)
    return ⟨base, steps⟩) := by
  have hname : ∀ p, Document.baseName (Document.spelled? ((if m.base.isEmpty then [] else [("baseVar", Json.text m.base)]) ++
      [("fieldLabels", .list (m.labels.map labelDocument))]) "baseVar" "base_var") p =
        Document.baseName (some (.text m.base)) p := by
    intro p
    by_cases hz : m.base = "" <;> simp [hz, Document.spelled?, Entries.lookup?, Document.baseName]
  have hitems : ∀ p, Document.items (Document.spelled? ((if m.base.isEmpty then [] else [("baseVar", Json.text m.base)]) ++
      [("fieldLabels", .list (m.labels.map labelDocument))]) "fieldLabels" "field_labels") p =
        .ok (m.labels.map labelDocument) := by
    intro p
    by_cases hz : m.base.isEmpty <;> simp [hz, Document.spelled?, Entries.lookup?, Document.items]
  simp only [Document.typeVar, VariableMessage.document, Document.members, ok_bind, hname, hitems]

theorem yields_typeVar {v : TypeVar} {m : VariableMessage} (h : ofTypeVar v = some m) :
    Yields Document.typeVar m.document (v.base ≠ "") v := fun path w => by
  obtain ⟨hbase, hlabels⟩ := ofTypeVar_eq_some.mp h
  have heach := each_eq_ok (forall₂_documents hlabels fun l lm hl => yields_label hl)
  simp only [typeVar_document, bind_eq_ok, baseName_eq_ok, hbase, heach]
  constructor
  · rintro ⟨b, ⟨hne, rfl⟩, ls, ⟨-, rfl⟩, hw⟩
    cases hw
    exact ⟨hne, rfl⟩
  · rintro ⟨hne, rfl⟩
    exact ⟨w.base, ⟨hne, rfl⟩, w.path, ⟨fun _ _ => trivial, rfl⟩, rfl⟩

/-- No base of the constraint is empty. -/
def Named (c : Subtyping) : Prop := c.sub.base ≠ "" ∧ c.sup.base ≠ ""

theorem yields_subtyping {c : Subtyping} {m : SubtypingMessage} (h : ofSubtyping c = some m) :
    Yields Document.subtyping m.document (Named c) c := fun path d => by
  obtain ⟨lhs, rhs, hlhs, hrhs, rfl⟩ := ofSubtyping_eq_some.mp h
  have hfirst : ∀ p, Document.required [("lhs", lhs.document), ("rhs", rhs.document)] "lhs" p = .ok lhs.document := fun p => rfl
  have hsecond : ∀ p, Document.required [("lhs", lhs.document), ("rhs", rhs.document)] "rhs" p = .ok rhs.document := fun p => rfl
  simp only [Document.subtyping, SubtypingMessage.document, variableMember, List.singleton_append, Document.members, ok_bind,
    hfirst, hsecond, bind_eq_ok, yields_typeVar hlhs _ _, yields_typeVar hrhs _ _]
  constructor
  · rintro ⟨sub, ⟨hsub, rfl⟩, sup, ⟨hsup, rfl⟩, hd⟩
    cases hd
    exact ⟨⟨hsub, hsup⟩, rfl⟩
  · rintro ⟨⟨hsub, hsup⟩, rfl⟩
    exact ⟨d.sub, ⟨hsub, rfl⟩, d.sup, ⟨hsup, rfl⟩, rfl⟩

theorem target_document {t : Target} {m : TargetMessage} (h : ofTarget t = some m) (path : String) :
    Document.target (targetDocument m) path = .ok t := by
  cases t with
  | name s => cases h; rfl
  | number n =>
    rw [ofTarget, Option.map_eq_some_iff] at h
    obtain ⟨k, hk, rfl⟩ := h
    rw [(signed64?_eq_some.mp hk).1]
    rfl

theorem yields_binding {b : Binding} {m : BindingMessage} (h : ofBinding b = some m) :
    Yields Document.binding m.document (Named b.fact) b := fun path d => by
  obtain ⟨fact, target, hfact, htarget, rfl⟩ := ofBinding_eq_some.mp h
  have hfirst : ∀ p, Document.present (Document.spelled? [("subTy", fact.document), ("targetVariable", targetDocument target)]
      "subTy" "sub_ty") "subTy" p = .ok fact.document := fun p => rfl
  have hsecond : ∀ p, Document.present (Document.spelled? [("subTy", fact.document), ("targetVariable", targetDocument target)]
      "targetVariable" "target_variable") "targetVariable" p = .ok (targetDocument target) := fun p => by
    cases target with
    | none => rfl
    | some arm => cases arm <;> rfl
  simp only [Document.binding, BindingMessage.document, List.singleton_append, Document.members, ok_bind, hfirst, hsecond,
    bind_eq_ok, yields_subtyping hfact _ _, target_document htarget]
  constructor
  · rintro ⟨fact, ⟨hnamed, rfl⟩, hd⟩
    cases hd
    exact ⟨hnamed, rfl⟩
  · rintro ⟨hnamed, rfl⟩
    exact ⟨d.fact, ⟨hnamed, rfl⟩, rfl⟩

/-- The message of a set is read as the set of its constraints, unless one of them is not named. -/
theorem constraintSet_document {s t : ConstraintSet} {m : SetMessage} (h : ofConstraintSet s = some m) :
    Document.constraintSet m.document = .ok t ↔
      (∀ c ∈ s.facts, Named c) ∧ t = .ofLists s.subtypings s.bindings := by
  obtain ⟨hcs, hbs⟩ := ofConstraintSet_eq_some.mp h
  have hfacts : ∀ p, Document.items (Document.spelled? [("subtypingConstraints", .list (m.subtypings.map (·.document))),
      ("additionalConstraints", .list (m.bindings.map (·.document)))] "subtypingConstraints" "subtyping_constraints") p =
        .ok (m.subtypings.map (·.document)) := fun p => rfl
  have hbindings : ∀ p, Document.items (Document.spelled? [("subtypingConstraints", .list (m.subtypings.map (·.document))),
      ("additionalConstraints", .list (m.bindings.map (·.document)))] "additionalConstraints" "additional_constraints") p =
        .ok (m.bindings.map (·.document)) := fun p => rfl
  have heachFact := each_eq_ok (forall₂_documents hcs fun c cm hc => yields_subtyping hc)
  have heachBinding := each_eq_ok (forall₂_documents hbs fun b bm hb => yields_binding hb)
  simp only [Document.constraintSet, SetMessage.document, Document.members, ok_bind, hfacts, hbindings, bind_eq_ok, heachFact,
    heachBinding, ConstraintSet.facts, List.forall_mem_append, List.forall_mem_map]
  constructor
  · rintro ⟨cs, ⟨hc, rfl⟩, bs, ⟨hb, rfl⟩, ht⟩
    cases ht
    exact ⟨⟨hc, hb⟩, rfl⟩
  · rintro ⟨⟨hc, hb⟩, rfl⟩
    exact ⟨_, ⟨hc, rfl⟩, _, ⟨hb, rfl⟩, rfl⟩

end TypeRecovery.Message
