/-
  TypeRecovery.Proofs.Message.RoundTrip — constraint sets sent and received.

  A set has no message when an index, a size or an offset is no unsigned number of 32 bits, or
  the number of a target no signed number of 64 bits (`Unsendable`). Any other set is sent, and
  what was sent is received as the same set, the zeros and empty names that no field says
  included, if all its bases have names. If one has none, nothing is received.

  A reader takes lengths of at most five bytes, so only a message below `lengthLimit` is sure to
  be received; the format allows none above it. Whatever its length, a message is never
  received as another set.

  Proved:
  - `encode_fails_iff`: which sets have no message.
  - `decode_sound`, `decode_short`, `decode_complete`: what is received of the message of a set.
  - `decode_encode`: all of it together.
-/

import TypeRecovery.Proofs.ConstraintSet
import TypeRecovery.Proofs.Message.Document

namespace TypeRecovery

namespace Message

/-! ## What cannot be sent -/

/-- The numbers of a label: an index, or a size and an offset. -/
def numbersOf : Label → List Int
  | .load => []
  | .store => []
  | .input i => [i]
  | .output i => [i]
  | .field f => [f.bits, f.offset]

def Unsendable (s : ConstraintSet) : Prop :=
  (∃ v ∈ s.typeVars, ∃ l ∈ v.path, ∃ n ∈ numbersOf l, n < 0 ∨ 0x100000000 ≤ n) ∨
    ∃ n, .number n ∈ s.targets ∧ (n < -0x8000000000000000 ∨ 0x8000000000000000 ≤ n)

/-! ## What each message asks -/

def LabelSendable (l : Label) : Prop := ∀ n ∈ numbersOf l, 0 ≤ n ∧ n < 0x100000000

def TypeVarSendable (v : TypeVar) : Prop := ∀ l ∈ v.path, LabelSendable l

def FactSendable (c : Subtyping) : Prop := TypeVarSendable c.sub ∧ TypeVarSendable c.sup

def TargetSendable (t : Target) : Prop := ∀ n, t = .number n → -0x8000000000000000 ≤ n ∧ n < 0x8000000000000000

theorem exists_map_eq_some {α β : Type} {o : Option α} {f : α → β} : (∃ b, o.map f = some b) ↔ ∃ a, o = some a := by
  cases o <;> simp

theorem makes_unsigned {n : Int} : (∃ k, unsigned32? n = some k) ↔ 0 ≤ n ∧ n < 0x100000000 := by
  simp only [unsigned32?_eq_some]
  constructor
  · rintro ⟨k, rfl, hk⟩
    omega
  · intro h
    exact ⟨n.toNat, by omega, by omega⟩

theorem labelSendable_field {f : Field} :
    LabelSendable (.field f) ↔ (0 ≤ f.bits ∧ f.bits < 0x100000000) ∧ 0 ≤ f.offset ∧ f.offset < 0x100000000 := by
  simp [LabelSendable, numbersOf]

theorem makes_field {f : Field} : (∃ m, ofField f = some m) ↔ LabelSendable (.field f) := by
  simp only [labelSendable_field, ← makes_unsigned, ofField, Option.bind_eq_bind, Option.bind_eq_some_iff, Option.pure_def,
    Option.some.injEq]
  constructor
  · rintro ⟨_, bits, hbits, offset, hoffset, -⟩
    exact ⟨⟨bits, hbits⟩, offset, hoffset⟩
  · rintro ⟨⟨bits, hbits⟩, offset, hoffset⟩
    exact ⟨_, bits, hbits, offset, hoffset, rfl⟩

theorem makes_label {l : Label} : (∃ m, ofLabel l = some m) ↔ LabelSendable l := by
  cases l with
  | load => exact ⟨fun _ n hn => (nomatch hn), fun _ => ⟨_, rfl⟩⟩
  | store => exact ⟨fun _ n hn => (nomatch hn), fun _ => ⟨_, rfl⟩⟩
  | input i =>
    simp only [ofLabel, exists_map_eq_some, makes_unsigned, LabelSendable, numbersOf, List.forall_mem_singleton]
  | output i =>
    simp only [ofLabel, exists_map_eq_some, makes_unsigned, LabelSendable, numbersOf, List.forall_mem_singleton]
  | field f => simp only [ofLabel, exists_map_eq_some, makes_field]

theorem makes_typeVar {v : TypeVar} : (∃ m, ofTypeVar v = some m) ↔ TypeVarSendable v := by
  simp only [ofTypeVar, exists_map_eq_some, mapM_eq_some, exists_forall₂, makes_label, TypeVarSendable]

theorem makes_subtyping {c : Subtyping} : (∃ m, ofSubtyping c = some m) ↔ FactSendable c := by
  simp only [ofSubtyping_eq_some, FactSendable, ← makes_typeVar]
  constructor
  · rintro ⟨_, lhs, rhs, hlhs, hrhs, -⟩
    exact ⟨⟨lhs, hlhs⟩, rhs, hrhs⟩
  · rintro ⟨⟨lhs, hlhs⟩, rhs, hrhs⟩
    exact ⟨_, lhs, rhs, hlhs, hrhs, rfl⟩

theorem makes_target {t : Target} : (∃ m, ofTarget t = some m) ↔ TargetSendable t := by
  cases t with
  | name s => exact ⟨fun _ _ h => (nomatch h), fun _ => ⟨_, rfl⟩⟩
  | number n =>
    simp only [ofTarget, exists_map_eq_some, signed64?_eq_some, TargetSendable, Target.number.injEq]
    constructor
    · rintro ⟨k, -, h⟩ _ rfl
      exact h
    · exact fun h => ⟨n, rfl, h n rfl⟩

theorem makes_binding {b : Binding} : (∃ m, ofBinding b = some m) ↔ FactSendable b.fact ∧ TargetSendable b.target := by
  simp only [ofBinding_eq_some, ← makes_subtyping, ← makes_target]
  constructor
  · rintro ⟨_, fact, target, hfact, htarget, -⟩
    exact ⟨⟨fact, hfact⟩, target, htarget⟩
  · rintro ⟨⟨fact, hfact⟩, target, htarget⟩
    exact ⟨_, fact, target, hfact, htarget, rfl⟩

theorem not_unsendable_iff {s : ConstraintSet} :
    ¬Unsendable s ↔ (∀ c ∈ s.facts, FactSendable c) ∧ ∀ b ∈ s.bindings, TargetSendable b.target := by
  have hlabels : (¬∃ v ∈ s.typeVars, ∃ l ∈ v.path, ∃ n ∈ numbersOf l, n < 0 ∨ 0x100000000 ≤ n) ↔ ∀ c ∈ s.facts, FactSendable c := by
    simp only [not_exists, not_and, not_or, Int.not_lt, Int.not_le]
    exact ConstraintSet.forall_typeVars (P := TypeVarSendable)
  have htargets : (¬∃ n, .number n ∈ s.targets ∧ (n < -0x8000000000000000 ∨ 0x8000000000000000 ≤ n)) ↔ ∀ b ∈ s.bindings, TargetSendable b.target := by
    rw [← ConstraintSet.forall_targets]
    simp only [not_exists, not_and, not_or, Int.not_lt, Int.not_le, TargetSendable]
    exact ⟨fun h t ht n he => h n (he ▸ ht), fun h n hn => h _ hn n rfl⟩
  rw [Unsendable, not_or, hlabels, htargets]

theorem makes_set {s : ConstraintSet} : (∃ m, ofConstraintSet s = some m) ↔ ¬Unsendable s := by
  rw [not_unsendable_iff, ConstraintSet.forall_facts]
  have hsets : (∃ m, ofConstraintSet s = some m) ↔
      (∃ cs, List.Forall₂ (fun c cm => ofSubtyping c = some cm) s.subtypings cs) ∧
        ∃ bs, List.Forall₂ (fun b bm => ofBinding b = some bm) s.bindings bs := by
    simp only [ofConstraintSet_eq_some]
    exact ⟨fun ⟨m, hcs, hbs⟩ => ⟨⟨_, hcs⟩, _, hbs⟩, fun ⟨⟨cs, hcs⟩, bs, hbs⟩ => ⟨⟨cs, bs⟩, hcs, hbs⟩⟩
  rw [hsets]
  simp only [exists_forall₂, makes_subtyping, makes_binding]
  exact ⟨fun ⟨hc, hb⟩ => ⟨⟨hc, fun b h => (hb b h).1⟩, fun b h => (hb b h).2⟩,
    fun ⟨⟨hc, hf⟩, ht⟩ => ⟨hc, fun b h => ⟨hf b h, ht b h⟩⟩⟩

/-! ## Sending and receiving -/

theorem encode_eq_ok {s : ConstraintSet} {bs : Bytes} :
    encode s = .ok bs ↔ ∃ m, ofConstraintSet s = some m ∧ bs = encodeFields m.fields := by
  cases hm : ofConstraintSet s with
  | none => simp [encode, hm, Document.fail]
  | some m => simp [encode, hm, eq_comm]

theorem encode_fails_iff {s : ConstraintSet} : (∃ e, encode s = .error e) ↔ Unsendable s := by
  rw [← not_iff_not, ← makes_set]
  cases hm : ofConstraintSet s with
  | none => simp [encode, hm, Document.fail]
  | some m => simp [encode, hm]

/-- Nothing but the set is received of its message, and only if all its bases have names. -/
theorem decode_sound {s t : ConstraintSet} (hs : s.Distinct) {bs : Bytes} (h : encode s = .ok bs) (hd : decode bs = .ok t) :
    (∀ name ∈ s.bases, name ≠ "") ∧ t = s := by
  obtain ⟨m, hm, rfl⟩ := encode_eq_ok.mp h
  rw [decode] at hd
  cases hr : readSet (encodeFields m.fields) with
  | none => rw [hr] at hd; cases hd
  | some m' =>
    rw [hr, (readSet_encodeFields (inRange_set hm)).sound m' hr] at hd
    obtain ⟨hnamed, rfl⟩ := (constraintSet_document hm).mp hd
    exact ⟨ConstraintSet.forall_bases.mpr hnamed, ConstraintSet.ofLists_eq hs⟩

/-- The message of a set is received if a length can say each of its fields. -/
theorem decode_short {s : ConstraintSet} (hs : s.Distinct) {m : SetMessage} (hm : ofConstraintSet s = some m)
    (hshort : ∀ f ∈ m.fields, f.Short) (hnames : ∀ name ∈ s.bases, name ≠ "") : decode (encodeFields m.fields) = .ok s := by
  rw [decode, (readSet_encodeFields (inRange_set hm)).complete hshort]
  exact (constraintSet_document hm).mpr ⟨ConstraintSet.forall_bases.mp hnames, (ConstraintSet.ofLists_eq hs).symm⟩

theorem decode_complete {s : ConstraintSet} (hs : s.Distinct) {bs : Bytes} (h : encode s = .ok bs)
    (hlen : bs.length < lengthLimit) (hnames : ∀ name ∈ s.bases, name ≠ "") : decode bs = .ok s := by
  obtain ⟨m, hm, rfl⟩ := encode_eq_ok.mp h
  exact decode_short hs hm (short_of_length hlen) hnames

end Message

/-- Sending fails for exactly the sets with a number that no message holds. Of any other set a
message is received as that set if all its bases have names, and refused if one has none. Above
what the format allows a message it may be refused, but is received as no other set. -/
theorem decode_encode {s : ConstraintSet} (hs : s.Distinct) :
    ((∃ e, Message.encode s = .error e) ↔ Message.Unsendable s) ∧
    (¬Message.Unsendable s → ∃ bs, Message.encode s = .ok bs ∧
      ((∀ name ∈ s.bases, name ≠ "") →
        (bs.length < Message.lengthLimit → Message.decode bs = .ok s) ∧ ∀ t, Message.decode bs = .ok t → t = s) ∧
      ((∃ name ∈ s.bases, name = "") → ∃ e, Message.decode bs = .error e)) := by
  refine ⟨Message.encode_fails_iff, fun hsend => ?_⟩
  obtain ⟨m, hm⟩ := Message.makes_set.mpr hsend
  have hencode : Message.encode s = .ok (Message.encodeFields m.fields) := Message.encode_eq_ok.mpr ⟨m, hm, rfl⟩
  refine ⟨_, hencode, fun hnames => ⟨fun hlen => ?_, fun t ht => ?_⟩, fun ⟨name, hname, hempty⟩ => ?_⟩
  · exact Message.decode_complete hs hencode hlen hnames
  · exact (Message.decode_sound hs hencode ht).2
  · cases hd : Message.decode (Message.encodeFields m.fields) with
    | error e => exact ⟨e, rfl⟩
    | ok t => exact absurd hempty ((Message.decode_sound hs hencode hd).1 name hname)

/-- Zeros, empty names and the ends of every range. -/
def extremes : ConstraintSet where
  subtypings := [⟨⟨"x", [.load, .input 0, .field ⟨0, 0⟩]⟩,
    ⟨"σ", [.store, .output 4294967295, .field ⟨4294967295, 4294967295⟩]⟩⟩]
  bindings := [⟨.number 0, ⟨⟨"x", []⟩, ⟨"y", []⟩⟩⟩, ⟨.name "", ⟨⟨"x", []⟩, ⟨"y", []⟩⟩⟩,
    ⟨.number (-9223372036854775808), ⟨⟨"x", []⟩, ⟨"y", []⟩⟩⟩, ⟨.number 9223372036854775807, ⟨⟨"x", []⟩, ⟨"y", []⟩⟩⟩]

def nameless : ConstraintSet := ⟨[⟨⟨"x", []⟩, ⟨"", [.load]⟩⟩], []⟩

theorem extremes_decode_encode :
    (extremes.Distinct ∧ ¬Message.Unsendable extremes ∧ (∀ name ∈ extremes.bases, name ≠ "") ∧
      ∃ bs, Message.encode extremes = .ok bs ∧ bs.length < Message.lengthLimit ∧ Message.decode bs = .ok extremes) ∧
    nameless.Distinct ∧ ¬Message.Unsendable nameless ∧ (∃ name ∈ nameless.bases, name = "") ∧
      ∃ bs, Message.encode nameless = .ok bs ∧ ∃ e, Message.decode bs = .error e := by
  constructor
  · have hdistinct : extremes.Distinct := ⟨by decide, by decide⟩
    have hsend : ¬Message.Unsendable extremes := Message.makes_set.mp ⟨_, rfl⟩
    have hnames : ∀ name ∈ extremes.bases, name ≠ "" := by decide
    have hshort : ∃ bs, Message.encode extremes = .ok bs ∧ bs.length < Message.lengthLimit := ⟨_, rfl, by decide +kernel⟩
    obtain ⟨bs, hbs, hlen⟩ := hshort
    obtain ⟨bs', hbs', hdecode, -⟩ := (decode_encode hdistinct).2 hsend
    obtain rfl := Except.ok.inj (hbs.symm.trans hbs')
    exact ⟨hdistinct, hsend, hnames, bs, hbs, hlen, (hdecode hnames).1 hlen⟩
  · have hdistinct : nameless.Distinct := ⟨by decide, by decide⟩
    have hsend : ¬Message.Unsendable nameless := Message.makes_set.mp ⟨_, rfl⟩
    have hnames : ∃ name ∈ nameless.bases, name = "" := by decide
    obtain ⟨bs, hbs, -, hrefused⟩ := (decode_encode hdistinct).2 hsend
    exact ⟨hdistinct, hsend, hnames, bs, hbs, hrefused hnames⟩

end TypeRecovery
