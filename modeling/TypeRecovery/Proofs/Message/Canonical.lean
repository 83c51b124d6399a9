/-
  TypeRecovery.Proofs.Message.Canonical — whatever bytes a set was received of, it can be sent.

  Many bytes come to one set: with idle bytes in varints, with fields in another order or passed
  over, with submessages in parts. A set is received of a message only if the message says all
  that the set holds and nothing else: a label has one arm and that in range, a pointer is one of
  the two directions, both sides and the target are there. So the message that was read is the
  one that the received constraints make, before those that stand twice are dropped
  (`made_set`), and the set has a message, whose fields are among those.

  The message is received again however long it is. Each of its fields has a length because the
  field of the element it was read of had one, and takes no more bytes (`Received`).

  Proved:
  - `made_label`, `made_variable`, `made_subtyping`, `made_target`, `made_binding`: what is read of
    the document of a message makes the message.
  - `message_of_decode`: a set that was received has a message, with short fields.
  - `decode_canonical`: receiving comes to a set or a refusal, and to sets that can be sent.
-/

import TypeRecovery.Proofs.Document
import TypeRecovery.Proofs.Message.Stepwise
import TypeRecovery.Proofs.Message.Weight

namespace TypeRecovery

namespace Message

open Document (Decoded)

/-! ## Messages of what was read -/

theorem each_made {α β : Type} {made : α → Option β} {document : β → Json} {f : Json → String → Decoded α} {ms : List β}
    (h : ∀ m ∈ ms, ∀ {path a}, f (document m) path = .ok a → made a = some m) {path : String} {as : List α}
    (heach : Document.each f path (ms.map document) = .ok as) : List.Forall₂ (fun a m => made a = some m) as ms := by
  rw [Document.each, mapM_eq_ok, List.zipIdx_map, List.forall₂_map_left_iff] at heach
  have hmade : ∀ start, List.Forall₂ (fun e a => f (document e.1) (Document.itemPath path e.2) = .ok a) (ms.zipIdx start) as →
      List.Forall₂ (fun a m => made a = some m) as ms := by
    clear heach
    induction ms generalizing as with
    | nil =>
      rintro start ⟨⟩
      exact .nil
    | cons m ms ih =>
      rintro start hread
      rw [List.zipIdx_cons, List.forall₂_cons_left_iff] at hread
      obtain ⟨a, as, ha, has, rfl⟩ := hread
      exact .cons (h m List.mem_cons_self ha) (ih (fun m hm => h m (List.mem_cons_of_mem _ hm)) _ has)
  exact hmade 0 heach

theorem made_field {m : FieldMessage} {path : String} {f : Field} (h : Document.fieldOf m.document path = .ok f) :
    ofField f = some m := by
  rw [fieldOf_document] at h
  obtain ⟨bits, hbits, h⟩ := bind_eq_ok.mp h
  obtain ⟨offset, hoffset, h⟩ := bind_eq_ok.mp h
  obtain ⟨hbitsRange, hbits⟩ := unsigned_eq_ok.mp hbits
  obtain ⟨hoffsetRange, hoffset⟩ := unsigned_eq_ok.mp hoffset
  cases h
  refine ofField_eq_some.mpr ⟨hbits.symm, hoffset.symm, ?_, ?_⟩
  · omega
  · omega

theorem made_pointer {n : Int} {path : String} {l : Label} (h : Document.pointer (pointerDocument n) path = .ok l) :
    ofLabel l = some (some (.pointer n)) := by
  unfold pointerDocument at h
  split_ifs at h with h0 h1
  · cases h
    rw [h0]
    rfl
  · cases h
    rw [h1]
    rfl
  · obtain ⟨k, hk, h⟩ := bind_eq_ok.mp h
    have hn := (unsigned_eq_ok.mp hk).2
    rcases k with _ | _ | k
    · exact absurd hn.symm h0
    · exact absurd hn.symm h1
    · cases h

theorem made_index (make : Nat → Label) (arm : Nat → LabelArm)
    (hmake : ∀ n : Nat, ofLabel (make n) = (unsigned32? n).map fun n => some (arm n)) {n : Nat} {path : String} {l : Label}
    (h : (Document.unsigned (.whole n) path).map make = .ok l) : ofLabel l = some (some (arm n)) := by
  obtain ⟨k, hk, rfl⟩ := map_eq_ok.mp h
  obtain ⟨hrange, hk⟩ := unsigned_eq_ok.mp hk
  obtain rfl : k = n := Int.ofNat.inj hk
  rw [hmake, unsigned32?_eq_some.mpr ⟨rfl, by omega⟩]
  rfl

theorem made_label {m : LabelMessage} {path : String} {l : Label} (h : Document.label (labelDocument m) path = .ok l) :
    ofLabel l = some m := by
  cases m with
  | none => cases h
  | some arm =>
    cases arm with
    | pointer n =>
      rw [labelDocument, label_object "ptr" _ .pointer (by decide)] at h
      exact made_pointer h
    | input n =>
      rw [labelDocument, label_object "inParam" _ .input (by decide), Document.armOf] at h
      exact made_index .input .input (fun _ => rfl) h
    | output n =>
      rw [labelDocument, label_object "outParam" _ .output (by decide), Document.armOf] at h
      exact made_index .output .output (fun _ => rfl) h
    | field f =>
      rw [labelDocument, label_object "field" _ .field (by decide)] at h
      obtain ⟨g, hg, rfl⟩ := map_eq_ok.mp h
      rw [ofLabel, made_field hg]
      rfl

theorem made_variable {m : VariableMessage} {path : String} {v : TypeVar} (h : Document.typeVar m.document path = .ok v) :
    ofTypeVar v = some m := by
  rw [typeVar_document] at h
  obtain ⟨base, hbase, h⟩ := bind_eq_ok.mp h
  obtain ⟨steps, hsteps, h⟩ := bind_eq_ok.mp h
  cases h
  exact ofTypeVar_eq_some.mpr ⟨(baseName_eq_ok.mp hbase).2.symm, each_made (fun l _ => made_label) hsteps⟩

theorem made_subtyping {m : SubtypingMessage} {path : String} {c : Subtyping}
    (h : Document.subtyping m.document path = .ok c) : ofSubtyping c = some m := by
  obtain ⟨lhs, rhs⟩ := m
  rcases lhs with _ | v
  · rcases rhs with _ | w
    · cases h
    · cases h
  · rcases rhs with _ | w
    · cases h
    · obtain ⟨sub, hsub, h⟩ := bind_eq_ok.mp (show (Document.typeVar v.document _ >>= fun sub => Document.typeVar w.document _ >>=
        fun sup => pure (Subtyping.mk sub sup)) = .ok c from h)
      obtain ⟨sup, hsup, h⟩ := bind_eq_ok.mp h
      cases h
      exact ofSubtyping_eq_some.mpr ⟨v, w, made_variable hsub, made_variable hsup, rfl⟩

theorem made_target {m : TargetMessage} (hm : targetInRange m) {path : String} {t : Target}
    (h : Document.target (targetDocument m) path = .ok t) : ofTarget t = some m := by
  rcases m with _ | s | n
  · cases h
  · cases h
    rfl
  · cases h
    rw [ofTarget, signed64?_eq_some.mpr ⟨rfl, hm _ rfl⟩]
    rfl

theorem made_binding {m : BindingMessage} (hm : ∀ t ∈ m.target, targetInRange t) {path : String} {b : Binding}
    (h : Document.binding m.document path = .ok b) : ofBinding b = some m := by
  obtain ⟨fact, target⟩ := m
  rcases fact with _ | s
  · rcases target with _ | t
    · cases h
    · cases h
  · rcases target with _ | t
    · cases h
    · have hthere : Document.present (some (targetDocument t)) "targetVariable" path = .ok (targetDocument t) :=
        Stepwise.present_targetDocument t path
      obtain ⟨_, htarget, h⟩ := bind_eq_ok.mp (show (Document.present (some (targetDocument t)) "targetVariable" path >>= fun j =>
        Document.subtyping s.document _ >>= fun c => Document.target j _ >>= fun t => pure (Binding.mk t c)) = .ok b from h)
      obtain rfl := Except.ok.inj (hthere.symm.trans htarget)
      obtain ⟨c, hc, h⟩ := bind_eq_ok.mp h
      obtain ⟨t', ht, h⟩ := bind_eq_ok.mp h
      cases h
      exact ofBinding_eq_some.mpr ⟨s, t, made_subtyping hc, made_target (hm t rfl) ht, rfl⟩

theorem made_set {m : SetMessage} (hm : ∀ b ∈ m.bindings, ∀ t ∈ b.target, targetInRange t) {s : ConstraintSet}
    (h : Document.constraintSet m.document = .ok s) :
    ∃ subtypings bindings, ofConstraintSet ⟨subtypings, bindings⟩ = some m ∧ s = .ofLists subtypings bindings := by
  obtain ⟨subtypings, hsubtypings, h⟩ := bind_eq_ok.mp (show (Document.each Document.subtyping _ (m.subtypings.map (·.document)) >>=
    fun cs => Document.each Document.binding _ (m.bindings.map (·.document)) >>= fun bs => pure (ConstraintSet.ofLists cs bs)) =
      .ok s from h)
  obtain ⟨bindings, hbindings, h⟩ := bind_eq_ok.mp h
  cases h
  exact ⟨subtypings, bindings, ofConstraintSet_eq_some.mpr ⟨each_made (fun _ _ => made_subtyping) hsubtypings,
    each_made (fun b hb => made_binding (hm b hb)) hbindings⟩, rfl⟩

/-! ## Sending what was received -/

theorem decode_eq_ok {bs : Bytes} {s : ConstraintSet} :
    decode bs = .ok s ↔ ∃ m, readSet bs = some m ∧ Document.constraintSet m.document = .ok s := by
  unfold decode
  cases readSet bs with
  | none => exact ⟨fun h => (nomatch h), fun ⟨_, h, _⟩ => (nomatch h)⟩
  | some m => exact ⟨fun h => ⟨m, rfl, h⟩, fun ⟨_, he, h⟩ => Option.some.inj he ▸ h⟩

/-- The first occurrences of a list have messages among those of the list. -/
theorem made_firstOccurrences {α β : Type} [DecidableEq α] {made : α → Option β} {as : List α} {ms : List β}
    (h : List.Forall₂ (fun a m => made a = some m) as ms) :
    ∃ ms', List.Forall₂ (fun a m => made a = some m ∧ m ∈ ms) (firstOccurrences as) ms' := by
  refine exists_forall₂.mpr fun a ha => ?_
  obtain ⟨m, hm, hmade⟩ := exists_mem_of_forall₂ h (mem_firstOccurrences.mp ha)
  exact ⟨m, hmade, hm⟩

theorem nested_short {number : Nat} {fs : List WireField} (h : (encodeFields fs).length < lengthLimit) :
    (nested number fs).Short := by
  rintro _ ⟨⟩
  exact h

theorem message_of_decode {bs : Bytes} {s : ConstraintSet} (h : decode bs = .ok s) :
    ∃ m, ofConstraintSet s = some m ∧ ∀ f ∈ m.fields, f.Short := by
  obtain ⟨read, hread, hs⟩ := decode_eq_ok.mp h
  have hreceived := readSet_received hread
  obtain ⟨subtypings, bindings, hmade, rfl⟩ := made_set hreceived.targets hs
  obtain ⟨hsubtypings, hbindings⟩ := ofConstraintSet_eq_some.mp hmade
  obtain ⟨cms, hcms⟩ := made_firstOccurrences hsubtypings
  obtain ⟨bms, hbms⟩ := made_firstOccurrences hbindings
  rw [ConstraintSet.ofLists_eq_mk]
  refine ⟨⟨cms, bms⟩, ofConstraintSet_eq_some.mpr ⟨hcms.imp fun _ _ h => h.1, hbms.imp fun _ _ h => h.1⟩,
    List.forall_mem_append.mpr ⟨List.forall_mem_map.mpr fun cm hcm => nested_short ?_,
      List.forall_mem_map.mpr fun bm hbm => nested_short ?_⟩⟩
  · obtain ⟨c, hc, hmem⟩ := exists_of_mem_forall₂ hcms hcm
    rw [← weight_subtyping hc]
    exact hreceived.subtypings cm hmem
  · obtain ⟨b, hb, hmem⟩ := exists_of_mem_forall₂ hbms hbm
    rw [← weight_binding hb]
    exact hreceived.bindings bm hmem

/-- Whatever the bytes, receiving comes to a set or a refusal, and a step raises nothing else. A
set that was received has a message, of which the same set is received. -/
theorem decode_canonical (bs : Bytes) :
    ((∃ s, Stepwise.decode bs = .ok s ∧ decode bs = .ok s) ∨
      ∃ e, Stepwise.decode bs = .error (.refused e) ∧ decode bs = .error e) ∧
    ∀ s, decode bs = .ok s → ∃ bs', encode s = .ok bs' ∧ decode bs' = .ok s := by
  refine ⟨?_, fun s hs => ?_⟩
  · rw [Stepwise.decode_eq]
    cases decode bs with
    | ok s => exact Or.inl ⟨s, rfl, rfl⟩
    | error e => exact Or.inr ⟨e, rfl, rfl⟩
  · obtain ⟨m, hm, hshort⟩ := message_of_decode hs
    obtain ⟨_, -, hread⟩ := decode_eq_ok.mp hs
    obtain ⟨hdistinct, hreadable⟩ := Document.constraintSet_readable hread
    exact ⟨_, encode_eq_ok.mpr ⟨m, hm, rfl⟩, decode_short hdistinct hm hshort hreadable.1⟩

/-- A fact whose left side comes in two parts, with an index in one byte too many and a field that
no message has; and a binding whose target has a name before it has a number. -/
def untidy : Bytes :=
  [0x0a, 0x17, 0x0a, 0x03, 0x0a, 0x01, 0x78, 0x0a, 0x04, 0x12, 0x02, 0x08, 0x01, 0x12, 0x08, 0x0a, 0x01, 0x79, 0x12, 0x03, 0x10,
   0x83, 0x00, 0x48, 0x01, 0x12, 0x13, 0x0a, 0x0a, 0x0a, 0x03, 0x0a, 0x01, 0x78, 0x12, 0x03, 0x0a, 0x01, 0x79, 0x12, 0x05, 0x0a,
   0x01, 0x74, 0x10, 0x05]

/-- What is received of the untidy message. -/
def tidied : ConstraintSet :=
  ⟨[⟨⟨"x", [.store]⟩, ⟨"y", [.input 3]⟩⟩], [⟨.number 5, ⟨⟨"x", []⟩, ⟨"y", []⟩⟩⟩]⟩

theorem untidy_canonical : decode untidy = .ok tidied ∧
    ∃ bs, encode tidied = .ok bs ∧ bs.length < untidy.length ∧ decode bs = .ok tidied := by
  have hread : decode untidy = .ok tidied := by decide +kernel
  have hshorter : ∃ bs, encode tidied = .ok bs ∧ bs.length < untidy.length := ⟨_, rfl, by decide +kernel⟩
  obtain ⟨bs, hbs, hlen⟩ := hshorter
  obtain ⟨bs', hbs', hagain⟩ := (decode_canonical untidy).2 tidied hread
  obtain rfl := Except.ok.inj (hbs.symm.trans hbs')
  exact ⟨hread, bs, hbs, hlen, hagain⟩

end Message

end TypeRecovery
