/-
  TypeRecovery.Proofs.Message.Weight — messages take no more bytes to write than they took to read.

  Of a scalar that stands twice the last counts, a field that is passed over is not written, and
  a submessage in parts is written in one. The one thing that can take more bytes than were read
  is a negative pointer direction, which is read of five and written in ten; no document has
  one, so a pointer is weighed as the two bytes of a direction that it can have. The weight of
  the message of a constraint is then its length.

  A step of a kind `Grows` when it adds to the weight of a message no more than the bytes of the
  field it reads, merged submessages included. So an element of a set weighs no more than the
  field it was read of, and that field's bytes are as many as a length could say (`Received`).

  Proved:
  - `grows_field`, `grows_label`, `grows_variable`, `grows_subtyping`, `grows_target`,
    `grows_binding`: one for each kind of message below a set.
  - `readSet_received`: what a set that was read holds.
  - `weight_label`, `weight_variable`, `weight_subtyping`, `weight_binding`: the weight is the length.
-/

import TypeRecovery.Proofs.Message.Document
import TypeRecovery.Proofs.Message.Extent

namespace TypeRecovery.Message

variable {α β : Type}

/-! ## Weights -/

/-- The bytes of the fields that hold the elements of a list, one field each. -/
def framedSum (weight : β → Nat) : List β → Nat
  | [] => 0
  | x :: xs => framed (weight x) + framedSum weight xs

@[simp] theorem framedSum_nil (weight : β → Nat) : framedSum weight [] = 0 := rfl

@[simp] theorem framedSum_singleton (weight : β → Nat) (x : β) : framedSum weight [x] = framed (weight x) := rfl

theorem framedSum_append (weight : β → Nat) (xs ys : List β) :
    framedSum weight (xs ++ ys) = framedSum weight xs + framedSum weight ys := by
  induction xs with
  | nil => exact (Nat.zero_add _).symm
  | cons x xs ih =>
    simp only [List.cons_append, framedSum, ih]
    omega

theorem framedSum_congr {weight weight' : β → Nat} {xs : List β} (h : ∀ x ∈ xs, weight x = weight' x) :
    framedSum weight xs = framedSum weight' xs := by
  induction xs with
  | nil => rfl
  | cons x xs ih =>
    obtain ⟨hx, hxs⟩ := List.forall_mem_cons.mp h
    rw [framedSum, framedSum, hx, ih hxs]

theorem length_encodeFields_nested {number : Nat} (hnumber : number < 16) (fields : β → List WireField) (xs : List β) :
    (encodeFields (xs.map fun x => nested number (fields x))).length = framedSum (fun x => (encodeFields (fields x)).length) xs := by
  induction xs with
  | nil => rfl
  | cons x xs ih =>
    rw [List.map_cons, length_encodeFields_cons, ih, framedSum]
    exact congrArg (· + _) (length_encode_bytes hnumber rfl)

def FieldMessage.weight (m : FieldMessage) : Nat := (encodeFields m.fields).length

/-- A pointer has the bytes of a direction. -/
def labelWeight : LabelMessage → Nat
  | some (.pointer _) => 2
  | some (.input n) => 1 + (varint n).length
  | some (.output n) => 1 + (varint n).length
  | some (.field f) => framed f.weight
  | none => 0

def VariableMessage.weight (m : VariableMessage) : Nat :=
  (if m.base.isEmpty then 0 else framed (Text.toBytes m.base).length) + framedSum labelWeight m.labels

def SubtypingMessage.weight (m : SubtypingMessage) : Nat :=
  framedSum VariableMessage.weight m.lhs.toList + framedSum VariableMessage.weight m.rhs.toList

def targetWeight (t : TargetMessage) : Nat := (encodeFields (targetFields t)).length

def BindingMessage.weight (m : BindingMessage) : Nat :=
  framedSum SubtypingMessage.weight m.fact.toList + framedSum targetWeight m.target.toList

/-! ## What was read -/

/-- A step adds to a message no more than the bytes of the field it reads. -/
def Grows (step : Nat → α → WireField → Option α) (weight : α → Nat) : Prop :=
  ∀ depth m f m', step depth m f = some m' → weight m' ≤ weight m + f.encode.length

namespace Grows

variable {step : Nat → α → WireField → Option α} {weight : α → Nat} {depth : Nat} {m m' : α} {bs : Bytes}

theorem mergeInto (hg : Grows step weight) (h : mergeInto step depth m bs = some m') : weight m' ≤ weight m + bs.length := by
  obtain ⟨fs, hfs, hfold⟩ := Option.bind_eq_some_iff.mp h
  have hfold : weight m' ≤ weight m + (encodeFields fs).length := by
    clear hfs h
    induction fs generalizing m with
    | nil =>
      cases hfold
      exact Nat.le_add_right _ _
    | cons f fs ih =>
      obtain ⟨m₁, hstep, hrest⟩ := Option.bind_eq_some_iff.mp hfold
      have := hg depth m f m₁ hstep
      have := ih hrest
      rw [length_encodeFields_cons]
      omega
  have := (fields?_length hfs).1
  omega

theorem within (hg : Grows step weight) (h : within step depth m bs = some m') : weight m' ≤ weight m + bs.length := by
  cases depth with
  | zero => cases h
  | succ inner => exact hg.mergeInto h

/-- A submessage that is merged into an earlier one, or stands alone. -/
theorem merge (hg : Grows step weight) {empty : α} (hempty : weight empty = 0) {o : Option α}
    (h : Message.within step depth (o.getD empty) bs = some m') : framed (weight m') ≤ framedSum weight o.toList + framed bs.length := by
  have hle := hg.within h
  cases o with
  | none =>
    rw [Option.getD_none, hempty, Nat.zero_add] at hle
    exact Nat.le_trans (framed_mono hle) (Nat.le_add_left _ _)
  | some m =>
    have hsum := framed_add (weight m) bs.length
    have := framed_mono hle
    rw [Option.getD_some] at this
    show framed (weight m') ≤ framed (weight m) + 0 + framed bs.length
    omega

end Grows

theorem length_encodeFields_scalar {number : Nat} (hnumber : number < 16) (n : Nat) :
    (encodeFields (scalar number n)).length = if n = 0 then 0 else 1 + (varint n).length := by
  unfold scalar
  split
  · rfl
  · rw [length_encodeFields_cons, length_encode_varint hnumber rfl]
    rfl

theorem FieldMessage.weight_eq (m : FieldMessage) : m.weight =
    (if m.bitSize = 0 then 0 else 1 + (varint m.bitSize).length) +
      if m.byteOffset = 0 then 0 else 1 + (varint m.byteOffset).length := by
  rw [weight, fields, length_encodeFields_append, length_encodeFields_scalar (by decide), length_encodeFields_scalar (by decide)]

theorem varint_length_low32 (n : Nat) : (varint (low32 n)).length ≤ (varint n).length := varint_length_mono (Nat.mod_le n _)

theorem grows_field : Grows stepField FieldMessage.weight := by
  have hscalar : ∀ n, (if low32 n = 0 then 0 else 1 + (varint (low32 n)).length) ≤ 1 + (varint n).length := by
    intro n
    have := varint_length_low32 n
    split <;> omega
  intro depth m f m' h
  rw [FieldMessage.weight_eq, FieldMessage.weight_eq]
  unfold stepField at h
  split at h
  · rename_i n hnumber hpayload
    cases h
    have := hscalar n
    rw [length_encode_varint (by omega) hpayload]
    dsimp only
    omega
  · rename_i n hnumber hpayload
    cases h
    have := hscalar n
    rw [length_encode_varint (by omega) hpayload]
    dsimp only
    omega
  · cases h
    exact Nat.le_add_right _ _

theorem grows_label : Grows stepLabel labelWeight := by
  intro depth m f m' h
  unfold stepLabel at h
  split at h
  · rename_i n hnumber hpayload
    cases h
    have := varint_length_pos n
    rw [length_encode_varint (by omega) hpayload]
    show 2 ≤ _
    omega
  · rename_i n hnumber hpayload
    cases h
    have := varint_length_low32 n
    rw [length_encode_varint (by omega) hpayload]
    show 1 + (varint (low32 n)).length ≤ _
    omega
  · rename_i n hnumber hpayload
    cases h
    have := varint_length_low32 n
    rw [length_encode_varint (by omega) hpayload]
    show 1 + (varint (low32 n)).length ≤ _
    omega
  · rename_i bs hnumber hpayload
    obtain ⟨g, hg, rfl⟩ := Option.map_eq_some_iff.mp h
    rw [length_encode_bytes (by omega) hpayload]
    show framed g.weight ≤ labelWeight m + framed bs.length
    have hmerge : ∀ earlier : Option FieldMessage, within stepField depth (earlier.getD .empty) bs = some g →
        framed g.weight ≤ framedSum FieldMessage.weight earlier.toList + framed bs.length := fun _ => grows_field.merge rfl
    -- Only a field that was the arm already is merged into; another arm is dropped.
    have hdropped : within stepField depth .empty bs = some g → framed g.weight ≤ labelWeight m + framed bs.length := by
      intro hg
      have := hmerge none hg
      rw [Option.toList_none, framedSum_nil] at this
      omega
    rcases m with _ | _ | _ | _ | earlier
    · exact hdropped hg
    · exact hdropped hg
    · exact hdropped hg
    · exact hdropped hg
    · exact hmerge (some earlier) hg
  · cases h
    exact Nat.le_add_right _ _

theorem grows_variable : Grows stepVariable VariableMessage.weight := by
  intro depth m f m' h
  unfold stepVariable at h
  split at h
  · rename_i bs hnumber hpayload
    obtain ⟨s, hs, rfl⟩ := Option.map_eq_some_iff.mp h
    have hbase : (if s.isEmpty then 0 else framed (Text.toBytes s).length) ≤ framed bs.length := by
      rw [Text.toBytes_of_ofBytes? hs]
      split <;> omega
    rw [length_encode_bytes (by omega) hpayload]
    simp only [VariableMessage.weight]
    omega
  · rename_i bs hnumber hpayload
    obtain ⟨l, hl, rfl⟩ := Option.map_eq_some_iff.mp h
    have hlabel := grows_label.merge rfl (o := none) hl
    rw [length_encode_bytes (by omega) hpayload]
    simp only [VariableMessage.weight, framedSum_append, framedSum_singleton, Option.toList_none, framedSum_nil] at hlabel ⊢
    omega
  · cases h
    exact Nat.le_add_right _ _

theorem grows_subtyping : Grows stepSubtyping SubtypingMessage.weight := by
  intro depth m f m' h
  unfold stepSubtyping at h
  split at h
  · rename_i bs hnumber hpayload
    obtain ⟨v, hv, rfl⟩ := Option.map_eq_some_iff.mp h
    have := grows_variable.merge rfl hv
    rw [length_encode_bytes (by omega) hpayload]
    simp only [SubtypingMessage.weight, Option.toList_some, framedSum_singleton]
    omega
  · rename_i bs hnumber hpayload
    obtain ⟨v, hv, rfl⟩ := Option.map_eq_some_iff.mp h
    have := grows_variable.merge rfl hv
    rw [length_encode_bytes (by omega) hpayload]
    simp only [SubtypingMessage.weight, Option.toList_some, framedSum_singleton]
    omega
  · cases h
    exact Nat.le_add_right _ _

/-- Sign extension and narrowing leave the low 64 bits alone. -/
theorem unsigned64_signed (n : Nat) : unsigned64 (signed 64 n) = n % 0x10000000000000000 := by
  have h : Int.bmod n (Nat.pow 2 64) % (Nat.pow 2 64 : Nat) = n % (Nat.pow 2 64 : Nat) := Int.bmod_emod
  show (Int.bmod n (Nat.pow 2 64) % (Nat.pow 2 64 : Nat)).toNat = n % Nat.pow 2 64
  rw [h]
  rfl

theorem grows_target : Grows stepTarget targetWeight := by
  intro depth m f m' h
  unfold stepTarget at h
  split at h
  · rename_i bs hnumber hpayload
    obtain ⟨s, hs, rfl⟩ := Option.map_eq_some_iff.mp h
    rw [length_encode_bytes (by omega) hpayload, targetWeight, targetFields, length_encodeFields_cons,
      length_encode_bytes (show 1 < 16 by decide) rfl, Text.toBytes_of_ofBytes? hs]
    exact Nat.le_add_left _ _
  · rename_i n hnumber hpayload
    cases h
    have := varint_length_mono (Nat.mod_le n 0x10000000000000000)
    rw [length_encode_varint (by omega) hpayload, targetWeight, targetFields, length_encodeFields_cons,
      length_encode_varint (show 2 < 16 by decide) rfl, unsigned64_signed]
    show 1 + _ + 0 ≤ _
    omega
  · cases h
    exact Nat.le_add_right _ _

theorem grows_binding : Grows stepBinding BindingMessage.weight := by
  intro depth m f m' h
  unfold stepBinding at h
  split at h
  · rename_i bs hnumber hpayload
    obtain ⟨s, hs, rfl⟩ := Option.map_eq_some_iff.mp h
    have := grows_subtyping.merge rfl hs
    rw [length_encode_bytes (by omega) hpayload]
    simp only [BindingMessage.weight, Option.toList_some, framedSum_singleton]
    omega
  · rename_i bs hnumber hpayload
    obtain ⟨t, ht, rfl⟩ := Option.map_eq_some_iff.mp h
    have := grows_target.merge rfl ht
    rw [length_encode_bytes (by omega) hpayload]
    simp only [BindingMessage.weight, Option.toList_some, framedSum_singleton]
    omega
  · cases h
    exact Nat.le_add_right _ _

/-! ## Sets -/

/-- What holds of a message before it is read into and is kept by every step holds afterwards. -/
theorem mergeInto_keeps {P : α → Prop} {step : Nat → α → WireField → Option α}
    (hstep : ∀ {depth m f m'}, f.Short → step depth m f = some m' → P m → P m') {depth : Nat} {m m' : α} {bs : Bytes}
    (h : mergeInto step depth m bs = some m') (hm : P m) : P m' := by
  obtain ⟨fs, hfs, hfold⟩ := Option.bind_eq_some_iff.mp h
  have hshort := (fields?_length hfs).2
  clear hfs h
  induction fs generalizing m with
  | nil =>
    cases hfold
    exact hm
  | cons f fs ih =>
    obtain ⟨m₁, hfirst, hrest⟩ := Option.bind_eq_some_iff.mp hfold
    obtain ⟨hf, hfs⟩ := List.forall_mem_cons.mp hshort
    exact ih (hstep hf hfirst hm) hrest hfs

theorem within_keeps {P : α → Prop} {step : Nat → α → WireField → Option α}
    (hstep : ∀ {depth m f m'}, f.Short → step depth m f = some m' → P m → P m') {depth : Nat} {m m' : α} {bs : Bytes}
    (h : within step depth m bs = some m') (hm : P m) : P m' := by
  cases depth with
  | zero => cases h
  | succ inner => exact mergeInto_keeps hstep h hm

def targetInRange (t : TargetMessage) : Prop := ∀ arm ∈ t, arm.InRange

theorem stepTarget_inRange {depth : Nat} {t t' : TargetMessage} {f : WireField} (h : stepTarget depth t f = some t')
    (ht : targetInRange t) : targetInRange t' := by
  unfold stepTarget at h
  split at h
  · obtain ⟨s, -, rfl⟩ := Option.map_eq_some_iff.mp h
    rintro _ ⟨⟩
    trivial
  · rename_i n _ _
    cases h
    rintro _ ⟨⟩
    have hlow : -(Nat.pow 2 64 / 2 : Int) ≤ Int.bmod n (Nat.pow 2 64) := Int.le_bmod (by decide)
    have hhigh : Int.bmod n (Nat.pow 2 64) < ((Nat.pow 2 64 : Nat) + 1) / 2 := Int.bmod_lt (by decide)
    have hpow : Nat.pow 2 64 = 0x10000000000000000 := rfl
    rw [hpow] at hlow hhigh
    show _ ≤ Int.bmod n (Nat.pow 2 64) ∧ Int.bmod n (Nat.pow 2 64) < _
    rw [hpow]
    omega
  · cases h
    exact ht

theorem stepBinding_inRange {depth : Nat} {b b' : BindingMessage} {f : WireField} (h : stepBinding depth b f = some b')
    (hb : ∀ t ∈ b.target, targetInRange t) : ∀ t ∈ b'.target, targetInRange t := by
  unfold stepBinding at h
  split at h
  · obtain ⟨s, -, rfl⟩ := Option.map_eq_some_iff.mp h
    exact hb
  · obtain ⟨t, ht, rfl⟩ := Option.map_eq_some_iff.mp h
    rintro _ ⟨⟩
    refine within_keeps (fun _ => stepTarget_inRange) ht ?_
    cases hearlier : b.target with
    | none => exact fun _ h => nomatch h
    | some earlier => exact hb earlier hearlier
  · cases h
    exact hb

/-- Each element of a set was read of a field whose bytes a length could say. -/
structure Received (m : SetMessage) : Prop where
  subtypings : ∀ s ∈ m.subtypings, s.weight < lengthLimit
  bindings : ∀ b ∈ m.bindings, b.weight < lengthLimit
  targets : ∀ b ∈ m.bindings, ∀ t ∈ b.target, targetInRange t

theorem stepSet_received {depth : Nat} {m m' : SetMessage} {f : WireField} (hf : f.Short) (h : stepSet depth m f = some m')
    (hm : Received m) : Received m' := by
  unfold stepSet at h
  split at h
  · rename_i bs _ hpayload
    obtain ⟨s, hs, rfl⟩ := Option.map_eq_some_iff.mp h
    have hweight : s.weight ≤ 0 + bs.length := grows_subtyping.within hs
    have := hf bs hpayload
    refine ⟨List.forall_mem_append.mpr ⟨hm.subtypings, List.forall_mem_singleton.mpr ?_⟩, hm.bindings, hm.targets⟩
    omega
  · rename_i bs _ hpayload
    obtain ⟨b, hb, rfl⟩ := Option.map_eq_some_iff.mp h
    have hweight : b.weight ≤ 0 + bs.length := grows_binding.within hb
    have := hf bs hpayload
    have hrange : ∀ t ∈ b.target, targetInRange t := within_keeps (fun _ => stepBinding_inRange) hb fun _ h => nomatch h
    refine ⟨hm.subtypings, List.forall_mem_append.mpr ⟨hm.bindings, List.forall_mem_singleton.mpr ?_⟩,
      List.forall_mem_append.mpr ⟨hm.targets, List.forall_mem_singleton.mpr hrange⟩⟩
    omega
  · cases h
    exact hm

theorem readSet_received {bs : Bytes} {m : SetMessage} (h : readSet bs = some m) : Received m :=
  mergeInto_keeps stepSet_received h ⟨fun _ h => (nomatch h), fun _ h => (nomatch h), fun _ h => (nomatch h)⟩

/-! ## Messages of constraints -/

theorem weight_label {l : Label} {m : LabelMessage} (h : ofLabel l = some m) :
    labelWeight m = (encodeFields (labelFields m)).length := by
  have hone : ∀ (number n : Nat), number < 16 → (encodeFields [⟨number, .varint n⟩]).length = 1 + (varint n).length := by
    intro number n hnumber
    rw [length_encodeFields_cons, length_encode_varint hnumber rfl]
    rfl
  cases l with
  | load =>
    cases h
    have hbytes := hone 1 (unsigned64 0) (by decide)
    rw [varint_length_of_lt (show unsigned64 0 < 128 by rw [unsigned64]; omega)] at hbytes
    exact hbytes.symm
  | store =>
    cases h
    have hbytes := hone 1 (unsigned64 1) (by decide)
    rw [varint_length_of_lt (show unsigned64 1 < 128 by rw [unsigned64]; omega)] at hbytes
    exact hbytes.symm
  | input i =>
    rw [ofLabel, Option.map_eq_some_iff] at h
    obtain ⟨n, -, rfl⟩ := h
    exact (hone 2 n (by decide)).symm
  | output i =>
    rw [ofLabel, Option.map_eq_some_iff] at h
    obtain ⟨n, -, rfl⟩ := h
    exact (hone 3 n (by decide)).symm
  | field f =>
    rw [ofLabel, Option.map_eq_some_iff] at h
    obtain ⟨g, -, rfl⟩ := h
    rw [labelFields, LabelArm.fields, length_encodeFields_cons, nested, length_encode_bytes (show 4 < 16 by decide) rfl]
    rfl

theorem weight_variable {v : TypeVar} {m : VariableMessage} (h : ofTypeVar v = some m) :
    m.weight = (encodeFields m.fields).length := by
  obtain ⟨-, hlabels⟩ := ofTypeVar_eq_some.mp h
  have hsum : framedSum labelWeight m.labels = framedSum (fun l => (encodeFields (labelFields l)).length) m.labels := by
    refine framedSum_congr fun l hl => ?_
    obtain ⟨_, hmade⟩ := exists_of_mem_forall₂ hlabels hl
    exact weight_label hmade
  have hbase : (encodeFields (if m.base.isEmpty then [] else [⟨1, .bytes (Text.toBytes m.base)⟩])).length =
      if m.base.isEmpty then 0 else framed (Text.toBytes m.base).length := by
    split
    · rfl
    · rw [length_encodeFields_cons, length_encode_bytes (show 1 < 16 by decide) rfl]
      rfl
  rw [VariableMessage.weight, VariableMessage.fields, length_encodeFields_append, length_encodeFields_nested (by decide), hsum, hbase]

theorem weight_subtyping {c : Subtyping} {m : SubtypingMessage} (h : ofSubtyping c = some m) :
    m.weight = (encodeFields m.fields).length := by
  obtain ⟨lhs, rhs, hlhs, hrhs, rfl⟩ := ofSubtyping_eq_some.mp h
  rw [SubtypingMessage.fields_eq, length_encodeFields_append, length_encodeFields_nested (by decide),
    length_encodeFields_nested (by decide)]
  simp only [SubtypingMessage.weight, Option.toList_some, framedSum_singleton, weight_variable hlhs, weight_variable hrhs]

theorem weight_binding {b : Binding} {m : BindingMessage} (h : ofBinding b = some m) :
    m.weight = (encodeFields m.fields).length := by
  obtain ⟨fact, target, hfact, -, rfl⟩ := ofBinding_eq_some.mp h
  rw [BindingMessage.fields_eq, length_encodeFields_append, length_encodeFields_nested (by decide),
    length_encodeFields_nested (by decide)]
  simp only [BindingMessage.weight, Option.toList_some, framedSum_singleton, weight_subtyping hfact, targetWeight]

end TypeRecovery.Message
