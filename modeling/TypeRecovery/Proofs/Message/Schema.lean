/-
  TypeRecovery.Proofs.Message.Schema — messages read back from their fields.

  Fields carry a message (`Carries`) when they fit the wire and, read into an empty message by
  the steps of their kind, make that message, or none if one of them is too long. Every message whose numbers are in range is carried by its
  fields, from the innermost kind to the outermost: a scalar that was left out is the zero
  that the empty message has, an arm of a one-of is written even when it is zero, and a
  submessage is carried by fields of its own, fewer bytes than those of the message around it.
  The `height` of a kind is the number of levels below it.

  Proved:
  - `carries_field`, `carries_label`, `carries_variable`, `carries_subtyping`, `carries_target`,
    `carries_binding`, `carries_set`: one for each kind of message.
  - `readSet_encodeFields`: a set that was written is read back.
-/

import TypeRecovery.Message.Schema
import TypeRecovery.Proofs.Message.Wire
import TypeRecovery.Proofs.Text.Utf8

namespace TypeRecovery.Message

variable {α β : Type}

/-! ## Messages in range -/

def FieldMessage.InRange (m : FieldMessage) : Prop := m.bitSize < 0x100000000 ∧ m.byteOffset < 0x100000000

def LabelArm.InRange : LabelArm → Prop
  | .pointer n => -0x80000000 ≤ n ∧ n < 0x80000000
  | .input n => n < 0x100000000
  | .output n => n < 0x100000000
  | .field f => f.InRange

def VariableMessage.InRange (m : VariableMessage) : Prop := ∀ l ∈ m.labels, ∀ arm ∈ l, arm.InRange

def SubtypingMessage.InRange (m : SubtypingMessage) : Prop := (∀ v ∈ m.lhs, v.InRange) ∧ ∀ v ∈ m.rhs, v.InRange

def TargetArm.InRange : TargetArm → Prop
  | .name _ => True
  | .number n => -0x8000000000000000 ≤ n ∧ n < 0x8000000000000000

def BindingMessage.InRange (m : BindingMessage) : Prop :=
  (∀ s ∈ m.fact, s.InRange) ∧ ∀ t ∈ m.target, ∀ arm ∈ t, arm.InRange

def SetMessage.InRange (m : SetMessage) : Prop := (∀ s ∈ m.subtypings, s.InRange) ∧ ∀ b ∈ m.bindings, b.InRange

/-! ## Numbers -/

theorem low32_eq {n : Nat} (h : n < 0x100000000) : low32 n = n := Nat.mod_eq_of_lt h

theorem unsigned64_lt (n : Int) : unsigned64 n < 0x10000000000000000 := by
  rw [unsigned64]
  omega

/-- Narrowing the 64-bit unit of a number gives the number back where it is in range. -/
theorem signed_unsigned64 {bits : Nat} (hbits : bits ≤ 64) {n : Int} (hlow : -(Nat.pow 2 bits : Nat) ≤ n * 2)
    (hhigh : n * 2 < (Nat.pow 2 bits : Nat)) : signed bits (unsigned64 n) = n := by
  have hcast : (unsigned64 n : Int) = n % (Nat.pow 2 64 : Nat) := Int.toNat_of_nonneg (Int.emod_nonneg n (by decide))
  have hdvd : (Nat.pow 2 bits : Int) ∣ n % (Nat.pow 2 64 : Nat) - n := by
    have hpow : (Nat.pow 2 bits : Int) ∣ (Nat.pow 2 64 : Nat) := Int.natCast_dvd_natCast.mpr (Nat.pow_dvd_pow 2 hbits)
    exact Int.dvd_trans hpow (Int.dvd_emod_sub_self)
  have hbmod : Int.bmod (unsigned64 n) (Nat.pow 2 bits) = Int.bmod n (Nat.pow 2 bits) := by
    rw [hcast]
    exact Int.bmod_eq_bmod_iff_bmod_sub_eq_zero.mpr (Int.bmod_eq_zero_of_dvd hdvd)
  rw [signed, hbmod, Int.bmod_eq_of_le_mul_two hlow hhigh]

/-! ## Carrying -/

/-- The fields fit the wire and, read into `start`, make the message. -/
structure Carries (step : Nat → α → WireField → Option α) (height : Nat) (start : α) (fs : List WireField) (m : α) : Prop where
  fits : ∀ f ∈ fs, f.Fits
  reads : ∀ depth, Answers (∀ f ∈ fs, f.Short) (fs.foldlM (step (depth + height)) start) m

section Carries

variable {step : Nat → α → WireField → Option α} {height : Nat} {start m : α} {fs : List WireField}

theorem Carries.mergeInto (h : Carries step height start fs m) (depth : Nat) :
    Answers (∀ f ∈ fs, f.Short) (mergeInto step (depth + height) start (encodeFields fs)) m :=
  (fields?_encodeFields h.fits (depth + height)).bind (h.reads depth)

/-- A submessage is read where its field stands. -/
theorem Carries.within (h : Carries step height start fs m) {around : List WireField} {number : Nat}
    (hmem : nested number fs ∈ around) (depth : Nat) :
    Answers (∀ f ∈ around, f.Short) (within step (depth + height + 1) start (encodeFields fs)) m :=
  (h.mergeInto depth).mono fun p => short_of_length (p _ hmem _ rfl)

end Carries

theorem mem_nested (number : Nat) (fields : β → List WireField) {x : β} {xs : List β} (h : x ∈ xs) :
    nested number (fields x) ∈ xs.map fun x => nested number (fields x) := List.mem_map_of_mem h

theorem carries_nothing (step : Nat → α → WireField → Option α) (height : Nat) (start : α) :
    Carries step height start [] start where
  fits _ hf := nomatch hf
  reads _ := answers_of_eq rfl

theorem carries_one {step : Nat → α → WireField → Option α} {height : Nat} {start m : α} {f : WireField} (hf : f.Fits)
    (h : ∀ depth, Answers (∀ g ∈ [f], g.Short) (step (depth + height) start f) m) :
    Carries step height start [f] m where
  fits := List.forall_mem_singleton.mpr hf
  reads depth := (h depth).bind (answers_of_eq rfl)

section Fields

variable {step : α → WireField → Option α} {field : β → WireField}

variable {P : Prop}

theorem foldlM_append {first second : List WireField} {start middle last : α} (hfirst : Answers P (first.foldlM step start) middle)
    (hsecond : Answers P (second.foldlM step middle) last) : Answers P ((first ++ second).foldlM step start) last := by
  rw [List.foldlM_append]
  exact hfirst.bind hsecond

/-- A field that stands or not, and adds its element to a message that has none. -/
theorem foldlM_optional (put : Option β → α) (o : Option β)
    (h : ∀ x ∈ o, Answers P (step (put none) (field x)) (put (some x))) :
    Answers P ((o.toList.map field).foldlM step (put none)) (put o) := by
  cases o with
  | none => exact answers_of_eq rfl
  | some x => exact (h x rfl).bind (answers_of_eq rfl)

/-- Repeated fields, each of which adds its element at the end of those already read. -/
theorem foldlM_repeated (put : List β → α) (xs : List β)
    (h : ∀ x ∈ xs, ∀ ys, Answers P (step (put ys) (field x)) (put (ys ++ [x]))) (ys : List β) :
    Answers P ((xs.map field).foldlM step (put ys)) (put (ys ++ xs)) := by
  induction xs generalizing ys with
  | nil =>
    rw [List.append_nil]
    exact answers_of_eq rfl
  | cons x xs ih =>
    have hrest := ih (fun y hy => h y (List.mem_cons_of_mem _ hy)) (ys ++ [x])
    rw [List.append_assoc, List.singleton_append] at hrest
    exact (h x List.mem_cons_self ys).bind hrest

end Fields

/-! ## What fits the wire -/

section Fits

variable {number : Nat} (hpos : 0 < number) (hlt : number < 0x20000000)
include hpos hlt

theorem varint_fits {n : Nat} (hn : n < 0x10000000000000000) : (⟨number, .varint n⟩ : WireField).Fits := ⟨hpos, hlt, hn⟩

theorem bytes_fits (content : Bytes) : (⟨number, .bytes content⟩ : WireField).Fits := ⟨hpos, hlt, trivial⟩

theorem nested_fits (fields : β → List WireField) (xs : List β) :
    ∀ f ∈ xs.map (fun x => nested number (fields x)), f.Fits :=
  List.forall_mem_map.mpr fun _ _ => bytes_fits hpos hlt _

theorem scalar_fits {n : Nat} (hn : n < 0x100000000) : ∀ f ∈ scalar number n, f.Fits := by
  intro f hf
  rw [scalar] at hf
  split at hf
  · cases hf
  · rw [List.mem_singleton.mp hf]
    exact varint_fits hpos hlt (Nat.lt_trans hn (by decide))

end Fits

/-! ## Kinds of messages -/

theorem carries_field {m : FieldMessage} (h : m.InRange) : Carries stepField 0 .empty m.fields m where
  fits := List.forall_mem_append.mpr ⟨scalar_fits (by decide) (by decide) h.1, scalar_fits (by decide) (by decide) h.2⟩
  reads depth := by
    obtain ⟨bits, offset⟩ := m
    have hbits : (scalar 1 bits).foldlM (stepField (depth + 0)) .empty = some ⟨bits, 0⟩ := by
      by_cases hz : bits = 0
      · subst hz; rfl
      · simp [scalar, hz, stepField, low32_eq h.1, FieldMessage.empty]
    have hoffset : (scalar 2 offset).foldlM (stepField (depth + 0)) ⟨bits, 0⟩ = some ⟨bits, offset⟩ := by
      by_cases hz : offset = 0
      · subst hz; rfl
      · simp [scalar, hz, stepField, low32_eq h.2]
    exact foldlM_append (answers_of_eq hbits) (answers_of_eq hoffset)

theorem carries_label {l : LabelMessage} (h : ∀ arm ∈ l, arm.InRange) : Carries stepLabel 1 none (labelFields l) l := by
  cases l with
  | none => exact carries_nothing stepLabel 1 none
  | some arm =>
    have harm := h arm rfl
    cases arm with
    | pointer n =>
      refine carries_one (varint_fits (by decide) (by decide) (unsigned64_lt n)) fun depth => answers_of_eq ?_
      have hsigned : signed 32 (unsigned64 n) = n := by
        obtain ⟨hlow, hhigh⟩ := harm
        refine signed_unsigned64 (by decide) ?_ ?_
        · show -(4294967296 : Int) ≤ n * 2
          omega
        · show n * 2 < 4294967296
          omega
      simp only [stepLabel, hsigned]
    | input n =>
      refine carries_one (varint_fits (by decide) (by decide) (Nat.lt_trans harm (by decide))) fun depth => answers_of_eq ?_
      simp only [stepLabel, low32_eq harm]
    | output n =>
      refine carries_one (varint_fits (by decide) (by decide) (Nat.lt_trans harm (by decide))) fun depth => answers_of_eq ?_
      simp only [stepLabel, low32_eq harm]
    | field f =>
      refine carries_one (bytes_fits (by decide) (by decide) _) fun depth => ?_
      refine Answers.map ?_ fun g => some (LabelArm.field g)
      exact (carries_field harm).within List.mem_cons_self depth

theorem carries_variable {m : VariableMessage} (h : m.InRange) : Carries stepVariable 2 .empty m.fields m where
  fits := by
    refine List.forall_mem_append.mpr ⟨fun f hf => ?_, nested_fits (by decide) (by decide) _ _⟩
    split at hf
    · cases hf
    · rw [List.mem_singleton.mp hf]
      exact bytes_fits (by decide) (by decide) _
  reads depth := by
    obtain ⟨base, labels⟩ := m
    have hbase : (if base.isEmpty then [] else [⟨1, .bytes (Text.toBytes base)⟩] : List WireField).foldlM
        (stepVariable (depth + 2)) .empty = some ⟨base, []⟩ := by
      by_cases hz : base = ""
      · subst hz; rfl
      · have hne : ¬base.isEmpty = true := by simpa using hz
        rw [if_neg hne]
        simp only [List.foldlM_cons, stepVariable, Text.ofBytes?_toBytes]
        rfl
    refine foldlM_append (answers_of_eq hbase) (foldlM_repeated (VariableMessage.mk base) labels (fun l hl ys => ?_) [])
    refine Answers.map ?_ fun l => VariableMessage.mk base (ys ++ [l])
    exact (carries_label (h l hl)).within (List.mem_append_right _ (mem_nested 2 labelFields hl)) depth

theorem variableFields_eq (number : Nat) (o : Option VariableMessage) :
    variableFields number o = o.toList.map fun v => nested number v.fields := by cases o <;> rfl

theorem SubtypingMessage.fields_eq (m : SubtypingMessage) :
    m.fields = (m.lhs.toList.map fun v => nested 1 v.fields) ++ m.rhs.toList.map fun v => nested 2 v.fields := by
  rw [fields, variableFields_eq, variableFields_eq]

theorem carries_subtyping {m : SubtypingMessage} (h : m.InRange) : Carries stepSubtyping 3 .empty m.fields m := by
  obtain ⟨lhs, rhs⟩ := m
  rw [SubtypingMessage.fields_eq]
  refine ⟨List.forall_mem_append.mpr ⟨nested_fits (by decide) (by decide) _ _, nested_fits (by decide) (by decide) _ _⟩,
    fun depth => ?_⟩
  refine foldlM_append (foldlM_optional (SubtypingMessage.mk · none) lhs fun v hv => ?_)
    (foldlM_optional (SubtypingMessage.mk lhs) rhs fun v hv => ?_)
  · refine Answers.map ?_ fun v => SubtypingMessage.mk (some v) none
    exact (carries_variable (h.1 v hv)).within (List.mem_append_left _ (mem_nested 1 VariableMessage.fields (Option.mem_toList.mpr hv))) depth
  · refine Answers.map ?_ fun v => SubtypingMessage.mk lhs (some v)
    exact (carries_variable (h.2 v hv)).within (List.mem_append_right _ (mem_nested 2 VariableMessage.fields (Option.mem_toList.mpr hv))) depth

theorem carries_target {t : TargetMessage} (h : ∀ arm ∈ t, arm.InRange) : Carries stepTarget 0 none (targetFields t) t := by
  cases t with
  | none => exact carries_nothing stepTarget 0 none
  | some arm =>
    cases arm with
    | name s =>
      refine carries_one (bytes_fits (by decide) (by decide) _) fun depth => answers_of_eq ?_
      simp only [stepTarget, Text.ofBytes?_toBytes, Option.map_some]
    | number n =>
      refine carries_one (varint_fits (by decide) (by decide) (unsigned64_lt n)) fun depth => answers_of_eq ?_
      have hsigned : signed 64 (unsigned64 n) = n := by
        obtain ⟨hlow, hhigh⟩ := h _ rfl
        refine signed_unsigned64 (by decide) ?_ ?_
        · show -(18446744073709551616 : Int) ≤ n * 2
          omega
        · show n * 2 < 18446744073709551616
          omega
      simp only [stepTarget, hsigned]

theorem BindingMessage.fields_eq (m : BindingMessage) :
    m.fields = (m.fact.toList.map fun s => nested 1 s.fields) ++ m.target.toList.map fun t => nested 2 (targetFields t) := by
  obtain ⟨fact, target⟩ := m
  cases fact <;> cases target <;> rfl

theorem carries_binding {m : BindingMessage} (h : m.InRange) : Carries stepBinding 4 .empty m.fields m := by
  obtain ⟨fact, target⟩ := m
  rw [BindingMessage.fields_eq]
  refine ⟨List.forall_mem_append.mpr ⟨nested_fits (by decide) (by decide) _ _, nested_fits (by decide) (by decide) _ _⟩,
    fun depth => ?_⟩
  refine foldlM_append (foldlM_optional (BindingMessage.mk · none) fact fun s hs => ?_)
    (foldlM_optional (BindingMessage.mk fact) target fun t ht => ?_)
  · refine Answers.map ?_ fun s => BindingMessage.mk (some s) none
    exact (carries_subtyping (h.1 s hs)).within (List.mem_append_left _ (mem_nested 1 SubtypingMessage.fields (Option.mem_toList.mpr hs))) depth
  · refine Answers.map ?_ fun t => BindingMessage.mk fact (some t)
    exact (carries_target (h.2 t ht)).within (List.mem_append_right _ (mem_nested 2 targetFields (Option.mem_toList.mpr ht)))
      (depth + 3)

theorem carries_set {m : SetMessage} (h : m.InRange) : Carries stepSet 5 .empty m.fields m where
  fits := List.forall_mem_append.mpr ⟨nested_fits (by decide) (by decide) _ _, nested_fits (by decide) (by decide) _ _⟩
  reads depth := by
    obtain ⟨subtypings, bindings⟩ := m
    refine foldlM_append (foldlM_repeated (SetMessage.mk · []) subtypings (fun s hs ys => ?_) [])
      (foldlM_repeated (SetMessage.mk subtypings) bindings (fun b hb ys => ?_) [])
    · refine Answers.map ?_ fun s => SetMessage.mk (ys ++ [s]) []
      exact (carries_subtyping (h.1 s hs)).within (List.mem_append_left _ (mem_nested 1 SubtypingMessage.fields hs)) (depth + 1)
    · refine Answers.map ?_ fun b => SetMessage.mk subtypings (ys ++ [b])
      exact (carries_binding (h.2 b hb)).within (List.mem_append_right _ (mem_nested 2 BindingMessage.fields hb)) depth

/-- A message whose numbers are in range is read back from its bytes. -/
theorem readSet_encodeFields {m : SetMessage} (h : m.InRange) :
    Answers (∀ f ∈ m.fields, f.Short) (readSet (encodeFields m.fields)) m :=
  (carries_set h).mergeInto 95

end TypeRecovery.Message
