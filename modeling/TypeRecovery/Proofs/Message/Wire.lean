/-
  TypeRecovery.Proofs.Message.Wire — fields read back from their bytes.

  Varints are read back by the recursion that wrote them: a value below `128 ^ size` needs no
  more than `size` bytes, and each byte read leaves a value below the next lower power. A
  field `Fits` when its number and its value are in range; it is then read as itself in front
  of whatever follows it. Lengths have at most five bytes, so a field of `lengthLimit` bytes or
  more is refused, and a message of that many bytes may hold one. It is never read as another: a
  reader `Answers` with the value that was written or with none, and with the value if all
  fields are `Short`.

  Proved:
  - `varint?_varint`: a varint is read back, if it is short enough.
  - `fieldsUntil_encode`: a field is read back.
  - `fields?_encodeFields`: a message is read back as its fields.
-/

import TypeRecovery.Message.Wire

namespace TypeRecovery.Message

variable {α β : Type}

/-! ## Answers -/

/-- The outcome is `a` or nothing, and it is `a` if `P` holds. -/
structure Answers (P : Prop) (o : Option α) (a : α) : Prop where
  sound : ∀ b, o = some b → b = a
  complete : P → o = some a

section Answers

variable {P Q : Prop} {o : Option α} {a : α}

theorem answers_of_eq (h : o = some a) : Answers P o a := ⟨fun _ hb => Option.some.inj (hb.symm.trans h), fun _ => h⟩

theorem answers_of_none (h : o = none) (hp : ¬P) : Answers P o a := 
  ⟨fun _ hb => (nomatch h.symm.trans hb), fun p => (hp p).elim⟩

theorem Answers.mono (h : Answers P o a) (hqp : Q → P) : Answers Q o a := ⟨h.sound, fun q => h.complete (hqp q)⟩

theorem Answers.bind (h : Answers P o a) {f : α → Option β} {b : β} (hf : Answers P (f a) b) : Answers P (o.bind f) b where
  sound c hc := by
    obtain ⟨x, hx, hc⟩ := Option.bind_eq_some_iff.mp hc
    rw [h.sound x hx] at hc
    exact hf.sound c hc
  complete p := by rw [h.complete p, Option.bind_some, hf.complete p]

theorem Answers.map (h : Answers P o a) (f : α → β) : Answers P (o.map f) (f a) := by
  rw [Option.map_eq_bind]
  exact h.bind (answers_of_eq rfl)

end Answers

/-! ## Varints -/

theorem toNat_byte {n : Nat} (h : n < 256) : n.toUInt8.toNat = n := by
  rw [Nat.toUInt8, UInt8.toNat_ofNat', Nat.mod_eq_of_lt h]

theorem varint?_last {n : Nat} (h : n < 128) (size : Nat) (rest : Bytes) :
    varint? (size + 1) (n.toUInt8 :: rest) = some (n, rest) := by
  have hb : n.toUInt8.toNat = n := toNat_byte (by omega)
  have hlt : n.toUInt8 < 128 := UInt8.lt_iff_toNat_lt.mpr (by rw [hb]; exact h)
  rw [varint?, if_pos hlt, hb]

theorem varint?_more {n : Nat} (h : n < 128) (size : Nat) (rest : Bytes) :
    varint? (size + 1) ((n + 128).toUInt8 :: rest) = (varint? size rest).map fun (m, after) => (n + 128 * m, after) := by
  have hb : (n + 128).toUInt8.toNat = n + 128 := toNat_byte (by omega)
  have hge : ¬(n + 128).toUInt8 < 128 := fun hlt => by
    have hlt := UInt8.lt_iff_toNat_lt.mp hlt
    have h128 : (128 : UInt8).toNat = 128 := rfl
    omega
  rw [varint?, if_neg hge, hb, Nat.add_sub_cancel]

/-- By induction on the bytes that may still be read. -/
theorem varint?_varint (size n : Nat) (rest : Bytes) :
    varint? (size + 1) (varint n ++ rest) = if n < Nat.pow 128 (size + 1) then some (n, rest) else none := by
  induction size generalizing n with
  | zero =>
    rw [varint]
    by_cases h : n < 128
    · rw [if_pos h, List.singleton_append, varint?_last h, if_pos h]
    · rw [if_neg h, List.cons_append, varint?_more (Nat.mod_lt _ (by decide)), if_neg h]
      rfl
  | succ size ih =>
    have hpow : Nat.pow 128 (size + 1 + 1) = Nat.pow 128 (size + 1) * 128 := rfl
    rw [varint]
    by_cases h : n < 128
    · have hpos : 0 < Nat.pow 128 (size + 1) := Nat.pow_pos (by decide)
      rw [if_pos h, List.singleton_append, varint?_last h, if_pos (by omega)]
    · rw [if_neg h, List.cons_append, varint?_more (Nat.mod_lt _ (by decide)), ih, hpow]
      by_cases hdiv : n / 128 < Nat.pow 128 (size + 1)
      · rw [if_pos hdiv, if_pos (by omega)]
        simp only [Option.map_some, Nat.mod_add_div]
      · rw [if_neg hdiv, if_neg (by omega)]
        rfl

theorem varint_ne_nil (n : Nat) : varint n ≠ [] := by
  rw [varint]
  split <;> exact List.cons_ne_nil _ _

/-! ## Fields -/

/-- More than a length of five bytes can say. A message of the format is limited to two
gibibytes, a sixteenth of this. -/
def lengthLimit : Nat := 0x800000000

namespace WireField

/-- The number fits a tag, and the payload is a varint of 64 bits or has a length. -/
def Fits (f : WireField) : Prop :=
  0 < f.number ∧ f.number < 0x20000000 ∧
    match f.payload with
    | .varint n => n < 0x10000000000000000
    | .bytes _ => True
    | .unread => False

/-- A length can say how many bytes the field has. -/
def Short (f : WireField) : Prop := ∀ content, f.payload = .bytes content → content.length < lengthLimit

theorem encode_length_pos {f : WireField} (h : f.Fits) : 0 < f.encode.length := by
  obtain ⟨number, payload⟩ := f
  cases payload with
  | varint n =>
    have := List.length_pos_iff.mpr (varint_ne_nil (8 * number))
    simp only [encode, List.length_append]
    omega
  | bytes content =>
    have := List.length_pos_iff.mpr (varint_ne_nil (8 * number + 2))
    simp only [encode, List.length_append]
    omega
  | unread => exact h.2.2.elim

/-- The bytes of a payload are among those of its field. -/
theorem length_content_lt (number : Nat) (content : Bytes) :
    content.length < (⟨number, .bytes content⟩ : WireField).encode.length := by
  have := List.length_pos_iff.mpr (varint_ne_nil (8 * number + 2))
  simp only [encode, List.length_append]
  omega

end WireField

theorem tag?_varint {tag : Nat} (h : tag < 0x100000000) (rest : Bytes) : tag? (varint tag ++ rest) = some (tag, rest) := by
  rw [tag?, varint?_varint 4, if_pos (Nat.lt_trans h (by decide))]
  exact if_pos (decide_eq_true h)

theorem number?_varint {n : Nat} (h : n < 0x10000000000000000) (rest : Bytes) : number? (varint n ++ rest) = some (n, rest) := by
  rw [number?, varint?_varint 9, if_pos (Nat.lt_trans h (by decide))]
  exact congrArg some (Prod.ext (Nat.mod_eq_of_lt h) rfl)

theorem chunk?_append (content rest : Bytes) : chunk? content.length (content ++ rest) = some (content, rest) := by
  simp [chunk?]

section Fields

variable {bs rest after : Bytes} {number : Nat}

theorem fieldsUntil_varint (hpos : 0 < number) (htag : tag? bs = some (8 * number, rest)) {n : Nat}
    (hn : number? rest = some (n, after)) (budget depth : Nat) : fieldsUntil (budget + 1) depth none bs =
      (fieldsUntil budget depth none after).map fun (fs, last) => (⟨number, .varint n⟩ :: fs, last) := by
  cases bs with
  | nil => cases htag
  | cons b bs =>
    have hdiv : 8 * number / 8 = number := by omega
    have htype : 8 * number % 8 = 0 := by omega
    rw [fieldsUntil, htag]
    · simp only [Option.bind_eq_bind, Option.bind_some, hdiv, htype, hn, Nat.ne_of_gt hpos, false_and, if_false]
      cases fieldsUntil budget depth none after <;> rfl
    · exact List.cons_ne_nil b bs

theorem fieldsUntil_bytes (hpos : 0 < number) (htag : tag? bs = some (8 * number + 2, rest)) {size : Nat}
    {content behind : Bytes} (hsize : length? rest = some (size, behind)) (hcontent : chunk? size behind = some (content, after))
    (budget depth : Nat) : fieldsUntil (budget + 1) depth none bs =
      (fieldsUntil budget depth none after).map fun (fs, last) => (⟨number, .bytes content⟩ :: fs, last) := by
  cases bs with
  | nil => cases htag
  | cons b bs =>
    have hdiv : (8 * number + 2) / 8 = number := by omega
    have htype : (8 * number + 2) % 8 = 2 := by omega
    rw [fieldsUntil, htag]
    · simp only [Option.bind_eq_bind, Option.bind_some, hdiv, htype, hsize, hcontent, Nat.ne_of_gt hpos, false_and, if_false]
      cases fieldsUntil budget depth none after <;> rfl
    · exact List.cons_ne_nil b bs

theorem fieldsUntil_overlong (hpos : 0 < number) (htag : tag? bs = some (8 * number + 2, rest)) (hsize : length? rest = none)
    (budget depth : Nat) : fieldsUntil (budget + 1) depth none bs = none := by
  cases bs with
  | nil => cases htag
  | cons b bs =>
    have hdiv : (8 * number + 2) / 8 = number := by omega
    have htype : (8 * number + 2) % 8 = 2 := by omega
    rw [fieldsUntil, htag]
    · simp only [Option.bind_eq_bind, Option.bind_some, hdiv, htype, hsize, Nat.ne_of_gt hpos, false_and, if_false]
      rfl
    · exact List.cons_ne_nil b bs

end Fields

/-- A field ahead of `rest` is the first that is read. -/
theorem fieldsUntil_encode {P : Prop} {f : WireField} (h : f.Fits) (hshort : P → f.Short)
    {budget depth : Nat} {rest last : Bytes} {fs : List WireField} (hrest : Answers P (fieldsUntil budget depth none rest) (fs, last)) :
    Answers P (fieldsUntil (budget + 1) depth none (f.encode ++ rest)) (f :: fs, last) := by
  obtain ⟨number, payload⟩ := f
  obtain ⟨hpos, hnumber, hpayload⟩ := h
  dsimp only at hpos hnumber hpayload
  cases payload with
  | varint n =>
    have htag : tag? ((⟨number, .varint n⟩ : WireField).encode ++ rest) = some (8 * number, varint n ++ rest) := by
      rw [WireField.encode, List.append_assoc]
      exact tag?_varint (by dsimp only; omega) _
    rw [fieldsUntil_varint hpos htag (number?_varint hpayload rest)]
    exact hrest.map fun (fs, last) => ((⟨number, .varint n⟩ : WireField) :: fs, last)
  | bytes content =>
    have htag : tag? ((⟨number, .bytes content⟩ : WireField).encode ++ rest) =
        some (8 * number + 2, varint content.length ++ (content ++ rest)) := by
      rw [WireField.encode, List.append_assoc, List.append_assoc]
      exact tag?_varint (by dsimp only; omega) _
    by_cases hlen : content.length < lengthLimit
    · have hsize : length? (varint content.length ++ (content ++ rest)) = some (content.length, content ++ rest) :=
        (varint?_varint 4 _ _).trans (if_pos hlen)
      rw [fieldsUntil_bytes hpos htag hsize (chunk?_append content rest)]
      exact hrest.map fun (fs, last) => ((⟨number, .bytes content⟩ : WireField) :: fs, last)
    · have hsize : length? (varint content.length ++ (content ++ rest)) = none := (varint?_varint 4 _ _).trans (if_neg hlen)
      exact answers_of_none (fieldsUntil_overlong hpos htag hsize budget depth) fun p => hlen (hshort p content rfl)
  | unread => exact hpayload.elim

/-- By induction on the fields; each takes a byte or more of the budget. -/
theorem fieldsUntil_encodeFields {fs : List WireField} (h : ∀ f ∈ fs, f.Fits) (depth : Nat) {budget : Nat}
    (hb : (encodeFields fs).length ≤ budget) :
    Answers (∀ f ∈ fs, f.Short) (fieldsUntil budget depth none (encodeFields fs)) (fs, []) := by
  induction fs generalizing budget with
  | nil =>
    refine answers_of_eq ?_
    rw [encodeFields, List.flatMap_nil, fieldsUntil]
    rfl
  | cons f fs ih =>
    have hpos := WireField.encode_length_pos (h f List.mem_cons_self)
    have hsplit : encodeFields (f :: fs) = f.encode ++ encodeFields fs := List.flatMap_cons
    rw [hsplit, List.length_append] at hb
    rw [hsplit]
    cases budget with
    | zero => omega
    | succ budget =>
      have hle : (encodeFields fs).length ≤ budget := by omega
      have hrest := ih (fun g hg => h g (List.mem_cons_of_mem _ hg)) hle
      exact fieldsUntil_encode (h f List.mem_cons_self) (fun p => p f List.mem_cons_self)
        (hrest.mono fun p g hg => p g (List.mem_cons_of_mem _ hg))

theorem fields?_encodeFields {fs : List WireField} (h : ∀ f ∈ fs, f.Fits) (depth : Nat) :
    Answers (∀ f ∈ fs, f.Short) (fields? depth (encodeFields fs)) fs :=
  (fieldsUntil_encodeFields h depth (Nat.le_refl _)).map (·.1)

/-- A submessage has fewer bytes than the message that holds it. -/
theorem length_nested_lt {fs : List WireField} {number : Nat} {content : Bytes} (h : ⟨number, .bytes content⟩ ∈ fs) :
    content.length < (encodeFields fs).length := by
  have hfield := WireField.length_content_lt number content
  obtain ⟨before, after, rfl⟩ := List.append_of_mem h
  simp only [encodeFields, List.flatMap_append, List.flatMap_cons, List.length_append]
  omega

theorem short_of_length {fs : List WireField} (h : (encodeFields fs).length < lengthLimit) : ∀ f ∈ fs, f.Short := by
  rintro ⟨number, payload⟩ hf content rfl
  exact Nat.lt_trans (length_nested_lt hf) h

end TypeRecovery.Message
