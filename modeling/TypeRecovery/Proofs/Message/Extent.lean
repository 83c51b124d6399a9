/-
  TypeRecovery.Proofs.Message.Extent — fields take no more bytes to write than they took to read.

  Bytes that were read need not be those that are written of what was read: a varint may have
  idle bytes, a number loses what is above its 64 bits, and groups and fixed-width numbers are
  not written at all. All of these write less. What one field takes of the bytes is said once,
  for each wire type (`Taken`, `fieldsUntil_eq_some`); the number and the type of a field are the
  parts of its tag, so the tag that is written is the one that was read, in its shortest form.

  The length of a sum has no more bytes than the two lengths, so two fields take no fewer bytes
  than one with the content of both (`framed_add`).

  Proved:
  - `varint_length_mono`, `varint_length_add`, `varint?_length`: the bytes of varints.
  - `length_encode_varint`, `length_encode_bytes`: the bytes of fields, `framed` around their content.
  - `fields?_length`: fields that were read have no more bytes, and each a length that can be said.
-/

import TypeRecovery.Proofs.Message.Wire

namespace TypeRecovery.Message

/-! ## Varints -/

theorem varint_length_of_lt {n : Nat} (h : n < 128) : (varint n).length = 1 := by
  rw [varint, if_pos h]
  rfl

theorem varint_length_of_ge {n : Nat} (h : 128 ≤ n) : (varint n).length = 1 + (varint (n / 128)).length := by
  rw [varint, if_neg (Nat.not_lt.mpr h), List.length_cons, Nat.add_comm]

theorem varint_length_pos (n : Nat) : 0 < (varint n).length := List.length_pos_iff.mpr (varint_ne_nil n)

theorem varint_length_mono {m n : Nat} (h : m ≤ n) : (varint m).length ≤ (varint n).length := by
  induction n using Nat.strongRecOn generalizing m with
  | ind n ih =>
    by_cases hm : m < 128
    · rw [varint_length_of_lt hm]
      exact varint_length_pos n
    · have hdiv := ih (n / 128) (by omega) (Nat.div_le_div_right (c := 128) h)
      rw [varint_length_of_ge (by omega), varint_length_of_ge (show 128 ≤ n by omega)]
      omega

/-- One byte more than the larger of the two has room for their sum. -/
theorem varint_length_add (m n : Nat) : (varint (m + n)).length ≤ (varint m).length + (varint n).length := by
  have hlarger : ∀ k l, l ≤ k → (varint (l + k)).length ≤ 1 + (varint k).length := by
    intro k l hl
    by_cases hk : k = 0
    · have hzero : l = 0 := by omega
      rw [hk, hzero]
      exact Nat.le_add_left _ 1
    · have hsum : (varint (l + k)).length ≤ (varint (128 * k)).length := varint_length_mono (by omega)
      rwa [varint_length_of_ge (show 128 ≤ 128 * k by omega), Nat.mul_div_cancel_left k (by decide)] at hsum
  have hm := varint_length_pos m
  have hn := varint_length_pos n
  rcases Nat.le_total m n with h | h
  · have := hlarger n m h
    omega
  · have := hlarger m n h
    rw [Nat.add_comm n m] at this
    omega

/-- By induction on the bytes that may still be read. -/
theorem varint?_length {size n : Nat} {bs rest : Bytes} (h : varint? size bs = some (n, rest)) :
    (varint n).length + rest.length ≤ bs.length ∧ n < Nat.pow 128 size := by
  induction size generalizing n bs with
  | zero => cases h
  | succ size ih =>
    have hpow : Nat.pow 128 (size + 1) = Nat.pow 128 size * 128 := rfl
    cases bs with
    | nil => cases h
    | cons b bs =>
      rw [varint?] at h
      have hb := b.toNat_lt
      split at h
      · rename_i hlast
        cases h
        have hlt : b.toNat < 128 := UInt8.lt_iff_toNat_lt.mp hlast
        have hpos : 0 < Nat.pow 128 size := Nat.pow_pos (by decide)
        rw [varint_length_of_lt hlt, List.length_cons]
        omega
      · obtain ⟨⟨m, after⟩, hm, he⟩ := Option.map_eq_some_iff.mp h
        cases he
        obtain ⟨hlen, hlt⟩ := ih hm
        have hle : (varint (b.toNat - 128 + 128 * m)).length ≤ 1 + (varint m).length := by
          by_cases hsmall : b.toNat - 128 + 128 * m < 128
          · rw [varint_length_of_lt hsmall]
            omega
          · have hdiv : (b.toNat - 128 + 128 * m) / 128 = m := by omega
            exact Nat.le_of_eq (by rw [varint_length_of_ge (by omega), hdiv])
        rw [List.length_cons]
        omega

/-! ## Fields -/

/-- The bytes of a field around `n` bytes of content. -/
def framed (n : Nat) : Nat := 1 + (varint n).length + n

theorem framed_mono {m n : Nat} (h : m ≤ n) : framed m ≤ framed n := by
  have := varint_length_mono h
  unfold framed
  omega

theorem framed_add (m n : Nat) : framed (m + n) ≤ framed m + framed n := by
  have := varint_length_add m n
  unfold framed
  omega

section Encoded

variable {f : WireField} (hnumber : f.number < 16)
include hnumber

theorem length_encode_varint {n : Nat} (h : f.payload = .varint n) : f.encode.length = 1 + (varint n).length := by
  rw [WireField.encode, h]
  dsimp only
  rw [List.length_append, varint_length_of_lt (show 8 * f.number < 128 by omega)]

theorem length_encode_bytes {content : Bytes} (h : f.payload = .bytes content) : f.encode.length = framed content.length := by
  rw [WireField.encode, h]
  dsimp only
  rw [List.length_append, List.length_append, varint_length_of_lt (show 8 * f.number + 2 < 128 by omega), framed]

end Encoded

theorem length_encodeFields_cons (f : WireField) (fs : List WireField) :
    (encodeFields (f :: fs)).length = f.encode.length + (encodeFields fs).length := by
  rw [encodeFields, List.flatMap_cons, List.length_append]
  rfl

theorem length_encodeFields_append (fs gs : List WireField) :
    (encodeFields (fs ++ gs)).length = (encodeFields fs).length + (encodeFields gs).length := by
  rw [encodeFields, List.flatMap_append, List.length_append]
  rfl

section Read

variable {bs rest after : Bytes} {tag n : Nat}

theorem tag?_length (h : tag? bs = some (tag, rest)) : (varint tag).length + rest.length ≤ bs.length :=
  (varint?_length (Option.eq_some_of_filter_eq_some h)).1

theorem number?_length (h : number? bs = some (n, rest)) : (varint n).length + rest.length ≤ bs.length := by
  obtain ⟨⟨m, after⟩, hm, he⟩ := Option.map_eq_some_iff.mp h
  cases he
  have := (varint?_length hm).1
  have := varint_length_mono (Nat.mod_le m 0x10000000000000000)
  omega

theorem chunk?_length {content : Bytes} (h : chunk? n bs = some (content, rest)) :
    content.length = n ∧ content.length + rest.length = bs.length := by
  have hif : (if (bs.take n).length = n then some (bs.take n, bs.drop n) else none) = some (content, rest) := h
  split at hif
  · rename_i hn
    cases hif
    refine ⟨hn, ?_⟩
    rw [List.length_take] at hn ⊢
    rw [List.length_drop]
    omega
  · cases hif

end Read

/-- What stands behind a tag of each wire type, and what follows it. -/
inductive Taken (budget depth number : Nat) : Nat → Payload → Bytes → Bytes → Prop
  | varint {n : Nat} {rest behind : Bytes} (h : number? rest = some (n, behind)) :
      Taken budget depth number 0 (.varint n) rest behind
  | bytes {size : Nat} {content rest between behind : Bytes} (hsize : length? rest = some (size, between))
      (hcontent : chunk? size between = some (content, behind)) : Taken budget depth number 2 (.bytes content) rest behind
  | fixed {type size : Nat} {content rest behind : Bytes} (h : chunk? size rest = some (content, behind)) :
      Taken budget depth number type .unread rest behind
  | group {inner : Nat} {inside : List WireField} {rest behind : Bytes} (hinner : inner < depth)
      (h : fieldsUntil budget inner (some number) rest = some (inside, behind)) :
      Taken budget depth number 3 .unread rest behind

/-- Fields end at once, or with the closing tag, or there is one more before the others. -/
theorem fieldsUntil_eq_some {budget depth : Nat} {closing : Option Nat} {bs last : Bytes} {fs : List WireField}
    (h : fieldsUntil budget depth closing bs = some (fs, last)) :
    (bs = [] ∧ fs = [] ∧ last = []) ∨ ∃ left tag rest, budget = left + 1 ∧ tag? bs = some (tag, rest) ∧
      ((tag % 8 = 4 ∧ fs = [] ∧ last = rest) ∨ ∃ payload behind others, Taken left depth (tag / 8) (tag % 8) payload rest behind ∧
        fieldsUntil left depth closing behind = some (others, last) ∧ fs = ⟨tag / 8, payload⟩ :: others) := by
  cases bs with
  | nil =>
    unfold fieldsUntil at h
    split at h
    · cases h
      exact Or.inl ⟨rfl, rfl, rfl⟩
    · cases h
  | cons b bs =>
    cases budget with
    | zero => cases h
    | succ left =>
      simp only [fieldsUntil, Option.bind_eq_bind, Option.bind_eq_some_iff] at h
      obtain ⟨⟨tag, rest⟩, htag, h⟩ := h
      refine Or.inr ⟨left, tag, rest, rfl, htag, ?_⟩
      dsimp only at h
      split at h
      · cases h
      · split at h
        · rename_i htype
          simp only [Option.bind_eq_some_iff] at h
          obtain ⟨⟨n, behind⟩, hn, ⟨others, last⟩, hothers, he⟩ := h
          cases he
          exact Or.inr ⟨_, behind, others, htype ▸ .varint hn, hothers, rfl⟩
        · simp only [Option.bind_eq_some_iff] at h
          obtain ⟨⟨content, behind⟩, hcontent, ⟨others, last⟩, hothers, he⟩ := h
          cases he
          exact Or.inr ⟨_, behind, others, .fixed hcontent, hothers, rfl⟩
        · rename_i htype
          simp only [Option.bind_eq_some_iff] at h
          obtain ⟨⟨size, between⟩, hsize, ⟨content, behind⟩, hcontent, ⟨others, last⟩, hothers, he⟩ := h
          cases he
          exact Or.inr ⟨_, behind, others, htype ▸ .bytes hsize hcontent, hothers, rfl⟩
        · rename_i htype
          split at h
          · cases h
          · rename_i inner
            simp only [Option.bind_eq_some_iff] at h
            obtain ⟨⟨inside, behind⟩, hinside, ⟨others, last⟩, hothers, he⟩ := h
            cases he
            exact Or.inr ⟨_, behind, others, htype ▸ .group (Nat.lt_succ_self inner) hinside, hothers, rfl⟩
        · rename_i htype
          split at h
          · cases h
            exact Or.inl ⟨htype, rfl, rfl⟩
          · cases h
        · simp only [Option.bind_eq_some_iff] at h
          obtain ⟨⟨content, behind⟩, hcontent, ⟨others, last⟩, hothers, he⟩ := h
          cases he
          exact Or.inr ⟨_, behind, others, .fixed hcontent, hothers, rfl⟩
        · cases h

/-- A field has its tag again, whose number and type are the parts of the tag, and content of no more bytes. -/
theorem taken_length {budget depth tag : Nat} {payload : Payload} {rest behind : Bytes}
    (h : Taken budget depth (tag / 8) (tag % 8) payload rest behind)
    (hgroup : ∀ inner closing inside, fieldsUntil budget inner closing rest = some (inside, behind) → behind.length ≤ rest.length) :
    (⟨tag / 8, payload⟩ : WireField).encode.length + behind.length ≤ (varint tag).length + rest.length ∧
      (⟨tag / 8, payload⟩ : WireField).Short := by
  have hdivision := Nat.div_add_mod tag 8
  generalize tag % 8 = type at h hdivision
  cases h with
  | varint hn =>
    have := number?_length hn
    refine ⟨?_, fun _ he => by cases he⟩
    rw [WireField.encode, List.length_append, show 8 * (tag / 8) = tag from hdivision]
    omega
  | bytes hsize hcontent =>
    obtain ⟨hsize, hlimit⟩ := varint?_length hsize
    obtain ⟨hcount, hcontent⟩ := chunk?_length hcontent
    refine ⟨?_, fun content he => ?_⟩
    · rw [WireField.encode, List.length_append, List.length_append, hdivision, hcount]
      omega
    · cases he
      rw [hcount]
      exact hlimit
  | fixed hcontent =>
    have := chunk?_length hcontent
    refine ⟨?_, fun _ he => by cases he⟩
    rw [WireField.encode, List.length_nil]
    omega
  | group _ hinside =>
    have := hgroup _ _ _ hinside
    refine ⟨?_, fun _ he => by cases he⟩
    rw [WireField.encode, List.length_nil]
    omega

/-- By induction on the budget, for the fields of a group and those behind it alike. -/
theorem fieldsUntil_length {budget depth : Nat} {closing : Option Nat} {bs last : Bytes} {fs : List WireField}
    (h : fieldsUntil budget depth closing bs = some (fs, last)) :
    (encodeFields fs).length + last.length ≤ bs.length ∧ ∀ f ∈ fs, f.Short := by
  induction budget generalizing depth closing bs fs last with
  | zero =>
    rcases fieldsUntil_eq_some h with ⟨rfl, rfl, rfl⟩ | ⟨left, tag, rest, hleft, -⟩
    · exact ⟨Nat.le_refl _, fun _ hf => nomatch hf⟩
    · cases hleft
  | succ budget ih =>
    rcases fieldsUntil_eq_some h with ⟨rfl, rfl, rfl⟩ |
      ⟨_, tag, rest, hleft, htag, ⟨-, rfl, rfl⟩ | ⟨payload, behind, others, htaken, hothers, rfl⟩⟩
    · exact ⟨Nat.le_refl _, fun _ hf => nomatch hf⟩
    · have := tag?_length htag
      rw [encodeFields, List.flatMap_nil, List.length_nil]
      exact ⟨by omega, fun _ hf => nomatch hf⟩
    · cases hleft
      have hbytes := tag?_length htag
      obtain ⟨hlen, hshort⟩ := ih hothers
      obtain ⟨hfield, hfieldShort⟩ := taken_length htaken fun inner closing inside hinside => by
        have := (ih hinside).1
        omega
      rw [length_encodeFields_cons, List.forall_mem_cons]
      exact ⟨by omega, hfieldShort, hshort⟩

theorem fields?_length {depth : Nat} {bs : Bytes} {fs : List WireField} (h : fields? depth bs = some fs) :
    (encodeFields fs).length ≤ bs.length ∧ ∀ f ∈ fs, f.Short := by
  obtain ⟨⟨fs, last⟩, hfields, rfl⟩ := Option.map_eq_some_iff.mp h
  obtain ⟨hlen, hshort⟩ := fieldsUntil_length hfields
  exact ⟨Nat.le_trans (Nat.le_add_right _ _) hlen, hshort⟩

end TypeRecovery.Message
