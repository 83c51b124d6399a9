/-
  TypeRecovery.Proofs.Text.Utf8 — texts read back from their bytes.

  Proved: the bytes of a text are well-formed and encode that text (`ofBytes?_toBytes`), and no
  other bytes encode it (`toBytes_of_ofBytes?`).
-/

import TypeRecovery.Text.Utf8

namespace TypeRecovery.Text

/-- The loop has the bytes before position `i` behind it. -/
theorem loop_eq (bs : ByteArray) (i : Nat) (r : List UInt8) :
    ByteArray.toList.loop bs i r = r.reverse ++ bs.data.toList.drop i := by
  fun_induction ByteArray.toList.loop bs i r with
  | case1 i r h ih =>
    have hi : i < bs.data.toList.length := h
    rw [ih, List.drop_eq_getElem_cons hi, List.reverse_cons, List.append_assoc]
    have hget : bs.get! i = bs.data.toList[i] := by
      show bs.data[i]! = _
      rw [getElem!_pos bs.data i h, Array.getElem_toList]
    rw [hget]
    rfl
  | case2 i r h =>
    rw [List.drop_eq_nil_of_le (Nat.le_of_not_lt h), List.append_nil]

theorem toList_eq (bs : ByteArray) : bs.toList = bs.data.toList := loop_eq bs 0 []

theorem ofBytes?_toBytes (s : String) : ofBytes? (toBytes s) = some s := by
  have hbytes : (⟨(toBytes s).toArray⟩ : ByteArray) = s.toUTF8 := by
    rw [toBytes, toList_eq]
  rw [ofBytes?, hbytes]
  exact dif_pos s.isValidUTF8

theorem toBytes_of_ofBytes? {bs : Bytes} {s : String} (h : ofBytes? bs = some s) : toBytes s = bs := by
  rw [ofBytes?, String.fromUTF8?] at h
  split at h
  · cases h
    rw [toBytes, toList_eq]
    rfl
  · cases h

end TypeRecovery.Text
