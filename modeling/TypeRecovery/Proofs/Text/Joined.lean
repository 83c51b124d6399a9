/-
  TypeRecovery.Proofs.Text.Joined — texts put together with a separator between them.
-/

namespace TypeRecovery.Text

/-- Every text but the first stands behind a separator. -/
theorem toList_intercalate (separator first : String) (more : List String) :
    (separator.intercalate (first :: more)).toList =
      first.toList ++ more.flatMap fun s => separator.toList ++ s.toList := by
  induction more generalizing first with
  | nil => simp
  | cons second more ih =>
    rw [String.intercalate_cons_of_ne_nil (by simp), String.toList_append, ih, String.toList_append]
    simp

end TypeRecovery.Text
