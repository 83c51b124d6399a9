/-
  TypeRecovery.Proofs.TypeVar — variables label by label.

  Every variable is a base name or the extension of a shorter variable by one label
  (`extendInduction`), in one way only (`extend_inj`). `along` extends by a whole path.
  The variance of a path is taken label by label from either end (`pathVariance_cons`).
-/

import TypeRecovery.TypeVar

namespace TypeRecovery

namespace TypeVar

/-- The variable reached from `v` along a path. -/
def along (v : TypeVar) (p : List Label) : TypeVar := ⟨v.base, v.path ++ p⟩

@[simp] theorem along_nil (v : TypeVar) : v.along [] = v := by simp [along]

theorem along_cons (v : TypeVar) (l : Label) (p : List Label) : v.along (l :: p) = (v.extend l).along p := by
  simp [along, extend]

@[simp] theorem extend_inj {v w : TypeVar} {l m : Label} : v.extend l = w.extend m ↔ v = w ∧ l = m := by
  constructor
  · intro h
    simp only [extend, mk.injEq] at h
    obtain ⟨hb, hp⟩ := h
    obtain ⟨hp, hl⟩ := List.append_inj' hp rfl
    cases v; cases w
    simp_all
  · rintro ⟨rfl, rfl⟩; rfl

@[simp] theorem extend_ne_root (v : TypeVar) (l : Label) (b : String) : v.extend l ≠ root b := by
  simp [extend, root]

theorem extendInduction {P : TypeVar → Prop} (hroot : ∀ b, P (root b))
    (hextend : ∀ v l, P v → P (v.extend l)) (v : TypeVar) : P v := by
  obtain ⟨b, p⟩ := v
  suffices ∀ p q, P ⟨b, q⟩ → P ⟨b, q ++ p⟩ from this p [] (hroot b)
  intro p
  induction p with
  | nil => intro q h; simpa using h
  | cons l p ih => intro q h; simpa using ih (q ++ [l]) (hextend _ l h)

theorem foldl_compose (p : List Label) (v : Variance) :
    p.foldl (fun v l => v.compose l.variance) v = v.compose (pathVariance p) := by
  induction p generalizing v with
  | nil => cases v <;> rfl
  | cons l p ih =>
    rw [pathVariance, List.foldl_cons, List.foldl_cons, ih, ih]
    cases v <;> cases l.variance <;> cases pathVariance p <;> rfl

theorem pathVariance_cons (l : Label) (p : List Label) :
    pathVariance (l :: p) = l.variance.compose (pathVariance p) := by
  rw [pathVariance, List.foldl_cons, foldl_compose]
  cases l.variance <;> cases pathVariance p <;> rfl

end TypeVar

end TypeRecovery
