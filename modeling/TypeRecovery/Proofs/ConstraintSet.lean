/-
  TypeRecovery.Proofs.ConstraintSet — what a set of constraints holds.

  A set made by adding constraints holds none twice (`Distinct`, `ofLists_distinct`), so it is the
  set of its own lists (`ofLists_eq`). Its type variables are the two sides of its facts, and its bases are
  theirs (`mem_typeVars`, `mem_bases`).
-/

import TypeRecovery.Proofs.Entries

namespace TypeRecovery

theorem foldl_appendNew_of_nodup {α : Type} [DecidableEq α] (xs ys : List α) (h : (xs ++ ys).Nodup) :
    ys.foldl appendNew xs = xs ++ ys := by
  induction ys generalizing xs with
  | nil => simp
  | cons y ys ih =>
    have hy : y ∉ xs := fun hmem => (List.nodup_append.mp h).2.2 y hmem y List.mem_cons_self rfl
    rw [List.append_cons] at h ⊢
    rw [List.foldl_cons, appendNew, if_neg hy]
    exact ih (xs ++ [y]) h

namespace ConstraintSet

/-- No constraint is held twice, as in every set made by adding constraints. -/
structure Distinct (s : ConstraintSet) : Prop where
  subtypings : s.subtypings.Nodup
  bindings : s.bindings.Nodup

theorem empty_distinct : empty.Distinct := ⟨List.nodup_nil, List.nodup_nil⟩

theorem insert_distinct {s : ConstraintSet} (h : s.Distinct) (c : Subtyping) : (s.insert c).Distinct :=
  ⟨nodup_appendNew h.subtypings c, h.bindings⟩

theorem bind_distinct {s : ConstraintSet} (h : s.Distinct) (b : Binding) : (s.bind b).Distinct :=
  ⟨h.subtypings, nodup_appendNew h.bindings b⟩

theorem foldl_insert (cs : List Subtyping) (s : ConstraintSet) :
    cs.foldl insert s = { s with subtypings := cs.foldl appendNew s.subtypings } := by
  induction cs generalizing s with
  | nil => rfl
  | cons c cs ih => exact ih (s.insert c)

theorem foldl_bind (bs : List Binding) (s : ConstraintSet) :
    bs.foldl bind s = { s with bindings := bs.foldl appendNew s.bindings } := by
  induction bs generalizing s with
  | nil => rfl
  | cons b bs ih => exact ih (s.bind b)

/-- A set is made of its lists. -/
theorem ofLists_eq {s : ConstraintSet} (h : s.Distinct) : ofLists s.subtypings s.bindings = s := by
  rw [ofLists, foldl_insert, foldl_bind]
  exact congrArg₂ mk (foldl_appendNew_of_nodup [] _ h.subtypings) (foldl_appendNew_of_nodup [] _ h.bindings)

/-- A set made of lists holds the first occurrences of each. -/
theorem ofLists_eq_mk (subtypings : List Subtyping) (bindings : List Binding) :
    ofLists subtypings bindings = ⟨firstOccurrences subtypings, firstOccurrences bindings⟩ := by
  rw [ofLists, foldl_insert, foldl_bind]
  rfl

theorem ofLists_distinct (subtypings : List Subtyping) (bindings : List Binding) : (ofLists subtypings bindings).Distinct := by
  rw [ofLists_eq_mk]
  exact ⟨nodup_foldl_appendNew List.nodup_nil, nodup_foldl_appendNew List.nodup_nil⟩

/-- The facts of a set made of lists are theirs. -/
theorem mem_facts_ofLists {subtypings : List Subtyping} {bindings : List Binding} {c : Subtyping} :
    c ∈ (ofLists subtypings bindings).facts ↔ c ∈ subtypings ∨ ∃ b ∈ bindings, b.fact = c := by
  simp [ofLists_eq_mk, facts]

theorem mem_typeVars {s : ConstraintSet} {v : TypeVar} : v ∈ s.typeVars ↔ ∃ c ∈ s.facts, v = c.sub ∨ v = c.sup := by
  simp only [typeVars, mem_firstOccurrences, List.mem_flatMap, List.mem_cons, List.not_mem_nil, or_false]

theorem mem_bases {s : ConstraintSet} {name : String} : name ∈ s.bases ↔ ∃ v ∈ s.typeVars, v.base = name := by
  simp only [bases, mem_firstOccurrences, List.mem_map]

theorem mem_targets {s : ConstraintSet} {t : Target} : t ∈ s.targets ↔ ∃ b ∈ s.bindings, b.target = t := by
  simp only [targets, mem_firstOccurrences, List.mem_map]

/-- What holds of every type variable holds of the sides of every fact. -/
theorem forall_typeVars {s : ConstraintSet} {P : TypeVar → Prop} :
    (∀ v ∈ s.typeVars, P v) ↔ ∀ c ∈ s.facts, P c.sub ∧ P c.sup := by
  simp only [mem_typeVars]
  constructor
  · exact fun h c hc => ⟨h _ ⟨c, hc, Or.inl rfl⟩, h _ ⟨c, hc, Or.inr rfl⟩⟩
  · rintro h v ⟨c, hc, rfl | rfl⟩
    · exact (h c hc).1
    · exact (h c hc).2

theorem forall_bases {s : ConstraintSet} {P : String → Prop} :
    (∀ name ∈ s.bases, P name) ↔ ∀ c ∈ s.facts, P c.sub.base ∧ P c.sup.base := by
  rw [← forall_typeVars (P := fun v => P v.base)]
  simp only [mem_bases]
  exact ⟨fun h v hv => h _ ⟨v, hv, rfl⟩, fun h name ⟨v, hv, he⟩ => he ▸ h v hv⟩

theorem forall_targets {s : ConstraintSet} {P : Target → Prop} : (∀ t ∈ s.targets, P t) ↔ ∀ b ∈ s.bindings, P b.target := by
  simp only [mem_targets]
  exact ⟨fun h b hb => h _ ⟨b, hb, rfl⟩, fun h t ⟨b, hb, he⟩ => he ▸ h b hb⟩

/-- What every binding carries is among the facts. -/
theorem forall_facts {s : ConstraintSet} {P : Subtyping → Prop} :
    (∀ c ∈ s.facts, P c) ↔ (∀ c ∈ s.subtypings, P c) ∧ ∀ b ∈ s.bindings, P b.fact := by
  rw [facts, List.forall_mem_append, List.forall_mem_map]

end ConstraintSet

end TypeRecovery
