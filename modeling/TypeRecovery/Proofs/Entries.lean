/-
  TypeRecovery.Proofs.Entries — lists in the order of insertion, plain and by key.

  Proved: the first occurrences of a list are its elements (`mem_firstOccurrences`). Adding a
  key at the end changes the look-up of that key only, if it had none
  (`lookup?_append_new`); a look-up succeeds exactly for the keys (`lookup?_eq_none_iff`); where
  no key occurs twice, or a key stands for one value only, it finds exactly the pairs, in
  whatever order they stand (`lookup?_eq_some_iff`, `lookup?_eq_of_mem_iff`, `lookup?_perm`); and
  setting a key changes its look-up only and repeats none (`lookup?_set`, `nodup_set`), nor does
  setting several, of which nothing is found that was not set (`nodup_setAll`,
  `of_lookup?_setAll`). A list is mapped by a function that may fail
  exactly when each element is (`mapM_eq_ok`, `mapM_eq_some`), and otherwise fails with the
  first that is not (`mapM_eq_error`). Of two related lists every element has a partner
  (`exists_mem_of_forall₂`, `exists_of_mem_forall₂`).
-/

import Mathlib.Data.List.Forall2
import Mathlib.Data.List.Nodup
import TypeRecovery.ConstraintSet
import TypeRecovery.Entries

namespace TypeRecovery

theorem exists_forall₂ {α β : Type} {R : α → β → Prop} {xs : List α} :
    (∃ ys, List.Forall₂ R xs ys) ↔ ∀ x ∈ xs, ∃ y, R x y := by
  induction xs with
  | nil => simp
  | cons x xs ih =>
    simp only [List.forall_mem_cons, ← ih, List.forall₂_cons_left_iff]
    constructor
    · rintro ⟨_, y, ys, hy, hys, rfl⟩
      exact ⟨⟨y, hy⟩, ys, hys⟩
    · rintro ⟨⟨y, hy⟩, ys, hys⟩
      exact ⟨_, y, ys, hy, hys, rfl⟩

theorem exists_mem_of_forall₂ {α β : Type} {R : α → β → Prop} {xs : List α} {ys : List β} (h : List.Forall₂ R xs ys) {x : α}
    (hx : x ∈ xs) : ∃ y ∈ ys, R x y := by
  induction h with
  | nil => cases hx
  | cons hxy _ ih =>
    rcases List.mem_cons.mp hx with rfl | hx
    · exact ⟨_, List.mem_cons_self, hxy⟩
    · obtain ⟨y, hy, hxy⟩ := ih hx
      exact ⟨y, List.mem_cons_of_mem _ hy, hxy⟩

theorem exists_of_mem_forall₂ {α β : Type} {R : α → β → Prop} {xs : List α} {ys : List β} (h : List.Forall₂ R xs ys) {y : β}
    (hy : y ∈ ys) : ∃ x, R x y := by
  have hflip : List.Forall₂ (flip R) ys xs := List.Forall₂.flip h
  obtain ⟨x, -, hxy⟩ := exists_mem_of_forall₂ hflip hy
  exact ⟨x, hxy⟩

section Failing

variable {m : Type → Type} [Monad m] [LawfulMonad m] {α β : Type}

theorem mapM_eq_pure (hpure : ∀ {γ : Type} {a b : γ}, (pure a : m γ) = pure b ↔ a = b)
    (hbind : ∀ {γ δ : Type} {x : m γ} {f : γ → m δ} {b : δ}, x >>= f = pure b ↔ ∃ a, x = pure a ∧ f a = pure b)
    {f : α → m β} {xs : List α} {ys : List β} :
    xs.mapM f = pure ys ↔ List.Forall₂ (fun x y => f x = pure y) xs ys := by
  induction xs generalizing ys with
  | nil => rw [List.mapM_nil, hpure, List.forall₂_nil_left_iff, eq_comm]
  | cons x xs ih =>
    simp only [List.mapM_cons, hbind, hpure, List.forall₂_cons_left_iff, ih]
    constructor
    · rintro ⟨y, hy, zs, hzs, rfl⟩
      exact ⟨y, zs, hy, hzs, rfl⟩
    · rintro ⟨y, zs, hy, hzs, rfl⟩
      exact ⟨y, hy, zs, hzs, rfl⟩

@[simp] theorem ok_bind {ε : Type} (a : α) (f : α → Except ε β) : Except.ok a >>= f = f a := rfl

theorem bind_eq_ok {ε : Type} {x : Except ε α} {f : α → Except ε β} {b : β} :
    x >>= f = .ok b ↔ ∃ a, x = .ok a ∧ f a = .ok b := by
  cases x with
  | error e => exact ⟨fun h => (nomatch h), fun ⟨_, h, _⟩ => (nomatch h)⟩
  | ok a => exact ⟨fun h => ⟨a, rfl, h⟩, fun ⟨_, ha, h⟩ => Except.ok.inj ha ▸ h⟩

theorem map_eq_ok {ε : Type} {x : Except ε α} {f : α → β} {b : β} : x.map f = .ok b ↔ ∃ a, x = .ok a ∧ f a = b := by
  cases x with
  | error e => exact ⟨fun h => (nomatch h), fun ⟨_, h, _⟩ => (nomatch h)⟩
  | ok a => exact ⟨fun h => ⟨a, rfl, Except.ok.inj h⟩, fun ⟨_, ha, h⟩ => Except.ok.inj ha ▸ congrArg Except.ok h⟩

theorem mapM_eq_ok {ε : Type} {f : α → Except ε β} {xs : List α} {ys : List β} :
    xs.mapM f = .ok ys ↔ List.Forall₂ (fun x y => f x = .ok y) xs ys :=
  mapM_eq_pure (m := Except ε) ⟨Except.ok.inj, congrArg _⟩ bind_eq_ok

/-- A failing step is where the list ends. -/
theorem mapM_eq_error {ε : Type} {f : α → Except ε β} {xs : List α} {e : ε} :
    xs.mapM f = .error e ↔
      ∃ before x after, xs = before ++ x :: after ∧ (∀ y ∈ before, ∃ b, f y = .ok b) ∧ f x = .error e := by
  induction xs with
  | nil =>
    refine ⟨fun h => (nomatch h), fun ⟨before, x, after, he, _⟩ => ?_⟩
    simp at he
  | cons x xs ih =>
    rw [List.mapM_cons]
    cases hx : f x with
    | error e' =>
      constructor
      · intro h
        exact ⟨[], x, xs, rfl, by simp, hx.trans (congrArg _ (Except.error.inj h))⟩
      · rintro ⟨_ | ⟨y, before⟩, z, after, he, hbefore, hz⟩
        · cases he
          cases hx.symm.trans hz
          rfl
        · cases he
          obtain ⟨b, hb⟩ := hbefore x List.mem_cons_self
          cases hx.symm.trans hb
    | ok b =>
      have hrest : (Except.ok b >>= fun b => xs.mapM f >>= fun bs => pure (b :: bs)) = .error e ↔ xs.mapM f = .error e := by
        rw [ok_bind]
        cases xs.mapM f with
        | error e' => exact ⟨fun h => congrArg _ (Except.error.inj h), fun h => congrArg _ (Except.error.inj h)⟩
        | ok bs => exact ⟨fun h => (nomatch h), fun h => (nomatch h)⟩
      rw [hrest, ih]
      constructor
      · rintro ⟨before, z, after, rfl, hbefore, hz⟩
        exact ⟨x :: before, z, after, rfl, List.forall_mem_cons.mpr ⟨⟨b, hx⟩, hbefore⟩, hz⟩
      · rintro ⟨_ | ⟨y, before⟩, z, after, he, hbefore, hz⟩
        · cases he
          cases hx.symm.trans hz
        · cases he
          exact ⟨before, z, after, rfl, fun y hy => hbefore y (List.mem_cons_of_mem _ hy), hz⟩

theorem mapM_eq_some {f : α → Option β} {xs : List α} {ys : List β} :
    xs.mapM f = some ys ↔ List.Forall₂ (fun x y => f x = some y) xs ys :=
  mapM_eq_pure (m := Option) ⟨Option.some.inj, congrArg _⟩ Option.bind_eq_some_iff

end Failing

theorem mem_appendNew {α : Type} [DecidableEq α] {xs : List α} {x y : α} : y ∈ appendNew xs x ↔ y ∈ xs ∨ y = x := by
  unfold appendNew
  split
  · rename_i hx
    exact ⟨Or.inl, fun h => h.elim id fun e => e ▸ hx⟩
  · simp

theorem mem_foldl_appendNew {α : Type} [DecidableEq α] {xs ys : List α} {y : α} :
    y ∈ xs.foldl appendNew ys ↔ y ∈ ys ∨ y ∈ xs := by
  induction xs generalizing ys with
  | nil => simp
  | cons x xs ih => rw [List.foldl_cons, ih, mem_appendNew, List.mem_cons, or_assoc]

@[simp] theorem mem_firstOccurrences {α : Type} [DecidableEq α] {xs : List α} {y : α} : y ∈ firstOccurrences xs ↔ y ∈ xs := by
  simp [firstOccurrences, mem_foldl_appendNew]

theorem nodup_appendNew {α : Type} [DecidableEq α] {xs : List α} (h : xs.Nodup) (x : α) : (appendNew xs x).Nodup := by
  unfold appendNew
  split
  · exact h
  · rename_i hx
    refine List.nodup_append.mpr ⟨h, by simp, fun y hy z hz he => hx ?_⟩
    rwa [he, List.mem_singleton.mp hz] at hy

theorem nodup_foldl_appendNew {α : Type} [DecidableEq α] {xs ys : List α} (h : ys.Nodup) : (xs.foldl appendNew ys).Nodup := by
  induction xs generalizing ys with
  | nil => exact h
  | cons x xs ih => exact ih (nodup_appendNew h x)

namespace Entries

variable {κ α : Type} [DecidableEq κ]

@[simp] theorem lookup?_nil (k : κ) : lookup? ([] : Entries κ α) k = none := rfl

theorem lookup?_cons (e : κ × α) (es : Entries κ α) (k : κ) :
    lookup? (e :: es) k = if e.1 = k then some e.2 else lookup? es k := by
  by_cases h : e.1 = k <;> simp [lookup?, h]

theorem lookup?_append (es fs : Entries κ α) (k : κ) :
    lookup? (es ++ fs) k = (lookup? es k).or (lookup? fs k) := by
  induction es with
  | nil => simp
  | cons e es ih =>
    rw [List.cons_append, lookup?_cons, lookup?_cons, ih]
    split <;> simp

theorem lookup?_eq_none_iff {es : Entries κ α} {k : κ} : lookup? es k = none ↔ k ∉ es.map (·.1) := by
  induction es with
  | nil => simp
  | cons e es ih =>
    rw [lookup?_cons]
    by_cases h : e.1 = k
    · simp [h]
    · simp [h, ih, Ne.symm h]

/-- A new key goes to the end and leaves the others as they were. -/
theorem lookup?_append_new {es : Entries κ α} {k : κ} (h : lookup? es k = none) (a : α) (k' : κ) :
    lookup? (es ++ [(k, a)]) k' = if k' = k then some a else lookup? es k' := by
  rw [lookup?_append, lookup?_cons]
  by_cases e : k' = k
  · subst e; simp [h]
  · simp [e, Ne.symm e]

theorem mem_of_lookup? {es : Entries κ α} {k : κ} {a : α} (h : lookup? es k = some a) : (k, a) ∈ es := by
  induction es with
  | nil => cases h
  | cons e es ih =>
    rw [lookup?_cons] at h
    split at h
    · rename_i hk
      cases h; subst hk
      exact List.mem_cons_self
    · exact List.mem_cons_of_mem _ (ih h)

theorem lookup?_eq_some_iff {es : Entries κ α} (hn : (es.map (·.1)).Nodup) {k : κ} {a : α} :
    lookup? es k = some a ↔ (k, a) ∈ es := by
  refine ⟨mem_of_lookup?, fun h => ?_⟩
  induction es with
  | nil => cases h
  | cons e es ih =>
    simp only [List.map_cons, List.nodup_cons] at hn
    rw [lookup?_cons]
    rcases List.mem_cons.mp h with rfl | h
    · rw [if_pos rfl]
    · have hne : e.1 ≠ k := fun e' => hn.1 (e' ▸ List.mem_map_of_mem (f := (·.1)) h)
      rw [if_neg hne, ih hn.2 h]

/-- A key that stands for one value only is looked up as that value. -/
theorem lookup?_eq_of_mem_iff {es : Entries κ α} {k : κ} {o : Option α} (h : ∀ a, (k, a) ∈ es ↔ o = some a) :
    lookup? es k = o := by
  cases hk : lookup? es k with
  | some a => exact ((h a).mp (mem_of_lookup? hk)).symm
  | none =>
    refine (Option.eq_none_iff_forall_ne_some.mpr fun a ha => ?_).symm
    exact lookup?_eq_none_iff.mp hk (List.mem_map_of_mem (f := (·.1)) ((h a).mpr ha))

/-- Where no key occurs twice the order does not matter. -/
theorem lookup?_perm {es fs : Entries κ α} (hn : (es.map (·.1)).Nodup) (h : es.Perm fs) (k : κ) : lookup? es k = lookup? fs k :=
  Option.ext fun a => by rw [lookup?_eq_some_iff hn, lookup?_eq_some_iff ((h.map _).nodup_iff.mp hn), h.mem_iff]

theorem lookup?_eq_head?_filter (es : Entries κ α) (k : κ) :
    lookup? es k = ((es.filter fun e => e.1 = k).head?).map (·.2) := by
  rw [lookup?, List.head?_filter]

theorem lookup?_mapValues {β : Type} (f : α → β) (es : Entries κ α) (k : κ) :
    lookup? (es.map fun e => (e.1, f e.2)) k = (lookup? es k).map f := by
  induction es with
  | nil => rfl
  | cons e es ih =>
    rw [List.map_cons, lookup?_cons, lookup?_cons, ih]
    split <;> rfl

theorem has_iff {es : Entries κ α} {k : κ} : has es k = true ↔ k ∈ es.map (·.1) := by
  simp [has]

theorem lookup?_replace (es : Entries κ α) (k : κ) (a : α) (k' : κ) :
    lookup? (es.map fun e => if e.1 = k then (k, a) else e) k' =
      if k' = k then (lookup? es k).map fun _ => a else lookup? es k' := by
  induction es with
  | nil => simp
  | cons e es ih =>
    rw [List.map_cons, lookup?_cons, lookup?_cons, lookup?_cons, ih]
    by_cases he : e.1 = k
    · by_cases hk : k' = k
      · simp [he, hk]
      · simp [he, hk, Ne.symm hk]
    · by_cases hk : k' = k
      · simp [he, hk]
      · simp [he, hk]

theorem lookup?_set (es : Entries κ α) (k : κ) (a : α) (k' : κ) :
    lookup? (set es k a) k' = if k' = k then some a else lookup? es k' := by
  unfold set
  cases hk : lookup? es k with
  | none =>
    have h : ¬has es k = true := fun h => lookup?_eq_none_iff.mp hk (has_iff.mp h)
    rw [if_neg h, lookup?_append_new hk]
  | some a' =>
    have h : has es k = true := has_iff.mpr (List.mem_map_of_mem (f := (·.1)) (mem_of_lookup? hk))
    rw [if_pos h, lookup?_replace, hk]
    rfl

theorem nodup_set {es : Entries κ α} (hn : (es.map (·.1)).Nodup) (k : κ) (a : α) :
    ((set es k a).map (·.1)).Nodup := by
  unfold set
  split
  · have hkeys : (es.map fun e => if e.1 = k then (k, a) else e).map (·.1) = es.map (·.1) := by
      rw [List.map_map]
      refine List.map_congr_left fun e _ => ?_
      by_cases he : e.1 = k <;> simp [he]
    rwa [hkeys]
  · rename_i h
    rw [List.map_append]
    refine List.nodup_append.mpr ⟨hn, by simp, fun x hx y hy he => ?_⟩
    rw [he, List.mem_singleton.mp hy] at hx
    exact h (has_iff.mpr hx)

theorem nodup_setAll (more : Entries κ α) : ((setAll [] more).map (·.1)).Nodup := by
  refine List.foldlRecOn (motive := fun es : Entries κ α => (es.map (·.1)).Nodup) more _ ?_ fun _ hes e _ => ?_
  · exact List.nodup_nil
  · exact nodup_set hes e.1 e.2

/-- What holds of all that is set under its key holds of all that is found. -/
theorem of_lookup?_setAll {P : κ → α → Prop} {more : Entries κ α} (hmore : ∀ e ∈ more, P e.1 e.2) {k : κ} {a : α}
    (h : lookup? (setAll [] more) k = some a) : P k a := by
  refine List.foldlRecOn (motive := fun es => ∀ k a, lookup? es k = some a → P k a) more _ (fun k a h => by cases h) ?_ k a h
  intro es hes e he k a h
  rw [lookup?_set] at h
  split at h
  · rename_i hk
    cases h
    exact hk ▸ hmore e he
  · exact hes k a h

theorem setAll_append {es more : Entries κ α} (hn : ((es ++ more).map (·.1)).Nodup) : setAll es more = es ++ more := by
  induction more generalizing es with
  | nil => exact (List.append_nil es).symm
  | cons e more ih =>
    have hnew : ¬has es e.1 = true := by
      intro h
      rw [List.map_append, List.map_cons] at hn
      exact (List.nodup_append.mp hn).2.2 e.1 (has_iff.mp h) e.1 List.mem_cons_self rfl
    have hset : set es e.1 e.2 = es ++ [e] := if_neg hnew
    rw [List.append_cons] at hn ⊢
    rw [setAll, List.foldl_cons, hset]
    exact ih hn

theorem setAll_nil {es : Entries κ α} (hn : (es.map (·.1)).Nodup) : setAll [] es = es := by
  rw [setAll_append (by rwa [List.nil_append]), List.nil_append]

end Entries

end TypeRecovery
