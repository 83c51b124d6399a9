/-
  TypeRecovery.Proofs.Order — sorting by keys.

  Labels, variables and targets are compared by their keys: triples of integers, names with
  lists of such triples, and ranks with texts. The keys are in a linear order, so a sorted list
  can depend on the order in which its elements came only where two of them have one key. No
  two labels have: the first number is the kind, and the others are all that its labels differ
  in. So no two variables have, whose paths are compared label by label and not joined into one
  list of numbers; and no two targets have, since a number is read back from its digits and a
  name, even one made of the same digits, is of another rank.

  Proved:
  - `mergeSort_eq_of_perm`, `pairwise_not_le_mergeSort`: elements no two of which tie have one sorted
    list, in whatever order they came, and it ascends strictly.
  - `mergeSort_key_eq_of_perm`, `pairwise_lt_mergeSort_key`: so have elements whose keys differ.
  - `SortKey`, `TypeVar.compareKeys` and `Target.compareKeys` are linear orders (instances).
  - `Label.sortKey_inj`, `TypeVar.sortKey_inj`, `Target.sortKey_inj`: keys tell elements apart.
  - `Label.sortedByKey`, `TypeVar.sortedByKey`, `Target.sortedByKey`: so each kind of element has
    one order, in which a number stands before every name (`Target.number_before_name`).
-/

import Mathlib.Data.List.Basic
import TypeRecovery.Proofs.Text.Digits
import TypeRecovery.TypeVar

namespace TypeRecovery

/-! ## Sorted lists -/

section Sorted

variable {α : Type} {r : α → α → Bool} (htrans : ∀ a b c, r a b = true → r b c = true → r a c = true)
  (htotal : ∀ a b, (r a b || r b a) = true)
  {xs : List α} (hanti : ∀ a ∈ xs, ∀ b ∈ xs, r a b = true → r b a = true → a = b)
include htrans htotal hanti

/-- Where no two elements tie, a sorted list does not show in which order they came. -/
theorem mergeSort_eq_of_perm {ys : List α} (h : xs.Perm ys) : xs.mergeSort r = ys.mergeSort r := by
  have hperm : (xs.mergeSort r).Perm (ys.mergeSort r) :=
    ((List.mergeSort_perm xs r).trans h).trans (List.mergeSort_perm ys r).symm
  refine hperm.eq_of_pairwise (fun a b ha hb hab hba => ?_) (List.pairwise_mergeSort htrans htotal xs)
    (List.pairwise_mergeSort htrans htotal ys)
  exact hanti a (List.mem_mergeSort.mp ha) b (h.mem_iff.mpr (List.mem_mergeSort.mp hb)) hab hba

/-- No element of it is below one that stands before it. -/
theorem pairwise_not_le_mergeSort (hn : xs.Nodup) : (xs.mergeSort r).Pairwise fun a b => r b a = false := by
  have hnodup : (xs.mergeSort r).Nodup := (List.mergeSort_perm xs r).nodup_iff.mpr hn
  refine ((List.pairwise_mergeSort htrans htotal xs).and hnodup).imp_of_mem fun {a b} ha hb ⟨hab, hne⟩ => ?_
  exact Bool.eq_false_iff.mpr fun hba => hne (hanti a (List.mem_mergeSort.mp ha) b (List.mem_mergeSort.mp hb) hab hba)

end Sorted

/-! ## Elements compared by a key -/

section Keys

variable {α κ : Type} {cmp : κ → κ → Ordering} [Std.TransCmp cmp]

/-- What is compared by a part of it is in the order of that part. -/
theorem transCmp_part (part : α → κ) : Std.TransCmp fun a b => cmp (part a) (part b) where
  eq_swap := Std.OrientedCmp.eq_swap
  isLE_trans := Std.TransCmp.isLE_trans

theorem isLE_total (a b : κ) : ((cmp a b).isLE || (cmp b a).isLE) = true := by
  have hswap : cmp b a = (cmp a b).swap := Std.OrientedCmp.eq_swap
  rw [hswap]
  cases cmp a b <;> rfl

variable [Std.LawfulEqCmp cmp] (key : α → κ) {xs : List α} (hkey : ∀ a ∈ xs, ∀ b ∈ xs, key a = key b → a = b)
include hkey

theorem key_antisymm : ∀ a ∈ xs, ∀ b ∈ xs, (cmp (key a) (key b)).isLE = true → (cmp (key b) (key a)).isLE = true → a = b :=
  fun a ha b hb hab hba => hkey a ha b hb (Std.LawfulEqCmp.eq_of_compare (Std.OrientedCmp.isLE_antisymm hab hba))

/-- Elements whose keys differ have one sorted list, in whatever order they came. -/
theorem mergeSort_key_eq_of_perm {ys : List α} (h : xs.Perm ys) :
    xs.mergeSort (fun a b => (cmp (key a) (key b)).isLE) = ys.mergeSort (fun a b => (cmp (key a) (key b)).isLE) :=
  mergeSort_eq_of_perm (fun _ _ _ => Std.TransCmp.isLE_trans) (fun a b => isLE_total (key a) (key b)) (key_antisymm key hkey) h

/-- Each element of it is below all that follow. -/
theorem pairwise_lt_mergeSort_key (hn : xs.Nodup) :
    (xs.mergeSort fun a b => (cmp (key a) (key b)).isLE).Pairwise fun a b => cmp (key a) (key b) = .lt := by
  have hsorted := pairwise_not_le_mergeSort (r := fun a b => (cmp (key a) (key b)).isLE) (fun _ _ _ => Std.TransCmp.isLE_trans)
    (fun a b => isLE_total (key a) (key b)) (key_antisymm key hkey) hn
  refine hsorted.imp fun h => ?_
  rw [Ordering.isLE_eq_false] at h
  exact Std.OrientedCmp.lt_of_gt h

end Keys

/-- A key tells elements apart, and by it any list of them has one order, which is strict where none
comes twice. -/
structure SortedByKey {α κ : Type} (key : α → κ) (compare : α → α → Ordering) : Prop where
  injective : Function.Injective key
  tie_iff {a b : α} : compare a b = .eq ↔ key a = key b
  sort_eq {xs ys : List α} : xs.Perm ys →
    xs.mergeSort (fun a b => (compare a b).isLE) = ys.mergeSort (fun a b => (compare a b).isLE)
  strict {xs : List α} : xs.Nodup → (xs.mergeSort fun a b => (compare a b).isLE).Pairwise fun a b => compare a b = .lt

theorem sortedByKey_of_injective {α κ : Type} {cmp : κ → κ → Ordering} [Std.TransCmp cmp] [Std.LawfulEqCmp cmp]
    {key : α → κ} (h : Function.Injective key) : SortedByKey key fun a b => cmp (key a) (key b) where
  injective := h
  tie_iff := Std.LawfulEqCmp.compare_eq_iff_eq
  sort_eq hperm := mergeSort_key_eq_of_perm key (fun _ _ _ _ he => h he) hperm
  strict hn := pairwise_lt_mergeSort_key key (fun _ _ _ _ he => h he) hn

/-! ## Labels -/

instance : Std.TransCmp SortKey.compare :=
  inferInstanceAs (Std.TransCmp (compareLex (compareOn fun k : SortKey => k.1)
    (compareLex (compareOn fun k : SortKey => k.2.1) (compareOn fun k : SortKey => k.2.2))))

instance : Std.LawfulEqCmp SortKey.compare where
  eq_of_compare {a b} h := by
    simp only [SortKey.compare, Ordering.then_eq_eq, Int.compare_eq_eq] at h
    exact Prod.ext h.1 (Prod.ext h.2.1 h.2.2)

namespace Label

/-- The kind stands first, and a label of a kind is what the rest of its key says. -/
theorem sortKey_inj {a b : Label} (h : a.sortKey = b.sortKey) : a = b := by
  have hkind : a.sortKey.1 = b.sortKey.1 := congrArg (·.1) h
  have hfirst : a.sortKey.2.1 = b.sortKey.2.1 := congrArg (·.2.1) h
  have hsecond : a.sortKey.2.2 = b.sortKey.2.2 := congrArg (·.2.2) h
  cases a <;> cases b <;> simp only [sortKey] at hkind hfirst hsecond <;> try first | rfl | omega
  case input.input i j => exact congrArg Label.input (by omega)
  case output.output i j => exact congrArg Label.output (by omega)
  case field.field f g => exact congrArg Label.field (by cases f; cases g; simp_all)

theorem sortedByKey : SortedByKey sortKey compare := sortedByKey_of_injective fun _ _ => sortKey_inj

end Label

/-! ## Variables -/

namespace TypeVar

instance : Std.TransCmp compareKeys :=
  have : Std.TransCmp fun a b : String × List SortKey => List.compareLex SortKey.compare a.2 b.2 := transCmp_part Prod.snd
  inferInstanceAs (Std.TransCmp (compareLex (compareOn Prod.fst) fun a b => List.compareLex SortKey.compare a.2 b.2))

instance : Std.LawfulEqCmp compareKeys where
  eq_of_compare {a b} h := by
    obtain ⟨hbase, hpath⟩ := Ordering.then_eq_eq.mp h
    exact Prod.ext (Std.LawfulEqCmp.eq_of_compare hbase) (Std.LawfulEqCmp.eq_of_compare hpath)

theorem sortKey_inj {v w : TypeVar} (h : v.sortKey = w.sortKey) : v = w := by
  obtain ⟨base, path⟩ := v
  obtain ⟨base', path'⟩ := w
  obtain ⟨hbase, hpath⟩ := Prod.ext_iff.mp h
  have hlabels : path = path' := List.map_injective_iff.mpr (fun _ _ => Label.sortKey_inj) hpath
  exact congrArg₂ TypeVar.mk hbase hlabels

theorem sortedByKey : SortedByKey sortKey compare := sortedByKey_of_injective fun _ _ => sortKey_inj

end TypeVar

/-! ## Targets -/

namespace Target

instance : Std.TransCmp compareKeys :=
  inferInstanceAs (Std.TransCmp (compareLex (compareOn Prod.fst) (compareOn Prod.snd)))

instance : Std.LawfulEqCmp compareKeys where
  eq_of_compare {a b} h := by
    obtain ⟨hrank, htext⟩ := Ordering.then_eq_eq.mp h
    exact Prod.ext (Std.LawfulEqCmp.eq_of_compare hrank) (Std.LawfulEqCmp.eq_of_compare htext)

/-- A number is known by its digits, of which it is read back. -/
theorem toString_number_inj {n m : Int} (h : toString n = toString m) : n = m := by
  have hread := Text.integer?_toString n
  rw [h, Text.integer?_toString, Option.some_inj] at hread
  exact hread.symm

theorem sortKey_inj {t u : Target} (h : t.sortKey = u.sortKey) : t = u := by
  obtain ⟨hrank, htext⟩ := Prod.ext_iff.mp h
  cases t with
  | number n =>
    cases u with
    | number m => exact congrArg number (toString_number_inj htext)
    | name s => cases hrank
  | name s =>
    cases u with
    | number m => cases hrank
    | name s' => exact congrArg name htext

theorem sortedByKey : SortedByKey sortKey compare := sortedByKey_of_injective fun _ _ => sortKey_inj

/-- The rank decides before any text is looked at. -/
theorem number_before_name (n : Int) (s : String) : (number n).compare (name s) = .lt := rfl

end Target

end TypeRecovery
