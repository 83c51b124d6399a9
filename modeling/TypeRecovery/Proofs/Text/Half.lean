/-
  TypeRecovery.Proofs.Text.Half — halves of surrogate pairs are kept apart.

  Signs are plain for a mark if none of them is the mark itself. The mark that is taken is not
  among the characters that had to be avoided, as long as they leave one; so what is read is
  plain. Then the text in which signs are spelled holds the mark just where it holds a half, and
  no two lists of signs are spelled alike.

  Proved:
  - `not_taken_fresh`: the mark that is taken.
  - `hexDigits_inj`: the digits of a half.
  - `isIn_spell`: which texts hold a half.
  - `spell_inj`: different signs are spelled differently.
-/

import Mathlib.Logic.Basic
import TypeRecovery.Text.Half

namespace TypeRecovery.Text

/-! ## Marks -/

theorem toNat_ofNat {n : Nat} (h : n.isValidChar) : (Char.ofNat n).toNat = n := by
  rw [Char.ofNat, dif_pos h]
  rfl

namespace Mark

theorem toNat_char (m : Mark) : m.char.toNat = 0xac00 + m.index :=
  toNat_ofNat (Or.inl (by have := m.index.isLt; omega))

/-- Marks lie between the characters of ASCII and the surrogates. -/
theorem toNat_char_bounds (m : Mark) : 0xac00 ≤ m.char.toNat ∧ m.char.toNat < 0xd800 := by
  have hlt := m.index.isLt
  rw [toNat_char]
  omega

theorem not_taken_freshUpTo {taken : Char → Bool} {n : Nat} {m : Mark} (hm : taken m.char = false) (hn : m.index ≤ n)
    (hlt : n < 11172) : taken (freshUpTo taken n).char = false := by
  induction n with
  | zero =>
    have hfirst : m = first := congrArg Mark.mk (Fin.ext (Nat.le_zero.mp hn))
    rwa [hfirst] at hm
  | succ n ih =>
    unfold freshUpTo
    dsimp only
    split
    · rename_i htaken
      refine ih (Nat.le_of_lt_succ (Nat.lt_of_le_of_ne hn fun he => ?_)) (Nat.lt_of_succ_lt hlt)
      have hlast : m = ⟨Fin.ofNat 11172 (n + 1)⟩ :=
        congrArg Mark.mk (Fin.ext (by rw [he, Fin.val_ofNat, Nat.mod_eq_of_lt hlt]))
      rw [← hlast, hm] at htaken
      cases htaken
    · rename_i hfree
      exact Bool.eq_false_iff.mpr hfree

/-- Unless every mark is taken, one is found that is not. -/
theorem not_taken_fresh {taken : Char → Bool} {m : Mark} (hm : taken m.char = false) : taken (fresh taken).char = false :=
  not_taken_freshUpTo hm (Nat.le_of_lt_succ m.index.isLt) (by decide)

end Mark

/-! ## Digits -/

theorem digitChar_inj {a b : Nat} (ha : a < 16) (hb : b < 16) (h : Nat.digitChar a = Nat.digitChar b) : a = b := by
  have hall : ∀ a b : Fin 16, Nat.digitChar a = Nat.digitChar b → a = b := by decide
  exact congrArg Fin.val (hall ⟨a, ha⟩ ⟨b, hb⟩ h)

theorem hexDigits_inj {u v : Nat} (hu : u < 0x10000) (hv : v < 0x10000) (h : hexDigits 4 u = hexDigits 4 v) : u = v := by
  have hdigit : ∀ {a b : Nat}, Nat.digitChar (a % 16) = Nat.digitChar (b % 16) → a % 16 = b % 16 := fun h =>
    digitChar_inj (Nat.mod_lt _ (by decide)) (Nat.mod_lt _ (by decide)) h
  simp only [hexDigits, List.nil_append, List.cons_append, List.cons.injEq, and_true] at h
  obtain ⟨h3, h2, h1, h0⟩ := h
  have h3 := hdigit h3
  have h2 := hdigit h2
  have h1 := hdigit h1
  have h0 := hdigit h0
  omega

/-! ## Signs -/

/-- A character that is not the mark, or a half with four digits. -/
def Sign.Plain (m : Mark) : Sign → Prop
  | .char c => c ≠ m.char
  | .half unit => unit < 0x10000

theorem Mark.isIn_iff {m : Mark} {s : String} : m.isIn s = true ↔ m.char ∈ s.toList := List.contains_iff_mem

variable {m : Mark} {xs ys : List Sign}

/-- Of plain signs a text holds the mark exactly if one of them is a half. -/
theorem isIn_spell (hx : ∀ x ∈ xs, x.Plain m) : m.isIn (spell m xs) = true ↔ ∃ unit, Sign.half unit ∈ xs := by
  rw [Mark.isIn_iff, spell, String.toList_ofList, List.mem_flatMap]
  constructor
  · rintro ⟨x, hmem, hspelled⟩
    cases x with
    | char c => exact absurd (List.mem_singleton.mp hspelled).symm (hx _ hmem)
    | half unit => exact ⟨unit, hmem⟩
  · rintro ⟨unit, hmem⟩
    exact ⟨_, hmem, List.mem_cons_self⟩

theorem flatMap_spelled_inj (hx : ∀ x ∈ xs, x.Plain m) (hy : ∀ y ∈ ys, y.Plain m)
    (h : xs.flatMap (Sign.spelled m) = ys.flatMap (Sign.spelled m)) : xs = ys := by
  induction xs generalizing ys with
  | nil =>
    cases ys with
    | nil => rfl
    | cons y ys => cases y <;> cases h
  | cons x xs ih =>
    obtain ⟨hhead, htail⟩ := List.forall_mem_cons.mp hx
    cases ys with
    | nil => cases x <;> cases h
    | cons y ys =>
      obtain ⟨hhead', htail'⟩ := List.forall_mem_cons.mp hy
      cases x with
      | char c =>
        cases y with
        | char d =>
          obtain ⟨rfl, hrest⟩ := List.cons_eq_cons.mp h
          rw [ih htail htail' hrest]
        | half v => exact absurd (List.cons_eq_cons.mp h).1 hhead
      | half u =>
        cases y with
        | char d => exact absurd (List.cons_eq_cons.mp h).1.symm hhead'
        | half v =>
          obtain ⟨hdigits, hrest⟩ := List.append_inj (List.cons_eq_cons.mp h).2 rfl
          rw [hexDigits_inj hhead hhead' hdigits, ih htail htail' hrest]

theorem spell_inj (hx : ∀ x ∈ xs, x.Plain m) (hy : ∀ y ∈ ys, y.Plain m) (h : spell m xs = spell m ys) : xs = ys :=
  flatMap_spelled_inj hx hy (String.ofList_injective h)

end TypeRecovery.Text
