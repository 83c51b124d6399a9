/-
  TypeRecovery.Proofs.Text.Digits — numbers in decimal digits.

  Proved: a natural number is written in ASCII digits, at least one and none of them an idle
  zero, and they write that number (`isDigit_of_mem_repr`, `repr_eq_cons`, `head?_repr_ne_zero`,
  `naturalOf_repr`); an integer is written as a natural number, with a minus sign in front if it
  is negative (`toString_natCast`, `toString_negative`, `toString_eq_cons`); and the reader that
  takes the digits of every script takes it for what it is (`integer?_toString`).
-/

import TypeRecovery.Text.DecimalDigit
import TypeRecovery.Text.Digits

namespace TypeRecovery.Text

theorem naturalOf_eq (cs : List Char) : naturalOf cs = Nat.ofDigitChars 10 cs 0 := rfl

theorem isDigit_of_mem_repr {n : Nat} {c : Char} (h : c ∈ n.repr.toList) : isDigit c = true := by
  rw [Nat.toList_repr] at h
  exact Nat.isDigit_of_mem_toDigits (by decide) (by decide) h

theorem repr_ne_nil (n : Nat) : n.repr.toList ≠ [] := by
  rw [Nat.toList_repr]
  exact Nat.toDigits_ne_nil

theorem repr_eq_cons (n : Nat) : ∃ c cs, n.repr.toList = c :: cs ∧ isDigit c = true := by
  obtain ⟨c, cs, hcs⟩ := List.exists_cons_of_ne_nil (repr_ne_nil n)
  exact ⟨c, cs, hcs, isDigit_of_mem_repr (n := n) (hcs ▸ List.mem_cons_self)⟩

/-- No number but zero begins with a zero. -/
theorem head?_repr_ne_zero {n : Nat} (h : 0 < n) : n.repr.toList.head? ≠ some '0' := by
  induction n using Nat.strongRecOn with
  | ind n ih =>
    by_cases hn : n < 10
    · rw [Nat.repr_of_lt hn, String.toList_singleton, List.head?_cons, ne_eq, Option.some_inj, Nat.digitChar_eq_zero]
      omega
    · have hfirst := ih (n / 10) (by omega) (by omega)
      obtain ⟨c, cs, hcs, -⟩ := repr_eq_cons (n / 10)
      rw [hcs] at hfirst
      rw [Nat.repr_of_ge (Nat.not_lt.mp hn), String.toList_append, hcs]
      exact hfirst

theorem naturalOf_repr (n : Nat) : naturalOf n.repr.toList = n := by
  rw [Nat.toList_repr, naturalOf_eq, Nat.ofDigitChars_ten_toDigits]

theorem toString_natCast (n : Nat) : toString (n : Int) = n.repr := rfl

theorem toString_negative (n : Nat) : toString (Int.negSucc n) = "-" ++ (n + 1).repr := rfl

/-- What an integer is written as begins with a digit, or with a minus sign and a digit. -/
theorem toString_eq_cons (n : Int) : ∃ c cs, (toString n).toList = c :: cs ∧ (isDigit c = true ∨
    c = '-' ∧ ∃ d ds, cs = d :: ds ∧ isDigit d = true) := by
  cases n with
  | ofNat n =>
    obtain ⟨c, cs, hcs, hc⟩ := repr_eq_cons n
    exact ⟨c, cs, hcs, Or.inl hc⟩
  | negSucc n =>
    obtain ⟨c, cs, hcs, hc⟩ := repr_eq_cons (n + 1)
    refine ⟨'-', c :: cs, ?_, Or.inr ⟨rfl, c, cs, rfl, hc⟩⟩
    rw [toString_negative, String.toList_append, hcs]
    rfl

/-! ## Read with the digits of every script -/

theorem isDigit_iff {c : Char} : isDigit c = true ↔ 0x30 ≤ c.toNat ∧ c.toNat ≤ 0x39 := by
  rw [isDigit, Bool.and_eq_true, decide_eq_true_eq, decide_eq_true_eq, Char.le_def, Char.le_def, UInt32.le_iff_toNat_le,
    UInt32.le_iff_toNat_le]
  rfl

theorem decimalValue?_of_isDigit {c : Char} (h : isDigit c = true) : decimalValue? c = some (digitValue c) := by
  obtain ⟨hlow, hhigh⟩ := isDigit_iff.mp h
  have hlimit : c.toNat < 0x30 + 10 := by omega
  simp [decimalValue?, decimalZeros, hlow, hlimit, digitValue]

theorem digitsFrom_digits {cs : List Char} (h : ∀ c ∈ cs, isDigit c = true) (n : Nat) :
    digitsFrom n false cs = some (cs.foldl (fun n c => 10 * n + digitValue c) n) := by
  induction cs generalizing n with
  | nil => rfl
  | cons c cs ih =>
    obtain ⟨hc, hcs⟩ := List.forall_mem_cons.mp h
    have hline : c ≠ '_' := fun e => absurd hc (by rw [e]; decide)
    rw [digitsFrom, if_neg hline, decimalValue?_of_isDigit hc]
    exact ih hcs _

theorem natural?_repr (n : Nat) : natural? n.repr.toList = some n := by
  obtain ⟨c, cs, hcs, hc⟩ := repr_eq_cons n
  have hdigits : ∀ d ∈ cs, isDigit d = true := fun d hd => isDigit_of_mem_repr (n := n) (hcs ▸ List.mem_cons_of_mem c hd)
  have hvalue := naturalOf_repr n
  rw [hcs, naturalOf, List.foldl_cons, Nat.mul_zero, Nat.zero_add] at hvalue
  rw [hcs, natural?, decimalValue?_of_isDigit hc, Option.bind_some, digitsFrom_digits hdigits, hvalue]

theorem trimBy_eq_self {p : Char → Bool} {cs : List Char} (h : ∀ c ∈ cs, p c = false) : trimBy p cs = cs := by
  have hdrop : ∀ ds : List Char, (∀ c ∈ ds, p c = false) → ds.dropWhile p = ds := by
    intro ds hds
    cases ds with
    | nil => rfl
    | cons d ds => exact List.dropWhile_cons_of_neg (by simp [hds d List.mem_cons_self])
  rw [trimBy, trimEndBy, hdrop cs h, hdrop cs.reverse fun c hc => h c (List.mem_reverse.mp hc), List.reverse_reverse]

/-- No digit and no sign is a blank. -/
theorem isIntegerMargin_eq_false {c : Char} (h : isDigit c = true ∨ c = '-') : isIntegerMargin c = false := by
  have hcode : c.toNat ∉ blanks := by
    rcases h with h | rfl
    · obtain ⟨hlow, hhigh⟩ := isDigit_iff.mp h
      intro hmem
      have hall : ∀ n ∈ blanks, n < 0x30 ∨ 0x39 < n := by decide
      have := hall _ hmem
      omega
    · decide
  simp [isIntegerMargin, isBlank, hcode]

theorem integer?_toString (n : Int) : integer? (toString n) = some n := by
  cases n with
  | ofNat n =>
    have hdigits : ∀ c ∈ n.repr.toList, isDigit c = true := fun c => isDigit_of_mem_repr
    have htrim : trimBy isIntegerMargin n.repr.toList = n.repr.toList :=
      trimBy_eq_self fun c hc => isIntegerMargin_eq_false (Or.inl (hdigits c hc))
    have hread := natural?_repr n
    show integer? n.repr = some (n : Int)
    rw [integer?, htrim]
    split
    · rename_i h
      exact absurd (hdigits '-' (h ▸ List.mem_cons_self)) (by decide)
    · rename_i h
      exact absurd (hdigits '+' (h ▸ List.mem_cons_self)) (by decide)
    · rw [hread]
      rfl
  | negSucc n =>
    have hchars : (toString (Int.negSucc n)).toList = '-' :: (n + 1).repr.toList := by
      rw [toString_negative, String.toList_append]
      rfl
    have htrim : trimBy isIntegerMargin ('-' :: (n + 1).repr.toList) = '-' :: (n + 1).repr.toList := by
      refine trimBy_eq_self fun c hc => isIntegerMargin_eq_false ?_
      rcases List.mem_cons.mp hc with rfl | hc
      · exact Or.inr rfl
      · exact Or.inl (isDigit_of_mem_repr hc)
    rw [integer?, hchars, htrim]
    simp only [natural?_repr]
    rfl

end TypeRecovery.Text
