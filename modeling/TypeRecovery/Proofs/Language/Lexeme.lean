/-
  TypeRecovery.Proofs.Language.Lexeme — lexemes read back as they were written.

  A scanner `Scans` some characters when it reads exactly those, whatever stands behind them
  as long as that does not prolong the lexeme: no digit behind a number, no name character
  behind a name or a label (`Stops`).

  Proved:
  - `run_append`, `scans_run1`, `scans_word`: the pieces that lexemes are made of.
  - `scans_natural`, `scans_signed`, `scans_integer`: numbers.
  - `scans_identifier`, `scans_quoted`, `scans_quotedName`: names, bare and in quotes.
  - `scans_indexed`, `scans_fieldLabel`, `scans_load`, `scans_store`: labels.
-/

import TypeRecovery.Language.Printer
import TypeRecovery.Proofs.Text.Digits

namespace TypeRecovery.Language

open Text (isDigit naturalOf)

variable {α : Type}

/-- What comes next does not satisfy `p`, if anything comes. -/
def Stops (p : Char → Bool) (rest : List Char) : Prop := ∀ c ∈ rest.head?, p c = false

theorem stops_nil (p : Char → Bool) : Stops p [] := fun _ h => nomatch h

theorem stops_cons {p : Char → Bool} {c : Char} {rest : List Char} : Stops p (c :: rest) ↔ p c = false := by
  simp [Stops]

theorem stops_dropWhile (p : Char → Bool) (cs : List Char) : Stops p (cs.dropWhile p) := by
  intro c hc
  have hnot := List.head?_dropWhile_not p cs
  rw [Option.mem_def] at hc
  rw [hc] at hnot
  exact hnot

theorem Stops.mono {p q : Char → Bool} {rest : List Char} (h : Stops q rest) (hpq : ∀ c, p c = true → q c = true) :
    Stops p rest := fun c hc => by
  have := h c hc
  cases hp : p c with
  | false => rfl
  | true => rw [hpq c hp] at this; cases this

theorem Stops.takeWhile {p : Char → Bool} {rest : List Char} (h : Stops p rest) : rest.takeWhile p = [] := by
  cases rest with
  | nil => rfl
  | cons c rest => simp [stops_cons.mp h]

theorem Stops.dropWhile {p : Char → Bool} {rest : List Char} (h : Stops p rest) : rest.dropWhile p = rest := by
  cases rest with
  | nil => rfl
  | cons c rest => simp [stops_cons.mp h]

theorem atNameEnd_of_stops {rest : List Char} (h : Stops isNameChar rest) : atNameEnd rest = true := by
  cases rest with
  | nil => rfl
  | cons c rest => simp [atNameEnd, stops_cons.mp h]

/-- The scanner reads exactly the characters `taken` in front of `rest`. -/
def Scans (s : Scanner α) (taken : List Char) (a : α) (rest : List Char) : Prop :=
  s (taken ++ rest) = some ⟨a, taken.length, rest⟩

/-! ## Characters -/

theorem isNameChar_of_isDigit {c : Char} (h : isDigit c = true) : isNameChar c = true := by simp [isNameChar, h]

theorem isNameChar_of_isNameStart {c : Char} (h : isNameStart c = true) : isNameChar c = true := by simp [isNameChar, h]

/-- A name character is none of those that need quotes or cannot be quoted. -/
theorem isNameChar_ne {c d : Char} (h : isNameChar c = true) (hd : isNameChar d = false) : c ≠ d := by
  rintro rfl
  rw [h] at hd
  cases hd

theorem isQuotable_of_isNameChar {c : Char} (h : isNameChar c = true) : isQuotable c = true := by
  simp only [isQuotable, ne_eq, decide_not, Bool.and_eq_true, Bool.not_eq_true', decide_eq_false_iff_not]
  exact ⟨⟨isNameChar_ne h (by decide), isNameChar_ne h (by decide)⟩, isNameChar_ne h (by decide)⟩

/-- Digits stand before all the characters that may begin a name, except for the dollar. -/
theorem isDigit_eq_false_of_isNameStart {c : Char} (h : isNameStart c = true) : isDigit c = false := by
  simp only [isNameStart, Bool.or_eq_true, Bool.and_eq_true, decide_eq_true_eq, Char.le_def,
    UInt32.le_iff_toNat_le] at h
  simp only [isDigit, Bool.and_eq_false_iff, decide_eq_false_iff_not, Char.le_def, UInt32.le_iff_toNat_le, Nat.not_le]
  rcases h with ((⟨h, -⟩ | ⟨h, -⟩) | rfl) | rfl
  · exact Or.inr (Nat.lt_of_lt_of_le (by decide) h)
  · exact Or.inr (Nat.lt_of_lt_of_le (by decide) h)
  · exact Or.inr (by decide)
  · exact Or.inl (by decide)

/-! ## Pieces -/

theorem run_append {p : Char → Bool} {taken rest : List Char} (h : ∀ c ∈ taken, p c = true) (hr : Stops p rest) :
    run p (taken ++ rest) = ⟨taken, taken.length, rest⟩ := by
  rw [run, List.takeWhile_append_of_pos h, List.dropWhile_append_of_pos h, hr.takeWhile, hr.dropWhile, List.append_nil]

theorem scans_run1 {p : Char → Bool} {taken rest : List Char} (hne : taken ≠ []) (h : ∀ c ∈ taken, p c = true)
    (hr : Stops p rest) : Scans (run1 p) taken taken rest := by
  obtain ⟨c, cs, rfl⟩ := List.exists_cons_of_ne_nil hne
  rw [Scans, List.cons_append, run1, if_pos (h c List.mem_cons_self), ← List.cons_append, run_append h hr]

theorem run1_eq_none {p : Char → Bool} {cs : List Char} (h : Stops p cs) : run1 p cs = none := by
  cases cs with
  | nil => rfl
  | cons c cs => simp [run1, stops_cons.mp h]

theorem scans_word (w rest : List Char) : Scans (word w) w () rest := by
  simp [Scans, word]

theorem word_eq_none {c d : Char} {w cs : List Char} (h : c ≠ d) : word (c :: w) (d :: cs) = none := by
  simp [word, h]

/-! ## Numbers -/

theorem scans_natural (n : Nat) {rest : List Char} (hr : Stops isDigit rest) : Scans natural n.repr.toList n rest := by
  have hrun : run1 isDigit (n.repr.toList ++ rest) = some ⟨n.repr.toList, n.repr.toList.length, rest⟩ :=
    scans_run1 (Text.repr_ne_nil n) (fun _ => Text.isDigit_of_mem_repr) hr
  simp only [Scans, natural, hrun, Option.map_some, Lexeme.map, Text.naturalOf_repr]

theorem natural_eq_none {cs : List Char} (h : Stops isDigit cs) : natural cs = none := by
  simp [natural, run1_eq_none h]

/-- A number is written in digits, or a minus sign and digits. -/
theorem signed_of_ne {c : Char} (h : c ≠ '-') (cs : List Char) :
    signed (c :: cs) = (natural (c :: cs)).map (Lexeme.map Int.ofNat) := by
  unfold signed
  split
  · rename_i he
    cases he
    exact absurd rfl h
  · rfl

theorem scans_signed (z : Int) {rest : List Char} (hr : Stops isDigit rest) : Scans signed (toString z).toList z rest := by
  cases z with
  | ofNat n =>
    have hnat := scans_natural n hr
    obtain ⟨c, cs, hc, hdigit⟩ := Text.repr_eq_cons n
    have hne : c ≠ '-' := by
      rintro rfl
      cases hdigit
    rw [Scans, hc, List.cons_append] at hnat
    rw [Int.ofNat_eq_natCast, Scans, Text.toString_natCast, hc, List.cons_append, signed_of_ne hne, hnat]
    rfl
  | negSucc n =>
    have hnat := scans_natural (n + 1) hr
    rw [Scans] at hnat
    rw [Scans, Text.toString_negative, String.toList_append]
    show (natural ((n + 1).repr.toList ++ rest)).map _ = _
    rw [hnat]
    simp [Lexeme.map, Lexeme.longer, negative, Int.negSucc_eq]

theorem scans_integer (z : Int) {rest : List Char} (hr : Stops isNameChar rest) :
    Scans integer (toString z).toList z rest := by
  have hsigned := scans_signed z (hr.mono fun _ => isNameChar_of_isDigit)
  rw [Scans] at hsigned
  simp only [Scans, integer, hsigned, Option.bind_some, Lexeme.ended, atNameEnd_of_stops hr, if_true]

theorem signed_eq_none {c : Char} {cs : List Char} (hc : c ≠ '-') (h : isDigit c = false) : signed (c :: cs) = none := by
  rw [signed_of_ne hc, natural_eq_none (stops_cons.mpr h)]
  rfl

/-! ## Names -/

theorem scans_identifier {c : Char} {cs rest : List Char} (hc : isNameStart c = true) (hcs : ∀ d ∈ cs, isNameChar d = true)
    (hr : Stops isNameChar rest) : Scans identifier (c :: cs) (String.ofList (c :: cs)) rest := by
  simp only [Scans, List.cons_append, identifier, hc, if_true, run_append hcs hr]
  rfl

theorem scans_quoted {cs : List Char} (h : ∀ c ∈ cs, isQuotable c = true) (rest : List Char) :
    Scans quoted ('"' :: cs ++ ['"']) (String.ofList cs) rest := by
  have hrun : run isQuotable (cs ++ '"' :: rest) = ⟨cs, cs.length, '"' :: rest⟩ :=
    run_append h (stops_cons.mpr (by decide))
  simp [Scans, quoted, hrun, closeQuote, Lexeme.longer]

theorem scans_quotedName {cs : List Char} (hne : cs ≠ []) (h : ∀ c ∈ cs, isQuotable c = true) (rest : List Char) :
    Scans quotedName ('"' :: cs ++ ['"']) (String.ofList cs) rest := by
  have hrun : run1 isQuotable (cs ++ '"' :: rest) = some ⟨cs, cs.length, '"' :: rest⟩ :=
    scans_run1 hne h (stops_cons.mpr (by decide))
  simp [Scans, quotedName, hrun, closeQuote, Lexeme.longer]

/-! ## Labels -/

theorem scans_indexed (w : List Char) (make : Nat → Label) (n : Nat) {rest : List Char} (hr : Stops isNameChar rest) :
    Scans (indexed w make) (w ++ n.repr.toList) (make n) rest := by
  have hword : word w (w ++ (n.repr.toList ++ rest)) = some ⟨(), w.length, n.repr.toList ++ rest⟩ := scans_word w _
  have hnat : natural (n.repr.toList ++ rest) = some ⟨n, n.repr.toList.length, rest⟩ :=
    scans_natural n (hr.mono fun _ => isNameChar_of_isDigit)
  simp only [Scans, indexed, List.append_assoc, hword, hnat, Option.bind_some, Lexeme.ended, Lexeme.longer, Lexeme.map,
    atNameEnd_of_stops hr, if_true, List.length_append, Nat.add_comm]

theorem scans_fieldLabel {letter : Char} (hl : letter = 'σ' ∨ letter = 'f') (f : Field) {rest : List Char}
    (hr : Stops isNameChar rest) :
    Scans fieldLabel (letter :: ((toString f.bits).toList ++ '@' :: (toString f.offset).toList)) (.field f) rest := by
  have hbits : signed ((toString f.bits).toList ++ '@' :: ((toString f.offset).toList ++ rest)) =
      some ⟨f.bits, (toString f.bits).toList.length, '@' :: ((toString f.offset).toList ++ rest)⟩ :=
    scans_signed f.bits (stops_cons.mpr (by decide))
  have hat : word ['@'] ('@' :: ((toString f.offset).toList ++ rest)) = some ⟨(), 1, (toString f.offset).toList ++ rest⟩ :=
    scans_word ['@'] _
  have hoffset : signed ((toString f.offset).toList ++ rest) = some ⟨f.offset, (toString f.offset).toList.length, rest⟩ :=
    scans_signed f.offset (hr.mono fun _ => isNameChar_of_isDigit)
  simp only [Scans, List.cons_append, List.append_assoc, fieldLabel, hl, if_true, fieldGeometry, hbits, hat, hoffset,
    Option.bind_some, Option.map_some, Lexeme.ended, Lexeme.longer, Lexeme.map, atNameEnd_of_stops hr, Option.some_inj,
    Lexeme.mk.injEq, List.length_cons, List.length_append, and_true, true_and]
  omega

theorem scans_load {rest : List Char} (hr : Stops isNameChar rest) : Scans pointerLabel ['l', 'o', 'a', 'd'] .load rest := by
  have hword := scans_word ['l', 'o', 'a', 'd'] rest
  rw [Scans] at hword
  simp only [Scans, pointerLabel, hword, Lexeme.ended, Lexeme.map, atNameEnd_of_stops hr, if_true]

theorem scans_store {rest : List Char} (hr : Stops isNameChar rest) :
    Scans pointerLabel ['s', 't', 'o', 'r', 'e'] .store rest := by
  have hload : word ['l', 'o', 'a', 'd'] (['s', 't', 'o', 'r', 'e'] ++ rest) = none := word_eq_none (by decide)
  have hword := scans_word ['s', 't', 'o', 'r', 'e'] rest
  rw [Scans] at hword
  simp only [Scans, pointerLabel, hload, hword, Option.bind_some, Lexeme.ended, Lexeme.map, atNameEnd_of_stops hr, if_true]

end TypeRecovery.Language
