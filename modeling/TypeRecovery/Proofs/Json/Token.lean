/-
  TypeRecovery.Proofs.Json.Token — strings and numbers of a JSON text read back as they were written.

  A reading `Reads` a value when it takes exactly the characters in front of a given rest; where
  in the text that happens does not matter. Each character of a string is written as itself, by a
  short escape, or by the escape of its unit, in pairs above 16 bits (`escapeChar_cases`).
  Whichever it is, one step of the reader takes it back (`textFrom_escapeChar`). A number is read
  in front of anything that does not prolong it.

  A text from elsewhere may name halves of pairs. What is read of one that does not mention the mark
  is plain: so two strings of it are equal only if they have the same signs.

  Proved:
  - `unit?_hexDigits`, `unicodeEscape_unit`, `unicodeEscape_pair`: escapes by 16-bit units.
  - `reads_text`: strings.
  - `readText_signs`: the signs of a string in any text.
  - `reads_number`: integers.
-/

import TypeRecovery.Json.Reader
import TypeRecovery.Json.Writer
import TypeRecovery.Proofs.Entries
import TypeRecovery.Proofs.Language.Lexeme
import TypeRecovery.Proofs.Text.Half

namespace TypeRecovery.Json

open TypeRecovery.Language (Stops stops_cons)
open Text (Cursor Mark Sign isDigit naturalOf)

/-- The reading takes what is in front of `rest` and makes `a` of it. -/
def Reads {α : Type} (r : Reading (α × Cursor)) (a : α) (rest : List Char) : Prop :=
  ∃ position, r = .ok (a, ⟨position, rest⟩)

/-! ## Escapes by 16-bit units -/

theorem hexValue?_digitChar {d : Nat} (h : d < 16) : hexValue? (Nat.digitChar d) = some d := by
  have hall : ∀ d : Fin 16, hexValue? (Nat.digitChar d) = some d.val := by decide
  exact hall ⟨d, h⟩

theorem unit?_hexDigits {u : Nat} (hu : u < 0x10000) {rest : List Char} (hr : rest ≠ []) :
    unit? (Text.hexDigits 4 u ++ rest) = some (u, rest) := by
  obtain ⟨e, es, rfl⟩ := List.exists_cons_of_ne_nil hr
  have hdigit : ∀ n, hexValue? (Nat.digitChar (n % 16)) = some (n % 16) := fun n =>
    hexValue?_digitChar (Nat.mod_lt n (by decide))
  have hsum : ((u / 16 / 16 / 16 % 16 * 16 + u / 16 / 16 % 16) * 16 + u / 16 % 16) * 16 + u % 16 = u := by omega
  simp [Text.hexDigits, unit?, hdigit, hsum]

/-- No character is half of a pair. -/
theorem isUnit_char (c : Char) : isHighUnit c.toNat = false ∧ isLowUnit c.toNat = false := by
  have hvalid : c.toNat < 0xd800 ∨ 0xdfff < c.toNat ∧ c.toNat < 0x110000 := c.valid
  simp only [isHighUnit, isLowUnit, Bool.and_eq_false_iff, decide_eq_false_iff_not]
  omega

theorem unicodeEscape_unit {c : Char} (hc : c.toNat < 0x10000) (position : Nat) {rest : List Char} (hr : rest ≠ []) :
    unicodeEscape position (Text.hexDigits 4 c.toNat ++ rest) = .ok (.char c, 4, rest) := by
  obtain ⟨hhigh, hlow⟩ := isUnit_char c
  have hchar : signOfUnit c.toNat = .char c := by simp [signOfUnit, hhigh, hlow]
  rw [unicodeEscape, unit?_hexDigits hc hr]
  simp only [hhigh, hchar, Bool.false_and, Bool.false_eq_true, if_false]
  split <;> rfl

theorem unicodeEscape_pair {c : Char} (hc : 0x10000 ≤ c.toNat) (position : Nat) {rest : List Char} (hr : rest ≠ []) :
    unicodeEscape position (Text.hexDigits 4 (0xd800 + (c.toNat - 0x10000) / 0x400) ++
      (unitEscape (0xdc00 + (c.toNat - 0x10000) % 0x400) ++ rest)) = .ok (.char c, 10, rest) := by
  have hvalid : c.toNat < 0xd800 ∨ 0xdfff < c.toNat ∧ c.toNat < 0x110000 := c.valid
  generalize hhi : 0xd800 + (c.toNat - 0x10000) / 0x400 = high
  generalize hlo : 0xdc00 + (c.toNat - 0x10000) % 0x400 = low
  have hhigh : isHighUnit high = true := by simp only [isHighUnit, Bool.and_eq_true, decide_eq_true_eq]; omega
  have hlow : isLowUnit low = true := by simp only [isLowUnit, Bool.and_eq_true, decide_eq_true_eq]; omega
  have hchar : Char.ofNat (0x10000 + (high - 0xd800) * 0x400 + (low - 0xdc00)) = c := by
    have hsum : 0x10000 + (high - 0xd800) * 0x400 + (low - 0xdc00) = c.toNat := by omega
    rw [hsum, Char.ofNat_toNat]
  have hdrop : (Text.hexDigits 4 low ++ rest).drop 4 = rest := rfl
  have hfirst : unit? (Text.hexDigits 4 high ++ (unitEscape low ++ rest)) = some (high, '\\' :: 'u' :: (Text.hexDigits 4 low ++ rest)) :=
    unit?_hexDigits (by omega) (List.cons_ne_nil _ _)
  rw [unicodeEscape, hfirst]
  simp only [hhigh, hdrop, unit?_hexDigits (show low < 0x10000 by omega) hr, hlow, hchar, List.isEmpty_eq_false_iff.mpr hr]
  rfl

/-! ## Strings -/

/-- The sign in front of those that are read behind it. -/
def inFront (x : Sign) (r : Reading (List Sign × Cursor)) : Reading (List Sign × Cursor) :=
  r >>= fun e => .ok (x :: e.1, e.2)

theorem Reads.inFront {r : Reading (List Sign × Cursor)} {xs : List Sign} {rest : List Char} (h : Reads r xs rest) (x : Sign) :
    Reads (inFront x r) (x :: xs) rest := by
  obtain ⟨position, rfl⟩ := h
  exact ⟨position, rfl⟩

section Character

variable {c : Char} {more : List Char} (opening budget position : Nat)

theorem textFrom_raw (hquote : c ≠ '"') (hslash : c ≠ '\\') (hcontrol : ¬c.toNat < 0x20) :
    textFrom opening (budget + 1) position (c :: more) = inFront (.char c) (textFrom opening budget (position + 1) more) := by
  rw [textFrom, if_neg (by omega)]
  · rfl
  all_goals simp [hquote, hslash]

theorem textFrom_plainEscape {e : Char} (he : plainEscape? e = some c) :
    textFrom opening (budget + 1) position ('\\' :: e :: more) = inFront (.char c) (textFrom opening budget (position + 2) more) := by
  rw [textFrom, he]
  · rfl
  · rintro rfl
    cases he

theorem textFrom_unitEscape (hc : c.toNat < 0x10000) (hm : more ≠ []) :
    textFrom opening (budget + 1) position (unitEscape c.toNat ++ more) =
      inFront (.char c) (textFrom opening budget (position + 6) more) := by
  rw [unitEscape, List.cons_append, List.cons_append, textFrom, unicodeEscape_unit hc _ hm]
  rfl

theorem textFrom_pairEscape (hc : 0x10000 ≤ c.toNat) (hm : more ≠ []) :
    textFrom opening (budget + 1) position (unitEscape (0xd800 + (c.toNat - 0x10000) / 0x400) ++
      unitEscape (0xdc00 + (c.toNat - 0x10000) % 0x400) ++ more) = inFront (.char c) (textFrom opening budget (position + 12) more) := by
  rw [List.append_assoc, unitEscape, List.cons_append, List.cons_append, textFrom, unicodeEscape_pair hc _ hm]
  rfl

end Character

theorem escapeChar_of_plainEscape? (asciiOnly : Bool) {e c : Char} (he : plainEscape? e = some c) (hne : e ≠ '/') :
    escapeChar asciiOnly c = ['\\', e] := by
  unfold plainEscape? at he
  split at he
  case h_3 => exact absurd rfl hne
  all_goals first | (cases he; rfl) | cases he

/-- The ways in which a character is written. -/
theorem escapeChar_cases (asciiOnly : Bool) (c : Char) :
    (∃ e, plainEscape? e = some c ∧ escapeChar asciiOnly c = ['\\', e]) ∨
    (c.toNat < 0x10000 ∧ escapeChar asciiOnly c = unitEscape c.toNat) ∨
    (c ≠ '"' ∧ c ≠ '\\' ∧ ¬c.toNat < 0x20 ∧ escapeChar asciiOnly c = [c]) ∨
    (0x10000 ≤ c.toNat ∧ escapeChar asciiOnly c =
      unitEscape (0xd800 + (c.toNat - 0x10000) / 0x400) ++ unitEscape (0xdc00 + (c.toNat - 0x10000) % 0x400)) := by
  -- the reader knows one short escape more than the writer uses
  by_cases hshort : ∃ e, plainEscape? e = some c ∧ e ≠ '/'
  · obtain ⟨e, he, hne⟩ := hshort
    exact Or.inl ⟨e, he, escapeChar_of_plainEscape? asciiOnly he hne⟩
  · have hne : ∀ {e d : Char}, plainEscape? e = some d → e ≠ '/' → c ≠ d := fun he hslash hd => hshort ⟨_, hd ▸ he, hslash⟩
    have hquote : c ≠ '"' := hne (e := '"') rfl (by decide)
    have hslash : c ≠ '\\' := hne (e := '\\') rfl (by decide)
    have hback : c.toNat ≠ 0x8 := fun hc => hne (e := 'b') rfl (by decide) (Char.toNat_inj.mp hc)
    have hfeed : c.toNat ≠ 0xc := fun hc => hne (e := 'f') rfl (by decide) (Char.toNat_inj.mp hc)
    rw [escapeChar, if_neg hquote, if_neg hslash, if_neg (hne (e := 'n') rfl (by decide)),
      if_neg (hne (e := 'r') rfl (by decide)), if_neg (hne (e := 't') rfl (by decide)), if_neg hback, if_neg hfeed]
    by_cases hcontrol : c.toNat < 0x20
    · rw [if_pos hcontrol]
      exact Or.inr (Or.inl ⟨by omega, rfl⟩)
    · rw [if_neg hcontrol]
      by_cases hraw : (!asciiOnly || c.toNat < 0x7f) = true
      · rw [if_pos hraw]
        exact Or.inr (Or.inr (Or.inl ⟨hquote, hslash, hcontrol, rfl⟩))
      · rw [if_neg hraw]
        by_cases hunit : c.toNat < 0x10000
        · rw [if_pos hunit]
          exact Or.inr (Or.inl ⟨hunit, rfl⟩)
        · rw [if_neg hunit]
          exact Or.inr (Or.inr (Or.inr ⟨Nat.not_lt.mp hunit, rfl⟩))

/-- One step of the reader takes one character back, however it was written. -/
theorem textFrom_escapeChar (asciiOnly : Bool) (c : Char) {more : List Char} (hm : more ≠ []) (opening budget position : Nat) :
    ∃ position', textFrom opening (budget + 1) position (escapeChar asciiOnly c ++ more) =
      inFront (.char c) (textFrom opening budget position' more) := by
  rcases escapeChar_cases asciiOnly c with ⟨e, he, h⟩ | ⟨hc, h⟩ | ⟨hquote, hslash, hcontrol, h⟩ | ⟨hc, h⟩ <;> rw [h]
  · exact ⟨_, textFrom_plainEscape opening budget position he⟩
  · exact ⟨_, textFrom_unitEscape opening budget position hc hm⟩
  · exact ⟨_, textFrom_raw opening budget position hquote hslash hcontrol⟩
  · exact ⟨_, textFrom_pairEscape opening budget position hc hm⟩

theorem reads_textFrom (asciiOnly : Bool) (cs : List Char) {budget : Nat} (hb : cs.length < budget)
    (opening position : Nat) (rest : List Char) :
    Reads (textFrom opening budget position (cs.flatMap (escapeChar asciiOnly) ++ '"' :: rest))
      (cs.map Sign.char) rest := by
  induction cs generalizing budget position with
  | nil =>
    obtain ⟨b, rfl⟩ := Nat.exists_eq_succ_of_ne_zero (Nat.ne_of_gt hb)
    exact ⟨position + 1, rfl⟩
  | cons c cs ih =>
    obtain ⟨b, rfl⟩ := Nat.exists_eq_succ_of_ne_zero (Nat.ne_of_gt (Nat.zero_lt_of_lt hb))
    have hmore : cs.flatMap (escapeChar asciiOnly) ++ '"' :: rest ≠ [] := by simp
    obtain ⟨position', hstep⟩ := textFrom_escapeChar asciiOnly c hmore opening b position
    rw [List.flatMap_cons, List.append_assoc, hstep]
    exact (ih (Nat.lt_of_succ_lt_succ hb) position').inFront (.char c)

theorem escapeChar_ne_nil (asciiOnly : Bool) (c : Char) : escapeChar asciiOnly c ≠ [] := by
  rcases escapeChar_cases asciiOnly c with ⟨e, -, h⟩ | ⟨-, h⟩ | ⟨-, -, -, h⟩ | ⟨-, h⟩ <;> rw [h] <;> exact List.cons_ne_nil _ _

theorem length_le_flatMap (asciiOnly : Bool) (cs : List Char) : cs.length ≤ (cs.flatMap (escapeChar asciiOnly)).length := by
  induction cs with
  | nil => exact Nat.le_refl 0
  | cons c cs ih =>
    have hpos := List.length_pos_of_ne_nil (escapeChar_ne_nil asciiOnly c)
    rw [List.flatMap_cons, List.length_append, List.length_cons]
    omega

theorem spell_chars (mark : Mark) (cs : List Char) : Text.spell mark (cs.map Sign.char) = String.ofList cs := by
  rw [Text.spell, List.flatMap_map]
  exact congrArg String.ofList (List.flatMap_singleton' cs)

theorem reads_text (mark : Mark) (asciiOnly : Bool) (s : String) (budget : Nat)
    (hb : (writeText asciiOnly s).length ≤ budget) (position : Nat) (rest : List Char) :
    Reads (readText mark budget ⟨position, writeText asciiOnly s ++ rest⟩) s rest := by
  have hlen := length_le_flatMap asciiOnly s.toList
  have hshort : s.toList.length < budget := by
    rw [writeText, List.length_append, List.length_cons] at hb
    omega
  obtain ⟨position', hread⟩ := reads_textFrom asciiOnly s.toList hshort position (position + 1) rest
  refine ⟨position', ?_⟩
  have hrest : (writeText asciiOnly s ++ rest).drop 1 = s.toList.flatMap (escapeChar asciiOnly) ++ '"' :: rest := by
    simp [writeText]
  rw [readText, hrest, hread, ok_bind]
  show Except.ok (Text.spell mark (s.toList.map Sign.char), _) = _
  rw [spell_chars, String.ofList_toList]

/-! ## Halves -/

section Halves

variable {mark : Mark} {c : Char} {cs rest : List Char}

theorem mentions_cons_eq_false {d : Char} : mentions c (d :: rest) = false ↔
    d ≠ c ∧ (∀ u more, unit? (d :: rest) = some (u, more) → u ≠ c.toNat) ∧ mentions c rest = false := by
  simp [mentions, Option.any_eq_false, and_assoc]

/-- What a text does not mention, none of its ends mentions. -/
theorem not_mentions_suffix (h : mentions c cs = false) (hs : rest <:+ cs) : mentions c rest = false := by
  induction cs with
  | nil => rwa [List.suffix_nil.mp hs]
  | cons d cs ih =>
    rcases List.suffix_cons_iff.mp hs with rfl | hs
    · exact h
    · exact ih (mentions_cons_eq_false.mp h).2.2 hs

/-- The number of a digit is bounded by that of the last one of its kind. -/
theorem digit_lt {first last : Char} (h : c ≤ last) {k n : Nat} (hlast : last.toNat - first.toNat + k < n) :
    c.toNat - first.toNat + k < n := by
  have hle : c.toNat ≤ last.toNat := h
  omega

theorem hexValue?_lt {d : Nat} (h : hexValue? c = some d) : d < 16 := by
  unfold hexValue? at h
  split at h
  · rename_i hc
    cases h
    exact digit_lt (k := 0) hc.2 (by decide)
  · split at h
    · rename_i hc
      cases h
      exact digit_lt hc.2 (by decide)
    · split at h
      · rename_i hc
        cases h
        exact digit_lt hc.2 (by decide)
      · cases h

theorem unit?_suffix {u : Nat} (h : unit? cs = some (u, rest)) : u < 0x10000 ∧ rest <:+ cs := by
  unfold unit? at h
  split at h
  · rename_i a b c d e tail
    simp only [bind, Option.bind_eq_some_iff] at h
    obtain ⟨a', ha, b', hb, c', hc, d', hd, h⟩ := h
    cases h
    have ha := hexValue?_lt ha
    have hb := hexValue?_lt hb
    have hc := hexValue?_lt hc
    have hd := hexValue?_lt hd
    exact ⟨by omega, [a, b, c, d], rfl⟩
  · cases h

/-- The character has the number of no unit that the text names. -/
theorem ne_of_unit? {u : Nat} (h : unit? cs = some (u, rest)) (hm : mentions c cs = false) : u ≠ c.toNat := by
  cases cs with
  | nil => cases h
  | cons d cs => exact (mentions_cons_eq_false.mp hm).2.1 u rest h

theorem plain_signOfUnit {u : Nat} (hu : u < 0x10000) (hne : u ≠ mark.char.toNat) : (signOfUnit u).Plain mark := by
  unfold signOfUnit
  split
  · exact hu
  · rename_i hhalf
    simp only [isHighUnit, isLowUnit, Bool.or_eq_true, Bool.and_eq_true, decide_eq_true_eq, not_or, not_and] at hhalf
    rintro he
    rw [← he, Text.toNat_ofNat (show u < 0xd800 ∨ 0xdfff < u ∧ u < 0x110000 by omega)] at hne
    exact hne rfl

theorem plain_unicodeEscape {position n : Nat} {x : Sign} (h : unicodeEscape position cs = .ok (x, n, rest))
    (hm : mentions mark.char cs = false) : x.Plain mark ∧ rest <:+ cs := by
  unfold unicodeEscape at h
  split at h
  · cases h
  · rename_i high behind hhigh
    obtain ⟨hlt, hbehind⟩ := unit?_suffix hhigh
    have hplain := plain_signOfUnit hlt (ne_of_unit? hhigh hm)
    split at h
    · rename_i more
      split at h
      · rename_i hpair
        split at h
        · cases h
        · rename_i low rest' hlow
          split at h
          · rename_i hl
            cases h
            simp only [isHighUnit, Bool.and_eq_true, decide_eq_true_eq] at hpair
            simp only [isLowUnit, Bool.and_eq_true, decide_eq_true_eq] at hl
            refine ⟨fun he => ?_, (unit?_suffix hlow).2.trans (.trans ⟨['\\', 'u'], rfl⟩ hbehind)⟩
            have hvalid : 0x10000 + (high - 0xd800) * 0x400 + (low - 0xdc00) < 0xd800 ∨
                0xdfff < 0x10000 + (high - 0xd800) * 0x400 + (low - 0xdc00) ∧
                  0x10000 + (high - 0xd800) * 0x400 + (low - 0xdc00) < 0x110000 := by omega
            have hbound := mark.toNat_char_bounds.2
            rw [← he, Text.toNat_ofNat hvalid] at hbound
            omega
          · cases h
            exact ⟨hplain, hbehind⟩
      · cases h
        exact ⟨hplain, hbehind⟩
    · cases h
      exact ⟨hplain, hbehind⟩

theorem plain_plainEscape? {e : Char} (h : plainEscape? e = some c) : Sign.Plain mark (.char c) := by
  have hlow : c.toNat < 0xac00 := by
    unfold plainEscape? at h
    split at h <;> cases h <;> decide
  rintro rfl
  exact Nat.not_lt.mpr mark.toNat_char_bounds.1 hlow

theorem plain_textFrom {opening budget position : Nat} {xs : List Sign} {after : Cursor}
    (h : textFrom opening budget position cs = .ok (xs, after)) (hm : mentions mark.char cs = false) :
    ∀ x ∈ xs, x.Plain mark := by
  induction budget generalizing position cs xs with
  | zero => cases h
  | succ budget ih =>
    have htail : ∀ {x : Sign} {p : Nat} {behind : List Char}, x.Plain mark → behind <:+ cs →
        inFront x (textFrom opening budget p behind) = .ok (xs, after) → ∀ x ∈ xs, x.Plain mark := by
      intro x p behind hx hbehind h
      obtain ⟨e, he, h⟩ := bind_eq_ok.mp h
      cases h
      exact List.forall_mem_cons.mpr ⟨hx, ih he (not_mentions_suffix hm hbehind)⟩
    unfold textFrom at h
    split at h
    · cases h
    · cases h
      exact List.forall_mem_nil _
    · cases h
    · rename_i behind
      obtain ⟨⟨x, n, rest⟩, hx, h⟩ := bind_eq_ok.mp h
      have hbehind : behind <:+ '\\' :: 'u' :: behind := ⟨['\\', 'u'], rfl⟩
      obtain ⟨hplain, hrest⟩ := plain_unicodeEscape hx (not_mentions_suffix hm hbehind)
      exact htail hplain (hrest.trans hbehind) h
    · rename_i e behind _
      split at h
      · cases h
      · rename_i c he
        exact htail (plain_plainEscape? he) ⟨['\\', e], rfl⟩ h
    · rename_i c behind _ _ _ _
      split at h
      · cases h
      · have hplain : Sign.Plain mark (.char c) := (mentions_cons_eq_false.mp hm).1
        exact htail hplain ⟨[c], rfl⟩ h

/-- A string of a text that does not mention the mark is spelled from its signs and from no others,
and holds the mark exactly if one of them is a half. -/
theorem readText_signs {budget : Nat} {start after : Cursor} {s : String} (h : readText mark budget start = .ok (s, after))
    (hm : mentions mark.char start.rest = false) :
    ∃ signs, textFrom start.position budget (start.position + 1) (start.rest.drop 1) = .ok (signs, after) ∧
      s = Text.spell mark signs ∧ (mark.isIn s = true ↔ ∃ unit, Sign.half unit ∈ signs) ∧
      ∀ xs : List Sign, (∀ x ∈ xs, x.Plain mark) → s = Text.spell mark xs → xs = signs := by
  obtain ⟨⟨signs, last⟩, hsigns, h⟩ := bind_eq_ok.mp h
  cases h
  have hplain := plain_textFrom hsigns (not_mentions_suffix hm (List.drop_suffix 1 _))
  exact ⟨signs, hsigns, rfl, Text.isIn_spell hplain, fun xs hx he => Text.spell_inj hx hplain he.symm⟩

end Halves

/-! ## Numbers -/

/-- Characters with which a number goes on. -/
def prolongs (c : Char) : Bool := isDigit c || c = '.' || c = 'e' || c = 'E'

theorem wholeDigits_repr (n : Nat) {rest : List Char} (hr : Stops prolongs rest) :
    wholeDigits (n.repr.toList ++ rest) = n.repr.toList := by
  have hstops : Stops isDigit rest := hr.mono fun c hc => by simp [prolongs, hc]
  rcases Nat.eq_zero_or_pos n with rfl | hn
  · rfl
  · have hhead := Text.head?_repr_ne_zero hn
    have hdigits : ∀ c ∈ n.repr.toList, isDigit c = true := fun _ => Text.isDigit_of_mem_repr
    obtain ⟨c, cs, hcs⟩ := List.exists_cons_of_ne_nil (Text.repr_ne_nil n)
    rw [hcs] at hhead hdigits ⊢
    -- behind a zero the reader takes no more digits
    have hzero : c ≠ '0' := fun he => hhead (congrArg some he)
    rw [List.cons_append, wholeDigits, if_neg hzero, if_pos (hdigits c List.mem_cons_self),
      List.takeWhile_append_of_pos fun d hd => hdigits d (List.mem_cons_of_mem _ hd), hstops.takeWhile,
      List.append_nil]

theorem pointDigits_of_stops {rest : List Char} (hr : Stops prolongs rest) : pointDigits rest = [] := by
  cases rest with
  | nil => rfl
  | cons c rest =>
    have hc := stops_cons.mp hr
    rw [pointDigits]
    rintro rest' he
    cases he
    cases hc

theorem exponentPart_of_stops {rest : List Char} (hr : Stops prolongs rest) : exponentPart rest = (0, 0) := by
  cases rest with
  | nil => rfl
  | cons c rest =>
    have hc := stops_cons.mp hr
    unfold exponentPart
    exact if_neg (by rintro (rfl | rfl) <;> cases hc)

/-- A number is a natural number behind a minus sign or none. -/
theorem reads_number (n : Int) (position : Nat) {rest : List Char} (hr : Stops prolongs rest) :
    Reads (readNumber ⟨position, (toString n).toList ++ rest⟩) (.whole n) rest := by
  rw [readNumber]
  split
  rename_i negative body hsplit
  obtain ⟨m, rfl, hm⟩ : ∃ m : Nat, body = m.repr.toList ++ rest ∧ (if negative then -(m : Int) else m) = n := by
    cases n with
    | ofNat m =>
      refine ⟨m, ?_⟩
      split at hsplit
      · rename_i cs hcs
        obtain ⟨c, ds, hds, hdigit⟩ := Text.repr_eq_cons m
        rw [Int.ofNat_eq_natCast, Text.toString_natCast, hds] at hcs
        cases hcs
        cases hdigit
      · cases hsplit
        exact ⟨rfl, rfl⟩
    | negSucc m =>
      rw [Text.toString_negative, String.toList_append] at hsplit
      cases hsplit
      exact ⟨m + 1, rfl, rfl⟩
  have hdrop : (m.repr.toList ++ rest).drop m.repr.toList.length = rest := List.drop_left
  have hfull : m.repr.toList.isEmpty = false := List.isEmpty_eq_false_iff.mpr (Text.repr_ne_nil m)
  simp only [wholeDigits_repr m hr, hdrop, hfull, pointDigits_of_stops hr, exponentPart_of_stops hr, List.isEmpty_nil,
    Text.naturalOf_repr, hm, and_self, if_true, Bool.false_eq_true, if_false]
  exact ⟨_, rfl⟩

end TypeRecovery.Json
