/-
  TypeRecovery.Proofs.Json.RoundTrip — values read back from the JSON text they were written as.

  A value is `Plain` if it holds no binary64 number and no object with a key twice. Whatever its
  style, as long as it indents by blanks, the text of a plain value is read as that value in
  front of anything that does not prolong a number (`ReadsBack`). The budget of the reader is
  twice the length of the text: a value, an item and a member each take one unit, and each is
  written with at least one character of its own or a separator in front.

  Proved:
  - `skip_append`: margins are skipped.
  - `readsBack_text`, `readsBack_whole`, `readsBack_list`, `readsBack_object`: each kind of value.
  - `read_write`: a plain value is read back from its text.
  - `Holds.mem_writeAt`: the characters of a value's strings are in its text.
-/

import TypeRecovery.Proofs.Json.Token

namespace TypeRecovery

namespace Json

open TypeRecovery.Language (Stops stops_nil stops_cons)
open Text (Cursor Mark isDigit)

/-- No binary64 numbers, and no key twice in an object. -/
inductive Plain : Json → Prop
  | null : Plain .null
  | bool (b : Bool) : Plain (.bool b)
  | whole (n : Int) : Plain (.whole n)
  | text (s : String) : Plain (.text s)
  | list {items : List Json} : (∀ j ∈ items, Plain j) → Plain (.list items)
  | object {members : Members} : (members.map (·.1)).Nodup → (∀ e ∈ members, Plain e.2) → Plain (.object members)

/-! ## Blanks -/

theorem skip_append {p : Char → Bool} {blanks : List Char} (hb : ∀ c ∈ blanks, p c = true) {rest : List Char}
    (hr : Stops p rest) (position : Nat) : (Cursor.mk position (blanks ++ rest)).skip p = ⟨position + blanks.length, rest⟩ := by
  induction blanks generalizing position with
  | nil =>
    cases rest with
    | nil => rfl
    | cons c rest => simp [Cursor.skip, Cursor.skip.go, stops_cons.mp hr]
  | cons c blanks ih =>
    obtain ⟨hc, hblanks⟩ := List.forall_mem_cons.mp hb
    have hstep : (Cursor.mk position (c :: (blanks ++ rest))).skip p = (Cursor.mk (position + 1) (blanks ++ rest)).skip p := by
      simp [Cursor.skip, Cursor.skip.go, hc]
    rw [List.cons_append, hstep, ih hblanks, List.length_cons, Nat.add_assoc, Nat.add_comm 1]

theorem skip_of_stops {p : Char → Bool} {rest : List Char} (hr : Stops p rest) (position : Nat) :
    (Cursor.mk position rest).skip p = ⟨position, rest⟩ :=
  skip_append (List.forall_mem_nil _) hr position

theorem skip_cons {c : Char} (hc : isSpace c = false) (rest : List Char) (position : Nat) :
    (Cursor.mk position (c :: rest)).skip isSpace = ⟨position, c :: rest⟩ :=
  skip_of_stops (stops_cons.mpr hc) position

/-- Every level is indented by characters that a reader skips. -/
def Style.Blank (style : Style) : Prop := ∀ unit ∈ style.indent, ∀ c ∈ unit, isSpace c = true

section Blank

variable {style : Style} (hs : style.Blank)
include hs

theorem blank_newLine {unit : List Char} (hu : unit ∈ style.indent) (level : Nat) :
    ∀ c ∈ newLine unit level, isSpace c = true := by
  intro c hc
  rcases List.mem_cons.mp hc with rfl | hc
  · rfl
  · obtain ⟨l, hl, hc⟩ := List.mem_flatten.mp hc
    rw [List.eq_of_mem_replicate hl] at hc
    exact hs unit hu c hc

theorem blank_margin (level : Nat) : ∀ c ∈ style.margin level, isSpace c = true := by
  rw [Style.margin]
  split
  · exact List.forall_mem_nil _
  · rename_i unit hu
    exact blank_newLine hs hu level

theorem separator_eq (level : Nat) : ∃ gap, style.separator level = ',' :: gap ∧ ∀ c ∈ gap, isSpace c = true := by
  rw [Style.separator]
  split
  · exact ⟨[' '], rfl, by simp [isSpace]⟩
  · rename_i unit hu
    exact ⟨_, rfl, blank_newLine hs hu level⟩

end Blank

/-! ## What values begin with and end before -/

/-- The characters with which a plain value begins. -/
def startsValue (c : Char) : Bool := isDigit c || ['-', '"', '[', '\x7b', 'n', 't', 'f'].contains c

theorem startsValue_ne {c d : Char} (h : startsValue c = true) (hd : startsValue d = false) : c ≠ d := by
  rintro rfl
  rw [h] at hd
  cases hd

theorem isSpace_of_startsValue {c : Char} (h : startsValue c = true) : isSpace c = false := by
  simp only [isSpace, Bool.or_eq_false_iff, decide_eq_false_iff_not]
  exact ⟨⟨⟨startsValue_ne h rfl, startsValue_ne h rfl⟩, startsValue_ne h rfl⟩, startsValue_ne h rfl⟩

theorem prolongs_of_isSpace {c : Char} (h : isSpace c = true) : prolongs c = false := by
  simp only [isSpace, Bool.or_eq_true, decide_eq_true_eq] at h
  rcases h with ((rfl | rfl) | rfl) | rfl <;> rfl

/-- Neither blanks nor what closes a list or an object goes on with a number. -/
theorem stops_closing {blanks : List Char} (hb : ∀ c ∈ blanks, isSpace c = true) {c : Char} (hc : prolongs c = false)
    (rest : List Char) : Stops prolongs (blanks ++ c :: rest) := by
  cases blanks with
  | nil => exact stops_cons.mpr hc
  | cons b blanks => exact stops_cons.mpr (prolongs_of_isSpace (hb b List.mem_cons_self))

/-! ## Values -/

structure ReadsBack (mark : Mark) (style : Style) (j : Json) : Prop where
  starts (level : Nat) : ∃ c cs, writeAt style level j = c :: cs ∧ startsValue c = true
  reads (level budget position : Nat) {rest : List Char} :
    2 * (writeAt style level j).length < budget → Stops prolongs rest →
      Reads (readValue mark budget ⟨position, writeAt style level j ++ rest⟩) j rest

variable {mark : Mark}

theorem ReadsBack.stops {style : Style} {j : Json} (h : ReadsBack mark style j) (level : Nat) (rest : List Char) :
    Stops isSpace (writeAt style level j ++ rest) := by
  obtain ⟨c, cs, hcs, hc⟩ := h.starts level
  rw [hcs]
  exact stops_cons.mpr (isSpace_of_startsValue hc)

theorem exists_eq_succ_of_lt {m budget : Nat} (h : m < budget) : ∃ b, budget = b + 1 ∧ m ≤ b :=
  ⟨budget - 1, by omega, by omega⟩

theorem readsBack_null (style : Style) : ReadsBack mark style .null where
  starts level := ⟨_, _, by rw [writeAt], rfl⟩
  reads level budget position rest hbudget _ := by
    obtain ⟨b, rfl, -⟩ := exists_eq_succ_of_lt hbudget
    rw [writeAt]
    exact ⟨_, rfl⟩

theorem readsBack_bool (style : Style) (x : Bool) : ReadsBack mark style (.bool x) where
  starts level := by cases x <;> exact ⟨_, _, by rw [writeAt], rfl⟩
  reads level budget position rest hbudget _ := by
    obtain ⟨b, rfl, -⟩ := exists_eq_succ_of_lt hbudget
    cases x <;> rw [writeAt] <;> exact ⟨_, rfl⟩

theorem readsBack_text (style : Style) (s : String) : ReadsBack mark style (.text s) where
  starts level := ⟨_, _, by rw [writeAt, writeText, List.cons_append], rfl⟩
  reads level budget position rest hbudget _ := by
    rw [writeAt] at hbudget ⊢
    obtain ⟨b, rfl, hle⟩ := exists_eq_succ_of_lt hbudget
    obtain ⟨p, h⟩ := reads_text mark style.asciiOnly s (b + 1) (by omega) position rest
    refine ⟨p, ?_⟩
    rw [writeText, List.cons_append, List.cons_append] at h ⊢
    rw [readValue, h]
    rfl

/-- A number is no literal, not even behind the minus sign. -/
theorem literal?_toString (n : Int) (position : Nat) (rest : List Char) :
    literal? ⟨position, (toString n).toList ++ rest⟩ = none := by
  have hne : ∀ {c : Char} (d : Char), isDigit c = true → isDigit d = false → d ≠ c := by
    rintro c _ hc hd rfl
    rw [hc] at hd
    cases hd
  obtain ⟨c, cs, hcs, hc | ⟨rfl, d, ds, rfl, hd⟩⟩ := Text.toString_eq_cons n
  · rw [hcs]
    simp [literal?, literals, word?, hne 'n' hc rfl, hne 't' hc rfl, hne 'f' hc rfl, hne 'N' hc rfl, hne 'I' hc rfl,
      hne '-' hc rfl]
  · rw [hcs]
    simp [literal?, literals, word?, hne 'I' hd rfl]

theorem readValue_eq_readNumber {c : Char} (hc : c ≠ '"' ∧ c ≠ '\x7b' ∧ c ≠ '[') {position : Nat} {cs : List Char}
    (hl : literal? ⟨position, c :: cs⟩ = none) (budget : Nat) :
    readValue mark (budget + 1) ⟨position, c :: cs⟩ = readNumber ⟨position, c :: cs⟩ := by
  rw [readValue]
  split
  · contradiction
  · rename_i he
    cases he
    exact absurd rfl hc.1
  · rename_i he
    cases he
    exact absurd rfl hc.2.1
  · rename_i he
    cases he
    exact absurd rfl hc.2.2
  · rw [hl]

theorem readsBack_whole (style : Style) (n : Int) : ReadsBack mark style (.whole n) where
  starts level := by
    obtain ⟨c, cs, hcs, hc | ⟨rfl, -⟩⟩ := Text.toString_eq_cons n
    · exact ⟨c, cs, by rw [writeAt, hcs], by rw [startsValue, hc, Bool.true_or]⟩
    · exact ⟨_, cs, by rw [writeAt, hcs], rfl⟩
  reads level budget position rest hbudget hr := by
    obtain ⟨b, rfl, -⟩ := exists_eq_succ_of_lt hbudget
    obtain ⟨c, cs, hcs, hc⟩ := Text.toString_eq_cons n
    have hother : c ≠ '"' ∧ c ≠ '\x7b' ∧ c ≠ '[' := by
      rcases hc with hc | ⟨rfl, -⟩
      · refine ⟨?_, ?_, ?_⟩ <;> rintro rfl <;> cases hc
      · decide
    have hnumber := reads_number n position hr
    have hliteral := literal?_toString n position rest
    rw [hcs, List.cons_append] at hnumber hliteral
    rw [writeAt, hcs, List.cons_append, readValue_eq_readNumber hother hliteral]
    exact hnumber

/-! ## Lists and objects -/

/-- The first item of a list and the others behind separators, in front of `tail`. -/
def itemsText (style : Style) (level : Nat) (j : Json) (items : List Json) (tail : List Char) : List Char :=
  writeAt style level j ++ (writeItems style level items ++ tail)

/-- The first member of an object and the others behind separators, in front of `tail`. -/
def membersText (style : Style) (level : Nat) (k : String) (j : Json) (members : Members) (tail : List Char) : List Char :=
  writeText style.asciiOnly k ++ (':' :: ' ' :: (writeAt style level j ++ (writeMembers style level members ++ tail)))

theorem ReadsBack.stops_itemsText {style : Style} {j : Json} (h : ReadsBack mark style j) (level : Nat) (items : List Json)
    (tail : List Char) : Stops isSpace (itemsText style level j items tail) :=
  h.stops level _

theorem stops_membersText (style : Style) (level : Nat) (k : String) (j : Json) (members : Members) (tail : List Char) :
    Stops isSpace (membersText style level k j members tail) :=
  stops_cons.mpr rfl

theorem stops_comma (rest : List Char) : Stops prolongs (',' :: rest) := stops_cons.mpr rfl

theorem writeItems_append {style : Style} {level : Nat} {gap : List Char} (h : style.separator level = ',' :: gap)
    (j : Json) (items : List Json) (tail : List Char) :
    writeItems style level (j :: items) ++ tail = ',' :: (gap ++ itemsText style level j items tail) := by
  rw [writeItems, h]
  simp only [itemsText, List.append_assoc, List.cons_append]

theorem writeMembers_append {style : Style} {level : Nat} {gap : List Char} (h : style.separator level = ',' :: gap)
    (k : String) (j : Json) (members : Members) (tail : List Char) :
    writeMembers style level ((k, j) :: members) ++ tail = ',' :: (gap ++ membersText style level k j members tail) := by
  rw [writeMembers, h]
  simp only [membersText, List.append_assoc, List.cons_append, List.nil_append]

/-- The name and the value of a member, the one in front of the colon and the other behind it. -/
theorem reads_member {style : Style} {j : Json} (hj : ReadsBack mark style j) (level : Nat) (k : String) (budget : Nat)
    (hbudget : 2 * ((writeText style.asciiOnly k).length + 2 + (writeAt style level j).length) < budget)
    (position : Nat) {tail : List Char} (ht : Stops prolongs tail) :
    ∃ p p',
      readText mark (budget + 1) ⟨position, writeText style.asciiOnly k ++ (':' :: ' ' :: (writeAt style level j ++ tail))⟩ =
        .ok (k, ⟨p, ':' :: ' ' :: (writeAt style level j ++ tail)⟩) ∧
      readValue mark budget ((Cursor.mk (p + 1) (' ' :: (writeAt style level j ++ tail))).skip isSpace) = .ok (j, ⟨p', tail⟩) := by
  have hblank : ∀ c ∈ [' '], isSpace c = true := by simp [isSpace]
  obtain ⟨p, hname⟩ := reads_text mark style.asciiOnly k (budget + 1) (by omega) position
    (':' :: ' ' :: (writeAt style level j ++ tail))
  obtain ⟨p', hvalue⟩ := hj.reads level budget (p + 1 + [' '].length) (by omega) ht
  have hgap := skip_append hblank (hj.stops level tail) (p + 1)
  rw [List.singleton_append] at hgap
  exact ⟨p, p', hname, hgap ▸ hvalue⟩

section Parts

variable {style : Style} (hs : style.Blank) (level : Nat) {blanks : List Char} (hb : ∀ c ∈ blanks, isSpace c = true)
  (rest : List Char)
include hs hb

/-- The items of a list up to the closing bracket. -/
theorem reads_items {j : Json} {items : List Json} (hj : ReadsBack mark style j) (h : ∀ i ∈ items, ReadsBack mark style i)
    (budget position : Nat)
    (hbudget : 2 * ((writeAt style level j).length + (writeItems style level items).length) + 1 < budget) :
    Reads (readItems mark budget ⟨position, itemsText style level j items (blanks ++ ']' :: rest)⟩) (j :: items) rest := by
  induction items generalizing j budget position with
  | nil =>
    obtain ⟨b, rfl, hle⟩ := exists_eq_succ_of_lt hbudget
    obtain ⟨p, hread⟩ := hj.reads level b position (by omega) (stops_closing hb (rfl : prolongs ']' = false) rest)
    rw [itemsText, writeItems, List.nil_append, readItems, hread, ok_bind]
    simp only [skip_append hb (stops_cons.mpr (rfl : isSpace ']' = false))]
    exact ⟨_, rfl⟩
  | cons i items ih =>
    obtain ⟨b, rfl, hle⟩ := exists_eq_succ_of_lt hbudget
    obtain ⟨hi, hitems⟩ := List.forall_mem_cons.mp h
    obtain ⟨gap, hgap, hspace⟩ := separator_eq hs level
    -- the comma of the separator pays for the unit that `j` takes from the budget of the others
    rw [writeItems, hgap, List.length_append, List.length_append, List.length_cons] at hle
    rw [itemsText, writeItems_append hgap]
    obtain ⟨p, hread⟩ := hj.reads level b position (by omega)
      (stops_comma (gap ++ itemsText style level i items (blanks ++ ']' :: rest)))
    obtain ⟨p', hmore⟩ := ih hi hitems b (p + 1 + gap.length) (by omega)
    rw [readItems, hread, ok_bind]
    simp only [skip_cons (rfl : isSpace ',' = false), skip_append hspace (hi.stops_itemsText level items _), hmore]
    exact ⟨_, rfl⟩

/-- The members of an object up to the closing brace. -/
theorem reads_members {k : String} {j : Json} {members : Members} (hj : ReadsBack mark style j)
    (h : ∀ e ∈ members, ReadsBack mark style e.2) (budget position : Nat)
    (hbudget : 2 * ((writeText style.asciiOnly k).length + 2 + (writeAt style level j).length +
      (writeMembers style level members).length) + 1 < budget) :
    Reads (readMembers mark budget ⟨position, membersText style level k j members (blanks ++ '\x7d' :: rest)⟩)
      ((k, j) :: members) rest := by
  induction members generalizing k j budget position with
  | nil =>
    obtain ⟨b, rfl, hle⟩ := exists_eq_succ_of_lt hbudget
    obtain ⟨p, p', hname, hvalue⟩ := reads_member hj level k b (by omega) position
      (stops_closing hb (rfl : prolongs '\x7d' = false) rest)
    rw [membersText, writeMembers, List.nil_append]
    rw [writeText, List.cons_append, List.cons_append] at hname ⊢
    rw [readMembers, hname, ok_bind]
    simp only [skip_cons (rfl : isSpace ':' = false), hvalue, ok_bind, skip_append hb (stops_cons.mpr (rfl : isSpace '\x7d' = false))]
    exact ⟨_, rfl⟩
  | cons e members ih =>
    obtain ⟨k', j'⟩ := e
    obtain ⟨b, rfl, hle⟩ := exists_eq_succ_of_lt hbudget
    obtain ⟨hj', hmembers⟩ := List.forall_mem_cons.mp h
    obtain ⟨gap, hgap, hspace⟩ := separator_eq hs level
    rw [writeMembers, hgap] at hle
    simp only [List.length_append, List.length_cons] at hle
    obtain ⟨p, p', hname, hvalue⟩ := reads_member hj level k b (by omega) position
      (stops_comma (gap ++ membersText style level k' j' members (blanks ++ '\x7d' :: rest)))
    obtain ⟨p'', hmore⟩ := ih (k := k') (j := j') hj' hmembers b (p' + 1 + gap.length) (by omega)
    rw [membersText, writeMembers_append hgap]
    rw [writeText, List.cons_append, List.cons_append] at hname ⊢
    rw [readMembers, hname, ok_bind]
    simp only [skip_cons (rfl : isSpace ':' = false), hvalue, ok_bind, skip_cons (rfl : isSpace ',' = false),
      skip_append hspace (stops_membersText style level k' j' members _), hmore]
    exact ⟨_, rfl⟩

end Parts

theorem readsBack_list {style : Style} (hs : style.Blank) {items : List Json} (h : ∀ j ∈ items, ReadsBack mark style j) :
    ReadsBack mark style (.list items) where
  starts level := by
    cases items with
    | nil => exact ⟨_, _, by rw [writeAt], rfl⟩
    | cons j items => exact ⟨'[', _, by rw [writeAt]; rfl, rfl⟩
  reads level budget position rest hbudget _ := by
    obtain ⟨b, rfl, hle⟩ := exists_eq_succ_of_lt hbudget
    cases items with
    | nil =>
      rw [writeAt, List.cons_append, List.cons_append, List.nil_append, readValue]
      simp only [skip_cons (rfl : isSpace ']' = false)]
      exact ⟨_, rfl⟩
    | cons j items =>
      obtain ⟨hj, hitems⟩ := List.forall_mem_cons.mp h
      rw [writeAt] at hle
      simp only [List.length_append, List.length_cons] at hle
      obtain ⟨c, cs, hcs, hc⟩ := hj.starts (level + 1)
      obtain ⟨p, hread⟩ := reads_items hs (level + 1) (blank_margin hs level) rest hj hitems b
        (position + 1 + (style.margin (level + 1)).length) (by omega)
      have htext : writeAt style level (.list (j :: items)) ++ rest = '[' :: (style.margin (level + 1) ++
          itemsText style (level + 1) j items (style.margin level ++ ']' :: rest)) := by
        rw [writeAt, itemsText]
        simp only [List.append_assoc, List.cons_append, List.nil_append]
      rw [htext, readValue]
      simp only [skip_append (blank_margin hs (level + 1)) (hj.stops_itemsText (level + 1) items _)]
      -- no item begins with the bracket that would end the list here
      split
      · rename_i he
        rw [itemsText, hcs, List.cons_append] at he
        cases he
        cases hc
      · rw [hread]
        exact ⟨_, rfl⟩

theorem readsBack_object {style : Style} (hs : style.Blank) {members : Members} (hn : (members.map (·.1)).Nodup)
    (h : ∀ e ∈ members, ReadsBack mark style e.2) : ReadsBack mark style (.object members) where
  starts level := by
    cases members with
    | nil => exact ⟨_, _, by rw [writeAt], rfl⟩
    | cons e members => exact ⟨'\x7b', _, by rw [writeAt]; rfl, rfl⟩
  reads level budget position rest hbudget _ := by
    obtain ⟨b, rfl, hle⟩ := exists_eq_succ_of_lt hbudget
    cases members with
    | nil =>
      rw [writeAt, List.cons_append, List.cons_append, List.nil_append, readValue]
      simp only [skip_cons (rfl : isSpace '\x7d' = false)]
      exact ⟨_, rfl⟩
    | cons e members =>
      obtain ⟨k, j⟩ := e
      obtain ⟨hj, hmembers⟩ := List.forall_mem_cons.mp h
      rw [writeAt] at hle
      simp only [List.length_append, List.length_cons] at hle
      obtain ⟨p, hread⟩ := reads_members hs (level + 1) (blank_margin hs level) rest (k := k) (j := j) hj hmembers b
        (position + 1 + (style.margin (level + 1)).length) (by omega)
      have htext : writeAt style level (.object ((k, j) :: members)) ++ rest = '\x7b' :: (style.margin (level + 1) ++
          membersText style (level + 1) k j members (style.margin level ++ '\x7d' :: rest)) := by
        rw [writeAt, membersText]
        simp only [List.append_assoc, List.cons_append, List.nil_append]
      rw [htext, readValue]
      simp only [skip_append (blank_margin hs (level + 1)) (stops_membersText style (level + 1) k j members _)]
      split
      · rename_i he
        cases he
      · rw [hread, ok_bind, Entries.setAll_nil hn]
        exact ⟨_, rfl⟩

theorem Plain.readsBack {style : Style} (hs : style.Blank) {j : Json} (h : j.Plain) : ReadsBack mark style j := by
  induction h with
  | null => exact readsBack_null style
  | bool b => exact readsBack_bool style b
  | whole n => exact readsBack_whole style n
  | text s => exact readsBack_text style s
  | list _ ih => exact readsBack_list hs ih
  | object hn _ ih => exact readsBack_object hs hn ih

/-- A plain value is read back from its text. -/
theorem read_write (mark : Mark) {style : Style} (hs : style.Blank) {j : Json} (h : j.Plain) :
    read mark (j.write style) = .ok j := by
  have hback : ReadsBack mark style j := h.readsBack hs
  obtain ⟨c, cs, hcs, hc⟩ := hback.starts 0
  obtain ⟨p, hread⟩ := hback.reads 0 (2 * (writeAt style 0 j).length + 2) 0 (by omega) (stops_nil prolongs)
  -- a byte order mark in front would be refused
  have hmark : (writeAt style 0 j).head? ≠ some (Char.ofNat 0xfeff) := by
    rw [hcs, List.head?_cons, ne_eq, Option.some_inj]
    exact startsValue_ne hc rfl
  have hstart := skip_of_stops (hback.stops 0 []) 0
  rw [List.append_nil] at hread hstart
  rw [read, write, String.toList_ofList, readChars, if_neg hmark, Cursor.start, hstart, hread]
  rfl

/-! ## Characters of strings -/

/-- Some string of the value, other than a key, has the character. -/
inductive Holds (c : Char) : Json → Prop
  | text {s : String} : c ∈ s.toList → Holds c (.text s)
  | item {items : List Json} {j : Json} : j ∈ items → Holds c j → Holds c (.list items)
  | member {members : Members} {k : String} {j : Json} : (k, j) ∈ members → Holds c j → Holds c (.object members)

section Holds

variable {c : Char} {style : Style} {level : Nat}

theorem mem_writeItems {items : List Json} {j : Json} (hj : j ∈ items) (h : c ∈ writeAt style level j) :
    c ∈ writeItems style level items := by
  induction items with
  | nil => cases hj
  | cons i items ih =>
    simp only [writeItems, List.mem_append]
    rcases List.mem_cons.mp hj with rfl | hj
    · exact Or.inl (Or.inr h)
    · exact Or.inr (ih hj)

theorem mem_writeMembers {members : Members} {k : String} {j : Json} (hj : (k, j) ∈ members) (h : c ∈ writeAt style level j) :
    c ∈ writeMembers style level members := by
  induction members with
  | nil => cases hj
  | cons m members ih =>
    obtain ⟨k', j'⟩ := m
    simp only [writeMembers, List.mem_append]
    rcases List.mem_cons.mp hj with he | hj
    · cases he
      exact Or.inl (Or.inr h)
    · exact Or.inr (ih hj)

/-- A character that is written as itself is in the text wherever it is in the value. -/
theorem Holds.mem_writeAt {j : Json} (h : j.Holds c) (hplain : escapeChar style.asciiOnly c = [c]) (level : Nat) :
    c ∈ writeAt style level j := by
  induction h generalizing level with
  | @text s hc =>
    have hmem : c ∈ writeText style.asciiOnly s := by
      refine List.mem_append_left _ (List.mem_cons_of_mem _ (List.mem_flatMap.mpr ⟨c, hc, ?_⟩))
      rw [hplain]
      exact List.mem_singleton_self c
    simpa only [writeAt] using hmem
  | @item items j hj _ ih =>
    cases items with
    | nil => cases hj
    | cons i items =>
      simp only [writeAt, List.mem_append, List.mem_cons]
      rcases List.mem_cons.mp hj with rfl | hj
      · exact Or.inl (Or.inl (Or.inl (Or.inr (ih (level + 1)))))
      · exact Or.inl (Or.inl (Or.inr (mem_writeItems hj (ih (level + 1)))))
  | @member members k j hj _ ih =>
    cases members with
    | nil => cases hj
    | cons m members =>
      obtain ⟨k', j'⟩ := m
      simp only [writeAt, List.mem_append, List.mem_cons]
      rcases List.mem_cons.mp hj with he | hj
      · cases he
        exact Or.inl (Or.inl (Or.inl (Or.inr (ih (level + 1)))))
      · exact Or.inl (Or.inl (Or.inr (mem_writeMembers hj (ih (level + 1)))))

end Holds

end Json

end TypeRecovery
