/-
  TypeRecovery.Proofs.Language.InLine — no rule but the one for line breaks reads past its line.

  A line is a text without line ends, and behind it comes a line end or nothing (`Stops`). All
  that a word of the language is made of stands in a line, and what it looks for behind itself
  is a character of a line too; a line end is none, just like the end of the text. So a scanner
  that stays `InLine` reads the same of a line, whatever comes behind the line.

  A rule stays in the line when it reads a beginning of what lies ahead, and of a line with
  something behind it what it reads of the line alone, from whatever position. Each way of
  making rules from rules keeps that. Where a part need not be there, the part must refuse the
  end of the text, where it is not even tried, just as it refuses a line end.

  Proved:
  - `InLine.map`, `InLine.ended`, `InLine.next`, `InLine.behind`: the ways of making words.
  - `inLine_integer`, `inLine_identifier`, …, `inLine_comment`: the words.
  - `inLine_bind`, `inLine_orElse`, `inLine_optional`, `inLine_many`: the ways of making rules.
  - `inLine_typeVar`, …, `inLine_line`: the rules of the grammar, up to the one for a line.
  - `reads_line_or_refuses`: a line is read to its end or refused, whatever comes behind it.
-/

import Mathlib.Data.List.TakeWhile
import TypeRecovery.Proofs.Language.Opening

namespace TypeRecovery.Language

open Text (isDigit naturalOf Cursor)

variable {α β : Type}

/-- A text without line ends. -/
def OneLine (cs : List Char) : Prop := ∀ c ∈ cs, isLineChar c = true

theorem oneLine_nil : OneLine [] := fun _ h => nomatch h

theorem oneLine_cons {c : Char} {cs : List Char} : OneLine (c :: cs) ↔ isLineChar c = true ∧ OneLine cs := List.forall_mem_cons

theorem oneLine_append {cs ds : List Char} : OneLine (cs ++ ds) ↔ OneLine cs ∧ OneLine ds := List.forall_mem_append

instance (cs : List Char) : Decidable (OneLine cs) := List.decidableBAll (fun c => isLineChar c = true) cs

/-! ## Characters -/

theorem isLineChar_of_isQuotable {c : Char} (h : isQuotable c = true) : isLineChar c = true := by
  simp only [isQuotable, Bool.and_eq_true] at h
  simp only [isLineChar, Bool.and_eq_true]
  exact ⟨h.1.2, h.2⟩

theorem isLineChar_of_isNameChar {c : Char} (h : isNameChar c = true) : isLineChar c = true :=
  isLineChar_of_isQuotable (isQuotable_of_isNameChar h)

theorem isLineChar_of_isDigit {c : Char} (h : isDigit c = true) : isLineChar c = true :=
  isLineChar_of_isNameChar (isNameChar_of_isDigit h)

theorem isLineChar_of_isSpace {c : Char} (h : isSpace c = true) : isLineChar c = true := by
  simp only [isSpace, Bool.or_eq_true, decide_eq_true_eq] at h
  rcases h with rfl | rfl <;> decide

/-- A line end is none of the characters of a line. -/
theorem ne_of_stops {c d : Char} {cs : List Char} (h : Stops isLineChar (c :: cs)) (hd : isLineChar d = true) : c ≠ d := by
  rintro rfl
  rw [stops_cons, hd] at h
  cases h

/-! ## Lexemes -/

namespace Lexeme

/-- The lexeme with more text behind it. -/
def before (rest : List Char) (l : Lexeme α) : Lexeme α := { l with rest := l.rest ++ rest }

/-- The lexeme is as long as what was read of the text. -/
def Begins (l : Lexeme α) (cs : List Char) : Prop := ∃ taken, cs = taken ++ l.rest ∧ taken.length = l.length

theorem Begins.map {l : Lexeme α} {cs : List Char} (h : l.Begins cs) (f : α → β) : (l.map f).Begins cs := h

theorem Begins.longer {l : Lexeme α} {cs : List Char} (h : l.Begins cs) (c : Char) : (l.longer 1).Begins (c :: cs) := by
  obtain ⟨taken, rfl, hlen⟩ := h
  exact ⟨c :: taken, rfl, congrArg (· + 1) hlen⟩

theorem Begins.next {l : Lexeme α} {m : Lexeme β} {cs : List Char} (h : l.Begins cs) (h' : m.Begins l.rest) :
    (m.longer l.length).Begins cs := by
  obtain ⟨taken, rfl, hlen⟩ := h
  obtain ⟨taken', hrest, hlen'⟩ := h'
  refine ⟨taken ++ taken', by rw [hrest, List.append_assoc]; rfl, ?_⟩
  rw [List.length_append, hlen, hlen', Nat.add_comm]
  rfl

theorem longer_longer (l : Lexeme α) (m n : Nat) : (l.longer m).longer n = l.longer (m + n) := by
  rw [longer, longer, longer, Nat.add_assoc]

theorem ended_longer (l : Lexeme α) (n : Nat) : (l.longer n).ended = l.ended.map (longer n) := by
  rw [ended, ended]
  show (if atNameEnd l.rest = true then _ else _) = _
  split <;> rfl

theorem Begins.oneLine {l : Lexeme α} {cs : List Char} (h : l.Begins cs) (hcs : OneLine cs) : OneLine l.rest := by
  obtain ⟨taken, rfl, -⟩ := h
  exact (oneLine_append.mp hcs).2

theorem ended_eq_some {l m : Lexeme α} (h : l.ended = some m) : m = l := by
  unfold ended at h
  split at h
  · cases h; rfl
  · cases h

theorem ended_before {l : Lexeme α} {rest : List Char} (hr : Stops isLineChar rest) :
    (l.before rest).ended = l.ended.map (before rest) := by
  have hend : atNameEnd (l.rest ++ rest) = atNameEnd l.rest := by
    cases l.rest with
    | nil => exact atNameEnd_of_stops (hr.mono fun _ => isLineChar_of_isNameChar)
    | cons c cs => rfl
  rw [ended, ended]
  show (if atNameEnd (l.rest ++ rest) = true then _ else _) = _
  rw [hend]
  split <;> rfl

end Lexeme

open Lexeme (ended_eq_some ended_before)

/-! ## Scanners -/

/-- The scanner reads a beginning of the text, and of a line what it reads of the line alone. -/
structure InLine (s : Scanner α) : Prop where
  begins {cs : List Char} {l : Lexeme α} : s cs = some l → l.Begins cs
  append {cs rest : List Char} : OneLine cs → Stops isLineChar rest → s (cs ++ rest) = (s cs).map (Lexeme.before rest)

/-- It is enough to look at texts that begin with a character of a line, if nothing is read at the end of one. -/
theorem InLine.of_cons {s : Scanner α} (hbegins : ∀ {cs l}, s cs = some l → l.Begins cs)
    (hnone : ∀ {rest}, Stops isLineChar rest → s rest = none)
    (hcons : ∀ {c cs rest}, OneLine (c :: cs) → Stops isLineChar rest →
      s (c :: (cs ++ rest)) = (s (c :: cs)).map (Lexeme.before rest)) :
    InLine s where
  begins := hbegins
  append {cs rest} hcs hr := by
    cases cs with
    | nil => rw [List.nil_append, hnone hr, hnone (stops_nil _)]; rfl
    | cons c cs => exact hcons hcs hr

namespace InLine

variable {s : Scanner α}

/-- What is read is a part of the first line. -/
theorem taken (hs : InLine s) {cs : List Char} {l : Lexeme α} (hl : s cs = some l) :
    ∃ taken, cs = taken ++ l.rest ∧ taken.length = l.length ∧ OneLine taken := by
  have hline : OneLine (cs.takeWhile isLineChar) := fun c hc => List.mem_takeWhile_imp hc
  have hread := hs.append hline (stops_dropWhile isLineChar cs)
  rw [List.takeWhile_append_dropWhile, hl] at hread
  obtain ⟨m, hm, rfl⟩ := Option.map_eq_some_iff.mp hread.symm
  obtain ⟨taken, htaken, hlen⟩ := hs.begins hm
  refine ⟨taken, ?_, hlen, (oneLine_append.mp (htaken ▸ hline)).1⟩
  show cs = taken ++ (m.rest ++ cs.dropWhile isLineChar)
  rw [← List.append_assoc, ← htaken, List.takeWhile_append_dropWhile]

theorem map (hs : InLine s) (f : α → β) : InLine fun cs => (s cs).map (Lexeme.map f) where
  begins {cs l} h := by
    obtain ⟨r, hr, rfl⟩ := Option.map_eq_some_iff.mp h
    exact (hs.begins hr).map f
  append {cs rest} hcs hr := by
    rw [hs.append hcs hr]
    cases s cs <;> rfl

/-- A step that looks behind the lexeme must not tell a line end from the end of the text. -/
theorem bind (hs : InLine s) {g : Lexeme α → Option (Lexeme β)}
    (hbegins : ∀ {l m cs}, l.Begins cs → g l = some m → m.Begins cs)
    (hbefore : ∀ {rest} (l : Lexeme α), Stops isLineChar rest → g (l.before rest) = (g l).map (Lexeme.before rest)) :
    InLine fun cs => (s cs).bind g where
  begins {cs l} h := by
    obtain ⟨r, hr, hl⟩ := Option.bind_eq_some_iff.mp h
    exact hbegins (hs.begins hr) hl
  append {cs rest} hcs hr := by
    rw [hs.append hcs hr]
    cases s cs with
    | none => rfl
    | some l => exact hbefore l hr

theorem ended (hs : InLine s) : InLine fun cs => (s cs).bind Lexeme.ended :=
  hs.bind (fun h hended => ended_eq_some hended ▸ h) fun _ hr => ended_before hr

/-- One lexeme and then another, which may depend on the first. -/
theorem next (hs : InLine s) {t : α → Scanner β} (ht : ∀ a, InLine (t a)) :
    InLine fun cs => (s cs).bind fun l => (t l.value l.rest).map (Lexeme.longer l.length) where
  begins {cs m} h := by
    obtain ⟨l, hl, h⟩ := Option.bind_eq_some_iff.mp h
    obtain ⟨r, hr, rfl⟩ := Option.map_eq_some_iff.mp h
    exact (hs.begins hl).next ((ht _).begins hr)
  append {cs rest} hcs hr := by
    rw [hs.append hcs hr]
    cases hl : s cs with
    | none => rfl
    | some l =>
      have hrest := (ht l.value).append ((hs.begins hl).oneLine hcs) hr
      show (t l.value (l.rest ++ rest)).map _ = ((t l.value l.rest).map _).map _
      rw [hrest]
      cases t l.value l.rest <;> rfl

/-- A scanner that goes by the first character, which must be one of a line. -/
theorem behind {s : Scanner α} {first : Char → Prop} [DecidablePred first] {t : Char → Scanner α}
    (hfirst : ∀ c, first c → isLineChar c = true) (ht : ∀ c, InLine (t c)) (hnil : s [] = none)
    (hcons : ∀ c cs, s (c :: cs) = if first c then (t c cs).map (Lexeme.longer 1) else none) : InLine s := by
  refine .of_cons (fun {cs l} h => ?_) (fun {rest} hr => ?_) fun {c cs rest} hcs hr => ?_
  · cases cs with
    | nil => exact nomatch hnil.symm.trans h
    | cons c cs =>
      rw [hcons] at h
      split at h
      · obtain ⟨r, hr, rfl⟩ := Option.map_eq_some_iff.mp h
        exact ((ht c).begins hr).longer c
      · cases h
  · cases rest with
    | nil => exact hnil
    | cons c rest => rw [hcons, if_neg fun h => ne_of_stops hr (hfirst c h) rfl]
  · rw [hcons, hcons, (ht c).append (oneLine_cons.mp hcs).2 hr]
    split
    · cases t c cs <;> rfl
    · rfl

theorem behindChar {s t : Scanner α} {d : Char} (hd : isLineChar d = true) (ht : InLine t) (hnil : s [] = none)
    (hread : ∀ cs, s (d :: cs) = (t cs).map (Lexeme.longer 1)) (hnone : ∀ c cs, c ≠ d → s (c :: cs) = none) : InLine s := by
  have hfirst : ∀ c, c = d → isLineChar c = true := fun c h => h ▸ hd
  refine .behind hfirst (fun _ => ht) hnil fun c cs => ?_
  split
  · rename_i h
    rw [h, hread]
  · rename_i h
    exact hnone c cs h

end InLine

section Runs

variable {p : Char → Bool}

theorem begins_run (p : Char → Bool) (cs : List Char) : (run p cs).Begins cs :=
  ⟨cs.takeWhile p, List.takeWhile_append_dropWhile.symm, rfl⟩

theorem Stops.takeWhile_append {rest : List Char} (hr : Stops p rest) (cs : List Char) :
    (cs ++ rest).takeWhile p = cs.takeWhile p := by
  induction cs with
  | nil => exact hr.takeWhile
  | cons c cs ih => rw [List.cons_append, List.takeWhile_cons, List.takeWhile_cons, ih]

theorem Stops.dropWhile_append {rest : List Char} (hr : Stops p rest) (cs : List Char) :
    (cs ++ rest).dropWhile p = cs.dropWhile p ++ rest := by
  induction cs with
  | nil => exact hr.dropWhile
  | cons c cs ih =>
    rw [List.cons_append, List.dropWhile_cons, List.dropWhile_cons, ih]
    split <;> rfl

theorem run_before {rest : List Char} (hr : Stops p rest) (cs : List Char) : run p (cs ++ rest) = (run p cs).before rest := by
  rw [run, hr.takeWhile_append, hr.dropWhile_append]
  rfl

theorem inLine_run (hp : ∀ c, p c = true → isLineChar c = true) : InLine fun cs => some (run p cs) where
  begins {cs l} h := by
    cases h
    exact begins_run p cs
  append {cs rest} _ hr := congrArg some (run_before (hr.mono hp) cs)

theorem inLine_run1 (hp : ∀ c, p c = true → isLineChar c = true) : InLine (run1 p) := by
  refine .of_cons (fun {cs l} h => ?_) (fun hr => run1_eq_none (hr.mono hp)) fun {c cs rest} _ hr => ?_
  · cases cs with
    | nil => cases h
    | cons c cs =>
      rw [run1] at h
      split at h
      · cases h; exact begins_run p _
      · cases h
  · rw [run1, run1, ← List.cons_append, run_before (hr.mono hp)]
    split <;> rfl

end Runs

theorem inLine_word {w : List Char} (hw : OneLine w) : InLine (word w) where
  begins {cs l} h := by
    obtain ⟨t, rfl⟩ := prefix_of_word h
    rw [word, if_pos (by simp)] at h
    cases h
    exact ⟨w, by simp, rfl⟩
  append {cs rest} hcs hr := by
    by_cases hprefix : w <+: cs
    · obtain ⟨t, rfl⟩ := hprefix
      simp [word, List.append_assoc, Lexeme.before]
    · have hlong : ¬w <+: cs ++ rest := fun h => by
        obtain ⟨t, ht⟩ := append_of_prefix h hw hr
        exact hprefix ⟨t, ht.symm⟩
      simp [word, hprefix, hlong]

/-! ### Numbers -/

theorem inLine_natural : InLine natural := (inLine_run1 fun _ => isLineChar_of_isDigit).map naturalOf

theorem inLine_signed : InLine signed := by
  refine .of_cons (fun {cs l} h => ?_) (fun {rest} hr => ?_) fun {c cs rest} hcs hr => ?_
  · unfold signed at h
    split at h
    · obtain ⟨r, hr, rfl⟩ := Option.map_eq_some_iff.mp h
      exact ((inLine_natural.begins hr).map _).longer _
    · obtain ⟨r, hr, rfl⟩ := Option.map_eq_some_iff.mp h
      exact (inLine_natural.begins hr).map _
  · cases rest with
    | nil => rfl
    | cons c rest =>
      exact signed_eq_none (ne_of_stops hr (by decide)) (stops_cons.mp (hr.mono fun _ => isLineChar_of_isDigit))
  · by_cases hminus : c = '-'
    · subst hminus
      rw [signed, signed, inLine_natural.append (oneLine_cons.mp hcs).2 hr]
      cases natural cs <;> rfl
    · rw [signed_of_ne hminus, signed_of_ne hminus, ← List.cons_append, inLine_natural.append hcs hr]
      cases natural (c :: cs) <;> rfl

theorem inLine_integer : InLine integer := inLine_signed.ended

/-! ### Names -/

theorem inLine_identifier : InLine identifier :=
  .behind (fun _ h => isLineChar_of_isNameChar (isNameChar_of_isNameStart h))
    (fun c => (inLine_run fun _ => isLineChar_of_isNameChar).map fun cs => String.ofList (c :: cs)) rfl fun _ _ => rfl

theorem begins_closeQuote {l : Lexeme (List Char)} {m : Lexeme String} {cs : List Char} (hl : l.Begins cs)
    (h : closeQuote l = some m) : m.Begins cs := by
  unfold closeQuote at h
  split at h
  · rename_i rest hrest
    cases h
    obtain ⟨taken, rfl, hlen⟩ := hl
    exact ⟨taken ++ ['"'], by simp [hrest], by simp [hlen]⟩
  · cases h

theorem closeQuote_before {rest : List Char} (hr : Stops isLineChar rest) (l : Lexeme (List Char)) :
    closeQuote (l.before rest) = (closeQuote l).map (Lexeme.before rest) := by
  obtain ⟨value, length, ahead⟩ := l
  cases ahead with
  | nil =>
    cases rest with
    | nil => rfl
    | cons c rest =>
      have hquote := ne_of_stops hr (d := '"') (by decide)
      simp [closeQuote, Lexeme.before, hquote]
  | cons c ahead =>
    by_cases hquote : c = '"' <;> simp [closeQuote, Lexeme.before, hquote]

theorem inLine_closed {s : Scanner (List Char)} (hs : InLine s) : InLine fun cs => (s cs).bind closeQuote :=
  hs.bind begins_closeQuote fun l hr => closeQuote_before hr l

theorem inLine_quoted : InLine quoted :=
  .behindChar (by decide) (inLine_closed (inLine_run fun _ => isLineChar_of_isQuotable)) rfl (fun _ => rfl)
    fun _ cs h => quoted_eq_none cs h

theorem inLine_quotedName : InLine quotedName :=
  .behindChar (by decide) (inLine_closed (inLine_run1 fun _ => isLineChar_of_isQuotable)) rfl (fun _ => rfl)
    fun _ cs h => quotedName_eq_none cs h

/-! ### Labels -/

theorem inLine_pointerLabel : InLine pointerLabel where
  begins {cs l} h := by
    unfold pointerLabel at h
    split at h
    · rename_i r hr
      rw [ended_eq_some h]
      exact ((inLine_word (by decide)).begins hr).map _
    · obtain ⟨r, hr, hended⟩ := Option.bind_eq_some_iff.mp h
      rw [ended_eq_some hended]
      exact ((inLine_word (by decide)).begins hr).map _
  append {cs rest} hcs hr := by
    rw [pointerLabel, pointerLabel, (inLine_word (by decide)).append hcs hr, (inLine_word (by decide)).append hcs hr]
    cases word ['l', 'o', 'a', 'd'] cs with
    | some l => exact ended_before (l := l.map fun _ => Label.load) hr
    | none =>
      cases word ['s', 't', 'o', 'r', 'e'] cs with
      | some l => exact ended_before (l := l.map fun _ => Label.store) hr
      | none => rfl

theorem indexed_eq (w : List Char) (make : Nat → Label) : indexed w make = fun cs =>
    (word w cs).bind fun l => (((natural l.rest).map (Lexeme.map make)).bind Lexeme.ended).map (Lexeme.longer l.length) := by
  funext cs
  simp only [indexed, Option.bind_map, Option.map_bind, Function.comp_def, Lexeme.ended_longer]

theorem inLine_indexed {w : List Char} (hw : OneLine w) (make : Nat → Label) : InLine (indexed w make) := by
  rw [indexed_eq]
  exact (inLine_word hw).next fun _ => (inLine_natural.map make).ended

theorem fieldGeometry_eq : fieldGeometry = fun cs => (signed cs).bind fun bits =>
    ((word ['@'] bits.rest).bind fun separator =>
      (((signed separator.rest).map (Lexeme.map fun k => Label.field ⟨bits.value, k⟩)).bind Lexeme.ended).map
        (Lexeme.longer separator.length)).map (Lexeme.longer bits.length) := by
  funext cs
  simp only [fieldGeometry, Option.bind_map, Option.map_bind, Option.map_map, Function.comp_def, Lexeme.ended_longer,
    Lexeme.longer_longer, Nat.add_comm]

theorem inLine_fieldGeometry : InLine fieldGeometry := by
  rw [fieldGeometry_eq]
  exact inLine_signed.next fun bits => (inLine_word (by decide)).next fun _ =>
    (inLine_signed.map fun k => Label.field ⟨bits, k⟩).ended

theorem inLine_fieldLabel : InLine fieldLabel :=
  .behind (by rintro _ (rfl | rfl) <;> decide) (fun _ => inLine_fieldGeometry) rfl fun _ _ => rfl

/-! ### Blanks, comments and the end of a line -/

theorem inLine_spaces : InLine spaces := (inLine_run fun _ => isLineChar_of_isSpace).map fun _ => ()

theorem inLine_spaces1 : InLine spaces1 := (inLine_run1 fun _ => isLineChar_of_isSpace).map fun _ => ()

theorem comment_eq_none {c : Char} (cs : List Char) (h : c ≠ '#') : comment (c :: cs) = none := by
  unfold comment
  split
  · rename_i he
    cases he
    exact absurd rfl h
  · rfl

theorem inLine_comment : InLine comment :=
  .behindChar (by decide) ((inLine_run fun _ h => h).map fun _ => ()) rfl (fun _ => rfl) fun _ cs h => comment_eq_none cs h

theorem inLine_lineEnd : InLine lineEnd where
  begins {cs l} h := by
    unfold lineEnd at h
    split at h
    · split at h
      · cases h
      · cases h
        exact ⟨[], rfl, rfl⟩
    · cases h
      exact ⟨[], rfl, rfl⟩
  append {cs rest} hcs hr := by
    cases cs with
    | cons c cs => simp [lineEnd, (oneLine_cons.mp hcs).1]
    | nil =>
      cases rest with
      | nil => rfl
      | cons c rest => simp [lineEnd, stops_cons.mp hr, Lexeme.before]

/-! ## Rules -/

namespace Rule

/-- The cursor behind what was read of a line, for a text that holds the line at a position. -/
def placed (position : Nat) (rest : List Char) (r : α × Cursor) : α × Cursor :=
  (r.1, ⟨position + r.2.position, r.2.rest ++ rest⟩)

/-- The rule reads a beginning of what lies ahead, and of a line what it reads of the line alone. -/
structure InLine (p : Rule α) : Prop where
  begins {c after : Cursor} {a : α} : (p c).outcome = some (a, after) →
    ∃ taken, c.rest = taken ++ after.rest ∧ after.position = c.position + taken.length
  append {cs rest : List Char} (position : Nat) : OneLine cs → Stops isLineChar rest →
    (p ⟨position, cs ++ rest⟩).outcome = (p (.start cs)).outcome.map (placed position rest)

theorem InLine.oneLine {p : Rule α} (hp : p.InLine) {c after : Cursor} {a : α} (hc : OneLine c.rest)
    (h : (p c).outcome = some (a, after)) : OneLine after.rest := by
  obtain ⟨taken, htaken, -⟩ := hp.begins h
  exact (oneLine_append.mp (htaken ▸ hc)).2

theorem InLine.length_eq {p : Rule α} (hp : p.InLine) {cs : List Char} {after : Cursor} {a : α}
    (h : (p (.start cs)).outcome = some (a, after)) (hrest : after.rest = []) : after.position = cs.length := by
  obtain ⟨taken, htaken, hposition⟩ := hp.begins h
  rw [hrest, List.append_nil] at htaken
  rw [hposition, ← htaken]
  exact Nat.zero_add _

/-- What is read of a line does not depend on where the line stands. -/
theorem InLine.shift {p : Rule α} (hp : p.InLine) {c : Cursor} (hc : OneLine c.rest) :
    (p c).outcome = (p (.start c.rest)).outcome.map (placed c.position []) := by
  have h := hp.append c.position hc (stops_nil isLineChar)
  rwa [List.append_nil] at h

theorem inLine_pure (a : α) : InLine (pure a : Rule α) where
  begins h := by
    cases h
    exact ⟨[], rfl, rfl⟩
  append _ _ _ := rfl

theorem inLine_bind {p : Rule α} {f : α → Rule β} (hp : p.InLine) (hf : ∀ a, (f a).InLine) : InLine (p >>= f) where
  begins {c after b} h := by
    rw [outcome_bind, Option.bind_eq_some_iff] at h
    obtain ⟨⟨a, next⟩, ha, hb⟩ := h
    obtain ⟨taken, hrest, hposition⟩ := hp.begins ha
    obtain ⟨taken', hrest', hposition'⟩ := (hf a).begins hb
    refine ⟨taken ++ taken', by rw [hrest, hrest', List.append_assoc], ?_⟩
    rw [hposition', hposition, List.length_append, Nat.add_assoc]
  append {cs rest} position hcs hr := by
    rw [outcome_bind, outcome_bind, hp.append position hcs hr]
    cases ha : (p (.start cs)).outcome with
    | none => rfl
    | some r =>
      obtain ⟨a, next⟩ := r
      have hnext := hp.oneLine hcs ha
      show ((f a) ⟨position + next.position, next.rest ++ rest⟩).outcome = ((f a) next).outcome.map _
      rw [(hf a).append _ hnext hr, (hf a).shift hnext, Option.map_map]
      congr 1
      funext r
      simp [placed, Nat.add_assoc]

theorem inLine_orElse {p q : Rule α} (hp : p.InLine) (hq : q.InLine) : InLine (p.orElse q) where
  begins h := by
    rw [outcome_orElse, Option.or_eq_some_iff] at h
    rcases h with h | ⟨-, h⟩
    · exact hp.begins h
    · exact hq.begins h
  append {cs rest} position hcs hr := by
    rw [outcome_orElse, outcome_orElse, hp.append position hcs hr, hq.append position hcs hr]
    cases (p (.start cs)).outcome <;> rfl

theorem inLine_noting {p : Rule α} (hp : p.InLine) (w : Bool) : InLine (noting w p) where
  begins h := hp.begins ((outcome_noting w p _).symm.trans h)
  append position hcs hr := by rw [outcome_noting, outcome_noting, hp.append position hcs hr]

theorem inLine_whole {p : Rule α} (hp : p.InLine) : InLine (whole p) := inLine_noting hp true

theorem inLine_part {p : Rule α} (hp : p.InLine) : InLine (part p) := inLine_noting hp false

theorem inLine_scan {s : Scanner α} (hs : Language.InLine s) : InLine (scan s) where
  begins {c after a} h := by
    unfold scan at h
    split at h
    · rename_i l hl
      cases h
      obtain ⟨taken, hrest, hlen⟩ := hs.begins hl
      exact ⟨taken, hrest, by rw [hlen]⟩
    · cases h
  append {cs rest} position hcs hr := by
    simp only [scan, Cursor.start, hs.append hcs hr]
    cases s cs with
    | none => rfl
    | some l => simp [placed, Lexeme.before]

theorem inLine_lexeme {s : Scanner α} (hs : Language.InLine s) : InLine (lexeme s) := inLine_whole (inLine_scan hs)

theorem inLine_fixed {w : List Char} (hw : OneLine w) : InLine (fixed w) := inLine_part (inLine_scan (inLine_word hw))

/-- A rule that refuses the end of the text refuses the end of a line. -/
theorem InLine.refuses {p : Rule α} (hp : p.InLine) (hnone : Refuses p []) {rest : List Char} (hr : Stops isLineChar rest) :
    Refuses p rest := fun position => by
  have hstart : (p (.start [])).outcome = none := hnone 0
  have h := hp.append position oneLine_nil hr
  rwa [hstart] at h

theorem outcome_optional {p : Rule α} (hnone : Refuses p []) (c : Cursor) :
    (optional p c).outcome = some (((p c).outcome.map fun r => (some r.1, r.2)).getD (none, c)) := by
  obtain ⟨position, cs⟩ := c
  unfold optional
  cases cs with
  | nil => rw [hnone position]; rfl
  | cons x cs => rcases p ⟨position, x :: cs⟩ with ⟨_ | ⟨a, after⟩, trail⟩ <;> rfl

theorem inLine_optional {p : Rule α} (hp : p.InLine) (hnone : Refuses p []) : InLine (optional p) where
  begins {c after o} h := by
    rw [outcome_optional hnone, Option.some_inj] at h
    cases ha : (p c).outcome with
    | none =>
      rw [ha] at h
      cases h
      exact ⟨[], rfl, rfl⟩
    | some r =>
      rw [ha] at h
      cases h
      exact hp.begins ha
  append {cs rest} position hcs hr := by
    rw [outcome_optional hnone, outcome_optional hnone, hp.append position hcs hr]
    cases (p (.start cs)).outcome <;> rfl

/-- At the end of a line no further turn is taken. -/
theorem outcome_turns_stop {p : Rule α} {budget : List Char} {c : Cursor} (h : Refuses p c.rest) :
    (turns p budget c).outcome = some ([], c) := by
  cases budget with
  | nil => rfl
  | cons x budget =>
    rw [outcome_turns_succ, h c.position]
    split <;> rfl

/-- The budget of a line lasts for the text that holds the line: every turn reads something, and at
the end of the line there is none. -/
theorem outcome_turns_append {p : Rule α} (hp : p.InLine) (hnone : Refuses p []) {rest : List Char} (hr : Stops isLineChar rest)
    (budget : List Char) {cs : List Char} (hcs : OneLine cs) (hb : cs.length ≤ budget.length) {wide : List Char}
    (hw : cs.length ≤ wide.length) (position : Nat) :
    (turns p wide ⟨position, cs ++ rest⟩).outcome = (turns p budget (.start cs)).outcome.map (placed position rest) := by
  -- On the budget of the line: it has run out only where the line has, and the wide one lasts as long.
  induction budget generalizing cs wide position rest with
  | nil =>
    obtain rfl : cs = [] := List.length_eq_zero_iff.mp (Nat.le_zero.mp hb)
    exact outcome_turns_stop (hp.refuses hnone hr)
  | cons y budget ih =>
    cases cs with
    | nil =>
      have hstop : (turns p (y :: budget) (.start [])).outcome = some ([], .start []) := outcome_turns_stop hnone
      rw [hstop]
      exact outcome_turns_stop (hp.refuses hnone hr)
    | cons x cs =>
      obtain ⟨z, wide, rfl⟩ : ∃ z w, wide = z :: w := List.exists_cons_of_ne_nil fun h => by simp [h] at hw
      rw [outcome_turns_succ, outcome_turns_succ, hp.append position hcs hr]
      cases ha : (p (.start (x :: cs))).outcome with
      | none => rfl
      | some r =>
        obtain ⟨a, next⟩ := r
        obtain ⟨taken, htaken, hposition⟩ := hp.begins ha
        have hnext := hp.oneLine hcs ha
        by_cases hempty : next.position = 0
        · simp [Cursor.start, placed, hempty]
        · have htaken' : next.position = taken.length := by simpa [Cursor.start] using hposition
          have hlen : cs.length + 1 = taken.length + next.rest.length := by
            rw [← List.length_append, ← htaken]
            rfl
          simp only [List.length_cons] at hb hw
          have hb' : next.rest.length ≤ budget.length := by omega
          have hw' : next.rest.length ≤ wide.length := by omega
          have hmore := ih hr hnext hb' hw' (position + next.position)
          have halone := ih (stops_nil _) hnext hb' hb' next.position
          rw [List.append_nil] at halone
          show (if position + next.position = position then _ else (turns p wide ⟨_, next.rest ++ rest⟩).outcome.map _) =
            (if next.position = 0 then _ else (turns p budget ⟨next.position, next.rest⟩).outcome.map _).map _
          rw [if_neg (by omega), if_neg hempty, hmore, halone]
          simp only [Option.map_map]
          congr 1
          funext r
          simp [placed, Nat.add_assoc]

theorem inLine_many {p : Rule α} (hp : p.InLine) (hnone : Refuses p []) : InLine (many p) where
  begins {c after as} h := by
    have hturns := repeats_of_many h
    clear h
    induction hturns with
    | stop c => exact ⟨[], rfl, rfl⟩
    | turn ha _ ih =>
      obtain ⟨taken, hrest, hposition⟩ := hp.begins ha
      obtain ⟨taken', hrest', hposition'⟩ := ih
      refine ⟨taken ++ taken', by rw [hrest, hrest', List.append_assoc], ?_⟩
      rw [hposition', hposition, List.length_append, Nat.add_assoc]
  append {cs rest} position hcs hr :=
    outcome_turns_append hp hnone hr cs hcs (Nat.le_refl _) (by simp) position

/-! ### What is left -/

/-- Whatever the rule reads, what is left has the property. -/
def Leaves (p : Rule α) (P : List Char → Prop) : Prop := ∀ c a after, (p c).outcome = some (a, after) → P after.rest

section Leaves

variable {P : List Char → Prop}

theorem leaves_bind {p : Rule α} {f : α → Rule β} (hf : ∀ a, Leaves (f a) P) : Leaves (p >>= f) P := fun c b after he => by
  rw [outcome_bind, Option.bind_eq_some_iff] at he
  obtain ⟨⟨a, next⟩, -, hb⟩ := he
  exact hf a next b after hb

theorem leaves_bind_kept {p : Rule α} {f : α → Rule β} (hp : Leaves p P) (hf : ∀ a, Keeps (f a) P) : Leaves (p >>= f) P :=
  fun c b after he => by
  rw [outcome_bind, Option.bind_eq_some_iff] at he
  obtain ⟨⟨a, next⟩, ha, hb⟩ := he
  exact hf a next b after (hp c a next ha) hb

theorem leaves_orElse {p q : Rule α} (hp : Leaves p P) (hq : Leaves q P) : Leaves (p.orElse q) P := fun c a after he => by
  rw [outcome_orElse, Option.or_eq_some_iff] at he
  rcases he with he | ⟨-, he⟩
  · exact hp c a after he
  · exact hq c a after he

theorem leaves_whole {p : Rule α} (h : Leaves p P) : Leaves (whole p) P := fun c a after he =>
  h c a after ((outcome_noting true p c).symm.trans he)

theorem leaves_lexeme {s : Scanner α} (h : ∀ cs l, s cs = some l → P l.rest) : Leaves (lexeme s) P := fun c a after he => by
  obtain ⟨l, hl, -, hrest⟩ := outcome_lexeme he
  rw [← hrest]
  exact h _ l hl

end Leaves

end Rule

/-! ## The grammar -/

open Rule

theorem inLine_spacesRule : spacesRule.InLine := inLine_lexeme inLine_spaces

theorem inLine_label : labelRule.InLine :=
  inLine_whole (inLine_orElse (inLine_lexeme inLine_fieldLabel)
    (inLine_orElse (inLine_lexeme (inLine_indexed (by decide) .input))
      (inLine_orElse (inLine_lexeme (inLine_indexed (by decide) .output)) (inLine_lexeme inLine_pointerLabel))))

theorem inLine_labelSuffix : labelSuffixRule.InLine :=
  inLine_whole (inLine_bind (inLine_fixed (by decide)) fun _ => inLine_label)

theorem inLine_base : baseRule.InLine :=
  inLine_whole (inLine_orElse (inLine_lexeme inLine_identifier) (inLine_lexeme inLine_quotedName))

theorem inLine_typeVar : typeVarRule.InLine :=
  inLine_whole (inLine_bind inLine_base fun _ =>
    inLine_bind (inLine_many inLine_labelSuffix (refuses_whole (refuses_bind (refuses_fixed rfl)))) fun _ => inLine_pure _)

theorem inLine_target : targetRule.InLine := by
  refine inLine_whole (inLine_orElse ?_ (inLine_orElse ?_ ?_))
  · exact inLine_bind (inLine_lexeme inLine_integer) fun _ => inLine_pure _
  · exact inLine_bind (inLine_lexeme inLine_quoted) fun _ => inLine_pure _
  · exact inLine_bind (inLine_lexeme inLine_identifier) fun _ => inLine_pure _

theorem inLine_relation : relationRule.InLine :=
  inLine_whole (inLine_orElse (inLine_fixed (by decide)) (inLine_fixed (by decide)))

theorem inLine_subtyping : subtypingRule.InLine :=
  inLine_whole (inLine_bind inLine_typeVar fun _ => inLine_bind inLine_spacesRule fun _ =>
    inLine_bind inLine_relation fun _ => inLine_bind inLine_spacesRule fun _ =>
      inLine_bind inLine_typeVar fun _ => inLine_pure _)

theorem inLine_binding : bindingRule.InLine :=
  inLine_whole (inLine_bind (inLine_fixed (by decide)) fun _ => inLine_bind (inLine_lexeme inLine_spaces1) fun _ =>
    inLine_bind inLine_target fun _ => inLine_bind inLine_spacesRule fun _ => inLine_bind (inLine_fixed (by decide)) fun _ =>
      inLine_bind inLine_spacesRule fun _ => inLine_bind inLine_subtyping fun _ => inLine_pure _)

theorem inLine_statement : statementRule.InLine :=
  inLine_whole (inLine_orElse (inLine_bind inLine_binding fun _ => inLine_pure _)
    (inLine_bind inLine_subtyping fun _ => inLine_pure _))

/-- What stands behind the statement of a line, or in its place. -/
def restOfLine (o : Option Statement) : Rule (Option Statement) := do
  let _ ← Rule.optional commentRule
  lineEndRule
  return o

theorem inLine_restOfLine (o : Option Statement) : (restOfLine o).InLine :=
  inLine_bind (inLine_optional (inLine_lexeme inLine_comment) (refuses_lexeme rfl)) fun _ =>
    inLine_bind (inLine_lexeme inLine_lineEnd) fun _ => inLine_pure o

theorem inLine_line : lineRule.InLine := by
  refine inLine_whole (inLine_orElse (inLine_whole ?_) (inLine_whole ?_))
  · exact inLine_bind inLine_spacesRule fun _ => inLine_bind inLine_statement fun s =>
      inLine_bind inLine_spacesRule fun _ => inLine_restOfLine (some s)
  · exact inLine_bind inLine_spacesRule fun _ => inLine_restOfLine none

/-! ## Whole lines -/

theorem leaves_restOfLine (o : Option Statement) : Leaves (restOfLine o) (Stops isLineChar) := by
  refine leaves_bind fun _ => leaves_bind_kept (leaves_lexeme fun cs l h => ?_) fun _ => keeps_pure o
  unfold lineEnd at h
  split at h
  · split at h
    · cases h
    · cases h
      rename_i hc
      exact stops_cons.mpr (Bool.eq_false_iff.mpr hc)
  · cases h
    exact stops_nil _

/-- Where the rule for a line has read, the line is over. -/
theorem leaves_line : Leaves lineRule (Stops isLineChar) := by
  refine leaves_whole (leaves_orElse (leaves_whole ?_) (leaves_whole ?_))
  · exact leaves_bind fun _ => leaves_bind fun s => leaves_bind fun _ => leaves_restOfLine (some s)
  · exact leaves_bind fun _ => leaves_restOfLine none

/-- A line is read to its end or refused, and what comes behind it does not matter. -/
theorem reads_line_or_refuses {line : List Char} (hline : OneLine line) :
    (∃ o, ∀ rest, Stops isLineChar rest → Reads lineRule line o rest) ∨
      ∀ rest, Stops isLineChar rest → Refuses lineRule (line ++ rest) := by
  cases ha : (lineRule (.start line)).outcome with
  | none =>
    refine Or.inr fun rest hr position => ?_
    rw [inLine_line.append position hline hr, ha]
    rfl
  | some r =>
    obtain ⟨o, after⟩ := r
    have hone := inLine_line.oneLine hline ha
    have hrest : after.rest = [] := by
      have hstops := leaves_line _ o after ha
      cases hrest : after.rest with
      | nil => rfl
      | cons c cs =>
        rw [hrest] at hstops hone
        exact absurd (oneLine_cons.mp hone).1 (by rw [stops_cons.mp hstops]; decide)
    refine Or.inl ⟨o, fun rest hr position => ?_⟩
    rw [inLine_line.append position hline hr, ha, Option.map_some, placed, hrest, inLine_line.length_eq ha hrest]
    rfl

end TypeRecovery.Language
