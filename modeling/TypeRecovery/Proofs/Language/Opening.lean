/-
  TypeRecovery.Proofs.Language.Opening — what a text of the language cannot begin with.

  A text `Opens` with the first of its characters that is not blank. The language knows only
  some of the blank characters: spaces and tabs inside a line, line feeds between lines. So in
  front of that first character a rule may stop early, but what it leaves unread still opens
  the same way: blank lines keep it, and a comment cannot be read before it. If it begins
  neither a statement nor a comment, every line is a blank one, the end of the text is never
  reached, and the document is refused.

  Proved:
  - `opens_dropWhile`, `opens_unifyLineEnds`: what does not matter to how a text opens.
  - `keeps_line`, `keeps_furtherLine`: a line that is read leaves the opening to be read.
  - `refuses_document`, `not_opens_of_parse`: how no accepted text opens.
-/

import TypeRecovery.Proofs.Language.Document

namespace TypeRecovery

namespace Text

/-- The first character that is not blank is `d`. -/
def Opens (d : Char) (cs : List Char) : Prop := (cs.dropWhile isBlank).head? = some d

/-- What holds of the listed characters holds of the blank ones. -/
theorem of_isBlank {p : Char → Bool} (h : ∀ n ∈ blanks, p (Char.ofNat n) = true) {c : Char} (hc : isBlank c = true) :
    p c = true := by
  have hp := h c.toNat (List.contains_iff_mem.mp hc)
  rwa [Char.ofNat_toNat] at hp

section Opens

variable {c d : Char} {cs : List Char}

theorem opens_cons_of_blank (hc : isBlank c = true) : Opens d (c :: cs) ↔ Opens d cs := by
  rw [Opens, List.dropWhile_cons_of_pos hc, Opens]

theorem opens_cons_of_not_blank (hc : isBlank c = false) : Opens d (c :: cs) ↔ c = d := by
  rw [Opens, List.dropWhile_cons_of_neg (by simp [hc]), List.head?_cons, Option.some_inj]

theorem not_opens_nil : ¬Opens d [] := by
  intro h
  cases h

/-- A text opens with its first character, or that is blank. -/
theorem Opens.head (h : Opens d (c :: cs)) : isBlank c = true ∨ c = d := by
  by_cases hc : isBlank c = true
  · exact Or.inl hc
  · exact Or.inr ((opens_cons_of_not_blank (Bool.eq_false_iff.mpr hc)).mp h)

/-- Leaving out some of the blanks in front changes nothing. -/
theorem opens_dropWhile {p : Char → Bool} (hp : ∀ c, p c = true → isBlank c = true) :
    Opens d (cs.dropWhile p) ↔ Opens d cs := by
  induction cs with
  | nil => exact Iff.rfl
  | cons c cs ih =>
    by_cases hc : p c = true
    · rw [List.dropWhile_cons_of_pos hc, ih, opens_cons_of_blank (hp c hc)]
    · rw [List.dropWhile_cons_of_neg hc]

/-- The ends of lines are blank, however they are written. -/
theorem opens_unifyLineEnds : Opens d (unifyLineEnds cs) ↔ Opens d cs := by
  fun_induction unifyLineEnds cs with
  | case1 => exact Iff.rfl
  | case2 rest ih =>
    rw [opens_cons_of_blank (by decide), opens_cons_of_blank (by decide), opens_cons_of_blank (by decide), ih]
  | case3 rest _ ih => rw [opens_cons_of_blank (by decide), opens_cons_of_blank (by decide), ih]
  | case4 c rest _ _ ih =>
    by_cases hc : isBlank c = true
    · rw [opens_cons_of_blank hc, opens_cons_of_blank hc, ih]
    · have hc' := Bool.eq_false_iff.mpr hc
      rw [opens_cons_of_not_blank hc', opens_cons_of_not_blank hc']

end Opens

end Text

namespace Language

open Rule
open Text (Opens isBlank of_isBlank opens_cons_of_blank opens_dropWhile not_opens_nil)

theorem isBlank_of_isSpace {c : Char} (h : isSpace c = true) : isBlank c = true := by
  simp only [isSpace, Bool.or_eq_true, decide_eq_true_eq] at h
  rcases h with rfl | rfl <;> decide

/-- The characters with which a line begins, behind its spaces. -/
def startsLine (c : Char) : Bool := startsStatement c || c = '#'

theorem startsLine_of_isBlank {c : Char} (h : isBlank c = true) : startsLine c = false := by
  have hnot := of_isBlank (p := fun c => !startsLine c) (by decide) h
  simpa using hnot

section Opening

variable {d : Char} (hd : startsLine d = false)
include hd

theorem stops_of_opens {cs : List Char} (h : Opens d cs) : Stops startsLine cs := by
  cases cs with
  | nil => exact stops_nil _
  | cons c cs =>
    rcases h.head with hc | rfl
    · exact stops_cons.mpr (startsLine_of_isBlank hc)
    · exact stops_cons.mpr hd

theorem refuses_statement_of_opens {cs : List Char} (h : Opens d cs) : Refuses statementRule cs :=
  refuses_statement ((stops_of_opens hd h).mono fun c hc => by simp [startsLine, hc])

theorem refuses_comment_of_opens {cs : List Char} (h : Opens d cs) : Refuses commentRule cs := by
  refine refuses_lexeme ?_
  unfold comment
  split
  · exact absurd (stops_cons.mp (stops_of_opens hd h)) (by decide)
  · rfl

end Opening

/-! ## Lines -/

section Lines

variable {d : Char}

theorem keeps_spaces : Keeps spacesRule (Opens d) := by
  refine keeps_lexeme ?_
  intro cs l h hl
  cases hl
  exact (opens_dropWhile fun _ => isBlank_of_isSpace).mpr h

theorem keeps_lineEnd : Keeps lineEndRule (Opens d) := by
  refine keeps_lexeme ?_
  intro cs l h hl
  unfold lineEnd at hl
  split at hl
  · split at hl
    · cases hl
    · cases hl
      exact h
  · cases hl
    exact h

theorem keeps_lineBreak : Keeps lineBreakRule (Opens d) := by
  refine keeps_lexeme ?_
  intro cs l h hl
  unfold lineBreak at hl
  split at hl
  · cases hl
    exact (opens_cons_of_blank (by decide)).mp h
  · cases hl
    exact (opens_cons_of_blank (by decide)).mp ((opens_cons_of_blank (by decide)).mp h)
  · cases hl

variable (hd : startsLine d = false)
include hd

theorem refuses_statementLine {cs : List Char} (h : Opens d cs) : Refuses statementLineRule cs := by
  refine refuses_whole (refuses_bind_kept keeps_spaces ?_ h)
  intro _ cs h
  exact refuses_bind (refuses_statement_of_opens hd h)

theorem keeps_blankLine : Keeps blankLineRule (Opens d) := by
  refine keeps_whole (keeps_bind keeps_spaces fun _ => keeps_bind (keeps_optional ?_) fun _ =>
    keeps_bind keeps_lineEnd fun _ => keeps_pure none)
  exact keeps_of_refuses fun _ => refuses_comment_of_opens hd

theorem keeps_line : Keeps lineRule (Opens d) :=
  keeps_whole (keeps_orElse (keeps_of_refuses fun _ => refuses_statementLine hd) (keeps_blankLine hd))

theorem keeps_furtherLine : Keeps furtherLineRule (Opens d) :=
  keeps_part (keeps_bind keeps_lineBreak fun _ => keeps_line hd)

end Lines

/-! ## Texts -/

theorem refuses_textEnd {cs : List Char} (h : cs ≠ []) : Refuses textEndRule cs := by
  obtain ⟨c, cs, rfl⟩ := List.exists_cons_of_ne_nil h
  exact refuses_whole fun _ => rfl

theorem refuses_document {d : Char} (hd : startsLine d = false) {cs : List Char} (h : Opens d cs) :
    Refuses documentRule cs := by
  refine refuses_whole (refuses_bind_kept (keeps_line hd) ?_ h)
  intro _ cs h
  refine refuses_bind_kept (keeps_many (keeps_furtherLine hd)) ?_ h
  intro _ cs h
  refine refuses_bind (refuses_textEnd ?_)
  rintro rfl
  exact not_opens_nil h

/-- What an accepted text begins with, behind its blanks, begins a statement or a comment. -/
theorem not_opens_of_parse {text : String} {file : Option String} {s : ConstraintSet} (h : parse text file = .ok s)
    {d : Char} (hd : startsLine d = false) : ¬Opens d text.toList := by
  intro hopens
  obtain ⟨sts, haccepted, -⟩ := parse_eq_ok_iff.mp h
  obtain ⟨after, hsts⟩ := outcome_of_accepted haccepted
  have hrefused : (documentRule (Text.Cursor.start text.toList)).outcome = none := refuses_document hd hopens 0
  rw [hrefused] at hsts
  cases hsts

end Language

end TypeRecovery
