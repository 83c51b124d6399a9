/-
  TypeRecovery.Proofs.Command.Input — the format of an input, found or named.

  Where no format is named, a text is taken for a document if it opens with a brace. All blank
  characters are skipped to find the brace, while the reader of documents skips four of them,
  and the language has spaces and tabs in a line and line breaks between lines. Still the
  format found is right for whatever one of the readers accepts: a document that is read is an
  object, and only a brace begins one; no text of the language opens with a brace. In
  particular no text is both.

  Proved:
  - `opens_of_read`: an accepted document opens with a brace.
  - `byText_auto_document`, `byText_auto_language`: the format found is the one that reads the text.
  - `found_format`: an input of which the format is found is read as if the format were named.
-/

import Mathlib.Logic.Basic
import TypeRecovery.Proofs.Command.Course
import TypeRecovery.Proofs.Language.Opening
import TypeRecovery.Proofs.Text.Utf8

namespace TypeRecovery

open Text (Cursor Mark Opens opens_dropWhile opens_cons_of_not_blank opens_unifyLineEnds)

/-! ## Documents -/

namespace Json

theorem isBlank_of_isSpace {c : Char} (h : isSpace c = true) : Text.isBlank c = true := by
  simp only [isSpace, Bool.or_eq_true, decide_eq_true_eq] at h
  rcases h with ((rfl | rfl) | rfl) | rfl <;> decide

theorem skip_rest (p : Char → Bool) (c : Cursor) : (c.skip p).rest = c.rest.dropWhile p := by
  suffices ∀ cs position, (Cursor.skip.go p position cs).rest = cs.dropWhile p from this c.rest c.position
  intro cs
  induction cs with
  | nil => exact fun _ => rfl
  | cons x xs ih =>
    intro position
    by_cases hx : p x = true
    · rw [Cursor.skip.go, if_pos hx, ih, List.dropWhile_cons_of_pos hx]
    · rw [Cursor.skip.go, if_neg hx, List.dropWhile_cons_of_neg hx]

section Object

variable {mark : Mark} {c after : Cursor} {ms : Members}

theorem literal?_ne_object : literal? c ≠ some (.object ms, after) := by
  intro h
  obtain ⟨⟨w, j⟩, hmem, hword⟩ := List.exists_of_findSome?_eq_some h
  obtain ⟨_, _, hj⟩ := Option.map_eq_some_iff.mp hword
  have hscalar : ∀ e ∈ literals, ∀ ms, e.2 ≠ .object ms := by
    simp [literals]
  exact hscalar _ hmem ms (congrArg Prod.fst hj)

theorem readNumber_ne_object : readNumber c ≠ .ok (.object ms, after) := by
  intro h
  unfold readNumber at h
  split at h
  dsimp only at h
  rw [ite_eq_iff] at h
  rcases h with ⟨-, h⟩ | ⟨-, h⟩
  · cases h
  · rw [ite_eq_iff] at h
    rcases h with ⟨-, h⟩ | ⟨-, h⟩ <;> cases h

/-- Nothing but a brace begins an object. -/
theorem readValue_object {budget : Nat} (h : readValue mark budget c = .ok (.object ms, after)) :
    ∃ rest, c.rest = '\x7b' :: rest := by
  cases budget with
  | zero =>
    rw [readValue] at h
    cases h
  | succ budget =>
    rw [readValue] at h
    split at h
    · cases h
    · obtain ⟨r, -, h⟩ := bind_eq_ok.mp h
      cases h
    · rename_i rest hrest
      exact ⟨rest, hrest⟩
    · dsimp only at h
      split at h
      · cases h
      · obtain ⟨r, -, h⟩ := bind_eq_ok.mp h
        cases h
    · split at h
      · rename_i result hliteral
        cases h
        exact absurd hliteral literal?_ne_object
      · exact absurd h readNumber_ne_object

end Object

theorem opens_of_read {mark : Mark} {text : String} {ms : Members} (h : read mark text = .ok (.object ms)) : Opens '\x7b' text.toList := by
  rw [read, readChars] at h
  split at h
  · obtain ⟨_, hmark, -⟩ := bind_eq_ok.mp h
    cases hmark
  · obtain ⟨⟨j, after⟩, hvalue, h⟩ := bind_eq_ok.mp h
    dsimp only at h
    split at h
    · cases h
      obtain ⟨rest, hrest⟩ := readValue_object hvalue
      rw [skip_rest, Cursor.start] at hrest
      rw [← opens_dropWhile fun _ => isBlank_of_isSpace, hrest]
      exact (opens_cons_of_not_blank (by decide)).mpr rfl
    · cases h

end Json

theorem Document.opens_of_read {mark : Mark} {text : String} {s : ConstraintSet} (h : read mark text = .ok s) :
    Opens '\x7b' text.toList := by
  rw [read] at h
  split at h
  · rename_i j hj
    obtain ⟨ms, hms, -⟩ := bind_eq_ok.mp h
    cases j with
    | object ms => exact Json.opens_of_read hj
    | _ => cases hms
  · cases h

/-! ## The format of a text -/

namespace Command

open TypeRecovery.Language (not_opens_of_parse parse_eq_ok_iff)

theorem beginsObject_iff {text : String} : beginsObject text = true ↔ Opens '\x7b' text.toList := decide_eq_true_iff

theorem byText_document (text : String) : InputFormat.document.byText text = .document := if_pos (Or.inl rfl)

theorem byText_language (text : String) : InputFormat.language.byText text = .language := by
  rw [InputFormat.byText, if_neg]
  rintro (h | ⟨h, -⟩) <;> cases h

theorem byText_auto_document {text : String} (h : Opens '\x7b' text.toList) : InputFormat.auto.byText text = .document := by
  rw [InputFormat.byText, if_pos (Or.inr ⟨rfl, beginsObject_iff.mpr h⟩)]

theorem byText_auto_language {text : String} (h : ¬Opens '\x7b' text.toList) : InputFormat.auto.byText text = .language := by
  rw [InputFormat.byText, if_neg]
  rintro (hauto | ⟨-, hobject⟩)
  · cases hauto
  · exact h (beginsObject_iff.mp hobject)

/-- The ends of lines do not matter to the format. -/
theorem byText_unifyLineEnds (format : InputFormat) (text : String) :
    format.byText (String.ofList (Text.unifyLineEnds text.toList)) = format.byText text := by
  have hbegins : beginsObject (String.ofList (Text.unifyLineEnds text.toList)) = beginsObject text := by
    rw [Bool.eq_iff_iff, beginsObject_iff, beginsObject_iff, String.toList_ofList, opens_unifyLineEnds]
  rw [InputFormat.byText, hbegins, InputFormat.byText]

/-! ## Inputs -/

section Inputs

variable {mark : Mark} {format : InputFormat} {path text : String} {s : ConstraintSet}

theorem loadText_congr {found : InputFormat} (h : found.byText text = format.byText text) :
    loadText mark found path text = loadText mark format path text := by
  rw [loadText, h, loadText]

theorem loadText_language (h : Language.parse text (some (inputName path)) = .ok s) :
    (loadText mark .language path text).result = .ok s := by
  rw [loadText, byText_language]
  dsimp only
  rw [Course.result_say]
  unfold parseInput
  rw [h]
  rfl

theorem loadText_document (h : Document.read mark text = .ok s) : (loadText mark .document path text).result = .ok s := by
  rw [loadText, byText_document]
  dsimp only
  rw [Course.result_say, h]
  rfl

/-- Once the format is known not to be a message, the file is read as a text. -/
theorem loadInput_ok (hpath : PathName.ending path ∉ messageEndings) (hformat : format ≠ .message) {bs : Bytes}
    (hread : fileText? bs = some text) : loadInput mark format path (.ok bs) = loadText mark format path text := by
  have hname : format.byName path = format := if_neg fun h => hpath h.2
  have htext : inputText path bs = pure text := by rw [inputText, hread]
  have hopened : opened path (.ok bs) = pure bs := rfl
  rw [loadInput, hopened, Course.pure_bind, hname]
  cases format with
  | message => exact absurd rfl hformat
  | _ => dsimp only; rw [htext, Course.pure_bind]

end Inputs

/-- An input that holds the text is read in the format, as the set, if none is named. What
is told to the log is the same too. -/
structure FoundAs (mark : Mark) (format : InputFormat) (path text : String) (s : ConstraintSet) : Prop where
  sameText : loadText mark .auto path text = loadText mark format path text
  read : (loadText mark .auto path text).result = .ok s
  /-- The text stands in a file, with its line ends unified. -/
  ofFile : ∀ bs, fileText? bs = some text →
    loadInput mark .auto path (.ok bs) = loadInput mark format path (.ok bs) ∧ (loadInput mark .auto path (.ok bs)).result = .ok s
  /-- The text stands in a file as it is, with whatever line ends. -/
  ofStored : ∀ bs, Text.ofBytes? bs = some text → loadInput mark .auto path (.ok bs) = loadInput mark format path (.ok bs)

section Found

variable {mark : Mark} {format : InputFormat} {path text : String} {s : ConstraintSet}

theorem FoundAs.of_byText (hpath : PathName.ending path ∉ messageEndings) (hformat : format ≠ .message)
    (hfound : InputFormat.auto.byText text = format.byText text) (hread : (loadText mark format path text).result = .ok s) :
    FoundAs mark format path text s where
  sameText := loadText_congr hfound
  read := by rw [loadText_congr hfound, hread]
  ofFile := by
    intro bs hbs
    rw [loadInput_ok hpath (by decide) hbs, loadInput_ok hpath hformat hbs, loadText_congr hfound]
    exact ⟨rfl, hread⟩
  ofStored := by
    intro bs hbs
    have hunified : fileText? bs = some (String.ofList (Text.unifyLineEnds text.toList)) := by
      rw [fileText?, hbs, Option.map_some]
    rw [loadInput_ok hpath (by decide) hunified, loadInput_ok hpath hformat hunified]
    refine loadText_congr ?_
    rw [byText_unifyLineEnds, byText_unifyLineEnds, hfound]

/-- What either reader accepts is read by that reader where no format is named, unless the name
of the file tells a message; and no text is accepted by both. -/
theorem found_format (mark : Mark) {path : String} (hpath : PathName.ending path ∉ messageEndings) (text : String) :
    (∀ file s, Language.parse text file = .ok s → FoundAs mark .language path text s) ∧
    (∀ s, Document.read mark text = .ok s → FoundAs mark .document path text s) ∧
    ∀ file s s', Language.parse text file = .ok s → Document.read mark text ≠ .ok s' := by
  have hlanguage : ∀ file s, Language.parse text file = .ok s → ¬Opens '\x7b' text.toList :=
    fun _ _ h => not_opens_of_parse h (by decide)
  refine ⟨?_, ?_, ?_⟩
  · intro file s h
    have hfound : InputFormat.auto.byText text = InputFormat.language.byText text := by
      rw [byText_auto_language (hlanguage file s h), byText_language]
    exact FoundAs.of_byText hpath (by decide) hfound (loadText_language (parse_eq_ok_iff.mpr (parse_eq_ok_iff.mp h)))
  · intro s h
    have hfound : InputFormat.auto.byText text = InputFormat.document.byText text := by
      rw [byText_auto_document (Document.opens_of_read h), byText_document]
    exact FoundAs.of_byText hpath (by decide) hfound (loadText_document h)
  · intro file s s' h h'
    exact hlanguage file s h (Document.opens_of_read h')

/-- A text of the language with braces in a comment, behind a blank line. -/
def annotated : String := " \t\n# \x7b\x7d\n x.load <= y"

/-- A document behind blank lines, without its first list. -/
def indented : String := "\n\r\n\t \x7b\"additional_constraints\": []\x7d\r\n"

theorem annotated_and_indented_found :
    PathName.ending "notes.pb.txt" ∉ messageEndings ∧
    (Language.parse annotated none = .ok ⟨[⟨⟨"x", [.load]⟩, ⟨"y", []⟩⟩], []⟩ ∧
      FoundAs .first .language "notes.pb.txt" annotated ⟨[⟨⟨"x", [.load]⟩, ⟨"y", []⟩⟩], []⟩ ∧
      fileText? (Text.toBytes annotated) = some annotated) ∧
    Document.read .first indented = .ok ⟨[], []⟩ ∧
      FoundAs .first .document "notes.pb.txt" indented ⟨[], []⟩ ∧
      Text.ofBytes? (Text.toBytes indented) = some indented := by
  have hpath : PathName.ending "notes.pb.txt" ∉ messageEndings := by decide +kernel
  have hlanguage : Language.parse annotated none = .ok ⟨[⟨⟨"x", [.load]⟩, ⟨"y", []⟩⟩], []⟩ := by decide +kernel
  have hdocument : Document.read .first indented = .ok ⟨[], []⟩ := by decide +kernel
  have hfile : fileText? (Text.toBytes annotated) = some annotated := by
    rw [fileText?, Text.ofBytes?_toBytes]
    decide +kernel
  exact ⟨hpath, ⟨hlanguage, (found_format .first hpath annotated).1 none _ hlanguage, hfile⟩, hdocument,
    (found_format .first hpath indented).2.1 _ hdocument, Text.ofBytes?_toBytes indented⟩

end Found

end Command

end TypeRecovery
