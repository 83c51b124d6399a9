/-
  TypeRecovery.Proofs.Language.Document — whole written texts.

  A written text is one line for each statement, and every line is ended, so the text is read
  as its statements and, behind the last line end, one blank line. An empty text is one blank
  line.

  Proved:
  - `reads_statement`, `reads_line`, `reads_blankLine`: a line is read as its statement.
  - `reads_furtherLines`: the lines behind the first, and the blank one at the end.
  - `reads_document`: a text is read as its statements, in order.
  - `parse_eq_ok_iff`: the set that is read holds the statements of the text.
-/

import TypeRecovery.Proofs.Language.Written

namespace TypeRecovery

/-- The statements of a set in the order in which they are written. -/
def ConstraintSet.statements (s : ConstraintSet) : List Statement :=
  s.subtypings.map .subtyping ++ s.bindings.map .binding

namespace Language

open Rule Text

def writeStatement (sp : Spelling) : Statement → Except Unwritable String
  | .subtyping c => writeSubtyping sp c
  | .binding b => writeBinding sp b

theorem writeLines_eq (sp : Spelling) (s : ConstraintSet) : writeLines sp s = s.statements.mapM (writeStatement sp) := by
  rw [ConstraintSet.statements, List.mapM_append, List.mapM_map, List.mapM_map]
  rfl

/-! ## Lines -/

section Lines

variable {sp : Spelling} {st : Statement} {text : String}

theorem reads_statement (h : writeStatement sp st = .ok text) {rest : List Char} (hr : Stops isVarChar rest) :
    Reads statementRule text.toList st rest := by
  refine reads_whole ?_
  cases st with
  | subtyping c =>
    exact reads_orElse_second (refuses_bind (refuses_binding h rest))
      (reads_return Statement.subtyping (reads_subtyping h hr))
  | binding b => exact reads_orElse (reads_return Statement.binding (reads_binding h hr))

theorem head_of_writeStatement (h : writeStatement sp st = .ok text) : ∃ c cs, text.toList = c :: cs ∧ isSpace c = false := by
  cases st with
  | subtyping c =>
    obtain ⟨d, ds, hd, hhead⟩ := head_of_writeSubtyping h
    exact ⟨d, ds, hd, isSpace_eq_false_of_head hhead⟩
  | binding b =>
    obtain ⟨fact, target, -, -, htext⟩ := writeBinding_eq_ok h
    exact ⟨'t', _, htext, by decide⟩

theorem isLineChar_of_ne {c : Char} (h : c ≠ '\r') (h' : c ≠ '\n') : isLineChar c = true := by simp [isLineChar, h, h']

theorem Stops.space {rest : List Char} (h : Stops isLineChar rest) : Stops isSpace rest :=
  h.mono fun c hc => by
    simp only [isSpace, Bool.or_eq_true, decide_eq_true_eq] at hc
    rcases hc with rfl | rfl <;> decide

theorem Stops.var {rest : List Char} (h : Stops isLineChar rest) : Stops isVarChar rest :=
  h.mono fun c hc => by
    simp only [isVarChar, Bool.or_eq_true, decide_eq_true_eq] at hc
    rcases hc with hc | rfl
    · exact isLineChar_of_ne (isNameChar_ne hc (by decide)) (isNameChar_ne hc (by decide))
    · decide

theorem reads_lineEnd {rest : List Char} (hr : Stops isLineChar rest) : Reads lineEndRule [] () rest :=
  reads_lexeme (by
    cases rest with
    | nil => rfl
    | cons c rest => simp [Scans, lineEnd, stops_cons.mp hr])

theorem reads_noComment {rest : List Char} (hr : Stops isLineChar rest) : Reads (optional commentRule) [] none rest := by
  refine reads_optional_none ?_
  cases rest with
  | nil => exact Or.inl rfl
  | cons c rest =>
    refine Or.inr (refuses_lexeme ?_)
    unfold comment
    split
    · rename_i he
      cases he
      exact absurd (stops_cons.mp hr) (by decide)
    · rfl

theorem reads_line (h : writeStatement sp st = .ok text) {rest : List Char} (hr : Stops isLineChar rest) :
    Reads lineRule text.toList (some st) rest := by
  obtain ⟨c, cs, hhead, hspace⟩ := head_of_writeStatement h
  have hsep : text.toList = [] ++ (text.toList ++ ([] ++ ([] ++ ([] ++ [])))) := by simp
  rw [hsep]
  refine reads_whole (reads_orElse (reads_whole (reads_bind (reads_noSpace ?_) ?_)))
  · rw [hhead]
    exact stops_cons.mpr hspace
  exact reads_bind (reads_statement h hr.var) (reads_bind (reads_noSpace hr.space)
    (reads_bind (reads_noComment hr) (reads_bind (reads_lineEnd hr) (reads_pure _ rest))))

/-- The characters with which a statement begins. -/
def startsStatement (c : Char) : Bool := isNameStart c || c = '"'

/-- No statement begins with any other character. -/
theorem refuses_statement {rest : List Char} (hr : Stops startsStatement rest) : Refuses statementRule rest := by
  have hbase : Refuses baseRule rest := by
    cases rest with
    | nil => exact refuses_whole (refuses_orElse (refuses_lexeme rfl) (refuses_lexeme rfl))
    | cons c rest =>
      obtain ⟨hstart, hquote⟩ := Bool.or_eq_false_iff.mp (stops_cons.mp hr)
      exact refuses_whole (refuses_orElse (refuses_lexeme (identifier_eq_none _ hstart))
        (refuses_lexeme (quotedName_eq_none _ (of_decide_eq_false hquote))))
  have hword : word targetWord rest = none := by
    cases rest with
    | nil => rfl
    | cons c rest =>
      refine word_eq_none ?_
      rintro rfl
      exact absurd (stops_cons.mp hr) (by decide)
  refine refuses_whole (refuses_orElse ?_ ?_)
  · exact refuses_bind (refuses_whole (refuses_bind (refuses_fixed hword)))
  · exact refuses_bind (refuses_whole (refuses_bind (refuses_whole (refuses_bind hbase))))

theorem Stops.statement {rest : List Char} (h : Stops isLineChar rest) : Stops startsStatement rest :=
  h.mono fun c hc => by
    simp only [startsStatement, Bool.or_eq_true, decide_eq_true_eq] at hc
    rcases hc with hc | rfl
    · have hname := isNameChar_of_isNameStart hc
      exact isLineChar_of_ne (isNameChar_ne hname (by decide)) (isNameChar_ne hname (by decide))
    · decide

theorem reads_blankLine {rest : List Char} (hr : Stops isLineChar rest) : Reads lineRule [] none rest := by
  refine reads_whole (reads_orElse_second (refuses_whole ?_) (reads_whole ?_))
  · exact refuses_bind_after (t := []) (a := ()) (reads_noSpace hr.space) (refuses_bind (refuses_statement hr.statement))
  · exact reads_bind (t := []) (u := []) (reads_noSpace hr.space)
      (reads_bind (t := []) (u := []) (reads_noComment hr)
        (reads_bind (t := []) (u := []) (reads_lineEnd hr) (reads_pure _ rest)))

end Lines

/-! ## Texts -/

theorem reads_further {line rest : List Char} {o : Option Statement} (h : Reads lineRule line o rest) :
    Reads furtherLineRule ('\n' :: line) o rest :=
  reads_part (reads_bind (t := ['\n']) (a := ()) (reads_lexeme rfl) h)

theorem reads_textEnd : Reads textEndRule [] () [] := fun _ => rfl

/-- The lines behind the first, each led by the line end of the one before it, and the blank
line at the end. -/
def furtherLines (lines : List (Statement × String)) : List (List Char × Option Statement) :=
  lines.map (fun e => ('\n' :: e.2.toList, some e.1)) ++ [(['\n'], none)]

theorem flatMap_furtherLines (lines : List (Statement × String)) :
    (furtherLines lines).flatMap (·.1) = '\n' :: lines.flatMap fun e => e.2.toList ++ ['\n'] := by
  induction lines with
  | nil => rfl
  | cons e lines ih =>
    rw [furtherLines, List.map_cons, List.cons_append, List.flatMap_cons]
    show ('\n' :: e.2.toList) ++ (furtherLines lines).flatMap (·.1) = _
    rw [ih, List.flatMap_cons]
    simp

theorem reads_furtherLines {sp : Spelling} {lines : List (Statement × String)}
    (h : ∀ e ∈ lines, writeStatement sp e.1 = .ok e.2) :
    Reads (many furtherLineRule) ((furtherLines lines).flatMap (·.1)) ((furtherLines lines).map (·.2)) [] := by
  have hcases : ∀ x ∈ furtherLines lines, (∃ e ∈ lines, x = ('\n' :: e.2.toList, some e.1)) ∨ x = (['\n'], none) := by
    intro x hx
    rcases List.mem_append.mp hx with hx | hx
    · obtain ⟨e, he, rfl⟩ := List.mem_map.mp hx
      exact Or.inl ⟨e, he, rfl⟩
    · exact Or.inr (List.mem_singleton.mp hx)
  refine reads_many (F := Stops isLineChar) (stops_nil _) (Or.inl rfl) _ (fun x hx r hr => ?_) (fun x hx r => ?_) fun x hx => ?_
  · rcases hcases x hx with ⟨e, he, rfl⟩ | rfl
    · exact reads_further (reads_line (h e he) hr)
    · exact reads_further (reads_blankLine hr)
  · rcases hcases x hx with ⟨e, -, rfl⟩ | rfl <;> exact stops_cons.mpr (by decide)
  · rcases hcases x hx with ⟨e, -, rfl⟩ | rfl <;> exact List.cons_ne_nil _ _

theorem reads_document {sp : Spelling} {lines : List (Statement × String)}
    (h : ∀ e ∈ lines, writeStatement sp e.1 = .ok e.2) :
    Reads documentRule (lines.flatMap fun e => e.2.toList ++ ['\n']) (lines.map (·.1)) [] := by
  cases lines with
  | nil =>
    refine reads_whole (reads_bind (t := []) (u := []) (reads_blankLine (stops_nil _)) ?_)
    refine reads_bind (t := []) (u := []) (a := []) ?_ (reads_bind (t := []) (u := []) reads_textEnd (reads_pure [] []))
    exact reads_many (F := fun _ => True) trivial (Or.inl rfl) [] (fun _ h => nomatch h) (fun _ h => nomatch h)
      (fun _ h => nomatch h)
  | cons e lines =>
    have htext : (e :: lines).flatMap (fun e => e.2.toList ++ ['\n']) =
        e.2.toList ++ ((furtherLines lines).flatMap (·.1) ++ ([] ++ [])) := by
      rw [flatMap_furtherLines]
      simp
    have hvalues : (some e.1 :: (furtherLines lines).map (·.2)).filterMap id = (e :: lines).map (·.1) := by
      simp [furtherLines, List.filterMap_append, Function.comp_def]
    have hfurther := reads_furtherLines fun e' he' => h e' (List.mem_cons_of_mem _ he')
    rw [htext, ← hvalues]
    refine reads_whole (reads_bind (reads_line (h e List.mem_cons_self) ?_)
      (reads_bind hfurther (reads_bind reads_textEnd (reads_pure _ []))))
    rw [flatMap_furtherLines]
    exact stops_cons.mpr (by decide)

/-- What is read does not depend on the name of the file. -/
theorem parse_eq_ok_iff {text : String} {file : Option String} {s : ConstraintSet} :
    parse text file = .ok s ↔ ∃ sts, documentRule.apply text.toList = .accepted sts ∧ .ofStatements sts = s := by
  rw [parse, readBy]
  cases documentRule.apply text.toList with
  | accepted sts =>
    constructor
    · intro h
      exact ⟨sts, rfl, Except.ok.inj h⟩
    · rintro ⟨_, hsts, rfl⟩
      cases hsts
      rfl
  | incomplete position => exact ⟨fun h => (nomatch h), fun ⟨_, h, _⟩ => (nomatch h)⟩
  | refused position => exact ⟨fun h => (nomatch h), fun ⟨_, h, _⟩ => (nomatch h)⟩

end Language

end TypeRecovery
