/-
  TypeRecovery.Proofs.Language.Lines — a document is its lines.

  A document is a line and further ones, each behind a line break of either kind. The rule for a
  line reads it to its end or refuses it, whatever comes behind (`reads_line_or_refuses`). So the
  rule for the document gets as far as the first line that is refused, with what the lines before
  it say; and unless that was all, the rule for the end of the text finds a line break.

  A line says at most one statement, and taking that into a set is the same as merging the set of
  the line. So the document is the merge of its lines in order, whatever breaks stand between them.
  A merge with what is there already changes nothing: neither a blank line does, nor a line that
  says once more what an earlier one says.

  Proved:
  - `accepted_iff`: the document is accepted exactly when every line is read.
  - `parse_line_iff`: what a line says on its own.
  - `parse_text_iff`: the set of the document is the merge of the sets of its lines.
  - `Retouched.merges_iff`: lines that change nothing.
  - `parse_lines`: all of this together.
-/

import TypeRecovery.Proofs.Language.InLine
import TypeRecovery.Proofs.Language.RoundTrip

namespace TypeRecovery

theorem forall₂_map_right {α β γ : Type} {R : α → β → Prop} {f : β → γ} {xs : List α} {zs : List γ} :
    List.Forall₂ (fun x z => ∃ y, R x y ∧ f y = z) xs zs ↔ ∃ ys, List.Forall₂ R xs ys ∧ ys.map f = zs := by
  induction xs generalizing zs with
  | nil => simp [eq_comm]
  | cons x xs ih =>
    simp only [List.forall₂_cons_left_iff, ih]
    constructor
    · rintro ⟨_, _, ⟨y, hy, rfl⟩, ⟨ys, hys, rfl⟩, rfl⟩
      exact ⟨_, ⟨y, ys, hy, hys, rfl⟩, rfl⟩
    · rintro ⟨_, ⟨y, ys, hy, hys, rfl⟩, rfl⟩
      exact ⟨_, _, ⟨y, hy, rfl⟩, ⟨ys, hys, rfl⟩, rfl⟩

namespace ConstraintSet

theorem merge_eq_foldl (s t : ConstraintSet) : s.merge t = t.statements.foldl addStatement s := by
  rw [merge, statements, List.foldl_append, List.foldl_map, List.foldl_map]
  rfl

theorem statements_subset_foldl (sts : List Statement) (s : ConstraintSet) :
    s.statements ⊆ (sts.foldl addStatement s).statements := by
  induction sts generalizing s with
  | nil => exact List.Subset.refl _
  | cons st sts ih => exact fun _ h => ih _ (mem_addStatement.mpr (Or.inl h))

theorem subset_foldl (sts : List Statement) (s : ConstraintSet) : sts ⊆ (sts.foldl addStatement s).statements := by
  induction sts generalizing s with
  | nil => exact List.nil_subset _
  | cons st sts ih =>
    exact List.cons_subset.mpr ⟨statements_subset_foldl sts _ (mem_addStatement.mpr (Or.inr rfl)), ih _⟩

theorem addStatement_of_mem {s : ConstraintSet} {st : Statement} (h : st ∈ s.statements) : s.addStatement st = s := by
  cases st with
  | subtyping c =>
    have hc : c ∈ s.subtypings := by simpa [statements] using h
    rw [addStatement, insert, appendNew, if_pos hc]
  | binding b =>
    have hb : b ∈ s.bindings := by simpa [statements] using h
    rw [addStatement, bind, appendNew, if_pos hb]

/-- A merge with what is there already changes nothing. -/
theorem merge_of_subset {s t : ConstraintSet} (h : t.statements ⊆ s.statements) : s.merge t = s := by
  rw [merge_eq_foldl]
  generalize t.statements = sts at h
  induction sts with
  | nil => rfl
  | cons st sts ih =>
    obtain ⟨hst, hsts⟩ := List.cons_subset.mp h
    rw [List.foldl_cons, addStatement_of_mem hst, ih hsts]

theorem statements_ofStatements_toList (o : Option Statement) : (ofStatements o.toList).statements = o.toList := by
  rcases o with _ | _ | _ <;> rfl

/-- Taking in one statement after the other is merging the sets of each. -/
theorem foldl_merge (os : List (Option Statement)) (s : ConstraintSet) :
    (os.map fun o => ofStatements o.toList).foldl merge s = (os.filterMap id).foldl addStatement s := by
  induction os generalizing s with
  | nil => rfl
  | cons o os ih =>
    rw [List.map_cons, List.foldl_cons, ih, merge_eq_foldl, statements_ofStatements_toList]
    cases o <;> rfl

end ConstraintSet

namespace Language

open Rule
open ConstraintSet (ofStatements addStatement)

/-! ## Documents as lines -/

inductive LineBreak where
  | feed
  | returnFeed
  deriving DecidableEq, Repr

def LineBreak.chars : LineBreak → List Char
  | .feed => ['\n']
  | .returnFeed => ['\r', '\n']

/-- What stands between two line breaks. -/
structure Line where
  chars : List Char
  oneLine : OneLine chars

def Line.text (l : Line) : String := String.ofList l.chars

/-- A line, and further ones behind a line break each. -/
structure LinedText where
  first : Line
  further : List (LineBreak × Line)

namespace LinedText

def lines (t : LinedText) : List Line := t.first :: t.further.map (·.2)

def brokenLine (e : LineBreak × Line) : List Char := e.1.chars ++ e.2.chars

def chars (t : LinedText) : List Char := t.first.chars ++ t.further.flatMap brokenLine

def text (t : LinedText) : String := String.ofList t.chars

end LinedText

open LinedText (brokenLine)

variable {α : Type}

/-- The rule for a line reads the line to its end, whatever comes behind. -/
def Tells (l : Line) (o : Option Statement) : Prop := ∀ rest, Stops isLineChar rest → Reads lineRule l.chars o rest

/-- The rule for a line refuses the line, whatever comes behind. -/
def Faulty (l : Line) : Prop := ∀ rest, Stops isLineChar rest → Refuses lineRule (l.chars ++ rest)

theorem tells_or_faulty (l : Line) : (∃ o, Tells l o) ∨ Faulty l := reads_line_or_refuses l.oneLine

theorem Tells.not_faulty {l : Line} {o : Option Statement} (h : Tells l o) : ¬Faulty l := fun h' => by
  have hread := h [] (stops_nil _) 0
  rw [h' [] (stops_nil _) 0] at hread
  cases hread

theorem tells_unique : Relator.RightUnique Tells := fun l o o' h h' => by
  have hread := h [] (stops_nil _) 0
  rw [h' [] (stops_nil _) 0] at hread
  cases hread
  rfl

theorem stops_brokenLine (e : LineBreak × Line) (rest : List Char) : Stops isLineChar (brokenLine e ++ rest) := by
  obtain ⟨_ | _, l⟩ := e <;> exact stops_cons.mpr (by decide)

theorem brokenLine_ne_nil (e : LineBreak × Line) : brokenLine e ≠ [] := by
  obtain ⟨_ | _, l⟩ := e <;> exact List.cons_ne_nil _ _

theorem stops_lines (es : List (LineBreak × Line)) {rest : List Char} (hr : Stops isLineChar rest) :
    Stops isLineChar (es.flatMap brokenLine ++ rest) := by
  cases es with
  | nil => exact hr
  | cons e es =>
    rw [List.flatMap_cons, List.append_assoc]
    exact stops_brokenLine e _

theorem stops_flatMap_brokenLine (es : List (LineBreak × Line)) : Stops isLineChar (es.flatMap brokenLine) := by
  have hstops := stops_lines es (stops_nil _)
  rwa [List.append_nil] at hstops

theorem reads_lineBreak (b : LineBreak) (rest : List Char) : Reads lineBreakRule b.chars () rest := by
  cases b <;> exact reads_lexeme rfl

theorem reads_brokenLine {e : LineBreak × Line} {o : Option Statement} (h : Tells e.2 o) {rest : List Char}
    (hr : Stops isLineChar rest) : Reads furtherLineRule (brokenLine e) o rest :=
  reads_part (reads_bind (reads_lineBreak e.1 _) (h rest hr))

theorem refuses_brokenLine {e : LineBreak × Line} (h : Faulty e.2) {rest : List Char} (hr : Stops isLineChar rest) :
    Refuses furtherLineRule (brokenLine e ++ rest) := by
  rw [brokenLine, List.append_assoc]
  exact refuses_part (refuses_bind_after (reads_lineBreak e.1 _) (h rest hr))

/-- The lines up to the first faulty one, with what they say. -/
theorem split_further (es : List (LineBreak × Line)) : ∃ (read : List ((LineBreak × Line) × Option Statement))
    (left : List (LineBreak × Line)), es = read.map (·.1) ++ left ∧ (∀ e ∈ read, Tells e.1.2 e.2) ∧
      (left = [] ∨ ∃ e more, left = e :: more ∧ Faulty e.2) := by
  induction es with
  | nil => exact ⟨[], [], rfl, List.forall_mem_nil _, Or.inl rfl⟩
  | cons e es ih =>
    rcases tells_or_faulty e.2 with ⟨o, ho⟩ | hfaulty
    · obtain ⟨read, left, rfl, htells, hleft⟩ := ih
      exact ⟨(e, o) :: read, left, rfl, List.forall_mem_cons.mpr ⟨ho, htells⟩, hleft⟩
    · exact ⟨[], e :: es, rfl, List.forall_mem_nil _, Or.inr ⟨e, es, rfl, hfaulty⟩⟩

theorem reads_lines {read : List ((LineBreak × Line) × Option Statement)} {left : List (LineBreak × Line)}
    (htells : ∀ e ∈ read, Tells e.1.2 e.2) (hleft : left = [] ∨ ∃ e more, left = e :: more ∧ Faulty e.2) :
    Reads (many furtherLineRule) ((read.map (·.1)).flatMap brokenLine) (read.map (·.2)) (left.flatMap brokenLine) := by
  have hstop : left.flatMap brokenLine = [] ∨ Refuses furtherLineRule (left.flatMap brokenLine) := by
    rcases hleft with rfl | ⟨e, more, rfl, hfaulty⟩
    · exact Or.inl rfl
    · exact Or.inr (refuses_brokenLine hfaulty (stops_flatMap_brokenLine more))
  have hitems : ∀ x ∈ read.map fun e => (brokenLine e.1, e.2), ∃ e ∈ read, x = (brokenLine e.1, e.2) := fun x hx =>
    (List.mem_map.mp hx).imp fun e he => ⟨he.1, he.2.symm⟩
  have hreads := reads_many (F := Stops isLineChar) (stops_flatMap_brokenLine left) hstop
    (read.map fun e => (brokenLine e.1, e.2)) (fun x hx r hr => ?_) (fun x hx r => ?_) fun x hx => ?_
  · simpa only [List.flatMap_map, List.map_map, Function.comp_def] using hreads
  · obtain ⟨e, he, rfl⟩ := hitems x hx
    exact reads_brokenLine (htells e he) hr
  · obtain ⟨e, -, rfl⟩ := hitems x hx
    exact stops_brokenLine e.1 r
  · obtain ⟨e, -, rfl⟩ := hitems x hx
    exact brokenLine_ne_nil e.1

theorem reads_document_of_tells {first : Line} {o : Option Statement} (ho : Tells first o)
    {read : List ((LineBreak × Line) × Option Statement)} (htells : ∀ e ∈ read, Tells e.1.2 e.2) :
    Reads documentRule (LinedText.chars ⟨first, read.map (·.1)⟩) ((o :: read.map (·.2)).filterMap id) [] := by
  have hchars : LinedText.chars ⟨first, read.map (·.1)⟩ =
      first.chars ++ ((read.map (·.1)).flatMap brokenLine ++ ([] ++ [])) := by simp [LinedText.chars]
  have hfurther : Reads (many furtherLineRule) _ (read.map (·.2)) [] := reads_lines htells (Or.inl rfl)
  rw [hchars]
  refine reads_whole (reads_bind (ho _ ?_) (reads_bind hfurther (reads_bind reads_textEnd (reads_pure _ []))))
  simpa using stops_flatMap_brokenLine (read.map (·.1))

theorem refuses_document_of_faulty {first : Line} (h : Faulty first) (further : List (LineBreak × Line)) :
    Refuses documentRule (LinedText.chars ⟨first, further⟩) :=
  refuses_whole (refuses_bind (h _ (stops_flatMap_brokenLine further)))

theorem refuses_document_of_left {first : Line} {o : Option Statement} (ho : Tells first o)
    {read : List ((LineBreak × Line) × Option Statement)} (htells : ∀ e ∈ read, Tells e.1.2 e.2)
    {e : LineBreak × Line} (he : Faulty e.2) (more : List (LineBreak × Line)) :
    Refuses documentRule (LinedText.chars ⟨first, read.map (·.1) ++ e :: more⟩) := by
  have hchars : LinedText.chars ⟨first, read.map (·.1) ++ e :: more⟩ =
      first.chars ++ ((read.map (·.1)).flatMap brokenLine ++ (e :: more).flatMap brokenLine) := by
    rw [LinedText.chars, List.flatMap_append]
  have hleft : (e :: more).flatMap brokenLine ≠ [] := by
    rw [List.flatMap_cons]
    exact List.append_ne_nil_of_left_ne_nil (brokenLine_ne_nil e) _
  have hfurther := reads_lines htells (Or.inr ⟨e, more, rfl, he⟩)
  have hstops : Stops isLineChar ((read.map (·.1)).flatMap brokenLine ++ (e :: more).flatMap brokenLine) := by
    rw [← List.flatMap_append]
    exact stops_flatMap_brokenLine _
  rw [hchars]
  exact refuses_whole (refuses_bind_after (ho _ hstops) (refuses_bind_after hfurther (refuses_bind (refuses_textEnd hleft))))

theorem not_accepted_of_refuses {p : Rule α} {cs : List Char} {a : α} (h : Refuses p cs) : p.apply cs ≠ .accepted a := by
  intro haccepted
  obtain ⟨after, ha⟩ := outcome_of_accepted haccepted
  have hnone : (p (.start cs)).outcome = none := h 0
  rw [hnone] at ha
  cases ha

/-- The document is accepted exactly when every line is read, with the statements of the lines in order. -/
theorem accepted_iff {t : LinedText} {sts : List Statement} :
    documentRule.apply t.chars = .accepted sts ↔ ∃ os, List.Forall₂ Tells t.lines os ∧ os.filterMap id = sts := by
  obtain ⟨first, further⟩ := t
  have hnot {l : Line} (hl : l ∈ LinedText.lines ⟨first, further⟩) (hfaulty : Faulty l) :
      ¬∃ os, List.Forall₂ Tells (LinedText.lines ⟨first, further⟩) os ∧ os.filterMap id = sts := by
    rintro ⟨os, hos, -⟩
    obtain ⟨o, ho⟩ := exists_forall₂.mp ⟨os, hos⟩ l hl
    exact ho.not_faulty hfaulty
  rcases tells_or_faulty first with ⟨o, ho⟩ | hfaulty
  · obtain ⟨read, left, rfl, htells, rfl | ⟨e, more, rfl, hfaulty⟩⟩ := split_further further
    · have hlines : List.Forall₂ Tells (LinedText.lines ⟨first, read.map (·.1)⟩) (o :: read.map (·.2)) := by
        refine .cons ho ?_
        rw [List.map_map, List.forall₂_map_left_iff, List.forall₂_map_right_iff, List.forall₂_same]
        exact htells
      rw [List.append_nil, apply_of_reads (reads_document_of_tells ho htells)]
      constructor
      · intro h
        cases h
        exact ⟨_, hlines, rfl⟩
      · rintro ⟨os, hos, rfl⟩
        rw [List.right_unique_forall₂' tells_unique hos hlines]
    · refine iff_of_false (not_accepted_of_refuses (refuses_document_of_left ho htells hfaulty more)) (hnot ?_ hfaulty)
      simp [LinedText.lines]
  · exact iff_of_false (not_accepted_of_refuses (refuses_document_of_faulty hfaulty further))
      (hnot List.mem_cons_self hfaulty)

/-- What a line says on its own. -/
theorem parse_line_iff {l : Line} {file : Option String} {c : ConstraintSet} :
    parse l.text file = .ok c ↔ ∃ o, Tells l o ∧ ofStatements o.toList = c := by
  have hone := @accepted_iff ⟨l, []⟩
  simp only [LinedText.chars, List.flatMap_nil, List.append_nil] at hone
  simp only [parse_eq_ok_iff, Line.text, String.toList_ofList, hone, LinedText.lines, List.map_nil,
    List.forall₂_cons_left_iff, List.forall₂_nil_left_iff]
  constructor
  · rintro ⟨_, ⟨_, ⟨o, _, ho, rfl, rfl⟩, rfl⟩, rfl⟩
    exact ⟨o, ho, by cases o <;> rfl⟩
  · rintro ⟨o, ho, rfl⟩
    exact ⟨_, ⟨_, ⟨o, _, ho, rfl, rfl⟩, rfl⟩, by cases o <;> rfl⟩

/-- The sets of the lines, merged in order into a set. -/
def Merges (file : Option String) (start : ConstraintSet) (lines : List Line) (s : ConstraintSet) : Prop :=
  ∃ sets, List.Forall₂ (fun l c => parse l.text file = .ok c) lines sets ∧ sets.foldl .merge start = s

/-- The set of the document is the merge of the sets of its lines. -/
theorem parse_text_iff {t : LinedText} {file : Option String} (lineFile : Option String) {s : ConstraintSet} :
    parse t.text file = .ok s ↔ Merges lineFile .empty t.lines s := by
  rw [parse_eq_ok_iff]
  simp only [Merges, parse_line_iff, forall₂_map_right, LinedText.text, String.toList_ofList, accepted_iff]
  constructor
  · rintro ⟨_, ⟨os, hos, rfl⟩, rfl⟩
    exact ⟨_, ⟨os, hos, rfl⟩, ConstraintSet.foldl_merge os _⟩
  · rintro ⟨_, ⟨os, hos, rfl⟩, rfl⟩
    exact ⟨_, ⟨os, hos, rfl⟩, (ConstraintSet.foldl_merge os _).symm⟩

/-! ## Lines that change nothing -/

section Merges

variable {file : Option String} {start s : ConstraintSet} {l : Line}

theorem merges_cons {lines : List Line} :
    Merges file start (l :: lines) s ↔ ∃ c, parse l.text file = .ok c ∧ Merges file (start.merge c) lines s := by
  simp only [Merges, List.forall₂_cons_left_iff]
  constructor
  · rintro ⟨_, ⟨c, sets, hc, hsets, rfl⟩, hs⟩
    exact ⟨c, hc, sets, hsets, hs⟩
  · rintro ⟨c, hc, sets, hsets, hs⟩
    exact ⟨_, ⟨c, sets, hc, hsets, rfl⟩, hs⟩

theorem merges_append {lines more : List Line} :
    Merges file start (lines ++ more) s ↔ ∃ m, Merges file start lines m ∧ Merges file m more s := by
  induction lines generalizing start with
  | nil => simp [Merges]
  | cons l lines ih =>
    simp only [List.cons_append, merges_cons, ih]
    constructor
    · rintro ⟨c, hc, m, hm, hs⟩
      exact ⟨m, ⟨c, hc, hm⟩, hs⟩
    · rintro ⟨m, ⟨c, hc, hm⟩, hs⟩
      exact ⟨c, hc, m, hm, hs⟩

theorem statements_subset_of_merges {lines : List Line} (h : Merges file start lines s) : start.statements ⊆ s.statements := by
  induction lines generalizing start with
  | nil =>
    obtain ⟨sets, hsets, rfl⟩ := h
    cases hsets
    exact List.Subset.refl _
  | cons l lines ih =>
    obtain ⟨c, -, hc⟩ := merges_cons.mp h
    refine List.Subset.trans ?_ (ih hc)
    rw [ConstraintSet.merge_eq_foldl]
    exact ConstraintSet.statements_subset_foldl _ _

/-- What a line says is in the merge. -/
theorem line_subset_of_merges {lines : List Line} (hl : l ∈ lines) (h : Merges file start lines s) :
    ∃ c, parse l.text file = .ok c ∧ c.statements ⊆ s.statements := by
  obtain ⟨before, after, rfl⟩ := List.append_of_mem hl
  obtain ⟨m, -, hm⟩ := merges_append.mp h
  obtain ⟨c, hc, hs⟩ := merges_cons.mp hm
  refine ⟨c, hc, List.Subset.trans ?_ (statements_subset_of_merges hs)⟩
  rw [ConstraintSet.merge_eq_foldl]
  exact ConstraintSet.subset_foldl _ _

/-- A line that says nothing new changes nothing. -/
theorem merges_cons_of_subset {lines : List Line}
    (h : ∃ c, parse l.text file = .ok c ∧ c.statements ⊆ start.statements) :
    Merges file start (l :: lines) s ↔ Merges file start lines s := by
  obtain ⟨c, hc, hsubset⟩ := h
  rw [merges_cons]
  constructor
  · rintro ⟨c', hc', hs⟩
    obtain rfl : c = c' := Except.ok.inj (hc.symm.trans hc')
    rwa [ConstraintSet.merge_of_subset hsubset] at hs
  · intro hs
    exact ⟨c, hc, by rwa [ConstraintSet.merge_of_subset hsubset]⟩

end Merges

/-- Blanks, and perhaps a comment behind them. -/
def Line.IsRemark (l : Line) : Prop := ∃ blanks comment : List Char, l.chars = blanks ++ comment ∧
  (∀ c ∈ blanks, isSpace c = true) ∧ (comment = [] ∨ ∃ cs, comment = '#' :: cs)

theorem reads_spaces {blanks rest : List Char} (h : ∀ c ∈ blanks, isSpace c = true) (hr : Stops isSpace rest) :
    Reads spacesRule blanks () rest :=
  reads_lexeme (by rw [Scans, spaces, run_append h hr]; rfl)

theorem reads_comment {cs rest : List Char} (hcs : OneLine cs) (hr : Stops isLineChar rest) :
    Reads (Rule.optional commentRule) ('#' :: cs) (some ()) rest := fun position => by
  have hread : Reads commentRule ('#' :: cs) () rest :=
    reads_lexeme (by rw [Scans, List.cons_append, comment, run_append hcs hr]; rfl)
  rw [outcome_optional (p := commentRule) (refuses_lexeme rfl), hread position]
  rfl

theorem tells_remark {l : Line} (h : l.IsRemark) : Tells l none := fun rest hr => by
  obtain ⟨blanks, comment, hl, hblanks, hcomment⟩ := h
  have hone : OneLine comment := (oneLine_append.mp (hl ▸ l.oneLine)).2
  obtain ⟨hspace, hstatement, o, hread⟩ : Stops isSpace (comment ++ rest) ∧ Stops startsStatement (comment ++ rest) ∧
      ∃ o, Reads (Rule.optional commentRule) comment o rest := by
    rcases hcomment with rfl | ⟨cs, rfl⟩
    · exact ⟨hr.space, hr.statement, none, reads_noComment hr⟩
    · exact ⟨stops_cons.mpr (by decide), stops_cons.mpr (by decide), some (), reads_comment (oneLine_cons.mp hone).2 hr⟩
  have hspaces : Reads spacesRule blanks () (comment ++ rest) := reads_spaces hblanks hspace
  have hsep : l.chars = blanks ++ (comment ++ ([] ++ [])) := by simp [hl]
  rw [hsep]
  refine reads_whole (reads_orElse_second (refuses_whole ?_) (reads_whole ?_))
  · have hrefuses := refuses_bind_after hspaces (f := fun _ => do
      let s ← statementRule; spacesRule; let _ ← Rule.optional commentRule; lineEndRule; return some s)
      (refuses_bind (refuses_statement hstatement))
    simpa using hrefuses
  · refine reads_bind (by simpa using hspaces) (reads_bind hread (reads_bind (reads_lineEnd hr) (reads_pure none rest)))

/-- Lines put in between: blank lines and comments, and lines that say what an earlier one says. -/
inductive Retouched : List Line → List Line → Prop
  | same (lines : List Line) : Retouched lines lines
  | remark {lines before after : List Line} {l : Line} : Retouched lines (before ++ after) → l.IsRemark →
      Retouched lines (before ++ l :: after)
  | again {lines before after : List Line} {l l' : Line} : Retouched lines (before ++ after) → l ∈ before →
      (∀ c, parse l'.text none = .ok c ↔ parse l.text none = .ok c) → Retouched lines (before ++ l' :: after)

theorem Retouched.merges_iff {lines lines' : List Line} (h : Retouched lines lines') {start s : ConstraintSet} :
    Merges none start lines' s ↔ Merges none start lines s := by
  induction h with
  | same => exact Iff.rfl
  | remark _ hremark ih =>
    rw [← ih, merges_append, merges_append]
    refine exists_congr fun m => and_congr_right fun _ => merges_cons_of_subset ?_
    exact ⟨_, parse_line_iff.mpr ⟨none, tells_remark hremark, rfl⟩, List.nil_subset _⟩
  | again _ hmem hsame ih =>
    rw [← ih, merges_append, merges_append]
    refine exists_congr fun m => and_congr_right fun hm => merges_cons_of_subset ?_
    obtain ⟨c, hc, hsubset⟩ := line_subset_of_merges hmem hm
    exact ⟨c, (hsame c).mpr hc, hsubset⟩

/-! ## The whole -/

/-- A document is its lines: it is accepted when each of them is, on its own, its set is the merge
of theirs, none of them says more than one statement, and the breaks between them, blank lines,
comments and repetitions make no difference. -/
theorem parse_lines (t : LinedText) (file lineFile : Option String) :
    ((∃ s, parse t.text file = .ok s) ↔ ∀ l ∈ t.lines, ∃ c, parse l.text lineFile = .ok c) ∧
      (∀ s, parse t.text file = .ok s ↔ ∃ sets, List.Forall₂ (fun l c => parse l.text lineFile = .ok c) t.lines sets ∧
        sets.foldl .merge .empty = s) ∧
      (∀ l ∈ t.lines, ∀ c, parse l.text lineFile = .ok c → c.size ≤ 1) ∧
      ∀ t' : LinedText, Retouched t.lines t'.lines → ∀ s, parse t'.text file = .ok s ↔ parse t.text file = .ok s := by
  refine ⟨?_, fun s => parse_text_iff lineFile, fun l _ c hc => ?_, fun t' h s => ?_⟩
  · rw [← exists_forall₂]
    constructor
    · rintro ⟨s, hs⟩
      obtain ⟨sets, hsets, -⟩ := (parse_text_iff lineFile).mp hs
      exact ⟨sets, hsets⟩
    · rintro ⟨sets, hsets⟩
      exact ⟨_, (parse_text_iff lineFile).mpr ⟨sets, hsets, rfl⟩⟩
  · obtain ⟨o, -, rfl⟩ := parse_line_iff.mp hc
    rcases o with _ | _ | _ <;> simp [ConstraintSet.size, ConstraintSet.ofStatements, ConstraintSet.addStatement,
      ConstraintSet.insert, ConstraintSet.bind, ConstraintSet.empty, appendNew]
  · rw [parse_text_iff none, parse_text_iff none]
    exact h.merges_iff

/-- A name that could be taken for a comment, and a binding. -/
def twoLines : LinedText where
  first := ⟨"\"#\" <= y".toList, by decide +kernel⟩
  further := [(.returnFeed, ⟨"target 7:x⊑y".toList, by decide +kernel⟩)]

def blankLine : Line := ⟨[], oneLine_nil⟩

def commentLine : Line := ⟨" #\"".toList, by decide +kernel⟩

def repeatedLine : Line := ⟨"\t\"#\"⊑y ".toList, by decide +kernel⟩

/-- The same behind a blank line, with a comment in between and the first statement once more. -/
def fiveLines : LinedText where
  first := blankLine
  further := [(.feed, twoLines.first), (.returnFeed, commentLine), (.feed, ⟨"target 7:x⊑y".toList, by decide +kernel⟩),
    (.feed, repeatedLine)]

theorem fiveLines_retouched : Retouched twoLines.lines fiveLines.lines := by
  have hblank : Retouched twoLines.lines ([] ++ blankLine :: twoLines.lines) :=
    .remark (.same _) ⟨[], [], rfl, List.forall_mem_nil _, Or.inl rfl⟩
  have hcomment : Retouched twoLines.lines ([blankLine, twoLines.first] ++ commentLine :: twoLines.lines.tail) :=
    .remark hblank ⟨[' '], ['#', '"'], rfl, List.forall_mem_singleton.mpr rfl, Or.inr ⟨['"'], rfl⟩⟩
  have hsame : parse repeatedLine.text none = parse twoLines.first.text none := by decide +kernel
  have hrepeated : Retouched twoLines.lines
      (([blankLine, twoLines.first, commentLine] ++ twoLines.lines.tail) ++ repeatedLine :: []) :=
    .again hcomment (List.mem_cons_of_mem _ List.mem_cons_self) fun c => by rw [hsame]
  exact hrepeated

theorem parse_fiveLines : Retouched twoLines.lines fiveLines.lines ∧
    parse twoLines.text none = .ok ⟨[⟨⟨"#", []⟩, ⟨"y", []⟩⟩], [⟨.number 7, ⟨⟨"x", []⟩, ⟨"y", []⟩⟩⟩]⟩ ∧
    parse fiveLines.text none = .ok ⟨[⟨⟨"#", []⟩, ⟨"y", []⟩⟩], [⟨.number 7, ⟨⟨"x", []⟩, ⟨"y", []⟩⟩⟩]⟩ := by
  have htwo : parse twoLines.text none =
      .ok ⟨[⟨⟨"#", []⟩, ⟨"y", []⟩⟩], [⟨.number 7, ⟨⟨"x", []⟩, ⟨"y", []⟩⟩⟩]⟩ := by decide +kernel
  exact ⟨fiveLines_retouched, htwo, ((parse_lines twoLines none none).2.2.2 fiveLines fiveLines_retouched _).mpr htwo⟩

end Language

end TypeRecovery
