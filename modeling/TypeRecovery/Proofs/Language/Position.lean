/-
  TypeRecovery.Proofs.Language.Position — where an error is reported, and what is shown there.

  A rule begins and ends at places that do not divide a line end: a word lies in its line, and a
  line break is read as a whole. The refusals on the trail lie where rules began. So an error is
  reported at such a place, whose column is at most one past the line that ends at a line feed.

  What is shown under an error is looked up by the number of that line, but in a text that is split
  at every line boundary. It is the line of the error where no line up to it holds another boundary.
  Where the line itself is the first that does, it is shown up to that boundary; and behind a broken
  line, a piece of an earlier line is shown.

  Proved:
  - `treads_bind`, `treads_noting`, `treads_many`, …: the ways of making rules.
  - `treads_document`: the rules of the grammar.
  - `parse_error_shows`: what the error of a text shows.
-/

import TypeRecovery.Language.Reader
import TypeRecovery.Proofs.Language.InLine
import TypeRecovery.Proofs.Text.Lines

namespace TypeRecovery.Language

open Text (Cursor Undivided Unbroken feedLines pieces isLineBoundary)

variable {α β : Type}

/-- The cursor stands in the text and does not divide a line end. -/
def Stands (cs : List Char) (c : Cursor) : Prop :=
  ∃ before, cs = before ++ c.rest ∧ before.length = c.position ∧ Undivided before c.rest

theorem stands_start (cs : List Char) : Stands cs (.start cs) := ⟨[], rfl, rfl, fun h => nomatch h.1⟩

/-- The position of such a cursor. -/
def Place (cs : List Char) (position : Nat) : Prop := ∃ c, Stands cs c ∧ c.position = position

/-! ## Words -/

/-- What the scanner reads does not end in a carriage return. -/
def Clears (s : Scanner α) : Prop :=
  ∀ cs l, s cs = some l → ∃ taken, cs = taken ++ l.rest ∧ taken.length = l.length ∧ taken.getLast? ≠ some '\r'

theorem clears_of_inLine {s : Scanner α} (hs : InLine s) : Clears s := by
  intro cs l hl
  obtain ⟨taken, hcs, hlen, hline⟩ := hs.taken hl
  refine ⟨taken, hcs, hlen, fun hlast => ?_⟩
  have hreturn := hline '\r' (List.mem_of_getLast? hlast)
  cases hreturn

theorem clears_lineBreak : Clears lineBreak := by
  intro cs l h
  unfold lineBreak at h
  split at h
  · cases h
    exact ⟨['\n'], rfl, rfl, by decide⟩
  · cases h
    exact ⟨['\r', '\n'], rfl, rfl, by decide⟩
  · cases h

theorem Clears.stands {s : Scanner α} (hs : Clears s) {cs : List Char} {c : Cursor} (hc : Stands cs c) {l : Lexeme α}
    (hl : s c.rest = some l) : Stands cs ⟨c.position + l.length, l.rest⟩ := by
  obtain ⟨before, rfl, hlen, hundivided⟩ := hc
  obtain ⟨taken, htaken, hlength, hlast⟩ := hs _ _ hl
  refine ⟨before ++ taken, by rw [htaken, List.append_assoc], by rw [List.length_append, hlen, hlength], ?_⟩
  rintro ⟨hreturn, hfeed⟩
  cases htail : taken.getLast? with
  | none =>
    rw [List.getLast?_eq_none_iff] at htail
    subst htail
    rw [htaken] at hundivided
    exact hundivided ⟨by simpa using hreturn, hfeed⟩
  | some d =>
    rw [List.getLast?_append, htail, Option.some_or] at hreturn
    exact hlast (htail.trans hreturn)

/-! ## Rules -/

def Noted (cs : List Char) (t : Trail) : Prop := ∀ r ∈ t, Place cs r.position

theorem noted_note {cs : List Char} {t : Trail} {r : Refusal} (ht : Noted cs t) (hr : Place cs r.position) :
    Noted cs (t.note r) := by
  intro r' hr'
  unfold Trail.note at hr'
  cases t with
  | none =>
    cases hr'
    exact hr
  | some old =>
    dsimp only at hr'
    split at hr'
    · cases hr'
      exact hr
    · exact ht r' hr'

namespace Rule

/-- From a place the rule goes to a place, and it notes only places. -/
structure Treads (p : Rule α) : Prop where
  outcome {cs : List Char} {c after : Cursor} {a : α} : Stands cs c → (p c).outcome = some (a, after) → Stands cs after
  trail {cs : List Char} {c : Cursor} {t : Trail} : Stands cs c → Noted cs t → Noted cs ((p c).trail t)

theorem treads_pure (a : α) : Treads (pure a : Rule α) where
  outcome hc he := by
    cases he
    exact hc
  trail _ ht := ht

theorem treads_bind {p : Rule α} {f : α → Rule β} (hp : Treads p) (hf : ∀ a, Treads (f a)) : Treads (p >>= f) where
  outcome hc he := by
    rw [outcome_bind, Option.bind_eq_some_iff] at he
    obtain ⟨⟨a, next⟩, ha, hb⟩ := he
    exact (hf a).outcome (hp.outcome hc ha) hb
  trail {cs c t} hc ht := by
    have hfirst := hp.trail hc ht
    show Noted cs ((p.andThen f c).trail t)
    unfold andThen
    cases ho : (p c).outcome with
    | none => simpa only [ho] using hfirst
    | some r =>
      simp only [ho]
      exact (hf r.1).trail (hp.outcome hc ho) hfirst

theorem treads_orElse {p q : Rule α} (hp : Treads p) (hq : Treads q) : Treads (p.orElse q) where
  outcome hc he := by
    rw [outcome_orElse, Option.or_eq_some_iff] at he
    rcases he with he | ⟨-, he⟩
    · exact hp.outcome hc he
    · exact hq.outcome hc he
  trail {cs c t} hc ht := by
    have hfirst := hp.trail hc ht
    unfold orElse
    cases ho : (p c).outcome with
    | none =>
      simp only [ho]
      exact hq.trail hc hfirst
    | some r => simpa only [ho] using hfirst

theorem treads_noting {p : Rule α} (hp : Treads p) (w : Bool) : Treads (noting w p) where
  outcome hc he := hp.outcome hc ((outcome_noting w p _).symm.trans he)
  trail {cs c t} hc ht := by
    have hfirst := hp.trail hc ht
    unfold noting
    cases ho : (p c).outcome with
    | none => simpa only [ho] using noted_note hfirst ⟨c, hc, rfl⟩
    | some r => simpa only [ho] using hfirst

theorem treads_scan {s : Scanner α} (hs : Clears s) : Treads (scan s) where
  outcome {cs c after a} hc he := by
    unfold scan at he
    split at he
    · rename_i l hl
      cases he
      exact hs.stands hc hl
    · cases he
  trail {cs c t} _ ht := by
    unfold scan
    split <;> exact ht

theorem treads_lexeme {s : Scanner α} (hs : Clears s) : Treads (lexeme s) := treads_noting (treads_scan hs) true

theorem treads_fixed {w : List Char} (hw : OneLine w) : Treads (fixed w) :=
  treads_noting (treads_scan (clears_of_inLine (inLine_word hw))) false

theorem treads_optional {p : Rule α} (hp : Treads p) : Treads (optional p) where
  outcome {cs c after a} hc he := by
    unfold optional at he
    split at he
    · cases he
      exact hc
    · cases ho : (p c).outcome with
      | none =>
        simp only [ho] at he
        cases he
        exact hc
      | some r =>
        simp only [ho] at he
        cases he
        exact hp.outcome hc ho
  trail {cs c t} hc ht := by
    have hfirst := hp.trail hc ht
    unfold optional
    split
    · exact ht
    · cases ho : (p c).outcome <;> simpa only [ho] using hfirst

/-- The induction is on the budget; each turn begins where the last one ended. -/
theorem noted_turns {p : Rule α} (hp : Treads p) (budget : List Char) {cs : List Char} {c : Cursor} {t : Trail}
    (hc : Stands cs c) (ht : Noted cs t) : Noted cs ((turns p budget c).trail t) := by
  induction budget generalizing c t with
  | nil => exact ht
  | cons x budget ih =>
    have hfirst := hp.trail hc ht
    unfold turns
    split
    · exact ht
    · cases ho : (p c).outcome with
      | none => simpa only [ho] using hfirst
      | some r =>
        simp only [ho]
        split
        · exact hfirst
        · exact ih (hp.outcome hc ho) hfirst

theorem treads_many {p : Rule α} (hp : Treads p) : Treads (many p) where
  outcome {cs c after as} hc he := by
    have hturns := repeats_of_many he
    clear he
    induction hturns with
    | stop => exact hc
    | turn ha _ ih => exact ih (hp.outcome hc ha)
  trail {cs c t} hc ht := noted_turns hp c.rest hc ht

theorem treads_textEnd : Treads textEndRule := by
  refine treads_noting ⟨fun {cs c after a} hc he => ?_, fun {cs c t} hc ht => ?_⟩ true
  · cases ho : (part (scan anyChar) c).outcome with
    | none =>
      simp only [ho] at he
      cases he
      exact hc
    | some r =>
      simp only [ho] at he
      cases he
  · -- only the trail of the look ahead counts, which may note where it began
    have hnoted : Noted cs ((part (scan anyChar) c).trail t) := by
      unfold part noting
      cases ho : (scan anyChar c).outcome with
      | none =>
        simp only [ho]
        refine noted_note ?_ ⟨c, hc, rfl⟩
        unfold scan
        split <;> exact ht
      | some r =>
        simp only [ho]
        unfold scan
        split <;> exact ht
    cases ho : (part (scan anyChar) c).outcome <;> simpa only [ho] using hnoted

end Rule

/-! ## The grammar -/

open Rule

theorem treads_word {s : Scanner α} (hs : InLine s) : Treads (lexeme s) := treads_lexeme (clears_of_inLine hs)

theorem treads_spaces : Treads spacesRule := treads_word inLine_spaces

theorem treads_label : Treads labelRule :=
  treads_noting (treads_orElse (treads_word inLine_fieldLabel)
    (treads_orElse (treads_word (inLine_indexed (by decide) .input))
      (treads_orElse (treads_word (inLine_indexed (by decide) .output)) (treads_word inLine_pointerLabel)))) true

theorem treads_typeVar : Treads typeVarRule := by
  refine treads_noting (treads_bind ?_ fun _ => treads_bind (treads_many ?_) fun _ => treads_pure _) true
  · exact treads_noting (treads_orElse (treads_word inLine_identifier) (treads_word inLine_quotedName)) true
  · exact treads_noting (treads_bind (treads_fixed (by decide)) fun _ => treads_label) true

theorem treads_target : Treads targetRule := by
  refine treads_noting (treads_orElse ?_ (treads_orElse ?_ ?_)) true
  · exact treads_bind (treads_word inLine_integer) fun _ => treads_pure _
  · exact treads_bind (treads_word inLine_quoted) fun _ => treads_pure _
  · exact treads_bind (treads_word inLine_identifier) fun _ => treads_pure _

theorem treads_subtyping : Treads subtypingRule :=
  treads_noting (treads_bind treads_typeVar fun _ => treads_bind treads_spaces fun _ =>
    treads_bind (treads_noting (treads_orElse (treads_fixed (by decide)) (treads_fixed (by decide))) true) fun _ =>
      treads_bind treads_spaces fun _ => treads_bind treads_typeVar fun _ => treads_pure _) true

theorem treads_binding : Treads bindingRule :=
  treads_noting (treads_bind (treads_fixed (by decide)) fun _ => treads_bind (treads_word inLine_spaces1) fun _ =>
    treads_bind treads_target fun _ => treads_bind treads_spaces fun _ => treads_bind (treads_fixed (by decide)) fun _ =>
      treads_bind treads_spaces fun _ => treads_bind treads_subtyping fun _ => treads_pure _) true

theorem treads_statement : Treads statementRule :=
  treads_noting (treads_orElse (treads_bind treads_binding fun _ => treads_pure _)
    (treads_bind treads_subtyping fun _ => treads_pure _)) true

theorem treads_restOfLine (o : Option Statement) : Treads (restOfLine o) :=
  treads_bind (treads_optional (treads_word inLine_comment)) fun _ =>
    treads_bind (treads_word inLine_lineEnd) fun _ => treads_pure o

theorem treads_line : Treads lineRule := by
  refine treads_noting (treads_orElse (treads_noting ?_ true) (treads_noting ?_ true)) true
  · exact treads_bind treads_spaces fun _ => treads_bind treads_statement fun s =>
      treads_bind treads_spaces fun _ => treads_restOfLine (some s)
  · exact treads_bind treads_spaces fun _ => treads_restOfLine none

theorem treads_document : Treads documentRule := by
  refine treads_noting (treads_bind treads_line fun _ => treads_bind (treads_many ?_) fun _ =>
    treads_bind treads_textEnd fun _ => treads_pure _) true
  exact treads_noting (treads_bind (treads_lexeme clears_lineBreak) fun _ => treads_line) false

/-! ## Errors -/

theorem place_of_error {p : Rule α} (hp : Treads p) {cs : List Char} {file : Option String} {e : SyntaxError}
    (h : readBy p cs file = .error e) : ∃ position, Place cs position ∧ e = .at_ cs position file := by
  have hstart := stands_start cs
  unfold readBy apply at h
  cases ho : (p (.start cs)).outcome with
  | some r =>
    simp only [ho] at h
    split at h
    · cases h
    · rename_i position hverdict
      split at hverdict
      · cases hverdict
      · cases hverdict
        cases h
        exact ⟨_, ⟨_, hp.outcome hstart ho, rfl⟩, rfl⟩
    · rename_i position hverdict
      split at hverdict <;> cases hverdict
  | none =>
    simp only [ho] at h
    cases h
    refine ⟨_, ?_, rfl⟩
    cases ht : (p (.start cs)).trail none with
    | none => exact ⟨_, hstart, rfl⟩
    | some r => exact hp.trail hstart (by rintro _ ⟨⟩) r ht

/-- Under the error stands the line that it numbers, and its column lies in that line or just behind. -/
structure SyntaxError.ShowsLine (e : SyntaxError) (cs : List Char) : Prop where
  line_pos : 1 ≤ e.line
  source : (feedLines cs)[e.line - 1]? = some e.sourceLine.toList
  column_pos : 1 ≤ e.column
  column_le : e.column ≤ e.sourceLine.toList.length + 1

/-- The error of a text that is split at line feeds into `init`, its own line and `more`. -/
structure SyntaxError.Points (e : SyntaxError) (init : List (List Char)) (line : List Char) : Prop where
  number : e.line = init.length + 1
  column_pos : 1 ≤ e.column
  column_le : e.column ≤ line.length + 1
  /-- The first line with another boundary is shown up to that. -/
  unbroken : (∀ l ∈ init, Unbroken l) → e.sourceLine.toList = line.takeWhile (!isLineBoundary ·)
  /-- Behind it, the pieces of the lines are counted. -/
  broken : (∃ l ∈ init, ¬Unbroken l) → (init.flatMap pieces)[init.length]? = some e.sourceLine.toList

theorem points_at {cs : List Char} {position : Nat} (h : Place cs position) (file : Option String) :
    ∃ init line more, feedLines cs = init ++ line :: more ∧ (SyntaxError.at_ cs position file).Points init line := by
  obtain ⟨⟨_, rest⟩, ⟨before, rfl, rfl, hundivided⟩, rfl⟩ := h
  obtain ⟨init, hlen, hlines⟩ := Text.feedLines_append hundivided
  obtain ⟨first, more, hmore⟩ := List.exists_cons_of_ne_nil (Text.feedLines_ne_nil rest)
  rw [hmore, List.modifyHead_cons] at hlines
  have hline : Text.lineNumber (before ++ rest) before.length = init.length + 1 := by
    rw [Text.lineNumber, List.take_left, hlen]
  have hcolumn : Text.columnNumber (before ++ rest) before.length = (Text.lineTail before).length + 1 := by
    rw [Text.columnNumber, List.take_left, Text.lineTail, List.rtakeWhile, List.length_reverse]
  have hsource : (SyntaxError.at_ (before ++ rest) before.length file).sourceLine.toList =
      ((Text.lines (before ++ rest))[init.length]?).getD [] := by
    show (String.ofList (SyntaxError.sourceLineAt _ (Text.lineNumber _ _))).toList = _
    rw [String.toList_ofList, SyntaxError.sourceLineAt, hline, Nat.add_sub_cancel]
  refine ⟨init, _, more, hlines, hline, ?_, ?_, fun hinit => ?_, fun hinit => ?_⟩
  · exact Nat.le_add_left 1 _
  · show Text.columnNumber (before ++ rest) before.length ≤ _
    rw [hcolumn, List.length_append]
    omega
  · rw [hsource, Text.shown_of_unbroken hlines hinit]
  · rw [hsource, Text.shown_of_broken hlines hinit]

theorem SyntaxError.Points.showsLine_iff {e : SyntaxError} {cs line : List Char} {init more : List (List Char)}
    (h : e.Points init line) (hcs : feedLines cs = init ++ line :: more) : e.ShowsLine cs ↔ e.sourceLine.toList = line := by
  have hget : (feedLines cs)[e.line - 1]? = some line := by
    rw [hcs, h.number, Nat.add_sub_cancel, List.getElem?_append_right (Nat.le_refl _), Nat.sub_self]
    rfl
  constructor
  · intro hshows
    have hsource := hshows.source
    rw [hget, Option.some_inj] at hsource
    exact hsource.symm
  · intro hsource
    exact ⟨h.number ▸ Nat.le_add_left 1 _, hsource ▸ hget, h.column_pos, hsource ▸ h.column_le⟩

/-- The error of a text points into a line of the text. That line is shown if neither it nor a line
before it has a boundary other than its end, and only then if no line before it has one. -/
theorem parse_error_shows {text : String} {file : Option String} {e : SyntaxError} (h : parse text file = .error e) :
    ∃ init line more, feedLines text.toList = init ++ line :: more ∧ e.Points init line ∧
      (e.ShowsLine text.toList ↔ e.sourceLine.toList = line) ∧
      ((∀ l ∈ init, Unbroken l) → (e.ShowsLine text.toList ↔ Unbroken line)) := by
  have hread : readBy documentRule text.toList file = .error e := by
    unfold parse at h
    cases hr : readBy documentRule text.toList file with
    | ok sts => rw [hr] at h; cases h
    | error e' => rw [hr] at h; cases h; rfl
  obtain ⟨position, hplace, rfl⟩ := place_of_error treads_document hread
  obtain ⟨init, line, more, hlines, hpoints⟩ := points_at hplace file
  have hiff := hpoints.showsLine_iff hlines
  refine ⟨init, line, more, hlines, hpoints, hiff, fun hinit => hiff.trans ?_⟩
  rw [hpoints.unbroken hinit, List.takeWhile_eq_self_iff]
  simp [Unbroken]

/-- A faulty line behind a comment, both lines unbroken. -/
def afterRemark : String := "# a\r\nx.load <= !"

theorem parse_afterRemark_shows : ∃ e, parse afterRemark none = .error e ∧ e.line = 2 ∧ e.column = 11 ∧
    e.sourceLine = "x.load <= !" ∧ e.ShowsLine afterRemark.toList := by
  have h : parse afterRemark none = .error ⟨"unexpected '!'", 2, 11, "x.load <= !", none⟩ := by rfl
  have hall : ∀ l ∈ feedLines afterRemark.toList, Unbroken l := by decide +kernel
  obtain ⟨init, line, more, hlines, -, -, hiff⟩ := parse_error_shows h
  rw [hlines] at hall
  have hshows := (hiff fun l hl => hall l (List.mem_append_left _ hl)).mpr (hall line (by simp))
  exact ⟨_, h, rfl, rfl, rfl, hshows⟩

/-- The same behind a comment with a form feed. -/
def afterBrokenRemark : String := "# a\x0cb\nx.load <= !"

theorem parse_afterBrokenRemark : ∃ e, parse afterBrokenRemark none = .error e ∧ e.line = 2 ∧ e.column = 11 ∧
    (feedLines afterBrokenRemark.toList)[1]? = some "x.load <= !".toList ∧ e.sourceLine = "b" ∧
    ¬e.ShowsLine afterBrokenRemark.toList := by
  have h : parse afterBrokenRemark none = .error ⟨"unexpected '!'", 2, 11, "b", none⟩ := by rfl
  refine ⟨_, h, rfl, rfl, by decide +kernel, rfl, fun hshows => ?_⟩
  exact absurd hshows.column_le (by decide)

end TypeRecovery.Language
