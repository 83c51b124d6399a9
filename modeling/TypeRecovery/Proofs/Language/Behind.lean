/-
  TypeRecovery.Proofs.Language.Behind — the error of a text behind lines that are accepted.

  Behind accepted lines the rules go the way they go in the text alone, only further on. What
  differs is the trail: the accepted lines have left the refusal of a whole rule on it, in front of
  the text, where alone there is nothing. That makes no difference once the first line of the text
  has brought a whole rule to the trail, as each line does but one that lacks a colon. So the error
  is reported where it is alone, so many lines further on, and shows the same; only for a first line
  that lacks a colon it is reported at the number instead of behind it.

  Proved:
  - `lines_of_accepted`: an accepted text is a text of lines that are read.
  - `many_lines`: what the rules do behind lines that are read.
  - `parse_behind`: the error of a text alone and behind other lines.
-/

import TypeRecovery.Proofs.Language.Lines
import TypeRecovery.Proofs.Language.Settling

namespace TypeRecovery.Language

open Text (Cursor)
open Rule LinedText

/-! ## Positions -/

section At

variable (cs ds : List Char) (position : Nat)

theorem take_behind : (cs ++ '\n' :: ds).take (cs.length + 1 + position) = cs ++ '\n' :: ds.take position := by
  rw [Nat.add_assoc, List.take_length_add_append, Nat.add_comm, List.take_succ_cons]

theorem lineNumber_behind : Text.lineNumber (cs ++ '\n' :: ds) (cs.length + 1 + position) =
    Text.lineNumber ds position + 1 + cs.count '\n' := by
  have hcount : (cs.filter (· = '\n')).length = cs.count '\n' := by
    rw [List.count, List.countP_eq_length_filter]
    congr 1
  rw [Text.lineNumber, Text.lineNumber, take_behind, List.filter_append, List.length_append, hcount,
    List.filter_cons_of_pos (by decide), List.length_cons]
  omega

theorem columnNumber_behind : Text.columnNumber (cs ++ '\n' :: ds) (cs.length + 1 + position) =
    Text.columnNumber ds position := by
  have hstops : Stops (· ≠ '\n') ('\n' :: cs.reverse) := stops_cons.mpr (by decide)
  rw [Text.columnNumber, Text.columnNumber, take_behind, List.reverse_append, List.reverse_cons, List.append_assoc,
    List.singleton_append, hstops.takeWhile_append]

theorem foundAt_behind : SyntaxError.foundAt (cs ++ '\n' :: ds) (cs.length + 1 + position) =
    SyntaxError.foundAt ds position := by
  rw [SyntaxError.foundAt, SyntaxError.foundAt, Nat.add_assoc, List.drop_length_add_append, Nat.add_comm,
    List.drop_succ_cons]

theorem message_behind (file : Option String) : (SyntaxError.at_ (cs ++ '\n' :: ds) (cs.length + 1 + position) file).message =
    (SyntaxError.at_ ds position file).message := by
  simp only [SyntaxError.at_, foundAt_behind]

/-- In the first line the column is the position. -/
theorem at_first {line : List Char} (hline : OneLine line) (rest : List Char) {position : Nat} (h : position ≤ line.length) :
    Text.lineNumber (line ++ rest) position = 1 ∧ Text.columnNumber (line ++ rest) position = position + 1 := by
  have hfeed : ∀ c ∈ line.take position, c ≠ '\n' := by
    rintro c hc rfl
    exact absurd (hline _ (List.mem_of_mem_take hc)) (by decide)
  rw [Text.lineNumber, Text.columnNumber, List.take_append_of_le_length h]
  constructor
  · rw [List.filter_eq_nil_iff.mpr (by simpa using hfeed)]
    rfl
  · rw [List.takeWhile_eq_self_iff.mpr (by simpa using hfeed), List.length_reverse, List.length_take, Nat.min_eq_left h]

end At

/-! ## Accepted lines -/

theorem tells_of_outcome {c after : Cursor} {o : Option Statement} (h : (lineRule c).outcome = some (o, after)) :
    ∃ l : Line, Tells l o ∧ c.rest = l.chars ++ after.rest ∧ after.position = c.position + l.chars.length := by
  obtain ⟨position, cs⟩ := c
  have hline : OneLine (cs.takeWhile isLineChar) := fun c hc => List.mem_takeWhile_imp hc
  have hstops := stops_dropWhile isLineChar cs
  have hcs : cs.takeWhile isLineChar ++ cs.dropWhile isLineChar = cs := List.takeWhile_append_dropWhile
  rcases reads_line_or_refuses hline with ⟨o', ho'⟩ | hrefuses
  · have hread := ho' _ hstops position
    rw [hcs, h] at hread
    cases hread
    exact ⟨⟨_, hline⟩, ho', hcs.symm, rfl⟩
  · have hnone := hrefuses _ hstops position
    rw [hcs, h] at hnone
    cases hnone

theorem lineBreak_of_outcome {c after : Cursor} {u : Unit} (h : (lineBreakRule c).outcome = some (u, after)) :
    ∃ b : LineBreak, c.rest = b.chars ++ after.rest ∧ after.position = c.position + b.chars.length := by
  rw [lineBreakRule, lexeme, whole, outcome_noting] at h
  unfold scan at h
  cases hl : lineBreak c.rest with
  | none =>
    rw [hl] at h
    cases h
  | some l =>
    rw [hl] at h
    cases h
    unfold lineBreak at hl
    split at hl
    · rename_i rest hrest
      cases hl
      exact ⟨.feed, hrest, rfl⟩
    · rename_i rest hrest
      cases hl
      exact ⟨.returnFeed, hrest, rfl⟩
    · cases hl

theorem brokenLine_of_outcome {c after : Cursor} {o : Option Statement} (h : (furtherLineRule c).outcome = some (o, after)) :
    ∃ e : LineBreak × Line, Tells e.2 o ∧ c.rest = brokenLine e ++ after.rest ∧
      after.position = c.position + (brokenLine e).length := by
  rw [furtherLineRule, part, outcome_noting, outcome_bind, Option.bind_eq_some_iff] at h
  obtain ⟨⟨u, next⟩, hbreak, hline⟩ := h
  obtain ⟨b, hrest, hposition⟩ := lineBreak_of_outcome hbreak
  obtain ⟨l, htells, hrest', hposition'⟩ := tells_of_outcome hline
  refine ⟨(b, l), htells, ?_, ?_⟩
  · rw [hrest, hrest', brokenLine, List.append_assoc]
  · rw [hposition', hposition, brokenLine, List.length_append, Nat.add_assoc]

theorem advances_furtherLine : Advances furtherLineRule := by
  intro c o after h _
  obtain ⟨e, -, hrest, -⟩ := brokenLine_of_outcome h
  have := List.length_pos_iff.mpr (brokenLine_ne_nil e)
  rw [hrest, List.length_append]
  omega

theorem lines_of_repeats {c after : Cursor} {os : List (Option Statement)} (h : Repeats furtherLineRule c os after) :
    ∃ read : List ((LineBreak × Line) × Option Statement), (∀ e ∈ read, Tells e.1.2 e.2) ∧
      c.rest = (read.map (·.1)).flatMap brokenLine ++ after.rest := by
  induction h with
  | stop => exact ⟨[], List.forall_mem_nil _, rfl⟩
  | turn ha _ ih =>
    obtain ⟨e, htells, hrest, -⟩ := brokenLine_of_outcome ha
    obtain ⟨read, hread, hmore⟩ := ih
    refine ⟨(e, _) :: read, List.forall_mem_cons.mpr ⟨htells, hread⟩, ?_⟩
    rw [hrest, hmore, List.map_cons, List.flatMap_cons, List.append_assoc]

/-- Whatever the rule for a document reads, it reads to the end. -/
theorem document_outcome {c after : Cursor} {sts : List Statement} (h : (documentRule c).outcome = some (sts, after)) :
    ∃ o next os last, (lineRule c).outcome = some (o, next) ∧ (many furtherLineRule next).outcome = some (os, last) ∧
      last.rest = [] ∧ after = last := by
  rw [documentRule, whole, outcome_noting, outcome_bind, Option.bind_eq_some_iff] at h
  obtain ⟨⟨o, next⟩, hline, h⟩ := h
  rw [outcome_bind, Option.bind_eq_some_iff] at h
  obtain ⟨⟨os, last⟩, hmany, h⟩ := h
  rw [outcome_bind, Option.bind_eq_some_iff] at h
  obtain ⟨⟨u, final⟩, hend, h⟩ := h
  cases h
  obtain ⟨position, rest⟩ := last
  cases rest with
  | nil =>
    cases hend
    exact ⟨o, next, os, _, hline, hmany, rfl, rfl⟩
  | cons x rest =>
    rw [refuses_textEnd (List.cons_ne_nil x rest) position] at hend
    cases hend

/-- An accepted text is a text of lines that are read. -/
theorem lines_of_accepted {cs : List Char} {sts : List Statement} (h : documentRule.apply cs = .accepted sts) :
    ∃ (first : Line) (o : Option Statement) (read : List ((LineBreak × Line) × Option Statement)),
      Tells first o ∧ (∀ e ∈ read, Tells e.1.2 e.2) ∧ cs = LinedText.chars ⟨first, read.map (·.1)⟩ := by
  obtain ⟨after, hafter⟩ := outcome_of_accepted h
  obtain ⟨o, next, os, last, hline, hmany, hlast, -⟩ := document_outcome hafter
  obtain ⟨first, htells, hrest, -⟩ := tells_of_outcome hline
  obtain ⟨read, hread, hmore⟩ := lines_of_repeats (repeats_of_many hmany)
  refine ⟨first, o, read, htells, hread, ?_⟩
  rw [hlast, List.append_nil] at hmore
  rw [LinedText.chars, ← hmore]
  exact hrest

/-! ## The trail behind accepted lines -/

/-- The trail has got to a whole rule, no further than `bound`. -/
def GotTo (t : Trail) (bound : Nat) : Prop := ∃ k ≤ bound, t = some ⟨k, true⟩

theorem gotTo_iff {t : Trail} {bound : Nat} : GotTo t bound ↔ Whole t ∧ ∀ r ∈ t, r.position ≤ bound := by
  constructor
  · rintro ⟨k, hk, rfl⟩
    refine ⟨⟨k, rfl⟩, fun r hr => ?_⟩
    cases hr
    exact hk
  · rintro ⟨⟨k, rfl⟩, hle⟩
    exact ⟨k, hle _ rfl, rfl⟩

theorem GotTo.mono {t : Trail} {bound bound' : Nat} (h : GotTo t bound) (hle : bound ≤ bound') : GotTo t bound' := by
  obtain ⟨k, hk, rfl⟩ := h
  exact ⟨k, Nat.le_trans hk hle, rfl⟩

/-- A line that is read lacks no colon, so it brings a whole rule to the trail. -/
theorem Tells.gotTo {l : Line} {o : Option Statement} (h : Tells l o) {rest : List Char} (hr : Stops isLineChar rest)
    (position : Nat) {t : Trail} (ht : t = none ∨ GotTo t position) :
    GotTo ((lineRule ⟨position, l.chars ++ rest⟩).trail t) (position + l.chars.length) := by
  refine gotTo_iff.mpr ⟨?_, trail_le coupled_line l.oneLine hr position ?_⟩
  · rcases ht with rfl | ht
    · refine line_whole (fun ⟨number, colon, hlacks⟩ => ?_) position
      have hnone := (lacksColon_trails hlacks position).1
      rw [h rest hr position] at hnone
      cases hnone
    · exact settles_line.keeps _ (gotTo_iff.mp ht).1
  · rcases ht with rfl | ht
    · exact fun r hr => nomatch hr
    · exact (gotTo_iff.mp (ht.mono (Nat.le_add_right _ _))).2

section FurtherLine

variable (b : LineBreak) {cs : List Char} {position : Nat}

theorem outcome_furtherLine : (furtherLineRule ⟨position, b.chars ++ cs⟩).outcome =
    (lineRule ⟨position + b.chars.length, cs⟩).outcome := by
  rw [furtherLineRule, part, outcome_noting, outcome_bind, reads_lineBreak b cs position]
  rfl

theorem trail_lineBreak (t : Trail) : (lineBreakRule ⟨position, b.chars ++ cs⟩).trail t = t := by
  cases b <;> rfl

theorem trail_furtherLine_some {r : Option Statement × Cursor} (h : (lineRule ⟨position + b.chars.length, cs⟩).outcome = some r)
    (t : Trail) : (furtherLineRule ⟨position, b.chars ++ cs⟩).trail t = (lineRule ⟨position + b.chars.length, cs⟩).trail t := by
  have hbody := (outcome_noting false _ _).symm.trans ((outcome_furtherLine b).trans h)
  rw [furtherLineRule, part, trail_noting_some false hbody, trail_bind_some (reads_lineBreak b cs position), trail_lineBreak]

theorem trail_furtherLine_none (h : (lineRule ⟨position + b.chars.length, cs⟩).outcome = none) (t : Trail) :
    (furtherLineRule ⟨position, b.chars ++ cs⟩).trail t =
      ((lineRule ⟨position + b.chars.length, cs⟩).trail t).note ⟨position, false⟩ := by
  have hbody := (outcome_noting false _ _).symm.trans ((outcome_furtherLine b).trans h)
  rw [furtherLineRule, part, trail_noting_none false hbody, trail_bind_some (reads_lineBreak b cs position), trail_lineBreak]

end FurtherLine

theorem LineBreak.length_pos (b : LineBreak) : 0 < b.chars.length := by
  cases b <;> exact Nat.succ_pos _

/-- The rules go over lines that are read and on from there, with a whole rule on the trail. The
induction is on the lines. -/
theorem many_lines {read : List ((LineBreak × Line) × Option Statement)} (htells : ∀ e ∈ read, Tells e.1.2 e.2)
    {rest : List Char} (hr : Stops isLineChar rest) {position next : Nat} {t : Trail} (ht : GotTo t position)
    (hnext : next = position + ((read.map (·.1)).flatMap brokenLine).length) {as : List (Option Statement)} {last : Cursor}
    (hmore : (many furtherLineRule ⟨next, rest⟩).outcome = some (as, last)) :
    ∃ u, GotTo u next ∧
      (∃ as', (many furtherLineRule ⟨position, (read.map (·.1)).flatMap brokenLine ++ rest⟩).outcome = some (as', last)) ∧
      (many furtherLineRule ⟨position, (read.map (·.1)).flatMap brokenLine ++ rest⟩).trail t =
        (many furtherLineRule ⟨next, rest⟩).trail u := by
  induction read generalizing position t with
  | nil =>
    obtain rfl : next = position := hnext
    exact ⟨t, ht, ⟨as, hmore⟩, rfl⟩
  | cons e read ih =>
    obtain ⟨⟨b, l⟩, o⟩ := e
    obtain ⟨hl, hread⟩ := List.forall_mem_cons.mp htells
    replace hl : Tells l o := hl
    have hstops := stops_lines (read.map (·.1)) hr
    simp only [List.map_cons, List.flatMap_cons, List.append_assoc, List.length_append, brokenLine] at hnext ⊢
    have hline := hl _ hstops (position + b.chars.length)
    have hturn := (outcome_furtherLine b).trans hline
    have hmoves : position + b.chars.length + l.chars.length ≠ position := by
      have := b.length_pos
      omega
    have ht' := hl.gotTo hstops (position + b.chars.length) (Or.inr (ht.mono (Nat.le_add_right _ _)))
    obtain ⟨u, hu, ⟨as', has'⟩, htrail⟩ := ih hread ht' (by omega)
    refine ⟨u, hu, ⟨o :: as', outcome_many_turn advances_furtherLine hturn hmoves has'⟩, ?_⟩
    rw [trail_many_turn advances_furtherLine hturn hmoves, trail_furtherLine_some b hline, htrail]

/-! ## Refused texts -/

theorem exists_outcome_turns {α : Type} (p : Rule α) (budget : List Char) (c : Cursor) :
    ∃ as last, (turns p budget c).outcome = some (as, last) := by
  induction budget generalizing c with
  | nil => exact ⟨[], c, rfl⟩
  | cons x budget ih =>
    rw [outcome_turns_succ]
    split
    · exact ⟨[], c, rfl⟩
    · split
      · exact ⟨[], c, rfl⟩
      · rename_i a after _
        split
        · exact ⟨[], c, rfl⟩
        · obtain ⟨as, last, h⟩ := ih after
          rw [h]
          exact ⟨a :: as, last, rfl⟩

/-- A repetition is not refused. -/
theorem exists_outcome_many {α : Type} (p : Rule α) (c : Cursor) : ∃ as last, (many p c).outcome = some (as, last) :=
  exists_outcome_turns p c.rest c

/-- How the rule for a document is refused: in the first line, or at the end of those that were read. -/
inductive Refused (c : Cursor) : (Trail → Trail) → Prop
  | first : (lineRule c).outcome = none → Refused c fun t => (lineRule c).trail t
  | further {o : Option Statement} {next last : Cursor} {os : List (Option Statement)} :
    (lineRule c).outcome = some (o, next) → (many furtherLineRule next).outcome = some (os, last) → last.rest ≠ [] →
      Refused c fun t => ((many furtherLineRule next).trail ((lineRule c).trail t)).note ⟨last.position, true⟩

theorem refused_of_outcome {c : Cursor} (h : (documentRule c).outcome = none) : ∃ f, Refused c f := by
  cases hline : (lineRule c).outcome with
  | none => exact ⟨_, .first hline⟩
  | some r =>
    obtain ⟨o, next⟩ := r
    obtain ⟨os, last, hmany⟩ := exists_outcome_many furtherLineRule next
    refine ⟨_, .further hline hmany fun hrest => ?_⟩
    obtain ⟨position, rest⟩ := last
    obtain rfl : rest = [] := hrest
    rw [documentRule, whole, outcome_noting, outcome_bind, hline] at h
    simp only [Option.bind_some, outcome_bind, hmany] at h
    cases h

namespace Refused

variable {c : Cursor} {f : Trail → Trail}

theorem outcome (h : Refused c f) : (documentRule c).outcome = none := by
  rw [documentRule, whole, outcome_noting, outcome_bind]
  cases h with
  | first hline =>
    rw [hline]
    rfl
  | further hline hmany hrest =>
    rw [hline, Option.bind_some, outcome_bind, hmany, Option.bind_some, outcome_bind, refuses_textEnd hrest]
    rfl

theorem trail (h : Refused c f) (t : Trail) : (documentRule c).trail t = (f t).note ⟨c.position, true⟩ := by
  have hbody := (outcome_noting true _ c).symm.trans h.outcome
  rw [documentRule, whole, trail_noting_none true hbody]
  cases h with
  | first hline => rw [trail_bind_none hline]
  | further hline hmany hrest =>
    rw [trail_bind_some hline, trail_bind_some hmany, trail_bind_none (refuses_textEnd hrest _), trail_textEnd,
      List.isEmpty_eq_false_iff.mpr hrest]
    rfl

/-- Where no colon is missing in the first line, the refusal of a whole rule is reported. -/
theorem whole (h : Refused c f) (hcolon : ¬∃ number colon, LacksColon c.rest number colon) : Whole (f none) := by
  have hline := line_whole hcolon c.position
  cases h with
  | first => exact hline
  | further =>
    exact whole_note (keeps_of_coupled (coupled_many coupled_furtherLine) _ hline) _

/-- A first line without a colon is refused itself. -/
theorem lacksColon (h : Refused c f) {number colon : Nat} (hlacks : LacksColon c.rest number colon) :
    f none = some ⟨c.position + colon, false⟩ ∧
    ∀ k ≤ c.position + number, f (some ⟨k, true⟩) = some ⟨c.position + number, true⟩ := by
  obtain ⟨hnone, htrails⟩ := lacksColon_trails hlacks c.position
  cases h with
  | first => exact htrails
  | further hline =>
    rw [hline] at hnone
    cases hnone

/-- Further on in a text the same is refused, and noted. -/
theorem shift (h : Refused c f) (base : Nat) : ∃ f', Refused ⟨base + c.position, c.rest⟩ f' ∧
    ∀ floor, Ahead base floor (f none) (f' (some ⟨floor, true⟩)) := by
  have hplaces (floor : Nat) (d : Cursor) : (shifted base floor).places d ⟨base + d.position, d.rest⟩ := rfl
  cases h with
  | first hline =>
    refine ⟨_, .first (coupled_line.none (hplaces 0 c) hline), fun floor => ?_⟩
    exact coupled_line.trail (hplaces floor c) rfl
  | @further o next last os hline hmany hrest =>
    obtain ⟨next', hline', hnext⟩ := coupled_line.some (hplaces 0 c) hline
    obtain rfl : next' = ⟨base + next.position, next.rest⟩ := hnext
    obtain ⟨last', hmany', hlast⟩ := (coupled_many coupled_furtherLine).some (hplaces 0 next) hmany
    obtain rfl : last' = ⟨base + last.position, last.rest⟩ := hlast
    refine ⟨_, .further hline' hmany' hrest, fun floor => ahead_note ?_ last.position true⟩
    exact (coupled_many coupled_furtherLine).trail (hplaces floor next) (coupled_line.trail (hplaces floor c) rfl)

end Refused

/-! ## Texts behind accepted lines -/

/-- Behind accepted lines a text is refused like at its place alone, with a whole rule on the trail.
The refusals of the line break in front and of the end of the text do not matter. -/
theorem refused_behind {first : Line} {o : Option Statement} {read : List ((LineBreak × Line) × Option Statement)}
    (ho : Tells first o) (htells : ∀ e ∈ read, Tells e.1.2 e.2) {cs ds : List Char}
    (hcs : cs = LinedText.chars ⟨first, read.map (·.1)⟩) {f' : Trail → Trail} (h : Refused ⟨cs.length + 1, ds⟩ f') :
    ∃ g notes, ∃ floor ≤ cs.length, Refused (.start (cs ++ '\n' :: ds)) g ∧ (∀ r ∈ notes, r.position ≤ cs.length) ∧
      g none = noteAll notes (f' (some ⟨floor, true⟩)) := by
  have hstops : Stops isLineChar ('\n' :: ds) := stops_cons.mpr (by decide)
  have htext : cs ++ '\n' :: ds = first.chars ++ ((read.map (·.1)).flatMap brokenLine ++ '\n' :: ds) := by
    rw [hcs, LinedText.chars, List.append_assoc]
  have hlength : cs.length = first.chars.length + ((read.map (·.1)).flatMap brokenLine).length := by
    rw [hcs, LinedText.chars, List.length_append]
  have hfirst : (lineRule (.start (cs ++ '\n' :: ds))).outcome =
      some (o, ⟨0 + first.chars.length, (read.map (·.1)).flatMap brokenLine ++ '\n' :: ds⟩) := by
    rw [htext]
    exact ho _ (stops_lines _ hstops) 0
  have hgot : GotTo ((lineRule (.start (cs ++ '\n' :: ds))).trail none) (0 + first.chars.length) := by
    rw [htext]
    exact ho.gotTo (stops_lines _ hstops) 0 (Or.inl rfl)
  have hnext : cs.length = 0 + first.chars.length + ((read.map (·.1)).flatMap brokenLine).length := by omega
  cases h with
  | first hline =>
    have hturn : (furtherLineRule ⟨cs.length, LineBreak.feed.chars ++ ds⟩).outcome = _ := (outcome_furtherLine .feed).trans hline
    obtain ⟨u, ⟨floor, hfloor, rfl⟩, ⟨os, hmany⟩, htrail⟩ := many_lines htells hstops hgot hnext (outcome_many_stop hturn)
    refine ⟨_, [⟨cs.length, false⟩, ⟨cs.length, true⟩], floor, hfloor, .further hfirst hmany (List.cons_ne_nil _ _), ?_, ?_⟩
    · simp
    · rw [htrail]
      show ((many furtherLineRule ⟨cs.length, LineBreak.feed.chars ++ ds⟩).trail _).note _ = _
      rw [trail_many_stop hturn (List.cons_ne_nil _ _), trail_furtherLine_none .feed hline]
      rfl
  | @further o' next last os hline hmany hrest =>
    have hturn : (furtherLineRule ⟨cs.length, LineBreak.feed.chars ++ ds⟩).outcome = _ := (outcome_furtherLine .feed).trans hline
    have hmoves : next.position ≠ cs.length := by
      obtain ⟨taken, -, hposition⟩ := inLine_line.begins hline
      simp only at hposition
      omega
    obtain ⟨u, ⟨floor, hfloor, rfl⟩, ⟨os', hmany'⟩, htrail⟩ := many_lines htells hstops hgot hnext
      (outcome_many_turn advances_furtherLine hturn hmoves hmany)
    refine ⟨_, [], floor, hfloor, .further hfirst hmany' hrest, List.forall_mem_nil _, ?_⟩
    rw [htrail]
    show ((many furtherLineRule ⟨cs.length, LineBreak.feed.chars ++ ds⟩).trail _).note _ = _
    rw [trail_many_turn advances_furtherLine hturn hmoves, trail_furtherLine_some .feed hline]
    rfl

/-! ## Errors -/

theorem outcome_of_parse {text : String} {file : Option String} {e : SyntaxError} (h : parse text file = .error e) :
    (documentRule (.start text.toList)).outcome = none := by
  cases ho : (documentRule (.start text.toList)).outcome with
  | none => rfl
  | some r =>
    obtain ⟨sts, after⟩ := r
    obtain ⟨o, next, os, last, -, -, hrest, rfl⟩ := document_outcome ho
    simp [parse, readBy, apply, ho, hrest, Except.map] at h

theorem parse_of_outcome {text : String} (file : Option String) (h : (documentRule (.start text.toList)).outcome = none)
    {position : Nat} {w : Bool} (ht : (documentRule (.start text.toList)).trail none = some ⟨position, w⟩) :
    parse text file = .error (.at_ text.toList position file) := by
  simp [parse, readBy, apply, h, ht, Except.map]

/-- A whole rule is refused at the position, and none behind it: a trail with a whole rule on it gets
that far and no further. -/
def Furthest {α : Type} (p : Rule α) (cs : List Char) (position : Nat) : Prop :=
  ∀ k, (p (.start cs)).trail (some ⟨k, true⟩) = some ⟨max k position, true⟩

theorem furthest_document {cs : List Char} {position : Nat}
    (h : (documentRule (.start cs)).trail none = some ⟨position, true⟩) : Furthest documentRule cs position := by
  intro k
  have hahead : Ahead 0 k ((documentRule (.start cs)).trail none) ((documentRule (.start cs)).trail (some ⟨k, true⟩)) :=
    coupled_document.trail (K := shifted 0 k) rfl rfl
  rw [h] at hahead
  have hfurther : (documentRule (.start cs)).trail (some ⟨k, true⟩) = some ⟨max k (0 + position), true⟩ := hahead
  rw [hfurther, Nat.zero_add]

/-- Behind an accepted text the position is the one alone, if a whole rule is refused there; otherwise
a colon is missing. -/
theorem trails_behind {cs ds : List Char} {sts : List Statement} (hcs : documentRule.apply cs = .accepted sts)
    (hds : (documentRule (.start ds)).outcome = none) :
    (documentRule (.start (cs ++ '\n' :: ds))).outcome = none ∧
    ((¬∃ number colon, LacksColon ds number colon) → ∃ position,
      (documentRule (.start ds)).trail none = some ⟨position, true⟩ ∧
      (documentRule (.start (cs ++ '\n' :: ds))).trail none = some ⟨cs.length + 1 + position, true⟩) ∧
    ∀ number colon, LacksColon ds number colon →
      (documentRule (.start ds)).trail none = some ⟨colon, false⟩ ∧
      (documentRule (.start (cs ++ '\n' :: ds))).trail none = some ⟨cs.length + 1 + number, true⟩ := by
  obtain ⟨first, o, read, ho, hread, htext⟩ := lines_of_accepted hcs
  obtain ⟨f, hf⟩ := refused_of_outcome hds
  obtain ⟨f', hf', hahead⟩ := hf.shift (cs.length + 1)
  replace hf' : Refused ⟨cs.length + 1, ds⟩ f' := hf'
  obtain ⟨g, notes, floor, hfloor, hg, hnotes, hgf⟩ := refused_behind ho hread htext hf'
  have hbehind {position : Nat} (h : f' (some ⟨floor, true⟩) = some ⟨cs.length + 1 + position, true⟩) :
      (documentRule (.start (cs ++ '\n' :: ds))).trail none = some ⟨cs.length + 1 + position, true⟩ := by
    rw [hg.trail, hgf, h, noteAll_whole (Nat.le_refl _) (fun r hr => ?_) (Or.inl rfl), note_whole]
    · simp [Cursor.start]
    · have := hnotes r hr
      omega
  refine ⟨hg.outcome, fun hcolon => ?_, fun number colon hlacks => ?_⟩
  · obtain ⟨position, hposition⟩ := hf.whole hcolon
    have hshift := hahead floor
    rw [hposition] at hshift
    refine ⟨position, ?_, hbehind ?_⟩
    · rw [hf.trail, hposition, note_whole]
      simp [Cursor.start]
    · have hmax : f' (some ⟨floor, true⟩) = some ⟨max floor (cs.length + 1 + position), true⟩ := hshift
      rw [hmax, Nat.max_eq_right (by omega)]
  · have hlt := hlacks.lt
    have halone : f none = some ⟨0 + colon, false⟩ := (hf.lacksColon hlacks).1
    refine ⟨?_, hbehind ((hf'.lacksColon hlacks).2 floor ?_)⟩
    · rw [hf.trail, halone]
      simp [Trail.note, Cursor.start]
      omega
    · show floor ≤ cs.length + 1 + number
      omega

namespace LacksColon

variable {cs : List Char} {number colon : Nat}

theorem unique {number' colon' : Nat} (h : LacksColon cs number colon) (h' : LacksColon cs number' colon') :
    number' = number ∧ colon' = colon := by
  obtain ⟨-, halone, hwhole⟩ := lacksColon_trails h 0
  obtain ⟨-, halone', hwhole'⟩ := lacksColon_trails h' 0
  have hcolons := halone'.symm.trans halone
  have hnumbers := (hwhole' 0 (Nat.zero_le _)).symm.trans (hwhole 0 (Nat.zero_le _))
  simp only [Nat.zero_add, Option.some.injEq, Refusal.mk.injEq, and_true] at hcolons hnumbers
  exact ⟨hnumbers, hcolons⟩

theorem first_line (h : LacksColon cs number colon) :
    ∃ line rest, cs = line ++ rest ∧ OneLine line ∧ line.length = colon := by
  obtain ⟨indent, gap, digits, space, rest, value, rfl, hspaces, -, hscan, -, -, -, rfl⟩ := h
  obtain ⟨taken, htaken, hlen, hdigits⟩ := inLine_integer.taken hscan
  obtain rfl : digits = taken := (List.append_inj htaken hlen.symm).1
  refine ⟨indent ++ targetWord ++ gap ++ digits ++ space, rest, by simp, fun c hc => ?_, rfl⟩
  simp only [List.mem_append] at hspaces hc
  rcases hc with (((hc | hc) | hc) | hc) | hc
  · exact isLineChar_of_isSpace (hspaces c (Or.inl (Or.inl hc)))
  · exact (by decide : OneLine targetWord) c hc
  · exact isLineChar_of_isSpace (hspaces c (Or.inl (Or.inr hc)))
  · exact hdigits c hc
  · exact isLineChar_of_isSpace (hspaces c (Or.inr hc))

/-- Up to the place of the colon, positions are those in the first line. -/
theorem place (h : LacksColon cs number colon) {position : Nat} (hle : position ≤ colon) :
    Text.lineNumber cs position = 1 ∧ Text.columnNumber cs position = position + 1 := by
  obtain ⟨line, rest, rfl, hline, rfl⟩ := h.first_line
  exact at_first hline rest hle

end LacksColon

/-- Behind an accepted text a refused one is refused, at the furthest position reached and so many
lines further on. The column and the message are those alone, exactly if no colon is missing in its
first line: there a whole rule has been refused further on, at the number. -/
theorem parse_behind {accepted refused : String} {file : Option String} {s : ConstraintSet} {e : SyntaxError}
    (h : parse accepted file = .ok s) (h' : parse refused file = .error e) :
    ∃ position e', parse (accepted ++ "\n" ++ refused) file = .error e' ∧
      e' = .at_ (accepted ++ "\n" ++ refused).toList position file ∧
      Furthest documentRule (accepted ++ "\n" ++ refused).toList position ∧
      e'.line = e.line + 1 + accepted.toList.count '\n' ∧
      (e'.column = e.column ∧ e'.message = e.message ↔ ¬∃ number colon, LacksColon refused.toList number colon) ∧
      ∀ number colon, LacksColon refused.toList number colon →
        e.line = 1 ∧ e.column = colon + 1 ∧ e'.column = number + 1 := by
  obtain ⟨sts, haccepted, -⟩ := parse_eq_ok_iff.mp h
  have hrefused := outcome_of_parse h'
  have htext : (accepted ++ "\n" ++ refused).toList = accepted.toList ++ '\n' :: refused.toList := by
    simp [String.toList_append]
  obtain ⟨houtcome, hsame, hlacking⟩ := trails_behind haccepted hrefused
  rw [← htext] at houtcome hsame hlacking
  by_cases hcolon : ∃ number colon, LacksColon refused.toList number colon
  · obtain ⟨number, colon, hlacks⟩ := hcolon
    obtain ⟨halone, hbehind⟩ := hlacking number colon hlacks
    obtain rfl : e = .at_ refused.toList colon file :=
      Except.error.inj (h'.symm.trans (parse_of_outcome file hrefused halone))
    have hlt := hlacks.lt
    obtain ⟨hline, hcolumn⟩ := hlacks.place (Nat.le_refl colon)
    obtain ⟨hnumberLine, hnumberColumn⟩ := hlacks.place (Nat.le_of_lt hlt)
    have hcolumn' : Text.columnNumber (accepted ++ "\n" ++ refused).toList (accepted.toList.length + 1 + number) =
        number + 1 := by
      rw [htext, columnNumber_behind, hnumberColumn]
    refine ⟨_, _, parse_of_outcome file houtcome hbehind, rfl, furthest_document hbehind, ?_, ?_, ?_⟩
    · show Text.lineNumber _ _ = Text.lineNumber _ colon + 1 + _
      rw [htext, lineNumber_behind, hnumberLine, hline]
    · refine iff_of_false (fun ⟨hsameColumn, _⟩ => ?_) (fun hnone => hnone ⟨number, colon, hlacks⟩)
      have := hcolumn'.symm.trans (hsameColumn.trans hcolumn)
      omega
    · intro number' colon' hlacks'
      obtain ⟨rfl, rfl⟩ := hlacks.unique hlacks'
      exact ⟨hline, hcolumn, hcolumn'⟩
  · obtain ⟨position, halone, hbehind⟩ := hsame hcolon
    obtain rfl : e = .at_ refused.toList position file :=
      Except.error.inj (h'.symm.trans (parse_of_outcome file hrefused halone))
    refine ⟨_, _, parse_of_outcome file houtcome hbehind, rfl, furthest_document hbehind, ?_, ?_, ?_⟩
    · rw [htext]
      exact lineNumber_behind _ _ _
    · rw [htext]
      exact iff_of_true ⟨columnNumber_behind _ _ _, message_behind _ _ _ _⟩ hcolon
    · exact fun number colon hlacks => absurd ⟨number, colon, hlacks⟩ hcolon

/-- A fault behind a line and a comment. -/
theorem parse_behindRemark : ∃ s e e', parse "a <= b\n# n" none = .ok s ∧ parse "x.load <= !" none = .error e ∧
    parse ("a <= b\n# n" ++ "\n" ++ "x.load <= !") none = .error e' ∧
    e.line = 1 ∧ e'.line = 3 ∧ e'.column = e.column ∧ e'.message = e.message := by
  have h : parse "a <= b\n# n" none = .ok (.ofStatements [.subtyping ⟨⟨"a", []⟩, ⟨"b", []⟩⟩]) := by rfl
  have h' : parse "x.load <= !" none = .error ⟨"unexpected '!'", 1, 11, "x.load <= !", none⟩ := by rfl
  obtain ⟨position, e', he', -, -, hline, hiff, -⟩ := parse_behind h h'
  refine ⟨_, _, e', h, h', he', rfl, hline, hiff.mpr ?_⟩
  rintro ⟨number, colon, indent, gap, digits, space, rest, value, htext, hspaces, -⟩
  cases indent with
  | nil =>
    have hhead : some 'x' = some 't' := congrArg List.head? htext
    exact absurd hhead (by decide)
  | cons c indent =>
    obtain rfl : 'x' = c := (List.cons.inj htext).1
    exact absurd (hspaces 'x' List.mem_cons_self) (by decide)

/-- Alone the place of the colon is reported, and behind another line that of the number. -/
theorem parse_behind_lacksColon : ∃ s e e', parse "a <= b" none = .ok s ∧ parse "target 7 x" none = .error e ∧
    parse ("a <= b" ++ "\n" ++ "target 7 x") none = .error e' ∧
    (e.line, e.column, e.message) = (1, 10, "unexpected 'x'") ∧
    (e'.line, e'.column, e'.message) = (2, 8, "unexpected '7 x'") := by
  have h : parse "a <= b" none = .ok (.ofStatements [.subtyping ⟨⟨"a", []⟩, ⟨"b", []⟩⟩]) := by rfl
  have h' : parse "target 7 x" none = .error ⟨"unexpected 'x'", 1, 10, "target 7 x", none⟩ := by rfl
  have hbehind : parse ("a <= b" ++ "\n" ++ "target 7 x") none =
      .error ⟨"unexpected '7 x'", 2, 8, "target 7 x", none⟩ := by rfl
  exact ⟨_, _, _, h, h', hbehind, rfl, rfl⟩

end TypeRecovery.Language
