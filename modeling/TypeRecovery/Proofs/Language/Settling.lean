/-
  TypeRecovery.Proofs.Language.Settling — when the refusals of a line come to a whole rule.

  A line whose first refusals are those of parts can end with such a refusal on the trail, if the
  rule that the part belongs to began further in front. All parts but one begin where their rule
  does: the colon of a binding stands behind its target. So the trail of a line gets to a whole rule
  (`settles_line`), unless the line begins with `target` and a number, which leave no refusal
  behind, and has no colon there (`LacksColon`). Such a line is refused; alone it is reported where
  the colon should be, and behind a whole refusal where the number is (`lacksColon_trails`).

  Proved:
  - `settles_bind`, `settles_opening`, `settles_many`: the ways of making rules.
  - `settles_line`: every line but those without a colon.
  - `traced_line`: what is noted of those.
-/

import TypeRecovery.Proofs.Language.Position
import TypeRecovery.Proofs.Language.SideBySide

namespace TypeRecovery.Language

open Text (Cursor)

variable {α β : Type}

namespace Rule

/-! ## Rules that settle -/

/-- Whole rules stay on the trail, and with nothing on it a text with `P` brings one there or is
read without a refusal, and what is left has `Q`. -/
structure Settles (P : List Char → Prop) (p : Rule α) (Q : List Char → Prop) : Prop where
  keeps (c : Cursor) {t : Trail} : Whole t → Whole ((p c).trail t)
  starts {c : Cursor} : P c.rest → Whole ((p c).trail none) ∨
    ((p c).trail none = none ∧ ∃ a after, (p c).outcome = some (a, after) ∧ Q after.rest)

section Settles

variable {P Q R : List Char → Prop} {p q : Rule α}

/-- Beside a run that has noted nothing, one that starts with a whole refusal keeps one. -/
theorem keeps_of_coupled (hp : ∀ {floor : Nat}, Coupled (shifted 0 floor) p) (c : Cursor) {t : Trail} (h : Whole t) :
    Whole ((p c).trail t) := by
  obtain ⟨k, rfl⟩ := h
  have hplaces : (shifted 0 k).places c c := by
    show c = ⟨0 + c.position, c.rest⟩
    rw [Nat.zero_add]
  have hahead : Ahead 0 k ((p c).trail none) ((p c).trail (some ⟨k, true⟩)) := hp.trail hplaces rfl
  rcases ht : (p c).trail none with _ | ⟨position, _ | _⟩ <;> rw [ht] at hahead
  · exact ⟨_, hahead⟩
  · obtain ⟨k', hk', -⟩ := hahead
    exact ⟨_, hk'⟩
  · exact ⟨_, hahead⟩

theorem settles_false (hp : ∀ {floor : Nat}, Coupled (shifted 0 floor) p) : Settles (fun _ => False) p Q :=
  ⟨keeps_of_coupled hp, False.elim⟩

theorem settles_pure (a : α) : Settles P (pure a) P :=
  ⟨fun _ _ h => h, fun {c} h => Or.inr ⟨rfl, a, c, rfl, h⟩⟩

theorem settles_bind {f : α → Rule β} (hp : Settles P p Q) (hf : ∀ a, Settles Q (f a) R) : Settles P (p >>= f) R where
  keeps c t h := by
    have hfirst := hp.keeps c h
    cases ho : (p c).outcome with
    | none => rwa [trail_bind_none ho]
    | some r =>
      rw [trail_bind_some ho]
      exact (hf r.1).keeps r.2 hfirst
  starts {c} hc := by
    rcases hp.starts hc with hwhole | ⟨hnone, a, after, ha, hafter⟩
    · left
      cases ho : (p c).outcome with
      | none => rwa [trail_bind_none ho]
      | some r =>
        rw [trail_bind_some ho]
        exact (hf r.1).keeps r.2 hwhole
    · rw [outcome_bind, trail_bind_some ha, hnone, ha]
      exact (hf a).starts hafter

theorem settles_orElse (hp : Settles P p Q) (hq : ∀ c {t : Trail}, Whole t → Whole ((q c).trail t)) :
    Settles P (p.orElse q) Q where
  keeps c t h := by
    have hfirst := hp.keeps c h
    cases ho : (p c).outcome with
    | none =>
      rw [trail_orElse_none ho]
      exact hq c hfirst
    | some r => rwa [trail_orElse_some ho]
  starts {c} hc := by
    rcases hp.starts hc with hwhole | ⟨hnone, a, after, ha, hafter⟩
    · left
      cases ho : (p c).outcome with
      | none =>
        rw [trail_orElse_none ho]
        exact hq c hwhole
      | some r => rwa [trail_orElse_some ho]
    · rw [outcome_orElse, trail_orElse_some ha, ha]
      exact Or.inr ⟨hnone, a, after, rfl, hafter⟩

theorem settles_whole (hp : Settles P p Q) : Settles P (whole p) Q where
  keeps c t h := by
    have hfirst := hp.keeps c h
    cases ho : (p c).outcome with
    | none =>
      rw [whole, trail_noting_none true ho]
      exact whole_note hfirst _
    | some r => rwa [whole, trail_noting_some true ho]
  starts {c} hc := by
    rcases hp.starts hc with hwhole | ⟨hnone, a, after, ha, hafter⟩
    · left
      cases ho : (p c).outcome with
      | none =>
        rw [whole, trail_noting_none true ho]
        exact whole_note hwhole _
      | some r => rwa [whole, trail_noting_some true ho]
    · rw [whole, outcome_noting, trail_noting_some true ha]
      exact Or.inr ⟨hnone, a, after, ha, hafter⟩

theorem settles_lexeme {s : Scanner α} (hs : Language.InLine s) (h : ∀ cs l, P cs → s cs = some l → Q l.rest) :
    Settles P (lexeme s) Q where
  keeps := keeps_of_coupled (coupled_lexeme hs)
  starts {c} hc := by
    cases ho : (scan s c).outcome with
    | none =>
      rw [lexeme, whole, trail_noting_none true ho, trail_scan]
      exact Or.inl ⟨c.position, rfl⟩
    | some r =>
      obtain ⟨a, after⟩ := r
      have hlexeme : (lexeme s c).outcome = some (a, after) := (outcome_noting true _ c).trans ho
      obtain ⟨l, hl, -, hrest⟩ := outcome_lexeme hlexeme
      rw [lexeme, whole, trail_noting_some true ho, trail_scan]
      exact Or.inr ⟨rfl, a, after, hlexeme, hrest ▸ h _ l hc hl⟩

theorem outcome_fixed {w : List Char} {c after : Cursor} {u : Unit} (h : (fixed w c).outcome = some (u, after)) :
    c.rest = w ++ after.rest ∧ after.position = c.position + w.length := by
  rw [fixed, part, outcome_noting] at h
  unfold scan at h
  cases hl : word w c.rest with
  | none =>
    rw [hl] at h
    cases h
  | some l =>
    rw [hl] at h
    cases h
    obtain ⟨rest, hrest⟩ := prefix_of_word hl
    have hscan := scans_word w rest
    rw [Scans, hrest, hl] at hscan
    cases hscan
    exact ⟨hrest.symm, rfl⟩

theorem settles_fixed {w : List Char} (hw : OneLine w) (hP : ∀ cs, P cs → ∃ rest, cs = w ++ rest ∧ Q rest) :
    Settles P (fixed w) Q where
  keeps := keeps_of_coupled (coupled_fixed hw)
  starts {c} hc := by
    obtain ⟨position, cs⟩ := c
    obtain ⟨rest, rfl, hrest⟩ := hP cs hc
    have ho : (scan (word w) ⟨position, w ++ rest⟩).outcome = some ((), ⟨position + w.length, rest⟩) :=
      reads_scan (scans_word w rest) position
    rw [fixed, part, trail_noting_some false ho, trail_scan]
    exact Or.inr ⟨rfl, (), _, reads_fixed w rest position, hrest⟩

/-- The text that opens a rule is refused where the rule is. -/
theorem settles_opening {w : List Char} {f : Unit → Rule α} (hw : OneLine w) (hf : ∀ u, Settles Q (f u) R)
    (hP : ∀ rest, P (w ++ rest) → Q rest) : Settles P (whole (fixed w >>= f)) R where
  keeps := (settles_whole (settles_bind (settles_false (Q := Q) (coupled_fixed hw)) hf)).keeps
  starts {c} hc := by
    cases ho : (fixed w c).outcome with
    | none =>
      have hbind : ((fixed w >>= f) c).outcome = none := by rw [outcome_bind, ho]; rfl
      have hscan : (scan (word w) c).outcome = none := (outcome_noting false _ c).symm.trans ho
      rw [whole, trail_noting_none true hbind, trail_bind_none ho, fixed, part, trail_noting_none false hscan, trail_scan]
      exact Or.inl ⟨c.position, by simp [Trail.note]⟩
    | some r =>
      obtain ⟨u, after⟩ := r
      obtain ⟨hrest, -⟩ := outcome_fixed ho
      have hword : Settles (fun cs => cs = c.rest) (fixed w) Q :=
        settles_fixed hw fun cs hcs => ⟨after.rest, hcs.trans hrest, hP _ (hrest ▸ hc)⟩
      exact (settles_whole (settles_bind hword hf)).starts rfl

/-- The induction is on the length of the text. -/
theorem settles_many (hp : Settles (fun _ => True) p fun _ => True) (hadvances : Advances p)
    (hmoves : ∀ {c after a}, (p c).outcome = some (a, after) → after.position ≠ c.position)
    (hkeeps : ∀ c {t : Trail}, Whole t → Whole ((many p c).trail t)) :
    Settles (fun _ => True) (many p) (· = []) where
  keeps := hkeeps
  starts {c} _ := by
    induction hlen : c.rest.length using Nat.strongRecOn generalizing c with
    | ind n ih =>
      subst hlen
      by_cases hrest : c.rest = []
      · exact Or.inr ⟨trail_many_nil hrest none, [], c, outcome_many_nil hrest, hrest⟩
      have hturn {a : α} {next : Cursor} (ha : (p c).outcome = some (a, next)) :=
        trail_many_turn hadvances ha (hmoves ha) none
      rcases hp.starts (c := c) trivial with hwhole | ⟨hnone, a, next, ha, -⟩
      · left
        cases ho : (p c).outcome with
        | none => rwa [trail_many_stop ho hrest]
        | some r =>
          rw [hturn ho]
          exact hkeeps r.2 hwhole
      · rw [hturn ha, hnone]
        have hshort := hadvances c a next ha (hmoves ha)
        refine (ih _ hshort rfl).imp_right fun ⟨hmore, as, after, has, hafter⟩ => ?_
        exact ⟨hmore, a :: as, after, outcome_many_turn hadvances ha (hmoves ha) has, hafter⟩

end Settles

end Rule

open Rule

/-! ## The grammar -/

/-- At the end of a text there is no relation. -/
theorem settles_relation : Settles (· = []) relationRule fun _ => False where
  keeps := keeps_of_coupled coupled_relation
  starts {c} hc := by
    obtain ⟨position, rest⟩ := c
    obtain rfl : rest = [] := hc
    exact Or.inl ⟨position, by simp [relationRule, whole, noting, orElse, fixed, part, scan, word, Trail.note]⟩

theorem settles_label : Settles (fun _ => True) labelRule fun _ => True :=
  settles_whole (settles_orElse (settles_lexeme inLine_fieldLabel fun _ _ _ _ => trivial)
    (keeps_of_coupled (coupled_orElse (coupled_lexeme (inLine_indexed (by decide) .input))
      (coupled_orElse (coupled_lexeme (inLine_indexed (by decide) .output)) (coupled_lexeme inLine_pointerLabel)))))

theorem labelSuffix_moves {c after : Cursor} {l : Label} (h : (labelSuffixRule c).outcome = some (l, after)) :
    after.position ≠ c.position := by
  rw [labelSuffixRule, whole, outcome_noting, outcome_bind, Option.bind_eq_some_iff] at h
  obtain ⟨⟨u, next⟩, hdot, hlabel⟩ := h
  have hnext : next.position = c.position + 1 := (outcome_fixed hdot).2
  obtain ⟨taken, -, hafter⟩ := inLine_label.begins hlabel
  have hafter' : after.position = next.position + taken.length := hafter
  omega

theorem settles_typeVar : Settles (fun _ => True) typeVarRule (· = []) := by
  refine settles_whole (settles_bind (Q := fun _ => True) (settles_whole ?_) fun _ =>
    settles_bind (settles_many ?_ inLine_labelSuffix.advances labelSuffix_moves ?_) fun _ => settles_pure _)
  · exact settles_orElse (settles_lexeme inLine_identifier fun _ _ _ _ => trivial)
      (keeps_of_coupled (coupled_lexeme inLine_quotedName))
  · exact settles_opening (by decide) (fun _ => settles_label) fun _ _ => trivial
  · exact keeps_of_coupled (coupled_many coupled_labelSuffix)

theorem settles_subtyping : Settles (fun _ => True) subtypingRule fun _ => False := by
  refine settles_whole (settles_bind settles_typeVar fun _ => settles_bind (Q := (· = [])) ?_ fun _ =>
    settles_bind settles_relation fun _ => settles_bind (settles_false coupled_spaces) fun _ =>
      settles_bind (settles_false coupled_typeVar) fun _ => settles_pure _)
  refine settles_lexeme inLine_spaces fun cs l hcs hl => ?_
  subst hcs
  cases hl
  rfl

/-! ### A number without a colon -/

/-- The text begins with `target` and a number, and where a colon should come none does. -/
def LacksColon (cs : List Char) (number colon : Nat) : Prop :=
  ∃ indent gap digits space rest value,
    cs = indent ++ (targetWord ++ (gap ++ (digits ++ (space ++ rest)))) ∧
    (∀ c ∈ indent ++ gap ++ space, isSpace c = true) ∧ gap ≠ [] ∧ Scans integer digits value (space ++ rest) ∧
    Stops isSpace rest ∧ rest.head? ≠ some ':' ∧
    number = (indent ++ targetWord ++ gap).length ∧ colon = (indent ++ targetWord ++ gap ++ digits ++ space).length

/-- Behind `target` a colon comes, if a number does. -/
def ColonAfterNumber (cs : List Char) : Prop :=
  ∀ l, spaces1 cs = some l → ∀ m, integer l.rest = some m → (m.rest.dropWhile isSpace).head? = some ':'

def ColonInLine (cs : List Char) : Prop := ∀ rest, cs = targetWord ++ rest → ColonAfterNumber rest

theorem colon_or_lacksColon (cs : List Char) :
    ColonInLine (cs.dropWhile isSpace) ∨ ∃ number colon, LacksColon cs number colon := by
  by_cases h : ColonInLine (cs.dropWhile isSpace)
  · exact Or.inl h
  · right
    simp only [ColonInLine, ColonAfterNumber, not_forall] at h
    obtain ⟨rest, hrest, l, hl, m, hm, hcolon⟩ := h
    obtain ⟨digits, hdigits, hlen⟩ := inLine_integer.begins hm
    have hgap : rest = rest.takeWhile isSpace ++ l.rest ∧ rest.takeWhile isSpace ≠ [] := by
      cases rest with
      | nil => cases hl
      | cons c rest =>
        by_cases hc : isSpace c = true
        · simp only [spaces1, run1, hc, if_true, Option.map_some, Option.some.injEq] at hl
          subst hl
          refine ⟨List.takeWhile_append_dropWhile.symm, ?_⟩
          rw [List.takeWhile_cons_of_pos hc]
          exact List.cons_ne_nil _ _
        · simp [spaces1, run1, hc] at hl
    have hscan : Scans integer digits m.value (m.rest.takeWhile isSpace ++ m.rest.dropWhile isSpace) := by
      rw [List.takeWhile_append_dropWhile, Scans, ← hdigits, hm, hlen]
    refine ⟨_, _, cs.takeWhile isSpace, rest.takeWhile isSpace, digits, m.rest.takeWhile isSpace, m.rest.dropWhile isSpace,
      m.value, ?_, ?_, hgap.2, hscan, stops_dropWhile isSpace m.rest, hcolon, rfl, rfl⟩
    · rw [List.takeWhile_append_dropWhile, ← hdigits, ← hgap.1, ← hrest, List.takeWhile_append_dropWhile]
    · intro c hc
      simp only [List.mem_append] at hc
      rcases hc with (hc | hc) | hc <;> exact List.mem_takeWhile_imp hc

theorem settles_target : Settles (fun cs => ∀ m, integer cs = some m → (m.rest.dropWhile isSpace).head? = some ':')
    targetRule fun cs => (cs.dropWhile isSpace).head? = some ':' := by
  refine settles_whole (settles_orElse (settles_bind ?_ fun _ => settles_pure _) ?_)
  · exact settles_lexeme inLine_integer fun cs m hcs hm => hcs m hm
  · exact keeps_of_coupled (coupled_orElse (coupled_bind (coupled_lexeme inLine_quoted) fun _ => coupled_pure _)
      (coupled_bind (coupled_lexeme inLine_identifier) fun _ => coupled_pure _))

theorem settles_binding : Settles ColonInLine bindingRule fun _ => False := by
  refine settles_opening (w := targetWord) (Q := ColonAfterNumber) (by decide) (fun _ => ?_) fun rest h => h rest rfl
  refine settles_bind (settles_lexeme inLine_spaces1 fun cs l hcs hl => hcs l hl) fun _ =>
    settles_bind settles_target fun _ => settles_bind (Q := fun cs => cs.head? = some ':') ?_ fun _ =>
      settles_bind (Q := fun _ => True) ?_ fun _ => settles_bind (Q := fun _ => True) ?_ fun _ =>
        settles_bind settles_subtyping fun _ => settles_pure _
  · refine settles_lexeme inLine_spaces fun cs l hcs hl => ?_
    cases hl
    exact hcs
  · refine settles_fixed (by decide) fun cs hcs => ?_
    obtain ⟨rest, rfl⟩ := List.head?_eq_some_iff.mp hcs
    exact ⟨rest, rfl, trivial⟩
  · exact settles_lexeme inLine_spaces fun _ _ _ _ => trivial

theorem settles_statement : Settles ColonInLine statementRule fun _ => False :=
  settles_whole (settles_orElse (settles_bind settles_binding fun _ => settles_pure _)
    (keeps_of_coupled (coupled_bind coupled_subtyping fun _ => coupled_pure _)))

theorem settles_line : Settles (fun cs => ColonInLine (cs.dropWhile isSpace)) lineRule fun _ => False := by
  refine settles_whole (settles_orElse (settles_whole ?_) ?_)
  · refine settles_bind (Q := ColonInLine) ?_ fun _ => settles_bind settles_statement fun s =>
      settles_false (coupled_bind coupled_spaces fun _ => coupled_restOfLine (some s))
    refine settles_lexeme inLine_spaces fun cs l hcs hl => ?_
    cases hl
    exact hcs
  · exact keeps_of_coupled (coupled_noting (coupled_bind coupled_spaces fun _ => coupled_restOfLine none) true)

/-- Where no colon is missing, a line leaves the refusal of a whole rule. -/
theorem line_whole {cs : List Char} (h : ¬∃ number colon, LacksColon cs number colon) (position : Nat) :
    Whole ((lineRule ⟨position, cs⟩).trail none) := by
  have hcolon : ColonInLine (cs.dropWhile isSpace) := (colon_or_lacksColon cs).resolve_right h
  rcases settles_line.starts (c := ⟨position, cs⟩) hcolon with hwhole | ⟨-, -, -, -, hfalse⟩
  · exact hwhole
  · exact hfalse.elim

/-! ## What is noted of a line without a colon -/

namespace Rule

/-- The rule notes these refusals, in this order. -/
structure Traced (p : Rule α) (c : Cursor) (o : Option (α × Cursor)) (notes : List Refusal) : Prop where
  outcome : (p c).outcome = o
  trail (t : Trail) : (p c).trail t = noteAll notes t

section Traced

variable {p q : Rule α} {c after : Cursor} {a : α} {o : Option (α × Cursor)} {ns ms : List Refusal}

theorem traced_bind_none {f : α → Rule β} (h : Traced p c none ns) : Traced (p >>= f) c none ns where
  outcome := by rw [outcome_bind, h.outcome]; rfl
  trail t := by rw [trail_bind_none h.outcome, h.trail]

theorem traced_bind {f : α → Rule β} {o : Option (β × Cursor)} (h : Traced p c (some (a, after)) ns)
    (hf : Traced (f a) after o ms) : Traced (p >>= f) c o (ns ++ ms) where
  outcome := by rw [outcome_bind, h.outcome]; exact hf.outcome
  trail t := by rw [trail_bind_some h.outcome, hf.trail, h.trail, noteAll_append]

theorem traced_orElse_none (h : Traced p c none ns) (hq : Traced q c o ms) : Traced (p.orElse q) c o (ns ++ ms) where
  outcome := by rw [outcome_orElse, h.outcome, hq.outcome]; rfl
  trail t := by rw [trail_orElse_none h.outcome, hq.trail, h.trail, noteAll_append]

theorem traced_orElse_some (h : Traced p c (some (a, after)) ns) : Traced (p.orElse q) c (some (a, after)) ns where
  outcome := by rw [outcome_orElse, h.outcome]; rfl
  trail t := by rw [trail_orElse_some h.outcome, h.trail]

theorem traced_noting_none (w : Bool) (h : Traced p c none ns) : Traced (noting w p) c none (ns ++ [⟨c.position, w⟩]) where
  outcome := (outcome_noting w p c).trans h.outcome
  trail t := by rw [trail_noting_none w h.outcome, h.trail, noteAll_append]; rfl

theorem traced_noting_some (w : Bool) (h : Traced p c (some (a, after)) ns) : Traced (noting w p) c (some (a, after)) ns where
  outcome := (outcome_noting w p c).trans h.outcome
  trail t := by rw [trail_noting_some w h.outcome, h.trail]

theorem traced_scan {s : Scanner α} (h : (scan s c).outcome = o) : Traced (scan s) c o [] :=
  ⟨h, trail_scan s c⟩

theorem traced_lexeme {s : Scanner α} {taken rest : List Char} (h : Scans s taken a rest) (position : Nat) :
    Traced (lexeme s) ⟨position, taken ++ rest⟩ (some (a, ⟨position + taken.length, rest⟩)) [] :=
  traced_noting_some true (traced_scan (reads_scan h position))

theorem traced_lexeme_none {s : Scanner α} {cs : List Char} (h : s cs = none) (position : Nat) :
    Traced (lexeme s) ⟨position, cs⟩ none [⟨position, true⟩] :=
  traced_noting_none true (traced_scan (refuses_scan h position))

theorem traced_fixed (w rest : List Char) (position : Nat) :
    Traced (fixed w) ⟨position, w ++ rest⟩ (some ((), ⟨position + w.length, rest⟩)) [] :=
  traced_noting_some false (traced_scan (reads_scan (scans_word w rest) position))

theorem traced_fixed_none {w cs : List Char} (h : word w cs = none) (position : Nat) :
    Traced (fixed w) ⟨position, cs⟩ none [⟨position, false⟩] :=
  traced_noting_none false (traced_scan (refuses_scan h position))

theorem traced_many_stop (h : Traced p c none ns) (hne : c.rest ≠ []) : Traced (many p) c (some ([], c)) ns where
  outcome := outcome_many_stop h.outcome
  trail t := by rw [trail_many_stop h.outcome hne, h.trail]

theorem traced_optional_none (hp : Refuses p []) (h : Traced p c none ns) (hne : c.rest ≠ []) :
    Traced (optional p) c (some (none, c)) ns where
  outcome := by rw [outcome_optional hp, h.outcome]; rfl
  trail t := by rw [trail_optional, if_neg (by simpa using hne), h.trail]

end Traced

end Rule

theorem scans_spaces {taken rest : List Char} (h : ∀ c ∈ taken, isSpace c = true) (hr : Stops isSpace rest) :
    Scans spaces taken () rest := by
  rw [Scans, spaces, run_append h hr]
  rfl

theorem scans_spaces1 {taken rest : List Char} (hne : taken ≠ []) (h : ∀ c ∈ taken, isSpace c = true) (hr : Stops isSpace rest) :
    Scans spaces1 taken () rest := by
  have hscan := scans_run1 hne h hr
  rw [Scans] at hscan
  rw [Scans, spaces1, hscan]
  rfl

/-- A number begins with a digit or a minus sign. -/
theorem head_of_integer {cs : List Char} {l : Lexeme Int} (h : integer cs = some l) :
    ∃ c rest, cs = c :: rest ∧ (c = '-' ∨ Text.isDigit c = true) := by
  cases cs with
  | nil => cases h
  | cons c rest =>
    refine ⟨c, rest, rfl, ?_⟩
    by_contra hnot
    simp only [not_or, Bool.not_eq_true] at hnot
    rw [integer, signed_eq_none hnot.1 hnot.2] at h
    cases h

theorem length_pos_of_integer {cs : List Char} {l : Lexeme Int} (h : integer cs = some l) : 0 < l.length := by
  have hnatural {cs : List Char} {m : Lexeme Nat} (hm : natural cs = some m) : 0 < m.length := by
    obtain ⟨r, hr, rfl⟩ := Option.map_eq_some_iff.mp hm
    cases cs with
    | nil => cases hr
    | cons c cs =>
      by_cases hc : Text.isDigit c = true
      · simp only [run1, hc, if_true, Option.some.injEq] at hr
        subst hr
        simp [run, Lexeme.map, hc]
      · simp [run1, hc] at hr
  obtain ⟨m, hm, hended⟩ := Option.bind_eq_some_iff.mp h
  rw [Lexeme.ended_eq_some hended]
  unfold signed at hm
  split at hm
  · obtain ⟨r, -, rfl⟩ := Option.map_eq_some_iff.mp hm
    exact Nat.succ_pos _
  · obtain ⟨r, hr, rfl⟩ := Option.map_eq_some_iff.mp hm
    exact hnatural hr

section LacksColon

/-- What stands behind the indent of a line without a colon. -/
structure NumberBehind (gap digits space rest : List Char) : Prop where
  gap_ne : gap ≠ []
  gap_spaces : ∀ c ∈ gap, isSpace c = true
  digits_scan : ∃ value, Scans integer digits value (space ++ rest)
  space_spaces : ∀ c ∈ space, isSpace c = true
  stops : Stops isSpace rest
  colon : rest.head? ≠ some ':'

variable {gap digits space rest : List Char}

theorem NumberBehind.head (h : NumberBehind gap digits space rest) :
    ∃ c cs, digits ++ (space ++ rest) = c :: cs ∧ (c = '-' ∨ Text.isDigit c = true) := by
  obtain ⟨value, hscan⟩ := h.digits_scan
  exact head_of_integer hscan

theorem NumberBehind.stops_space (h : NumberBehind gap digits space rest) : Stops isSpace (digits ++ (space ++ rest)) := by
  obtain ⟨c, cs, hcs, hc⟩ := h.head
  rw [hcs]
  refine stops_cons.mpr ?_
  rcases hc with rfl | hc
  · decide
  · exact isSpace_eq_false_of_isNameChar (isNameChar_of_isDigit hc)

theorem traced_binding (h : NumberBehind gap digits space rest) (position : Nat) :
    Traced bindingRule ⟨position, targetWord ++ (gap ++ (digits ++ (space ++ rest)))⟩ none
      [⟨position + targetWord.length + gap.length + digits.length + space.length, false⟩, ⟨position, true⟩] := by
  obtain ⟨value, hscan⟩ := h.digits_scan
  have hword : word [':'] rest = none := by
    cases rest with
    | nil => rfl
    | cons c rest => exact word_eq_none fun he => h.colon (by rw [he]; rfl)
  have htarget : Traced targetRule ⟨position + targetWord.length + gap.length, digits ++ (space ++ rest)⟩
      (some (.number value, ⟨position + targetWord.length + gap.length + digits.length, space ++ rest⟩)) [] :=
    traced_noting_some true (traced_orElse_some (traced_bind (traced_lexeme hscan _) ⟨rfl, fun _ => rfl⟩))
  have htrace : Traced bindingRule ⟨position, targetWord ++ (gap ++ (digits ++ (space ++ rest)))⟩ none
      (([] ++ ([] ++ ([] ++ ([] ++ [⟨position + targetWord.length + gap.length + digits.length + space.length, false⟩])))) ++
        [⟨position, true⟩]) := by
    refine traced_noting_none true (traced_bind (traced_fixed targetWord _ position) ?_)
    refine traced_bind (traced_lexeme (scans_spaces1 h.gap_ne h.gap_spaces h.stops_space) _) (traced_bind htarget ?_)
    exact traced_bind (traced_lexeme (scans_spaces h.space_spaces h.stops) _) (traced_bind_none (traced_fixed_none hword _))
  simpa using htrace

/-- Here `target` is a base, and the number stands where a relation should. -/
theorem traced_subtyping (h : NumberBehind gap digits space rest) (position : Nat) :
    Traced subtypingRule ⟨position, targetWord ++ (gap ++ (digits ++ (space ++ rest)))⟩ none
      [⟨position + targetWord.length, false⟩, ⟨position + targetWord.length, true⟩,
        ⟨position + targetWord.length + gap.length, false⟩, ⟨position + targetWord.length + gap.length, false⟩,
        ⟨position + targetWord.length + gap.length, true⟩, ⟨position, true⟩] := by
  obtain ⟨c, cs, hcs, hc⟩ := h.head
  obtain ⟨x, xs, hgap⟩ := List.exists_cons_of_ne_nil h.gap_ne
  have hx : x = ' ' ∨ x = '\t' := by
    have := h.gap_spaces x (by rw [hgap]; exact List.mem_cons_self)
    simpa [isSpace] using this
  have hname : Stops isNameChar (gap ++ (digits ++ (space ++ rest))) := by
    rw [hgap]
    refine stops_cons.mpr ?_
    rcases hx with rfl | rfl <;> decide
  have hdot : word ['.'] (gap ++ (digits ++ (space ++ rest))) = none := by
    rw [hgap]
    exact word_eq_none (by rcases hx with rfl | rfl <;> decide)
  have hrelation (d : Char) (w : List Char) (hd : d ≠ '-' ∧ Text.isDigit d = false) :
      word (d :: w) (digits ++ (space ++ rest)) = none := by
    rw [hcs]
    refine word_eq_none ?_
    rintro rfl
    rcases hc with rfl | hc
    · exact hd.1 rfl
    · rw [hd.2] at hc
      cases hc
  have hbase : Scans identifier targetWord "target" (gap ++ (digits ++ (space ++ rest))) :=
    scans_identifier (c := 't') (by decide) (List.all_eq_true.mp (by decide)) hname
  have hvar : Traced typeVarRule ⟨position, targetWord ++ (gap ++ (digits ++ (space ++ rest)))⟩
      (some (⟨"target", []⟩, ⟨position + targetWord.length, gap ++ (digits ++ (space ++ rest))⟩))
      ([] ++ (([⟨position + targetWord.length, false⟩] ++ [⟨position + targetWord.length, true⟩]) ++ [])) := by
    refine traced_noting_some true (traced_bind (traced_noting_some true (traced_orElse_some (traced_lexeme hbase _))) ?_)
    refine traced_bind (traced_many_stop ?_ ?_) ⟨rfl, fun _ => rfl⟩
    · exact traced_noting_none true (traced_bind_none (traced_fixed_none hdot _))
    · rw [hgap]
      exact List.cons_ne_nil _ _
  have hrel : Traced relationRule ⟨position + targetWord.length + gap.length, digits ++ (space ++ rest)⟩ none
      (([⟨position + targetWord.length + gap.length, false⟩] ++ [⟨position + targetWord.length + gap.length, false⟩]) ++
        [⟨position + targetWord.length + gap.length, true⟩]) := by
    refine traced_noting_none true (traced_orElse_none ?_ ?_)
    · exact traced_fixed_none (hrelation '<' ['='] (by decide)) _
    · exact traced_fixed_none (hrelation '⊑' [] (by decide)) _
  have htrace : Traced subtypingRule ⟨position, targetWord ++ (gap ++ (digits ++ (space ++ rest)))⟩ none _ :=
    traced_noting_none true (traced_bind hvar
      (traced_bind (traced_lexeme (scans_spaces h.gap_spaces h.stops_space) _) (traced_bind_none hrel)))
  simpa using htrace

theorem traced_statement (h : NumberBehind gap digits space rest) (position : Nat) :
    Traced statementRule ⟨position, targetWord ++ (gap ++ (digits ++ (space ++ rest)))⟩ none
      [⟨position + targetWord.length + gap.length + digits.length + space.length, false⟩, ⟨position, true⟩,
        ⟨position + targetWord.length, false⟩, ⟨position + targetWord.length, true⟩,
        ⟨position + targetWord.length + gap.length, false⟩, ⟨position + targetWord.length + gap.length, false⟩,
        ⟨position + targetWord.length + gap.length, true⟩, ⟨position, true⟩, ⟨position, true⟩] :=
  traced_noting_none true (traced_orElse_none (traced_bind_none (traced_binding h position))
    (traced_bind_none (traced_subtyping h position)))

/-- Behind the indent there is neither a comment nor the end of the line. -/
theorem traced_blankLine {indent : List Char} (hindent : ∀ c ∈ indent, isSpace c = true) (more : List Char) (position : Nat) :
    Traced blankLineRule ⟨position, indent ++ (targetWord ++ more)⟩ none
      [⟨position + indent.length, true⟩, ⟨position + indent.length, true⟩, ⟨position, true⟩] := by
  have hscan : Scans spaces indent () (targetWord ++ more) := scans_spaces hindent (stops_cons.mpr (by decide))
  have hcomment : Traced (Rule.optional commentRule) ⟨position + indent.length, targetWord ++ more⟩
      (some (none, ⟨position + indent.length, targetWord ++ more⟩)) [⟨position + indent.length, true⟩] :=
    traced_optional_none (refuses_lexeme rfl) (traced_lexeme_none rfl _) (List.cons_ne_nil _ _)
  have hend : Traced lineEndRule ⟨position + indent.length, targetWord ++ more⟩ none [⟨position + indent.length, true⟩] :=
    traced_lexeme_none rfl _
  have htrace : Traced blankLineRule ⟨position, indent ++ (targetWord ++ more)⟩ none
      (([] ++ ([⟨position + indent.length, true⟩] ++ [⟨position + indent.length, true⟩])) ++ [⟨position, true⟩]) := by
    refine traced_noting_none true (traced_bind (traced_lexeme hscan position) ?_)
    exact traced_bind hcomment (traced_bind_none hend)
  exact htrace

/-- The rule for a line notes first that there is no colon, and then nothing behind the number. -/
theorem traced_line {cs : List Char} {number colon : Nat} (h : LacksColon cs number colon) (position : Nat) :
    ∃ notes, Traced lineRule ⟨position, cs⟩ none (⟨position + colon, false⟩ :: notes) ∧
      (∀ r ∈ notes, r.position ≤ position + number) ∧ ⟨position + number, true⟩ ∈ notes := by
  obtain ⟨indent, gap, digits, space, rest, value, rfl, hspaces, hgap, hscan, hstops, hcolon, rfl, rfl⟩ := h
  simp only [List.mem_append] at hspaces
  have hindent : ∀ c ∈ indent, isSpace c = true := fun c hc => hspaces c (Or.inl (Or.inl hc))
  have hbehind : NumberBehind gap digits space rest := ⟨hgap, fun c hc => hspaces c (Or.inl (Or.inr hc)), ⟨value, hscan⟩,
    fun c hc => hspaces c (Or.inr hc), hstops, hcolon⟩
  have hstatementLine : Traced statementLineRule ⟨position, indent ++ (targetWord ++ (gap ++ (digits ++ (space ++ rest))))⟩
      none _ :=
    traced_noting_none true (traced_bind (traced_lexeme (scans_spaces hindent (stops_cons.mpr (by decide))) position)
      (traced_bind_none (traced_statement hbehind (position + indent.length))))
  have htrace : Traced lineRule ⟨position, indent ++ (targetWord ++ (gap ++ (digits ++ (space ++ rest))))⟩ none _ :=
    traced_noting_none true (traced_orElse_none hstatementLine (traced_blankLine hindent _ position))
  simp only [List.nil_append, List.cons_append] at htrace
  simp only [List.length_append, ← Nat.add_assoc]
  refine ⟨_, htrace, ?_, by simp⟩
  simp only [List.forall_mem_cons, List.not_mem_nil, false_imp_iff, implies_true, and_true]
  omega

theorem LacksColon.lt {cs : List Char} {number colon : Nat} (h : LacksColon cs number colon) : number < colon := by
  obtain ⟨indent, gap, digits, space, rest, value, -, -, -, hscan, -, -, rfl, rfl⟩ := h
  have hdigits : 0 < digits.length := length_pos_of_integer hscan
  simp only [List.length_append]
  omega

/-- Such a line is refused: at first where the colon should be, behind a whole rule at the number. -/
theorem lacksColon_trails {cs : List Char} {number colon : Nat} (h : LacksColon cs number colon) (position : Nat) :
    (lineRule ⟨position, cs⟩).outcome = none ∧
    (lineRule ⟨position, cs⟩).trail none = some ⟨position + colon, false⟩ ∧
    ∀ k ≤ position + number, (lineRule ⟨position, cs⟩).trail (some ⟨k, true⟩) = some ⟨position + number, true⟩ := by
  obtain ⟨notes, htrace, hle, hmem⟩ := traced_line h position
  have hlt := h.lt
  refine ⟨htrace.outcome, ?_, fun k hk => ?_⟩
  · rw [htrace.trail, noteAll_cons]
    refine noteAll_part fun r hr => ?_
    have := hle r hr
    omega
  · rw [htrace.trail, noteAll_cons, note_whole]
    exact noteAll_whole hk hle (Or.inr hmem)

end LacksColon

end TypeRecovery.Language
