/-
  TypeRecovery.Proofs.Language.SideBySide — two runs of one rule.

  Two runs stand side by side when the same text lies ahead of both (`Coupling`). Then they go the
  same way: what one reads the other reads, and where one notes a refusal the other does. So a
  relation between their places that reading keeps, and one between their trails that notes keep,
  hold throughout, for every way of making rules and every rule of the grammar.

  Two couplings are used. One run stands so many places further on than the other, and has got to a
  whole refusal before it began, while the other one has noted nothing (`shifted`). Or the two are
  the same run, in a line (`within`): it notes nothing behind the end of the line.

  Proved:
  - `coupled_bind`, `coupled_orElse`, `coupled_many`, …: the ways of making rules.
  - `coupled_line`, `coupled_document`: the rules of the grammar.
  - `shifted`, `within`: the two couplings.
-/

import TypeRecovery.Proofs.Language.Trail

namespace TypeRecovery.Language

open Text (Cursor)

variable {α β : Type}

/-- A relation between the places of two runs, and one between their trails. -/
structure Coupling where
  places : Cursor → Cursor → Prop
  trails : Trail → Trail → Prop
  rest_eq {c d : Cursor} : places c d → c.rest = d.rest
  stays_iff {c d c' d' : Cursor} : places c d → places c' d' → (c'.position = c.position ↔ d'.position = d.position)
  note {c d : Cursor} {t u : Trail} (w : Bool) : places c d → trails t u →
    trails (t.note ⟨c.position, w⟩) (u.note ⟨d.position, w⟩)
  inLine {α : Type} {s : Scanner α} {c d : Cursor} {l : Lexeme α} : InLine s → places c d → s c.rest = some l →
    places ⟨c.position + l.length, l.rest⟩ ⟨d.position + l.length, l.rest⟩

namespace Rule

variable {K : Coupling}

/-- The values of two replies are the same, and their places are related. -/
def SameValue (K : Coupling) (r r' : α × Cursor) : Prop := r.1 = r'.1 ∧ K.places r.2 r'.2

/-- From related places and trails two runs of the rule get to related places and trails. -/
structure Coupled (K : Coupling) (p : Rule α) : Prop where
  outcome {c d : Cursor} : K.places c d → Option.Rel (SameValue K) (p c).outcome (p d).outcome
  trail {c d : Cursor} {t u : Trail} : K.places c d → K.trails t u → K.trails ((p c).trail t) ((p d).trail u)

theorem rel_none {R : α → β → Prop} {o' : Option β} (h : Option.Rel R none o') : o' = none := by
  cases h
  rfl

theorem rel_some {R : α → β → Prop} {x : α} {o' : Option β} (h : Option.Rel R (some x) o') : ∃ y, o' = some y ∧ R x y := by
  cases h with
  | some h => exact ⟨_, rfl, h⟩

section Coupled

variable {p q : Rule α} {c d after : Cursor} {a : α}

/-- Where one run is refused the other is. -/
theorem Coupled.none (hp : Coupled K p) (hcd : K.places c d) (h : (p c).outcome = none) : (p d).outcome = none :=
  rel_none (h ▸ hp.outcome hcd)

theorem Coupled.some (hp : Coupled K p) (hcd : K.places c d) (h : (p c).outcome = some (a, after)) :
    ∃ after', (p d).outcome = some (a, after') ∧ K.places after after' := by
  obtain ⟨⟨a', after'⟩, hd, hvalue, hplaces⟩ := rel_some (h ▸ hp.outcome hcd)
  cases hvalue
  exact ⟨after', hd, hplaces⟩

theorem coupled_pure (a : α) : Coupled K (pure a : Rule α) where
  outcome hcd := .some ⟨rfl, hcd⟩
  trail _ ht := ht

theorem coupled_bind {f : α → Rule β} (hp : Coupled K p) (hf : ∀ a, Coupled K (f a)) : Coupled K (p >>= f) where
  outcome {c d} hcd := by
    rw [outcome_bind, outcome_bind]
    cases hc : (p c).outcome with
    | none =>
      rw [hp.none hcd hc]
      exact .none
    | some r =>
      obtain ⟨after', hd, hafter⟩ := hp.some hcd hc
      rw [hd]
      exact (hf r.1).outcome hafter
  trail {c d t u} hcd ht := by
    have hfirst := hp.trail hcd ht
    cases hc : (p c).outcome with
    | none =>
      rw [trail_bind_none hc, trail_bind_none (hp.none hcd hc)]
      exact hfirst
    | some r =>
      obtain ⟨after', hd, hafter⟩ := hp.some hcd hc
      rw [trail_bind_some hc, trail_bind_some hd]
      exact (hf r.1).trail hafter hfirst

theorem coupled_orElse (hp : Coupled K p) (hq : Coupled K q) : Coupled K (p.orElse q) where
  outcome {c d} hcd := by
    rw [outcome_orElse, outcome_orElse]
    cases hc : (p c).outcome with
    | none =>
      rw [hp.none hcd hc]
      exact hq.outcome hcd
    | some r =>
      obtain ⟨after', hd, hafter⟩ := hp.some hcd hc
      rw [hd]
      exact .some ⟨rfl, hafter⟩
  trail {c d t u} hcd ht := by
    have hfirst := hp.trail hcd ht
    cases hc : (p c).outcome with
    | none =>
      rw [trail_orElse_none hc, trail_orElse_none (hp.none hcd hc)]
      exact hq.trail hcd hfirst
    | some r =>
      obtain ⟨after', hd, -⟩ := hp.some hcd hc
      rw [trail_orElse_some hc, trail_orElse_some hd]
      exact hfirst

theorem coupled_noting (hp : Coupled K p) (w : Bool) : Coupled K (noting w p) where
  outcome hcd := by
    rw [outcome_noting, outcome_noting]
    exact hp.outcome hcd
  trail {c d t u} hcd ht := by
    have hfirst := hp.trail hcd ht
    cases hc : (p c).outcome with
    | none =>
      rw [trail_noting_none w hc, trail_noting_none w (hp.none hcd hc)]
      exact K.note w hcd hfirst
    | some r =>
      obtain ⟨after', hd, -⟩ := hp.some hcd hc
      rw [trail_noting_some w hc, trail_noting_some w hd]
      exact hfirst

theorem coupled_scan {s : Scanner α}
    (hs : ∀ {c d l}, K.places c d → s c.rest = some l →
      K.places ⟨c.position + l.length, l.rest⟩ ⟨d.position + l.length, l.rest⟩) :
    Coupled K (scan s) where
  outcome {c d} hcd := by
    unfold scan
    rw [← K.rest_eq hcd]
    cases hl : s c.rest with
    | none => exact .none
    | some l => exact .some ⟨rfl, hs hcd hl⟩
  trail hcd ht := by
    rw [trail_scan, trail_scan]
    exact ht

theorem coupled_lexeme {s : Scanner α} (hs : Language.InLine s) : Coupled K (lexeme s) :=
  coupled_noting (coupled_scan fun hcd hl => K.inLine hs hcd hl) true

theorem coupled_fixed {w : List Char} (hw : OneLine w) : Coupled K (fixed w) :=
  coupled_noting (coupled_scan fun hcd hl => K.inLine (inLine_word hw) hcd hl) false

theorem coupled_optional (hp : Coupled K p) : Coupled K (optional p) where
  outcome {c d} hcd := by
    unfold optional
    rw [← K.rest_eq hcd]
    split
    · exact .some ⟨rfl, hcd⟩
    · cases hc : (p c).outcome with
      | none =>
        simp only [hc, hp.none hcd hc]
        exact .some ⟨rfl, hcd⟩
      | some r =>
        obtain ⟨after', hd, hafter⟩ := hp.some hcd hc
        simp only [hc, hd]
        exact .some ⟨rfl, hafter⟩
  trail {c d t u} hcd ht := by
    rw [trail_optional, trail_optional, ← K.rest_eq hcd]
    split
    · exact ht
    · exact hp.trail hcd ht

/-- The induction is on the budget, which is the same for both. -/
theorem coupled_turns (hp : Coupled K p) (budget : List Char) : Coupled K (turns p budget) := by
  induction budget with
  | nil => exact ⟨fun hcd => .some ⟨rfl, hcd⟩, fun _ ht => ht⟩
  | cons x budget ih =>
    constructor
    · intro c d hcd
      rw [outcome_turns_succ, outcome_turns_succ, ← K.rest_eq hcd]
      split
      · exact .some ⟨rfl, hcd⟩
      · cases hc : (p c).outcome with
        | none =>
          rw [hp.none hcd hc]
          exact .some ⟨rfl, hcd⟩
        | some r =>
          obtain ⟨after', hd, hafter⟩ := hp.some hcd hc
          rw [hd]
          simp only [K.stays_iff hcd hafter]
          split
          · exact .some ⟨rfl, hcd⟩
          · cases hm : (turns p budget r.2).outcome with
            | none =>
              rw [ih.none hafter hm]
              exact .none
            | some m =>
              obtain ⟨last, hm', hlast⟩ := ih.some hafter hm
              rw [hm']
              exact .some ⟨rfl, hlast⟩
    · intro c d t u hcd ht
      have hfirst := hp.trail hcd ht
      rw [trail_turns_succ, trail_turns_succ, ← K.rest_eq hcd]
      split
      · exact ht
      · cases hc : (p c).outcome with
        | none =>
          rw [hp.none hcd hc]
          exact hfirst
        | some r =>
          obtain ⟨after', hd, hafter⟩ := hp.some hcd hc
          rw [hd]
          simp only [K.stays_iff hcd hafter]
          split
          · exact hfirst
          · exact ih.trail hafter hfirst

theorem coupled_many (hp : Coupled K p) : Coupled K (many p) where
  outcome {c d} hcd := by
    rw [many, many, ← K.rest_eq hcd]
    exact (coupled_turns hp c.rest).outcome hcd
  trail {c d t u} hcd ht := by
    rw [many, many, ← K.rest_eq hcd]
    exact (coupled_turns hp c.rest).trail hcd ht

end Coupled

end Rule

/-! ## The grammar -/

open Rule

section Grammar

variable {K : Coupling}

theorem coupled_spaces : Coupled K spacesRule := coupled_lexeme inLine_spaces

theorem coupled_label : Coupled K labelRule :=
  coupled_noting (coupled_orElse (coupled_lexeme inLine_fieldLabel)
    (coupled_orElse (coupled_lexeme (inLine_indexed (by decide) .input))
      (coupled_orElse (coupled_lexeme (inLine_indexed (by decide) .output)) (coupled_lexeme inLine_pointerLabel)))) true

theorem coupled_labelSuffix : Coupled K labelSuffixRule :=
  coupled_noting (coupled_bind (coupled_fixed (by decide)) fun _ => coupled_label) true

theorem coupled_typeVar : Coupled K typeVarRule :=
  coupled_noting (coupled_bind
    (coupled_noting (coupled_orElse (coupled_lexeme inLine_identifier) (coupled_lexeme inLine_quotedName)) true)
    fun _ => coupled_bind (coupled_many coupled_labelSuffix) fun _ => coupled_pure _) true

theorem coupled_target : Coupled K targetRule := by
  refine coupled_noting (coupled_orElse ?_ (coupled_orElse ?_ ?_)) true
  · exact coupled_bind (coupled_lexeme inLine_integer) fun _ => coupled_pure _
  · exact coupled_bind (coupled_lexeme inLine_quoted) fun _ => coupled_pure _
  · exact coupled_bind (coupled_lexeme inLine_identifier) fun _ => coupled_pure _

theorem coupled_relation : Coupled K relationRule :=
  coupled_noting (coupled_orElse (coupled_fixed (by decide)) (coupled_fixed (by decide))) true

theorem coupled_subtyping : Coupled K subtypingRule :=
  coupled_noting (coupled_bind coupled_typeVar fun _ => coupled_bind coupled_spaces fun _ =>
    coupled_bind coupled_relation fun _ => coupled_bind coupled_spaces fun _ =>
      coupled_bind coupled_typeVar fun _ => coupled_pure _) true

theorem coupled_binding : Coupled K bindingRule :=
  coupled_noting (coupled_bind (coupled_fixed (by decide)) fun _ => coupled_bind (coupled_lexeme inLine_spaces1) fun _ =>
    coupled_bind coupled_target fun _ => coupled_bind coupled_spaces fun _ => coupled_bind (coupled_fixed (by decide)) fun _ =>
      coupled_bind coupled_spaces fun _ => coupled_bind coupled_subtyping fun _ => coupled_pure _) true

theorem coupled_statement : Coupled K statementRule :=
  coupled_noting (coupled_orElse (coupled_bind coupled_binding fun _ => coupled_pure _)
    (coupled_bind coupled_subtyping fun _ => coupled_pure _)) true

theorem coupled_restOfLine (o : Option Statement) : Coupled K (restOfLine o) :=
  coupled_bind (coupled_optional (coupled_lexeme inLine_comment)) fun _ =>
    coupled_bind (coupled_lexeme inLine_lineEnd) fun _ => coupled_pure o

theorem coupled_line : Coupled K lineRule := by
  refine coupled_noting (coupled_orElse (coupled_noting ?_ true) (coupled_noting ?_ true)) true
  · exact coupled_bind coupled_spaces fun _ => coupled_bind coupled_statement fun s =>
      coupled_bind coupled_spaces fun _ => coupled_restOfLine (some s)
  · exact coupled_bind coupled_spaces fun _ => coupled_restOfLine none

theorem coupled_textEnd : Coupled K textEndRule where
  outcome {c d} hcd := by
    obtain ⟨position, rest⟩ := c
    obtain ⟨position', rest'⟩ := d
    obtain rfl : rest = rest' := K.rest_eq hcd
    cases rest with
    | nil => exact .some ⟨rfl, hcd⟩
    | cons x rest =>
      rw [refuses_textEnd (List.cons_ne_nil x rest) position, refuses_textEnd (List.cons_ne_nil x rest) position']
      exact .none
  trail {c d t u} hcd ht := by
    rw [trail_textEnd, trail_textEnd, ← K.rest_eq hcd]
    exact K.note _ hcd ht

end Grammar

/-! ## A run further on in a text -/

/-- The second trail had got to `floor` before, the first had noted nothing; since then the same has
been noted, `base` places further on. As long as the first has only met parts of rules, the second
may have got on to a whole rule that stands in front of them. -/
def Ahead (base floor : Nat) : Trail → Trail → Prop
  | none, u => u = some ⟨floor, true⟩
  | some ⟨position, true⟩, u => u = some ⟨max floor (base + position), true⟩
  | some ⟨position, false⟩, u => ∃ k, u = some ⟨k, true⟩ ∧ floor ≤ k ∧ k ≤ max floor (base + position)

theorem ahead_note {base floor : Nat} {t u : Trail} (h : Ahead base floor t u) (position : Nat) (w : Bool) :
    Ahead base floor (t.note ⟨position, w⟩) (u.note ⟨base + position, w⟩) := by
  rcases t with _ | ⟨q, _ | _⟩
  · -- nothing noted before
    obtain rfl : u = some ⟨floor, true⟩ := h
    rw [note_whole]
    cases w
    · exact ⟨floor, rfl, by omega, by omega⟩
    · rfl
  · -- parts only
    obtain ⟨k, rfl, hfloor, hk⟩ := h
    rw [note_whole]
    by_cases hle : q ≤ position <;> cases w <;> simp [Trail.note, hle, Ahead] <;> omega
  · -- a whole rule
    obtain rfl : u = some ⟨max floor (base + q), true⟩ := h
    rw [note_whole, note_whole]
    cases w
    · rfl
    · simp only [Ahead, if_true, Option.some.injEq, Refusal.mk.injEq, and_true]
      omega

def shifted (base floor : Nat) : Coupling where
  places c d := d = ⟨base + c.position, c.rest⟩
  trails := Ahead base floor
  rest_eq h := by rw [h]
  stays_iff h h' := by
    subst h h'
    exact (Nat.add_right_inj).symm
  note w h ht := by
    subst h
    exact ahead_note ht _ w
  inLine _ h _ := by
    subst h
    rw [Nat.add_assoc]

section Shifted

variable {base floor : Nat}

theorem coupled_furtherLine : Coupled (shifted base floor) furtherLineRule := by
  refine coupled_noting (coupled_bind (coupled_noting (coupled_scan ?_) true) fun _ => coupled_line) false
  intro c d l h _
  obtain rfl : d = ⟨base + c.position, c.rest⟩ := h
  show _ = _
  rw [Nat.add_assoc]

theorem coupled_document : Coupled (shifted base floor) documentRule :=
  coupled_noting (coupled_bind coupled_line fun _ => coupled_bind (coupled_many coupled_furtherLine) fun _ =>
    coupled_bind coupled_textEnd fun _ => coupled_pure _) true

end Shifted

/-! ## A run in a line -/

/-- The line ends at `bound`, and behind it stands `rest`. -/
def within {rest : List Char} (hr : Stops isLineChar rest) (bound : Nat) : Coupling where
  places c d := d = c ∧ ∃ line, OneLine line ∧ c.rest = line ++ rest ∧ c.position + line.length = bound
  trails t u := u = t ∧ ∀ r ∈ t, r.position ≤ bound
  rest_eq h := by rw [h.1]
  stays_iff h h' := by rw [h.1, h'.1]
  note {c d t u} w h ht := by
    obtain ⟨rfl, line, -, -, hbound⟩ := h
    obtain ⟨rfl, hle⟩ := ht
    refine ⟨rfl, fun r hr => ?_⟩
    rcases mem_note hr with rfl | hr
    · show d.position ≤ bound
      omega
    · exact hle r hr
  inLine {α s c d l} hs h hl := by
    obtain ⟨rfl, line, hline, hrest, hbound⟩ := h
    rw [hrest, hs.append hline hr] at hl
    obtain ⟨m, hm, rfl⟩ := Option.map_eq_some_iff.mp hl
    obtain ⟨taken, rfl, hlen⟩ := hs.begins hm
    refine ⟨rfl, m.rest, (oneLine_append.mp hline).2, rfl, ?_⟩
    rw [List.length_append] at hbound
    show d.position + m.length + m.rest.length = bound
    omega

/-- A rule of the line notes nothing behind the end of it. -/
theorem trail_le {p : Rule α} (hp : ∀ {K : Coupling}, Coupled K p) {line rest : List Char} (hline : OneLine line)
    (hr : Stops isLineChar rest) (position : Nat) {t : Trail} (ht : ∀ r ∈ t, r.position ≤ position + line.length) :
    ∀ r ∈ (p ⟨position, line ++ rest⟩).trail t, r.position ≤ position + line.length :=
  (Coupled.trail (hp : Coupled (within hr (position + line.length)) p) ⟨rfl, line, hline, rfl, rfl⟩ ⟨rfl, ht⟩).2

end TypeRecovery.Language
