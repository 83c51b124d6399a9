/-
  TypeRecovery.Proofs.Language.Trail — what rules note of their refusals.

  The outcome of a rule made of rules says which of them were tried, so it says also in which order
  their trails are run through (`trail_bind_some`, `trail_orElse_none`, …). A repetition is one turn
  and then the repetition from there (`many_of_turn`), since its budget does not run out before the
  text does.

  Only the first refusal may be that of a part, and whole rules count from the place that was got to
  on. So a trail that has got to a whole rule can only go on to a further one.

  Proved:
  - `note_whole`, `noteAll_whole`, `noteAll_part`: what notes do to a trail.
  - `turns_eq_many`: the budget of a repetition does not matter.
  - `many_of_turn`: a repetition behind a turn that is known.
-/

import TypeRecovery.Proofs.Language.InLine

namespace TypeRecovery.Language

open Text (Cursor)

variable {α β : Type}

/-! ## Notes -/

/-- The trail has got to the refusal of a whole rule. -/
def Whole (t : Trail) : Prop := ∃ position, t = some ⟨position, true⟩

theorem note_whole (k : Nat) (r : Refusal) :
    Trail.note r (some ⟨k, true⟩) = some ⟨if r.whole then max k r.position else k, true⟩ := by
  obtain ⟨position, w⟩ := r
  cases w
  · simp [Trail.note]
  · simp only [Trail.note, Bool.and_true, decide_eq_true_eq, if_true]
    split
    · rw [Nat.max_eq_right (by assumption)]
    · rw [Nat.max_eq_left (by omega)]

theorem whole_note {t : Trail} (h : Whole t) (r : Refusal) : Whole (t.note r) := by
  obtain ⟨k, rfl⟩ := h
  rw [note_whole]
  exact ⟨_, rfl⟩

theorem mem_note {t : Trail} {r x : Refusal} (h : x ∈ t.note r) : x = r ∨ x ∈ t := by
  cases t with
  | none => exact Or.inl (Option.some.inj h).symm
  | some old =>
    simp only [Trail.note] at h
    split at h
    · exact Or.inl (Option.some.inj h).symm
    · exact Or.inr h

/-- The trail after these refusals, in this order. -/
def noteAll (notes : List Refusal) (t : Trail) : Trail := notes.foldl (fun t r => Trail.note r t) t

theorem noteAll_cons (r : Refusal) (notes : List Refusal) (t : Trail) : noteAll (r :: notes) t = noteAll notes (t.note r) := rfl

theorem noteAll_append (notes notes' : List Refusal) (t : Trail) :
    noteAll (notes ++ notes') t = noteAll notes' (noteAll notes t) :=
  List.foldl_append

/-- A part that was refused further on stays, as long as no whole rule gets there. -/
theorem noteAll_part {position : Nat} {notes : List Refusal} (h : ∀ r ∈ notes, r.position < position) :
    noteAll notes (some ⟨position, false⟩) = some ⟨position, false⟩ := by
  induction notes with
  | nil => rfl
  | cons r notes ih =>
    obtain ⟨hr, hnotes⟩ := List.forall_mem_cons.mp h
    have hstays : Trail.note r (some ⟨position, false⟩) = some ⟨position, false⟩ := by
      simp only [Trail.note, Nat.not_le.mpr hr, decide_false, Bool.false_and]
      rfl
    rw [noteAll_cons, hstays, ih hnotes]

/-- Behind a whole rule, the furthest whole rule is got to. -/
theorem noteAll_whole {k position : Nat} {notes : List Refusal} (hk : k ≤ position) (h : ∀ r ∈ notes, r.position ≤ position)
    (hreached : k = position ∨ ⟨position, true⟩ ∈ notes) :
    noteAll notes (some ⟨k, true⟩) = some ⟨position, true⟩ := by
  induction notes generalizing k with
  | nil =>
    rw [hreached.resolve_right (List.not_mem_nil)]
    rfl
  | cons r notes ih =>
    obtain ⟨hr, hnotes⟩ := List.forall_mem_cons.mp h
    rw [noteAll_cons, note_whole]
    refine ih ?_ hnotes ?_
    · split <;> omega
    · rcases hreached with rfl | hmem
      · left
        split <;> omega
      · rcases List.mem_cons.mp hmem with rfl | hmem
        · left
          simp only [if_true]
          omega
        · exact Or.inr hmem

namespace Rule

/-! ## One rule after the other -/

section Combinators

variable {p q : Rule α} {f : α → Rule β} {c after : Cursor} {a : α}

theorem trail_bind_none (h : (p c).outcome = none) (t : Trail) : ((p >>= f) c).trail t = (p c).trail t := by
  show (p.andThen f c).trail t = _
  simp only [andThen, h]

theorem trail_bind_some (h : (p c).outcome = some (a, after)) (t : Trail) :
    ((p >>= f) c).trail t = (f a after).trail ((p c).trail t) := by
  show (p.andThen f c).trail t = _
  simp only [andThen, h]
  rfl

theorem trail_orElse_none (h : (p c).outcome = none) (t : Trail) :
    (p.orElse q c).trail t = (q c).trail ((p c).trail t) := by
  simp only [orElse, h]
  rfl

theorem trail_orElse_some (h : (p c).outcome = some (a, after)) (t : Trail) : (p.orElse q c).trail t = (p c).trail t := by
  simp only [orElse, h]

theorem trail_noting_none (w : Bool) (h : (p c).outcome = none) (t : Trail) :
    (noting w p c).trail t = ((p c).trail t).note ⟨c.position, w⟩ := by
  simp only [noting, h]

theorem trail_noting_some (w : Bool) (h : (p c).outcome = some (a, after)) (t : Trail) :
    (noting w p c).trail t = (p c).trail t := by
  simp only [noting, h]

theorem trail_scan (s : Scanner α) (c : Cursor) (t : Trail) : (scan s c).trail t = t := by
  unfold scan
  split <;> rfl

theorem trail_optional (p : Rule α) (c : Cursor) (t : Trail) :
    (optional p c).trail t = if c.rest.isEmpty then t else (p c).trail t := by
  unfold optional
  split
  · rfl
  · cases ho : (p c).outcome <;> simp only [ho]

end Combinators

/-! ## Repetition -/

section Repetition

variable {p : Rule α}

/-- A turn that gets on shortens the text ahead. -/
def Advances (p : Rule α) : Prop :=
  ∀ c a after, (p c).outcome = some (a, after) → after.position ≠ c.position → after.rest.length < c.rest.length

theorem InLine.advances (hp : p.InLine) : Advances p := by
  intro c a after ha hne
  obtain ⟨taken, hrest, hposition⟩ := hp.begins ha
  rw [hrest, List.length_append]
  omega

theorem trail_turns_succ (p : Rule α) (x : Char) (budget : List Char) (c : Cursor) (t : Trail) :
    (turns p (x :: budget) c).trail t =
      if c.rest.isEmpty then t
      else match (p c).outcome with
        | none => (p c).trail t
        | some (_, after) =>
          if after.position = c.position then (p c).trail t else (turns p budget after).trail ((p c).trail t) := by
  rw [turns]
  split
  · rfl
  · cases ho : (p c).outcome with
    | none => simp only [ho]
    | some r =>
      simp only [ho]
      split <;> rfl

/-- The induction is on one budget; each turn takes from both and from the text. -/
theorem turns_eq_turns (hp : Advances p) {b b' : List Char} {c : Cursor} (hb : c.rest.length ≤ b.length)
    (hb' : c.rest.length ≤ b'.length) : turns p b c = turns p b' c := by
  induction b generalizing b' c with
  | nil =>
    have hrest : c.rest = [] := List.length_eq_zero_iff.mp (Nat.le_zero.mp hb)
    cases b' with
    | nil => rfl
    | cons x b' => simp [turns, hrest]
  | cons x b ih =>
    cases b' with
    | nil =>
      have hrest : c.rest = [] := List.length_eq_zero_iff.mp (Nat.le_zero.mp hb')
      simp [turns, hrest]
    | cons y b' =>
      simp only [turns]
      split
      · rfl
      · cases ho : (p c).outcome with
        | none => rfl
        | some r =>
          obtain ⟨a, after⟩ := r
          by_cases hsame : after.position = c.position
          · simp only [if_pos hsame]
          · have hshort := hp c a after ho hsame
            simp only [List.length_cons] at hb hb'
            have hnext : turns p b after = turns p b' after := ih (by omega) (by omega)
            simp only [if_neg hsame, hnext]

theorem turns_eq_many (hp : Advances p) {budget : List Char} {c : Cursor} (h : c.rest.length ≤ budget.length) :
    turns p budget c = many p c :=
  turns_eq_turns hp h (Nat.le_refl _)

variable {c next after : Cursor} {a : α} {as : List α}

theorem outcome_many_nil (h : c.rest = []) : (many p c).outcome = some ([], c) := by
  rw [many, h]
  rfl

theorem trail_many_nil (h : c.rest = []) (t : Trail) : (many p c).trail t = t := by
  rw [many, h]
  rfl

theorem outcome_many_stop (h : (p c).outcome = none) : (many p c).outcome = some ([], c) := by
  unfold many
  cases c.rest with
  | nil => rfl
  | cons x xs =>
    rw [outcome_turns_succ, h]
    split <;> rfl

theorem trail_many_stop (h : (p c).outcome = none) (hne : c.rest ≠ []) (t : Trail) :
    (many p c).trail t = (p c).trail t := by
  obtain ⟨x, xs, hrest⟩ := List.exists_cons_of_ne_nil hne
  simp only [many, hrest, turns, List.isEmpty_cons, h]
  rfl

section Turn

variable (hp : Advances p) (h : (p c).outcome = some (a, next)) (hne : next.position ≠ c.position)
include hp h hne

theorem many_of_turn : many p c =
    ⟨(many p next).outcome.map fun (as, last) => (a :: as, last), (many p next).trail ∘ (p c).trail⟩ := by
  have hshort := hp c a next h hne
  cases hrest : c.rest with
  | nil => simp [hrest] at hshort
  | cons x xs =>
    rw [hrest, List.length_cons] at hshort
    simp only [many, hrest, turns, List.isEmpty_cons, h, if_neg hne]
    rw [turns_eq_many hp (by omega)]
    rfl

theorem outcome_many_turn (hmore : (many p next).outcome = some (as, after)) :
    (many p c).outcome = some (a :: as, after) := by
  rw [many_of_turn hp h hne, hmore]
  rfl

theorem trail_many_turn (t : Trail) : (many p c).trail t = (many p next).trail ((p c).trail t) := by
  rw [many_of_turn hp h hne]
  rfl

end Turn

end Repetition

end Rule

/-- The end of the text is a whole rule, and the character that it looks for a part of one. -/
theorem trail_textEnd (c : Cursor) (t : Trail) : (textEndRule c).trail t = t.note ⟨c.position, !c.rest.isEmpty⟩ := by
  obtain ⟨position, _ | ⟨x, rest⟩⟩ := c <;> rfl

end TypeRecovery.Language
