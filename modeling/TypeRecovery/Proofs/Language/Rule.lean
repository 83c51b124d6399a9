/-
  TypeRecovery.Proofs.Language.Rule — what rules read, apart from the trail.

  A rule `Reads` some characters in front of others when it takes exactly those and gives a
  value, from whatever position; it `Refuses` a text that it gives no value for; and it `Gives`
  values with a property when every value it gives has it. Each way of making rules from
  rules has a lemma for each of the three.

  A rule `Keeps` a property of what lies ahead when the property is not lost by reading. Where
  all that comes first keeps a property for which the next rule refuses, the whole refuses
  (`refuses_bind_kept`), however much was read until then.

  Repetition needs more: each turn must read something, may depend on what follows it (`F`),
  and must find that in the next turn or in the rest (`reads_many`). Conversely a repetition
  that was read is one turn after the other (`Repeats`).
-/

import TypeRecovery.Language.Rule
import TypeRecovery.Proofs.Language.Lexeme

namespace TypeRecovery.Language.Rule

open Text (Cursor)

variable {α β : Type}

/-- The rule reads exactly `taken` in front of `rest`. -/
def Reads (p : Rule α) (taken : List Char) (a : α) (rest : List Char) : Prop :=
  ∀ position, (p ⟨position, taken ++ rest⟩).outcome = some (a, ⟨position + taken.length, rest⟩)

def Refuses (p : Rule α) (cs : List Char) : Prop := ∀ position, (p ⟨position, cs⟩).outcome = none

/-- Whatever the rule gives has the property. -/
def Gives (p : Rule α) (P : α → Prop) : Prop := ∀ c a after, (p c).outcome = some (a, after) → P a

/-! ## One after the other -/

theorem reads_pure (a : α) (rest : List Char) : Reads (pure a) [] a rest := fun _ => rfl

theorem gives_pure {P : α → Prop} {a : α} (h : P a) : Gives (pure a) P := fun _ _ _ he => by cases he; exact h

theorem outcome_bind (p : Rule α) (f : α → Rule β) (c : Cursor) :
    ((p >>= f) c).outcome = (p c).outcome.bind fun r => (f r.1 r.2).outcome := by
  show (p.andThen f c).outcome = _
  unfold andThen
  rcases p c with ⟨_ | ⟨a, after⟩, trail⟩ <;> rfl

theorem reads_bind {p : Rule α} {f : α → Rule β} {t u rest : List Char} {a : α} {b : β} (hp : Reads p t a (u ++ rest))
    (hf : Reads (f a) u b rest) : Reads (p >>= f) (t ++ u) b rest := fun position => by
  rw [outcome_bind, List.append_assoc, hp position]
  show ((f a) _).outcome = _
  rw [hf, List.length_append, Nat.add_assoc]

theorem reads_return {p : Rule α} (f : α → β) {t rest : List Char} {a : α} (h : Reads p t a rest) :
    Reads (p >>= fun a => pure (f a)) t (f a) rest := fun position => by
  rw [outcome_bind, h position]; rfl

theorem refuses_bind {p : Rule α} {f : α → Rule β} {cs : List Char} (h : Refuses p cs) : Refuses (p >>= f) cs :=
  fun position => by rw [outcome_bind, h position]; rfl

theorem refuses_bind_after {p : Rule α} {f : α → Rule β} {t rest : List Char} {a : α} (hp : Reads p t a rest)
    (hf : Refuses (f a) rest) : Refuses (p >>= f) (t ++ rest) := fun position => by
  rw [outcome_bind, hp position]
  exact hf _

theorem gives_bind {p : Rule α} {f : α → Rule β} {P : α → Prop} {Q : β → Prop} (hp : Gives p P)
    (hf : ∀ a, P a → Gives (f a) Q) : Gives (p >>= f) Q := fun c b after h => by
  rw [outcome_bind, Option.bind_eq_some_iff] at h
  obtain ⟨⟨a, c'⟩, ha, hb⟩ := h
  exact hf a (hp c a c' ha) c' b after hb

theorem gives_true (p : Rule α) : Gives p fun _ => True := fun _ _ _ _ => trivial

/-! ## Ordered choice -/

theorem outcome_orElse (p q : Rule α) (c : Cursor) : (p.orElse q c).outcome = (p c).outcome.or (q c).outcome := by
  unfold orElse
  rcases p c with ⟨_ | r, trail⟩ <;> rfl

theorem reads_orElse {p q : Rule α} {t rest : List Char} {a : α} (h : Reads p t a rest) : Reads (p.orElse q) t a rest :=
  fun position => by rw [outcome_orElse, h position]; rfl

theorem reads_orElse_second {p q : Rule α} {t rest : List Char} {a : α} (hp : Refuses p (t ++ rest))
    (hq : Reads q t a rest) : Reads (p.orElse q) t a rest := fun position => by
  rw [outcome_orElse, hp position, hq position]; rfl

theorem refuses_orElse {p q : Rule α} {cs : List Char} (hp : Refuses p cs) (hq : Refuses q cs) : Refuses (p.orElse q) cs :=
  fun position => by rw [outcome_orElse, hp position, hq position]; rfl

theorem gives_orElse {p q : Rule α} {P : α → Prop} (hp : Gives p P) (hq : Gives q P) : Gives (p.orElse q) P :=
  fun c a after h => by
  rw [outcome_orElse, Option.or_eq_some_iff] at h
  rcases h with h | ⟨-, h⟩
  · exact hp c a after h
  · exact hq c a after h

/-! ## Rules of the grammar and their parts -/

theorem outcome_noting (w : Bool) (p : Rule α) (c : Cursor) : (noting w p c).outcome = (p c).outcome := by
  unfold noting
  rcases p c with ⟨_ | r, trail⟩ <;> rfl

theorem reads_whole {p : Rule α} {t rest : List Char} {a : α} (h : Reads p t a rest) : Reads (whole p) t a rest :=
  fun position => (outcome_noting true p _).trans (h position)

theorem refuses_whole {p : Rule α} {cs : List Char} (h : Refuses p cs) : Refuses (whole p) cs :=
  fun position => (outcome_noting true p _).trans (h position)

theorem gives_whole {p : Rule α} {P : α → Prop} (h : Gives p P) : Gives (whole p) P := fun c a after he =>
  h c a after ((outcome_noting true p c).symm.trans he)

theorem reads_part {p : Rule α} {t rest : List Char} {a : α} (h : Reads p t a rest) : Reads (part p) t a rest :=
  fun position => (outcome_noting false p _).trans (h position)

theorem refuses_part {p : Rule α} {cs : List Char} (h : Refuses p cs) : Refuses (part p) cs :=
  fun position => (outcome_noting false p _).trans (h position)

theorem gives_part {p : Rule α} {P : α → Prop} (h : Gives p P) : Gives (part p) P := fun c a after he =>
  h c a after ((outcome_noting false p c).symm.trans he)

/-! ## Lexemes -/

theorem reads_scan {s : Scanner α} {t rest : List Char} {a : α} (h : Scans s t a rest) : Reads (scan s) t a rest :=
  fun position => by
  have h' : s (t ++ rest) = _ := h
  simp only [scan, h']

theorem refuses_scan {s : Scanner α} {cs : List Char} (h : s cs = none) : Refuses (scan s) cs := fun position => by
  simp only [scan, h]

theorem reads_lexeme {s : Scanner α} {t rest : List Char} {a : α} (h : Scans s t a rest) : Reads (lexeme s) t a rest :=
  reads_whole (reads_scan h)

theorem refuses_lexeme {s : Scanner α} {cs : List Char} (h : s cs = none) : Refuses (lexeme s) cs :=
  refuses_whole (refuses_scan h)

theorem outcome_lexeme {s : Scanner α} {c after : Cursor} {a : α} (h : (lexeme s c).outcome = some (a, after)) :
    ∃ l, s c.rest = some l ∧ l.value = a ∧ l.rest = after.rest := by
  rw [lexeme, whole, outcome_noting] at h
  unfold scan at h
  split at h
  · rename_i l hl
    cases h
    exact ⟨l, hl, rfl, rfl⟩
  · cases h

theorem gives_lexeme {s : Scanner α} {P : α → Prop} (h : ∀ cs l, s cs = some l → P l.value) : Gives (lexeme s) P :=
  fun c a after he => by
  obtain ⟨l, hl, rfl, -⟩ := outcome_lexeme he
  exact h _ l hl

theorem reads_fixed (w rest : List Char) : Reads (fixed w) w () rest := reads_part (reads_scan (scans_word w rest))

theorem refuses_fixed {w cs : List Char} (h : word w cs = none) : Refuses (fixed w) cs := refuses_part (refuses_scan h)

/-! ## Perhaps -/

theorem reads_optional_none {p : Rule α} {rest : List Char} (h : rest = [] ∨ Refuses p rest) :
    Reads (optional p) [] none rest := fun position => by
  unfold optional
  rcases h with rfl | h
  · rfl
  · simp only [List.nil_append, h position]
    split <;> rfl

/-! ## Repetition -/

theorem outcome_turns_succ (p : Rule α) (x : Char) (budget : List Char) (c : Cursor) :
    (turns p (x :: budget) c).outcome =
      if c.rest.isEmpty then some ([], c)
      else match (p c).outcome with
        | none => some ([], c)
        | some (a, after) =>
          if after.position = c.position then some ([], c)
          else (turns p budget after).outcome.map fun (as, last) => (a :: as, last) := by
  rw [turns]
  split
  · rfl
  · rcases p c with ⟨_ | ⟨a, after⟩, trail⟩
    · rfl
    · dsimp only
      split <;> rfl

/-- The induction is on the turns that are still to be read; the budget outlasts them. -/
theorem reads_turns {p : Rule α} {F : List Char → Prop} {rest : List Char} (hrest : F rest)
    (hstop : rest = [] ∨ Refuses p rest) (items : List (List Char × α))
    (hp : ∀ e ∈ items, ∀ r, F r → Reads p e.1 e.2 r) (hF : ∀ e ∈ items, ∀ r, F (e.1 ++ r)) (hne : ∀ e ∈ items, e.1 ≠ [])
    (budget : List Char) (hb : items.length ≤ budget.length) :
    Reads (turns p budget) (items.flatMap (·.1)) (items.map (·.2)) rest := by
  induction items generalizing budget with
  | nil =>
    intro position
    cases budget with
    | nil => rfl
    | cons x budget =>
      rw [outcome_turns_succ]
      rcases hstop with rfl | hstop
      · rfl
      · have hnone := hstop position
        simp only [List.flatMap_nil, List.nil_append, hnone]
        split <;> rfl
  | cons e items ih =>
    intro position
    obtain ⟨x, budget, rfl⟩ : ∃ x b, budget = x :: b := by
      cases budget with
      | nil => cases hb
      | cons x b => exact ⟨x, b, rfl⟩
    have hFnext : F (items.flatMap (·.1) ++ rest) := by
      cases items with
      | nil => simpa using hrest
      | cons e' items =>
        rw [List.flatMap_cons, List.append_assoc]
        exact hF e' (List.mem_cons_of_mem _ List.mem_cons_self) _
    have hread := hp e List.mem_cons_self _ hFnext position
    have hmore := ih (fun e' he => hp e' (List.mem_cons_of_mem _ he)) (fun e' he => hF e' (List.mem_cons_of_mem _ he))
      (fun e' he => hne e' (List.mem_cons_of_mem _ he)) budget (Nat.le_of_succ_le_succ hb) (position + e.1.length)
    have hlen : 0 < e.1.length := List.length_pos_iff.mpr (hne e List.mem_cons_self)
    rw [outcome_turns_succ, List.flatMap_cons, List.append_assoc]
    rw [if_neg (by simpa using fun h => absurd h (hne e List.mem_cons_self)), hread]
    dsimp only
    rw [if_neg (by omega), hmore]
    simp [Nat.add_assoc]

theorem length_le_flatMap {items : List (List Char × α)} (hne : ∀ e ∈ items, e.1 ≠ []) :
    items.length ≤ (items.flatMap (·.1)).length := by
  induction items with
  | nil => exact Nat.le_refl _
  | cons e items ih =>
    have hlen : 0 < e.1.length := List.length_pos_iff.mpr (hne e List.mem_cons_self)
    have := ih fun e' he => hne e' (List.mem_cons_of_mem _ he)
    rw [List.flatMap_cons, List.length_append, List.length_cons]
    omega

theorem reads_many {p : Rule α} {F : List Char → Prop} {rest : List Char} (hrest : F rest)
    (hstop : rest = [] ∨ Refuses p rest) (items : List (List Char × α))
    (hp : ∀ e ∈ items, ∀ r, F r → Reads p e.1 e.2 r) (hF : ∀ e ∈ items, ∀ r, F (e.1 ++ r)) (hne : ∀ e ∈ items, e.1 ≠ []) :
    Reads (many p) (items.flatMap (·.1)) (items.map (·.2)) rest := fun position => by
  refine reads_turns hrest hstop items hp hF hne _ ?_ position
  rw [List.length_append]
  exact Nat.le_trans (length_le_flatMap hne) (Nat.le_add_right _ _)

/-- One value is read after the other. -/
inductive Repeats (p : Rule α) : Cursor → List α → Cursor → Prop
  | stop (c : Cursor) : Repeats p c [] c
  | turn {c next after : Cursor} {a : α} {as : List α} : (p c).outcome = some (a, next) → Repeats p next as after →
      Repeats p c (a :: as) after

theorem repeats_of_many {p : Rule α} {c after : Cursor} {as : List α} (h : (many p c).outcome = some (as, after)) :
    Repeats p c as after := by
  suffices ∀ budget c as, (turns p budget c).outcome = some (as, after) → Repeats p c as after from this c.rest c as h
  intro budget
  induction budget with
  | nil =>
    intro c as h
    cases h
    exact .stop _
  | cons x budget ih =>
    intro c as h
    rw [outcome_turns_succ] at h
    split at h
    · cases h
      exact .stop _
    · split at h
      · cases h
        exact .stop _
      · rename_i a next ha
        split at h
        · cases h
          exact .stop _
        · obtain ⟨⟨bs, last⟩, hbs, he⟩ := Option.map_eq_some_iff.mp h
          cases he
          exact .turn ha (ih next bs hbs)

theorem gives_many {p : Rule α} {P : α → Prop} (h : Gives p P) : Gives (many p) fun as => ∀ a ∈ as, P a :=
  fun c as after he => by
  have hturns := repeats_of_many he
  clear he
  induction hturns with
  | stop c => exact List.forall_mem_nil _
  | turn ha _ ih => exact List.forall_mem_cons.mpr ⟨h _ _ _ ha, ih⟩

/-! ## What lies ahead -/

/-- Whatever the rule reads of a text with the property, the text behind has it too. -/
def Keeps (p : Rule α) (P : List Char → Prop) : Prop := ∀ c a after, P c.rest → (p c).outcome = some (a, after) → P after.rest

section Keeps

variable {P : List Char → Prop}

theorem keeps_pure (a : α) : Keeps (pure a) P := fun _ _ _ hc he => by cases he; exact hc

theorem keeps_of_refuses {p : Rule α} (h : ∀ cs, P cs → Refuses p cs) : Keeps p P := fun c a after hc he => by
  rw [h c.rest hc c.position] at he
  cases he

theorem keeps_bind {p : Rule α} {f : α → Rule β} (hp : Keeps p P) (hf : ∀ a, Keeps (f a) P) : Keeps (p >>= f) P :=
  fun c b after hc he => by
  rw [outcome_bind, Option.bind_eq_some_iff] at he
  obtain ⟨⟨a, c'⟩, ha, hb⟩ := he
  exact hf a c' b after (hp c a c' hc ha) hb

theorem refuses_bind_kept {p : Rule α} {f : α → Rule β} (hp : Keeps p P) (hf : ∀ a cs, P cs → Refuses (f a) cs)
    {cs : List Char} (hcs : P cs) : Refuses (p >>= f) cs := fun position => by
  rw [outcome_bind, Option.bind_eq_none_iff]
  rintro ⟨a, after⟩ ha
  exact hf a after.rest (hp _ a after hcs ha) after.position

theorem keeps_orElse {p q : Rule α} (hp : Keeps p P) (hq : Keeps q P) : Keeps (p.orElse q) P := fun c a after hc he => by
  rw [outcome_orElse, Option.or_eq_some_iff] at he
  rcases he with he | ⟨-, he⟩
  · exact hp c a after hc he
  · exact hq c a after hc he

theorem keeps_whole {p : Rule α} (h : Keeps p P) : Keeps (whole p) P := fun c a after hc he =>
  h c a after hc ((outcome_noting true p c).symm.trans he)

theorem keeps_part {p : Rule α} (h : Keeps p P) : Keeps (part p) P := fun c a after hc he =>
  h c a after hc ((outcome_noting false p c).symm.trans he)

theorem keeps_lexeme {s : Scanner α} (h : ∀ cs l, P cs → s cs = some l → P l.rest) : Keeps (lexeme s) P :=
  fun c a after hc he => by
  obtain ⟨l, hl, -, hrest⟩ := outcome_lexeme he
  rw [← hrest]
  exact h _ l hc hl

theorem keeps_optional {p : Rule α} (h : Keeps p P) : Keeps (optional p) P := fun c a after hc he => by
  unfold optional at he
  split at he
  · cases he; exact hc
  · dsimp only at he
    split at he
    · cases he; exact hc
    · rename_i b c' hb
      cases he
      exact h c b _ hc hb

theorem keeps_many {p : Rule α} (h : Keeps p P) : Keeps (many p) P := fun c as after hc he => by
  have hturns := repeats_of_many he
  clear he
  induction hturns with
  | stop c => exact hc
  | turn ha _ ih => exact ih (h _ _ _ hc ha)

end Keeps

/-! ## Whole texts -/

theorem apply_of_reads {p : Rule α} {cs : List Char} {a : α} (h : Reads p cs a []) : p.apply cs = .accepted a := by
  have h' := h 0
  rw [List.append_nil] at h'
  simp [apply, Cursor.start, h']

theorem outcome_of_accepted {p : Rule α} {cs : List Char} {a : α} (h : p.apply cs = .accepted a) :
    ∃ after, (p (Cursor.start cs)).outcome = some (a, after) := by
  unfold apply at h
  dsimp only at h
  split at h
  · rename_i b after hb
    split at h
    · cases h; exact ⟨after, hb⟩
    · cases h
  · cases h

end TypeRecovery.Language.Rule
