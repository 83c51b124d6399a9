/-
  TypeRecovery.Proofs.Command.Course — courses step by step: results, acts and refusals.

  A course that goes on after another one has the acts of both; one that is stopped has its own
  acts only. So what holds of the effects of each step holds of those of the whole. A course is
  refused if it is stopped with a complaint. It withholds its output if it has put nothing out by
  then: it is enough that every step up to the first that puts something out is quiet, and that
  none is refused from there on.

  Proved:
  - `bind_of_ok`, `bind_of_error`, `result_bind`: one step after the other.
  - `gives_bind`, `performs_bind`: what a course comes to and what it does, from its steps.
  - `withholds_bind`: a course withholds its output if its first step is quiet and the rest withholds it.
-/

import TypeRecovery.Command.Run
import TypeRecovery.Proofs.Entries

namespace TypeRecovery.Command

variable {α β : Type}

namespace Course

section Bind

variable {w : Course α} {f : α → Course β}

theorem bind_of_ok {a : α} (h : w.result = .ok a) : w >>= f = ⟨w.acts ++ (f a).acts, (f a).result⟩ := by
  show w.andThen f = _
  rw [andThen, h]

theorem bind_of_error {s : Setback} (h : w.result = .error s) : w >>= f = ⟨w.acts, .error s⟩ := by
  show w.andThen f = _
  rw [andThen, h]

theorem result_bind (w : Course α) (f : α → Course β) : (w >>= f).result = w.result.bind fun a => (f a).result := by
  cases h : w.result with
  | ok a => rw [bind_of_ok h]; rfl
  | error s => rw [bind_of_error h]; rfl

theorem result_say (events : List Event) (f : Unit → Course α) : (say events >>= f).result = (f ()).result := rfl

theorem pure_bind (a : α) (f : α → Course β) : (pure a : Course α) >>= f = f a := rfl

end Bind

/-! ## Results -/

/-- Whatever the course gives has the property. -/
def Gives (w : Course α) (P : α → Prop) : Prop := ∀ a, w.result = .ok a → P a

theorem gives_pure {P : α → Prop} {a : α} (h : P a) : Gives (pure a) P := fun _ he => Except.ok.inj he ▸ h

theorem gives_stop {P : α → Prop} (s : Setback) : Gives (stop s : Course α) P := fun _ he => nomatch he

theorem gives_bind {w : Course α} {f : α → Course β} {P : β → Prop} (h : ∀ a, Gives (f a) P) : Gives (w >>= f) P :=
  fun b he => by
  rw [result_bind] at he
  obtain ⟨a, -, hb⟩ := bind_eq_ok.mp he
  exact h a b hb

/-! ## Acts -/

/-- Whatever effect the course has, has the property. -/
def Performs (w : Course α) (P : Effect → Prop) : Prop := ∀ e, .perform e ∈ w.acts → P e

section Performs

variable {P Q : Effect → Prop}

theorem Performs.mono {w : Course α} (h : w.Performs P) (hPQ : ∀ e, P e → Q e) : w.Performs Q := fun e he => hPQ e (h e he)

theorem performs_pure (a : α) : (pure a : Course α).Performs P := fun _ he => nomatch he

theorem performs_stop (s : Setback) : (stop s : Course α).Performs P := fun _ he => nomatch he

theorem performs_say (events : List Event) : (say events).Performs P := fun _ he => by
  obtain ⟨_, -, he⟩ := List.mem_map.mp he
  cases he

theorem performs_perform {e : Effect} (h : P e) : (perform e).Performs P := fun _ he => by
  cases List.mem_singleton.mp he
  exact h

theorem performs_bind {w : Course α} {f : α → Course β} (h : w.Performs P) (hf : ∀ a, (f a).Performs P) :
    (w >>= f).Performs P := by
  intro e he
  cases hw : w.result with
  | ok a =>
    rw [bind_of_ok hw] at he
    exact (List.mem_append.mp he).elim (h e) (hf a e)
  | error s =>
    rw [bind_of_error hw] at he
    exact h e he

end Performs

/-! ## Refusals -/

/-- No effect of the course puts anything out: it makes remarks at most. -/
def Quiet (w : Course α) : Prop := w.Performs fun e => ∃ text, e = .remark text

/-- The course is stopped with a complaint. -/
def Refused (w : Course α) : Prop := ∃ s code, w.result = .error s ∧ s.ending = .exit code

/-- If the course is refused, it has put nothing out. -/
def Withholds (w : Course α) : Prop := w.Refused → w.Quiet

theorem not_refused_of_ok {w : Course α} {a : α} (h : w.result = .ok a) : ¬w.Refused := by
  rintro ⟨s, code, hs, -⟩
  cases h.symm.trans hs

theorem refused_bind {w : Course α} {f : α → Course β} (h : (w >>= f).Refused) :
    w.Refused ∨ ∃ a, w.result = .ok a ∧ (f a).Refused := by
  obtain ⟨s, code, hs, hcode⟩ := h
  rw [result_bind] at hs
  cases hw : w.result with
  | ok a =>
    rw [hw] at hs
    exact Or.inr ⟨a, rfl, s, code, hs, hcode⟩
  | error t =>
    rw [hw] at hs
    cases hs
    exact Or.inl ⟨_, code, hw, hcode⟩

theorem not_refused_bind {w : Course α} {f : α → Course β} (h : ¬w.Refused) (hf : ∀ a, ¬(f a).Refused) : ¬(w >>= f).Refused :=
  fun hr => (refused_bind hr).elim h fun ⟨a, _, ha⟩ => hf a ha

theorem withholds_of_quiet {w : Course α} (h : w.Quiet) : w.Withholds := fun _ => h

theorem withholds_of_not_refused {w : Course α} (h : ¬w.Refused) : w.Withholds := fun hr => absurd hr h

/-- Up to a quiet step nothing has been put out. -/
theorem withholds_bind {w : Course α} {f : α → Course β} (h : w.Quiet) (hf : ∀ a, (f a).Withholds) : (w >>= f).Withholds := by
  intro hr
  rcases refused_bind hr with ⟨s, _, hs, -⟩ | ⟨a, ha, hfa⟩
  · rw [bind_of_error hs]
    exact h
  · rw [bind_of_ok ha]
    intro e he
    exact (List.mem_append.mp he).elim (h e) (hf a hfa e)

end Course

end TypeRecovery.Command
