/-
  TypeRecovery.Queue — things that wait their turn.

  A queue is taken from at the front and added to at the back. Its back is kept in reverse,
  so that neither end is far away; `toList` shows the order in which the items leave.

  Proved: adding puts an item last (`toList_push`), taking gives the first (`toList_of_pop?`),
  and nothing can be taken exactly from an empty queue (`pop?_eq_none_iff`).
-/

namespace TypeRecovery

structure Queue (α : Type) where
  front : List α
  /-- The newest first. -/
  back : List α
  deriving DecidableEq, Repr

namespace Queue

variable {α : Type}

def ofList (xs : List α) : Queue α := ⟨xs, []⟩

def toList (q : Queue α) : List α := q.front ++ q.back.reverse

def length (q : Queue α) : Nat := q.front.length + q.back.length

def push (q : Queue α) (a : α) : Queue α := { q with back := a :: q.back }

def pop? (q : Queue α) : Option (α × Queue α) :=
  match q.front with
  | a :: rest => some (a, { q with front := rest })
  | [] =>
    match q.back.reverse with
    | [] => none
    | a :: rest => some (a, ⟨rest, []⟩)

@[simp] theorem toList_ofList (xs : List α) : (ofList xs).toList = xs := by
  simp [ofList, toList]

@[simp] theorem toList_push (q : Queue α) (a : α) : (q.push a).toList = q.toList ++ [a] := by
  simp [push, toList]

@[simp] theorem length_toList (q : Queue α) : q.toList.length = q.length := by
  simp [toList, length]

theorem toList_of_pop? {q r : Queue α} {a : α} (h : q.pop? = some (a, r)) :
    q.toList = a :: r.toList := by
  unfold pop? at h
  split at h
  · rename_i b rest hf
    obtain ⟨rfl, rfl⟩ := Prod.mk.inj (Option.some.inj h)
    simp [toList, hf]
  · rename_i hf
    split at h
    · cases h
    · rename_i b rest hb
      obtain ⟨rfl, rfl⟩ := Prod.mk.inj (Option.some.inj h)
      simp [toList, hf, hb]

theorem pop?_eq_none_iff {q : Queue α} : q.pop? = none ↔ q.toList = [] := by
  constructor
  · intro h
    unfold pop? at h
    split at h
    · cases h
    · rename_i hf
      split at h
      · rename_i hb
        simp [toList, hf, hb]
      · cases h
  · intro h
    cases hq : q.pop? with
    | none => rfl
    | some p => rw [toList_of_pop? (q := q) (a := p.1) (r := p.2) hq] at h; cases h

end Queue

end TypeRecovery
