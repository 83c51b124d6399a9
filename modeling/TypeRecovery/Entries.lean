/-
  TypeRecovery.Entries — values by key, in the order in which the keys came.
-/

namespace TypeRecovery

abbrev Entries (κ α : Type) := List (κ × α)

namespace Entries

variable {κ α : Type} [DecidableEq κ]

def lookup? (es : Entries κ α) (k : κ) : Option α := (es.find? fun e => e.1 = k).map (·.2)

def has (es : Entries κ α) (k : κ) : Bool := es.any fun e => e.1 = k

/-- Sets the value of a key: a new key goes to the end, a present one keeps its place. -/
def set (es : Entries κ α) (k : κ) (a : α) : Entries κ α :=
  if has es k then es.map fun e => if e.1 = k then (k, a) else e else es ++ [(k, a)]

/-- Sets several keys in turn. -/
def setAll (es more : Entries κ α) : Entries κ α := more.foldl (fun es e => set es e.1 e.2) es

/-- Changes the value of a key, which starts from `first` if it has none. -/
def update (es : Entries κ α) (k : κ) (first : α) (f : α → α) : Entries κ α :=
  set es k (f ((lookup? es k).getD first))

end Entries

end TypeRecovery
