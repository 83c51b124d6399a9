/-
  TypeRecovery.Proofs.Closure.Rules — the three rules of subtyping, apart from any run.

  `Derives` is the least relation that holds the given subtypings and is closed under
  transitivity, the push of a covariant label, and the reversed push of a store. A label is
  pushed only where both extensions are known. `Graph.Entails` is that relation for the
  subtype edges and the nodes of a graph.

  On the side of the graph, `Below` is a subtype edge or equality, and a graph is `Saturated`
  when its edges are closed under the rules up to equality; `Joined` says the same of some of
  its edges only, which is what holds in the middle of a run.

  Proved:
  - `Derives.mono`: more knowledge and more facts derive no less.
  - `Saturated.below_trans`, `below_push`, `below_store`: in a saturated graph equality may
    take part in a rule.
  - `below_of_derives`: a saturated graph holds what follows from what it holds, so leaving
    out self edges loses nothing.
-/

import TypeRecovery.Proofs.Graph.WellFormed

namespace TypeRecovery

inductive Derives (known : TypeVar → Prop) (given : TypeVar → TypeVar → Prop) : TypeVar → TypeVar → Prop
  | given {v w : TypeVar} : given v w → Derives known given v w
  | trans {u v w : TypeVar} : Derives known given u v → Derives known given v w → Derives known given u w
  | push {v w : TypeVar} {l : Label} : Derives known given v w → l.variance = .covariant →
      known (v.extend l) → known (w.extend l) → Derives known given (v.extend l) (w.extend l)
  | store {v w : TypeVar} : Derives known given v w →
      known (v.extend .store) → known (w.extend .store) → Derives known given (w.extend .store) (v.extend .store)

theorem Derives.mono {known known' : TypeVar → Prop} {given given' : TypeVar → TypeVar → Prop}
    (hk : ∀ v, known v → known' v) (hg : ∀ v w, given v w → Derives known' given' v w) {v w : TypeVar}
    (h : Derives known given v w) : Derives known' given' v w := by
  induction h with
  | given h => exact hg _ _ h
  | trans _ _ ih ih' => exact .trans ih ih'
  | push _ hl hv hw ih => exact .push ih hl (hk _ hv) (hk _ hw)
  | store _ hv hw ih => exact .store ih (hk _ hv) (hk _ hw)

theorem Label.contravariant_iff {l : Label} : l.variance = .contravariant ↔ l = .store := by
  cases l <;> simp [Label.variance]

theorem Label.covariant_or_store (l : Label) : l.variance = .covariant ∨ l = .store := by
  cases l <;> simp [Label.variance]

namespace Graph

/-- A subtype edge from the node of `v` to the node of `w`. -/
def Records (g : Graph) (v w : TypeVar) : Prop :=
  ∃ a b, g.typeVar? a = some v ∧ g.typeVar? b = some w ∧ (a, b) ∈ g.edges

/-- What the subtype edges entail by the three rules. -/
def Entails (g : Graph) : TypeVar → TypeVar → Prop := Derives (fun v => g.contains v = true) g.Records

def Below (g : Graph) (a b : Nat) : Prop := a = b ∨ b ∈ g.supertypes a

/-- The rules hold, up to equality, for the edges in `done`. -/
structure Joined (g : Graph) (done : List (Nat × Nat)) : Prop where
  trans {a b c : Nat} : (a, b) ∈ done → (b, c) ∈ done → g.Below a c
  push {a b x y : Nat} {l : Label} : (a, b) ∈ done → l.variance = .covariant →
    g.child? a l = some x → g.child? b l = some y → g.Below x y
  store {a b x y : Nat} : (a, b) ∈ done → g.child? a .store = some x → g.child? b .store = some y → g.Below y x

def Saturated (g : Graph) : Prop := g.Joined g.edges

namespace Saturated

variable {g : Graph} (hs : g.Saturated)
include hs

theorem below_trans {a b c : Nat} (h : g.Below a b) (h' : g.Below b c) : g.Below a c := by
  rcases h with rfl | h
  · exact h'
  · rcases h' with rfl | h'
    · exact Or.inr h
    · exact hs.trans (mem_edges.mpr h) (mem_edges.mpr h')

theorem below_push {a b x y : Nat} {l : Label} (h : g.Below a b) (hl : l.variance = .covariant)
    (hx : g.child? a l = some x) (hy : g.child? b l = some y) : g.Below x y := by
  rcases h with rfl | h
  · exact Or.inl (Option.some_inj.mp (hx.symm.trans hy))
  · exact hs.push (mem_edges.mpr h) hl hx hy

theorem below_store {a b x y : Nat} (h : g.Below a b) (hx : g.child? a .store = some x)
    (hy : g.child? b .store = some y) : g.Below y x := by
  rcases h with rfl | h
  · exact Or.inl (Option.some_inj.mp (hy.symm.trans hx))
  · exact hs.store (mem_edges.mpr h) hx hy

end Saturated

/-- A saturated graph holds whatever follows from facts it holds about the variables it has. -/
theorem below_of_derives {g : Graph} (hg : g.WellFormed) (hs : g.Saturated) {known : TypeVar → Prop}
    {given : TypeVar → TypeVar → Prop} (hk : ∀ v, known v → g.contains v = true)
    (hgiven : ∀ v w, given v w → ∃ a b, g.typeVar? a = some v ∧ g.typeVar? b = some w ∧ g.Below a b)
    {v w : TypeVar} (h : Derives known given v w) :
    ∃ a b, g.typeVar? a = some v ∧ g.typeVar? b = some w ∧ g.Below a b := by
  induction h with
  | given h => exact hgiven _ _ h
  | trans _ _ ih ih' =>
    obtain ⟨a, b, ha, hb, hab⟩ := ih
    obtain ⟨b', c, hb', hc, hbc⟩ := ih'
    cases hg.typeVar?_inj hb hb'
    exact ⟨a, c, ha, hc, hs.below_trans hab hbc⟩
  | push _ hl hv hw ih =>
    obtain ⟨a, b, ha, hb, hab⟩ := ih
    obtain ⟨x, hx⟩ := hg.contains_iff.mp (hk _ hv)
    obtain ⟨y, hy⟩ := hg.contains_iff.mp (hk _ hw)
    exact ⟨x, y, hx, hy, hs.below_push hab hl ((hg.child?_eq_some_iff ha).mpr hx) ((hg.child?_eq_some_iff hb).mpr hy)⟩
  | store _ hv hw ih =>
    obtain ⟨a, b, ha, hb, hab⟩ := ih
    obtain ⟨x, hx⟩ := hg.contains_iff.mp (hk _ hv)
    obtain ⟨y, hy⟩ := hg.contains_iff.mp (hk _ hw)
    exact ⟨y, x, hy, hx, hs.below_store hab ((hg.child?_eq_some_iff ha).mpr hx) ((hg.child?_eq_some_iff hb).mpr hy)⟩

theorem isSubtype_iff {g : Graph} (hg : g.WellFormed) {v w : TypeVar} {a b : Nat} (ha : g.typeVar? a = some v)
    (hb : g.typeVar? b = some w) : g.isSubtype v w = true ↔ g.Below a b := by
  have hvw : v = w ↔ a = b := by
    constructor
    · rintro rfl; exact hg.typeVar?_inj ha hb
    · rintro rfl; exact Option.some_inj.mp (ha.symm.trans hb)
  simp only [isSubtype, hg.find?_eq_some_iff.mpr ha, hg.find?_eq_some_iff.mpr hb, Bool.or_eq_true,
    decide_eq_true_eq, hasEdge_iff, Below, hvw]

/-! ## Entailment at nodes -/

def EntailsAt (g : Graph) (a b : Nat) : Prop :=
  ∃ v w, g.typeVar? a = some v ∧ g.typeVar? b = some w ∧ g.Entails v w

theorem contains_of_typeVar? {g : Graph} (hg : g.WellFormed) {i : Nat} {v : TypeVar} (h : g.typeVar? i = some v) :
    g.contains v = true :=
  hg.contains_iff.mpr ⟨i, h⟩

theorem entailsAt_of_edge {g : Graph} (hg : g.WellFormed) {a b : Nat} (h : (a, b) ∈ g.edges) : g.EntailsAt a b := by
  obtain ⟨ha, hb⟩ := hg.edge_lt h
  obtain ⟨v, hv⟩ := exists_typeVar? ha
  obtain ⟨w, hw⟩ := exists_typeVar? hb
  exact ⟨v, w, hv, hw, .given ⟨a, b, hv, hw, h⟩⟩

namespace EntailsAt

variable {g : Graph}

theorem lt_size {a b : Nat} (h : g.EntailsAt a b) : a < g.size ∧ b < g.size := by
  obtain ⟨_, _, ha, hb, _⟩ := h
  exact ⟨Graph.lt_size ha, Graph.lt_size hb⟩

theorem trans {a b c : Nat} (h : g.EntailsAt a b) (h' : g.EntailsAt b c) : g.EntailsAt a c := by
  obtain ⟨u, v, ha, hb, huv⟩ := h
  obtain ⟨v', w, hb', hc, hvw⟩ := h'
  rw [hb, Option.some_inj] at hb'
  subst hb'
  exact ⟨u, w, ha, hc, .trans huv hvw⟩

theorem push (hg : g.WellFormed) {a b x y : Nat} {l : Label} (h : g.EntailsAt a b) (hl : l.variance = .covariant)
    (hx : g.child? a l = some x) (hy : g.child? b l = some y) : g.EntailsAt x y := by
  obtain ⟨v, w, ha, hb, hvw⟩ := h
  rw [hg.child?_eq_some_iff ha] at hx
  rw [hg.child?_eq_some_iff hb] at hy
  exact ⟨_, _, hx, hy, .push hvw hl (contains_of_typeVar? hg hx) (contains_of_typeVar? hg hy)⟩

theorem store (hg : g.WellFormed) {a b x y : Nat} (h : g.EntailsAt a b) (hx : g.child? a .store = some x)
    (hy : g.child? b .store = some y) : g.EntailsAt y x := by
  obtain ⟨v, w, ha, hb, hvw⟩ := h
  rw [hg.child?_eq_some_iff ha] at hx
  rw [hg.child?_eq_some_iff hb] at hy
  exact ⟨_, _, hy, hx, .store hvw (contains_of_typeVar? hg hx) (contains_of_typeVar? hg hy)⟩

end EntailsAt

end Graph

end TypeRecovery
