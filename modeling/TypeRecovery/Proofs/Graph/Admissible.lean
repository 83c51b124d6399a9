/-
  TypeRecovery.Proofs.Graph.Admissible — which constraints go into a graph, and what of them.

  A constraint is judged by its two sides as they are written. Every field on their paths must
  be one that can exist under the settings, those past the length at which a path is cut
  included, and where paths are not cut none may be too long. What goes in are the sides after
  the cut; two different sides may be cut to the same variable, which is not its own subtype
  by an edge. A constraint with a bad side leaves nothing behind, not even its good side.

  Proved, under a whole limit on the length of paths:
  - `allows_iff`, `defect?_eq_none_iff`: which fields the settings allow, and that these have no
    defect.
  - `sides_of_admitsBoth`, `sides_of_not_admitsBoth`: what a constraint is admitted as.
  - `add_of_not_admitsBoth`, `bind_of_not_admitsBoth`: a rejected constraint leaves the graph
    as it was.
  - `build_exact`: the nodes, edges, bindings and rejected constraints of a whole intake.
-/

import Mathlib.Data.Rat.Floor
import TypeRecovery.Proofs.Amount
import TypeRecovery.Proofs.Graph.Arena

namespace TypeRecovery

/-! ## Fields -/

theorem Field.byteSize_eq_ceil (f : Field) : f.byteSize = ⌈(f.bits : ℚ) / 8⌉ := by
  have hceil : ⌈(f.bits : ℚ) / 8⌉ = -(-f.bits / 8) := by exact_mod_cast Rat.ceil_intCast_div_natCast f.bits 8
  rw [hceil, byteSize]
  omega

/-- An access that can exist: it has bits, does not start before the base and stays within
the limits. -/
structure Settings.Allows (s : Settings) (f : Field) : Prop where
  bits_pos : 0 < f.bits
  bits_le : s.maxFieldBits.Covers f.bits
  offset_nonneg : 0 ≤ f.offset
  end_le : s.maxFieldExtent.Covers (f.offset + ⌈(f.bits : ℚ) / 8⌉)

/-- With integer limits, the limits are what the numbers are compared with. -/
theorem Settings.allows_iff {s : Settings} {m n : Int} (hm : s.maxFieldBits.integer? = some m)
    (hn : s.maxFieldExtent.integer? = some n) (f : Field) :
    s.Allows f ↔ 0 < f.bits ∧ f.bits ≤ m ∧ 0 ≤ f.offset ∧ f.offset + ⌈(f.bits : ℚ) / 8⌉ ≤ n := by
  rw [← Amount.covers_of_integer? hm, ← Amount.covers_of_integer? hn]
  exact ⟨fun h => ⟨h.bits_pos, h.bits_le, h.offset_nonneg, h.end_le⟩, fun ⟨hp, hb, ho, he⟩ => ⟨hp, hb, ho, he⟩⟩

theorem Field.defect?_eq_none_iff {s : Settings} {f : Field} : f.defect? s = none ↔ s.Allows f := by
  have hend : f.endOffset = f.offset + ⌈(f.bits : ℚ) / 8⌉ := congrArg (f.offset + ·) f.byteSize_eq_ceil
  rw [defect?, hend]
  constructor
  · intro h
    split_ifs at h with hbits hoffset hwide hpast
    rw [Bool.not_eq_true] at hwide hpast
    exact ⟨Int.not_le.mp hbits, Amount.less_whole_eq_false.mp hwide, Int.not_lt.mp hoffset,
      Amount.less_whole_eq_false.mp hpast⟩
  · intro h
    rw [if_neg (Int.not_le.mpr h.bits_pos), if_neg (Int.not_lt.mpr h.offset_nonneg),
      if_neg (by rw [Amount.less_whole_eq_false.mpr h.bits_le]; exact Bool.false_ne_true),
      if_neg (by rw [Amount.less_whole_eq_false.mpr h.end_le]; exact Bool.false_ne_true)]

/-! ## Variables and constraints -/

theorem TypeVar.cut_ofNat (v : TypeVar) (n : Nat) : v.cut n = v.take n := by
  rw [cut, if_neg (by omega), Int.toNat_natCast]

theorem PathPolicy.isReject_eq_false {p : PathPolicy} : p.isReject = false ↔ p ≠ .reject := by
  cases p <;> simp [isReject]

namespace Settings

/-- A variable that may go into a graph, by its whole path. -/
structure Admissible (s : Settings) (limit : Nat) (v : TypeVar) : Prop where
  allowed {f : Field} : .field f ∈ v.path → s.Allows f
  short : v.path.length ≤ limit ∨ s.pathPolicy ≠ .reject

variable {s : Settings} {limit : Nat}

theorem fieldDefect?_eq_none_iff {path : List Label} :
    s.fieldDefect? path = none ↔ ∀ f, .field f ∈ path → s.Allows f := by
  rw [fieldDefect?, List.findSome?_eq_none_iff]
  constructor
  · intro h f hf
    exact Field.defect?_eq_none_iff.mp (by simpa using h _ hf)
  · intro h l hl
    cases l with
    | field f => simpa using Field.defect?_eq_none_iff.mpr (h f hl)
    | load | store | input | output => rfl

theorem admissible_iff {v : TypeVar} : s.Admissible limit v ↔
    s.fieldDefect? v.path = none ∧ (v.path.length ≤ limit ∨ s.pathPolicy.isReject = false) := by
  rw [fieldDefect?_eq_none_iff, PathPolicy.isReject_eq_false]
  exact ⟨fun h => ⟨fun _ => h.allowed, h.short⟩, fun h => ⟨h.1 _, h.2⟩⟩

instance (v : TypeVar) : Decidable (s.Admissible limit v) := decidable_of_iff _ admissible_iff.symm

/-- A constraint with both its sides admissible. -/
def AdmitsBoth (s : Settings) (limit : Nat) (c : Subtyping) : Prop :=
  s.Admissible limit c.sub ∧ s.Admissible limit c.sup

instance (c : Subtyping) : Decidable (s.AdmitsBoth limit c) := inferInstanceAs (Decidable (_ ∧ _))

section Limit

variable (hl : s.maxPathLength.integer? = some (limit : Int))
include hl

theorem admitted_of_admissible {v : TypeVar} (h : s.Admissible limit v) : s.admitted v = .ok (v.take limit) := by
  obtain ⟨hfields, hshort⟩ := admissible_iff.mp h
  rw [admitted, admission, hfields]
  simp only [Amount.whole_atMost_of_integer? hl, Int.ofNat_le, decide_eq_true_eq]
  by_cases hle : v.path.length ≤ limit
  · rw [if_pos hle, TypeVar.take, List.take_of_length_le hle]
  · rw [if_neg hle, hshort.resolve_left hle, hl]
    exact congrArg Except.ok (v.cut_ofNat limit)

theorem refused_of_not_admissible {v : TypeVar} (h : ¬s.Admissible limit v) : ∃ why, s.admitted v = .error (.refused why) := by
  rw [admissible_iff] at h
  rw [admitted, admission]
  cases hfields : s.fieldDefect? v.path with
  | some d => exact ⟨_, rfl⟩
  | none =>
    push Not at h
    obtain ⟨hlong, hreject⟩ := h hfields
    simp only [Amount.whole_atMost_of_integer? hl, Int.ofNat_le, decide_eq_true_eq]
    rw [if_neg (Nat.not_le.mpr hlong), if_pos (Bool.of_not_eq_false hreject)]
    exact ⟨_, rfl⟩

theorem sides_of_admitsBoth {c : Subtyping} (h : s.AdmitsBoth limit c) :
    s.sides c = .ok (c.sub.take limit, c.sup.take limit) := by
  rw [sides, admitted_of_admissible hl h.1, admitted_of_admissible hl h.2]
  rfl

theorem sides_of_not_admitsBoth {c : Subtyping} (h : ¬s.AdmitsBoth limit c) : ∃ why, s.sides c = .error (.refused why) := by
  rw [sides]
  by_cases hsub : s.Admissible limit c.sub
  · obtain ⟨why, hsup⟩ := refused_of_not_admissible hl fun hsup => h ⟨hsub, hsup⟩
    rw [admitted_of_admissible hl hsub, hsup]
    exact ⟨why, rfl⟩
  · obtain ⟨why, hsub⟩ := refused_of_not_admissible hl hsub
    rw [hsub]
    exact ⟨why, rfl⟩

theorem sides_eq_ok_iff {c : Subtyping} {v w : TypeVar} :
    s.sides c = .ok (v, w) ↔ s.AdmitsBoth limit c ∧ c.sub.take limit = v ∧ c.sup.take limit = w := by
  by_cases h : s.AdmitsBoth limit c
  · simp [sides_of_admitsBoth hl h, h]
  · obtain ⟨why, hwhy⟩ := sides_of_not_admitsBoth hl h
    simp [hwhy, h]

theorem isRefused_eq (c : Subtyping) : s.isRefused c = decide (¬s.AdmitsBoth limit c) := by
  rw [isRefused]
  by_cases h : s.AdmitsBoth limit c
  · simp [sides_of_admitsBoth hl h, h]
  · obtain ⟨why, hwhy⟩ := sides_of_not_admitsBoth hl h
    simp [hwhy, h]

end Limit

end Settings

namespace Graph

theorem mem_edges_iff_records {g : Graph} (hg : g.WellFormed) {i j : Nat} :
    (i, j) ∈ g.edges ↔ ∃ v w, g.Records v w ∧ g.find? v = some i ∧ g.find? w = some j := by
  simp only [hg.find?_eq_some_iff]
  constructor
  · intro h
    obtain ⟨hi, hj⟩ := hg.edge_lt h
    obtain ⟨v, hv⟩ := exists_typeVar? hi
    obtain ⟨w, hw⟩ := exists_typeVar? hj
    exact ⟨v, w, ⟨i, j, hv, hw, h⟩, hv, hw⟩
  · rintro ⟨v, w, ⟨a, b, ha, hb, hab⟩, hi, hj⟩
    rwa [hg.typeVar?_inj hi ha, hg.typeVar?_inj hj hb]

/-- The nodes that targets are bound to, found again by their variables. -/
theorem bindings_eq_boundVars {g : Graph} (hg : g.WellFormed) :
    g.bindings.map (fun e => (e.1, some e.2)) = g.boundVars.map fun e => (e.1, e.2.bind g.find?) := by
  rw [boundVars, List.map_map]
  refine List.map_congr_left fun e he => ?_
  obtain ⟨v, hv⟩ := exists_typeVar? (hg.bindings_lt e he)
  simp [hv, hg.find?_eq_some_iff.mpr hv]

end Graph

namespace Intake

variable {s : Settings} {limit : Nat}

/-! ## Rejected constraints -/

/-- `k'` has rejected `c` and is otherwise as `k` was. -/
structure Rejects (k : Intake) (c : Subtyping) (k' : Intake) : Prop where
  graph : k'.graph = k.graph
  rejected : k'.rejected = k.rejected ++ [c]

section Limit

variable (hl : s.maxPathLength.integer? = some (limit : Int))
include hl

theorem admitBoth_of_not_admitsBoth {c : Subtyping} (h : ¬s.AdmitsBoth limit c) (k : Intake) :
    ∃ k1 why, k.admitBoth s c = (k1, .error (.refused why)) ∧ k1.graph = k.graph ∧ k1.rejected = k.rejected := by
  obtain ⟨why, hwhy⟩ := Settings.sides_of_not_admitsBoth hl h
  obtain ⟨hsides, hrejected⟩ := admitBoth_eq s k c
  exact ⟨_, why, Prod.ext rfl (hsides.trans hwhy), graph_admitBoth s k c, hrejected⟩

theorem add_of_not_admitsBoth {c : Subtyping} (h : ¬s.AdmitsBoth limit c) (k : Intake) :
    ∃ k', k.add s c = .ok (k', none) ∧ k.Rejects c k' := by
  obtain ⟨k1, why, hk, hgraph, hrejected⟩ := admitBoth_of_not_admitsBoth hl h k
  rw [add, hk]
  exact ⟨_, rfl, hgraph, congrArg (· ++ [c]) hrejected⟩

theorem bind_of_not_admitsBoth {b : Binding} (h : ¬s.AdmitsBoth limit b.fact) (k : Intake) :
    ∃ k', k.bind s b = .ok k' ∧ k.Rejects b.fact k' := by
  obtain ⟨k1, why, hk, hgraph, hrejected⟩ := admitBoth_of_not_admitsBoth hl h k
  rw [bind, hk]
  exact ⟨_, rfl, hgraph, congrArg (· ++ [b.fact]) hrejected⟩

end Limit

/-! ## Whole constraint sets -/

/-- `k` holds the admissible part of `c`, cut to `limit` labels, and has rejected the rest. -/
structure Exact (s : Settings) (limit : Nat) (c : ConstraintSet) (k : Intake) : Prop where
  nodes {u : TypeVar} : u ∈ k.graph.typeVars ↔
    ∃ f ∈ c.facts, s.AdmitsBoth limit f ∧ (u.Begins (f.sub.take limit) ∨ u.Begins (f.sup.take limit))
  edges {i j : Nat} : (i, j) ∈ k.graph.edges ↔
    ∃ f ∈ c.facts, s.AdmitsBoth limit f ∧ f.sub.take limit ≠ f.sup.take limit ∧
      k.graph.find? (f.sub.take limit) = some i ∧ k.graph.find? (f.sup.take limit) = some j
  bindings : k.graph.bindings.map (fun e => (e.1, some e.2)) =
    (c.bindings.filter fun b => s.AdmitsBoth limit b.fact).map
      fun b => (b.target, k.graph.find? (b.fact.sub.take limit))
  rejected : k.rejected = c.facts.filter fun f => ¬s.AdmitsBoth limit f

theorem boundBy_eq (hl : s.maxPathLength.integer? = some (limit : Int)) (b : Binding) :
    boundBy s b = if s.AdmitsBoth limit b.fact then some (b.target, some (b.fact.sub.take limit)) else none := by
  rw [boundBy]
  by_cases h : s.AdmitsBoth limit b.fact
  · rw [Settings.sides_of_admitsBoth hl h, if_pos h]
  · obtain ⟨why, hwhy⟩ := Settings.sides_of_not_admitsBoth hl h
    rw [hwhy, if_neg h]

theorem exact_of_took (hl : s.maxPathLength.integer? = some (limit : Int)) {c : ConstraintSet} {k : Intake}
    (h : Took s c.facts c.bindings k) : Exact s limit c k := by
  refine ⟨fun {u} => ?_, fun {i j} => ?_, ?_, ?_⟩
  · rw [Graph.mem_typeVars, ← h.wf.contains_iff, h.contains_iff]
    simp only [Settings.sides_eq_ok_iff hl]
    constructor
    · rintro ⟨f, hf, v, w, ⟨hadm, rfl, rfl⟩, hu⟩
      exact ⟨f, hf, hadm, hu⟩
    · rintro ⟨f, hf, hadm, hu⟩
      exact ⟨f, hf, _, _, ⟨hadm, rfl, rfl⟩, hu⟩
  · rw [Graph.mem_edges_iff_records h.wf]
    simp only [h.records_iff, Settings.sides_eq_ok_iff hl]
    constructor
    · rintro ⟨v, w, ⟨hne, f, hf, hadm, rfl, rfl⟩, hi, hj⟩
      exact ⟨f, hf, hadm, hne, hi, hj⟩
    · rintro ⟨f, hf, hadm, hne, hi, hj⟩
      exact ⟨_, _, ⟨hne, f, hf, hadm, rfl, rfl⟩, hi, hj⟩
  · rw [Graph.bindings_eq_boundVars h.wf, h.boundVars, funext (boundBy_eq hl), ← List.filterMap_eq_map, ← List.filterMap_eq_map,
      List.filterMap_filterMap, List.filterMap_filter]
    refine List.filterMap_congr fun b _ => ?_
    by_cases hadm : s.AdmitsBoth limit b.fact <;> simp [hadm]
  · rw [h.rejected]
    exact List.filter_congr fun f _ => Settings.isRefused_eq hl f

/-- Taking in a constraint set always succeeds and holds exactly its admissible part; a
constraint that is rejected, at whatever moment, leaves the graph as it was. -/
theorem build_exact (hl : s.maxPathLength.integer? = some (limit : Int)) (c : ConstraintSet) :
    (∃ k, build s c = .ok k ∧ Exact s limit c k) ∧
      (∀ (k : Intake) f, ¬s.AdmitsBoth limit f → ∃ k', k.add s f = .ok (k', none) ∧ k.Rejects f k') ∧
      ∀ (k : Intake) b, ¬s.AdmitsBoth limit b.fact → ∃ k', k.bind s b = .ok k' ∧ k.Rejects b.fact k' := by
  refine ⟨?_, fun k f h => add_of_not_admitsBoth hl h k, fun k b h => bind_of_not_admitsBoth hl h k⟩
  cases hb : build s c with
  | ok k => exact ⟨k, rfl, exact_of_took hl (took_build hb)⟩
  | error k =>
    obtain ⟨f, -, hf⟩ := (build_fails_iff s c).mp ⟨k, hb⟩
    by_cases h : s.AdmitsBoth limit f
    · rw [Settings.sides_of_admitsBoth hl h] at hf
      cases hf
    · obtain ⟨why, hwhy⟩ := Settings.sides_of_not_admitsBoth hl h
      rw [hwhy] at hf
      cases hf

/-- Two sides that are cut to the same variable, a field without bits past the cut, and a
target whose field is too wide. -/
def mixedFacts : ConstraintSet where
  subtypings := [⟨⟨"p", [.load, .store, .load]⟩, ⟨"p", [.load, .store]⟩⟩,
    ⟨⟨"p", [.load, .load]⟩, ⟨"q", [.store, .load, .field ⟨0, 0⟩]⟩⟩, ⟨⟨"q", []⟩, ⟨"p", [.load]⟩⟩]
  bindings := [⟨.number 1, ⟨⟨"q", [.field ⟨513, 0⟩]⟩, ⟨"r", []⟩⟩⟩, ⟨.name "f", ⟨⟨"q", []⟩, ⟨"q", [.output 0]⟩⟩⟩]

def cutAtTwo : Settings := { Settings.standard with maxPathLength := .whole 2 }

theorem mixedFacts_exact :
    ∃ k, build cutAtTwo mixedFacts = .ok k ∧ cutAtTwo.maxPathLength.integer? = some ((2 : Nat) : Int) ∧
      Exact cutAtTwo 2 mixedFacts k ∧ ¬cutAtTwo.Allows ⟨0, 0⟩ ∧ ¬cutAtTwo.Allows ⟨513, 0⟩ ∧
      k.graph.typeVars = [⟨"p", []⟩, ⟨"p", [.load]⟩, ⟨"p", [.load, .store]⟩, ⟨"q", []⟩, ⟨"q", [.output 0]⟩] ∧
      k.graph.edges = [(3, 1), (3, 4)] ∧ k.graph.bindings = [(.name "f", 3)] ∧
      k.rejected = [⟨⟨"p", [.load, .load]⟩, ⟨"q", [.store, .load, .field ⟨0, 0⟩]⟩⟩, ⟨⟨"q", [.field ⟨513, 0⟩]⟩, ⟨"r", []⟩⟩] := by
  have hl : cutAtTwo.maxPathLength.integer? = some ((2 : Nat) : Int) := rfl
  have hallows := Settings.allows_iff (s := cutAtTwo) (m := 512) (n := 0x1000000) rfl rfl
  have hempty : ¬cutAtTwo.Allows ⟨0, 0⟩ := fun h => absurd ((hallows _).mp h).1 (by decide)
  have hwide : ¬cutAtTwo.Allows ⟨513, 0⟩ := fun h => absurd ((hallows _).mp h).2.1 (by decide)
  obtain ⟨k, hk, hexact⟩ := (build_exact hl mixedFacts).1
  refine ⟨k, hk, hl, hexact, hempty, hwide, ?_⟩
  cases hk
  exact ⟨by decide, by decide, rfl, rfl⟩

end Intake

end TypeRecovery
