/-
  TypeRecovery.Proofs.Graph.Admission — what a graph holds of the constraints taken in.

  What becomes of a constraint depends on its two sides and the settings alone: it is admitted
  as a pair of variables (`sides`), refused, or it ends the intake because a path cannot be cut.
  `Took` says what an intake holds when it has gone through some subtypings and bindings: the
  variables that begin an admitted side, the admitted pairs as subtype edges, a node for each
  admitted binding, and what was refused.

  Proved:
  - `contains_intern`: to make a node for a variable adds that variable and its beginnings.
  - `took_add`, `took_bind`: each constraint taken in keeps `Took`.
  - `took_build`: a constraint set that was taken in left exactly its admitted part.
  - `build_fails_iff`: a constraint set is not taken in when it has a path that cannot be cut.
  - `bits_pos`: every field of a variable in the graph has a positive number of bits.
-/

import TypeRecovery.Proofs.Graph.Reach

namespace TypeRecovery

/-- `u` is a shortening of `v`, or `v` itself. -/
def TypeVar.Begins (u v : TypeVar) : Prop := u.base = v.base ∧ u.path <+: v.path

/-! ## New nodes and subtypings, by variable -/

namespace Graph

variable {g g' : Graph}

theorem contains_plant (hg : g.WellFormed) {b : String} (hb : g.root? b = none) {u : TypeVar} :
    (g.plant b).contains u = true ↔ g.contains u = true ∨ u = .root b := by
  rw [(plant_wellFormed hg hb).contains_iff, hg.contains_iff]
  constructor
  · rintro ⟨i, hi⟩
    rw [typeVar?_plant] at hi
    split at hi
    · exact Or.inr (Option.some_inj.mp hi).symm
    · exact Or.inl ⟨i, hi⟩
  · rintro (⟨i, hi⟩ | rfl)
    · exact ⟨i, (grows_plant g b).typeVar? hi⟩
    · exact ⟨g.size, by simp [typeVar?_plant]⟩

theorem contains_graft (hg : g.WellFormed) {i : Nat} {v : TypeVar} (hv : g.typeVar? i = some v) {l : Label}
    (hl : g.child? i l = none) {u : TypeVar} :
    (g.graft i (v.extend l) l).contains u = true ↔ g.contains u = true ∨ u = v.extend l := by
  rw [(graft_wellFormed hg hv hl).contains_iff, hg.contains_iff]
  constructor
  · rintro ⟨k, hk⟩
    rw [typeVar?_graft] at hk
    split at hk
    · exact Or.inr (Option.some_inj.mp hk).symm
    · exact Or.inl ⟨k, hk⟩
  · rintro (⟨k, hk⟩ | rfl)
    · exact ⟨k, (grows_graft g i _ l).typeVar? hk⟩
    · exact ⟨g.size, by simp [typeVar?_graft]⟩

theorem contains_internRoot (hg : g.WellFormed) (b : String) {u : TypeVar} :
    (g.internRoot b).1.contains u = true ↔ g.contains u = true ∨ u = .root b := by
  rw [internRoot_eq]
  cases h : g.root? b with
  | none => exact contains_plant hg h
  | some i =>
    have hroot : g.contains (.root b) = true := hg.contains_iff.mpr ⟨i, hg.root_iff.mp h⟩
    exact ⟨Or.inl, fun hu => hu.elim id fun e => e ▸ hroot⟩

theorem contains_internChild (hg : g.WellFormed) {i : Nat} {v : TypeVar} (hv : g.typeVar? i = some v) (l : Label)
    {u : TypeVar} : (g.internChild i (v.extend l) l).1.contains u = true ↔ g.contains u = true ∨ u = v.extend l := by
  rw [internChild_eq]
  cases h : g.child? i l with
  | none => exact contains_graft hg hv h
  | some j =>
    have hchild : g.contains (v.extend l) = true := hg.contains_iff.mpr ⟨j, (hg.child?_eq_some_iff hv).mp h⟩
    exact ⟨Or.inl, fun hu => hu.elim id fun e => e ▸ hchild⟩

/-- The induction follows the path; a beginning of `l :: p` is empty or goes on from `l`. -/
theorem contains_internPath (hg : g.WellFormed) {i : Nat} {v : TypeVar} (hv : g.typeVar? i = some v) (p : List Label)
    {u : TypeVar} : (g.internPath i v p).1.contains u = true ↔ g.contains u = true ∨ ∃ q, q <+: p ∧ u = v.along q := by
  induction p generalizing g i v with
  | nil =>
    have hmem : g.contains v = true := hg.contains_iff.mpr ⟨i, hv⟩
    simp only [internPath, List.prefix_nil]
    refine ⟨Or.inl, fun hu => hu.elim id ?_⟩
    rintro ⟨q, rfl, rfl⟩
    simpa using hmem
  | cons l p ih =>
    obtain ⟨hg', -, hv'⟩ := internChild_spec hg hv l
    refine (ih hg' hv').trans ?_
    rw [contains_internChild hg hv]
    constructor
    · rintro ((hu | rfl) | ⟨q, hq, rfl⟩)
      · exact Or.inl hu
      · exact Or.inr ⟨[l], by simp, by simp [TypeVar.along, TypeVar.extend]⟩
      · exact Or.inr ⟨l :: q, List.cons_prefix_cons.mpr ⟨rfl, hq⟩, (TypeVar.along_cons v l q).symm⟩
    · rintro (hu | ⟨q, hq, rfl⟩)
      · exact Or.inl (Or.inl hu)
      · rcases List.prefix_cons_iff.mp hq with rfl | ⟨q, rfl, hq'⟩
        · exact Or.inl (Or.inl (hg.contains_iff.mpr ⟨i, by simpa using hv⟩))
        · exact Or.inr ⟨q, hq', TypeVar.along_cons v l q⟩

/-- A new node comes with nodes for the beginnings of its variable, and no others. -/
theorem contains_intern (hg : g.WellFormed) (v : TypeVar) {u : TypeVar} :
    (g.intern v).1.contains u = true ↔ g.contains u = true ∨ u.Begins v := by
  obtain ⟨hg', -, hr⟩ := internRoot_spec hg v.base
  refine (contains_internPath hg' hr v.path).trans ?_
  rw [contains_internRoot hg]
  constructor
  · rintro ((hu | rfl) | ⟨q, hq, rfl⟩)
    · exact Or.inl hu
    · exact Or.inr ⟨rfl, List.nil_prefix⟩
    · exact Or.inr ⟨rfl, by simpa [TypeVar.along, TypeVar.root] using hq⟩
  · rintro (hu | ⟨hb, hp⟩)
    · exact Or.inl (Or.inl hu)
    · refine Or.inr ⟨u.path, hp, ?_⟩
      cases u
      simp_all [TypeVar.along, TypeVar.root]

theorem contains_of_bare (h : g'.bare = g.bare) (hg : g.WellFormed) (hg' : g'.WellFormed) (u : TypeVar) :
    g'.contains u = true ↔ g.contains u = true := by
  simp only [hg'.contains_iff, hg.contains_iff, typeVar?_of_bare h]

theorem Grows.records_iff (h : g.Grows g') (hg : g.WellFormed) {v w : TypeVar} : g'.Records v w ↔ g.Records v w := by
  constructor
  · rintro ⟨a, b, ha, hb, hab⟩
    rw [mem_edges, h.supertypes, ← mem_edges] at hab
    obtain ⟨x, hx⟩ := exists_typeVar? (hg.edge_lt hab).1
    obtain ⟨y, hy⟩ := exists_typeVar? (hg.edge_lt hab).2
    cases (h.typeVar? hx).symm.trans ha
    cases (h.typeVar? hy).symm.trans hb
    exact ⟨a, b, hx, hy, hab⟩
  · rintro ⟨a, b, ha, hb, hab⟩
    refine ⟨a, b, h.typeVar? ha, h.typeVar? hb, ?_⟩
    rwa [mem_edges, h.supertypes, ← mem_edges]

theorem records_relate (hg : g.WellFormed) {a b : Nat} {v w : TypeVar} (ha : g.typeVar? a = some v)
    (hb : g.typeVar? b = some w) {x y : TypeVar} :
    (g.relate a b).1.Records x y ↔ g.Records x y ∨ (v ≠ w ∧ x = v ∧ y = w) := by
  have hbare := bare_relate g a b
  simp only [Records, typeVar?_of_bare hbare, mem_edges_relate (lt_size ha)]
  constructor
  · rintro ⟨i, j, hi, hj, hij | ⟨hne, rfl, rfl⟩⟩
    · exact Or.inl ⟨i, j, hi, hj, hij⟩
    · rw [ha, Option.some_inj] at hi
      rw [hb, Option.some_inj] at hj
      refine Or.inr ⟨?_, hi.symm, hj.symm⟩
      rintro rfl
      exact hne (hg.typeVar?_inj ha hb)
  · rintro (⟨i, j, hi, hj, hij⟩ | ⟨hne, rfl, rfl⟩)
    · exact ⟨i, j, hi, hj, Or.inl hij⟩
    · refine ⟨a, b, ha, hb, Or.inr ⟨?_, rfl, rfl⟩⟩
      rintro rfl
      exact hne (Option.some_inj.mp (ha.symm.trans hb))

/-- The bindings, each target with the variable it is bound to. -/
def boundVars (g : Graph) : List (Target × Option TypeVar) := g.bindings.map fun e => (e.1, g.typeVar? e.2)

theorem Grows.boundVars (h : g.Grows g') (hg : g.WellFormed) : g'.boundVars = g.boundVars := by
  rw [Graph.boundVars, h.bindings]
  refine List.map_congr_left fun e he => ?_
  obtain ⟨v, hv⟩ := exists_typeVar? (hg.bindings_lt e he)
  rw [hv, h.typeVar? hv]

theorem boundVars_of_bare (h : g'.bare = g.bare) : g'.boundVars = g.boundVars := by
  simp only [Graph.boundVars, bindings_of_bare h, typeVar?_of_bare h]

theorem boundVars_bindTarget (t : Target) (i : Nat) :
    (g.bindTarget t i).boundVars = g.boundVars ++ [(t, g.typeVar? i)] :=
  List.map_append

end Graph

/-! ## What is admitted -/

namespace Settings

/-- What a variable is admitted as. -/
def admitted (s : Settings) (v : TypeVar) : Except Stop TypeVar :=
  match s.admission v with
  | .whole => .ok v
  | .cutTo n => .ok (v.cut n)
  | .refused why => .error (.refused why)
  | .uncuttable => .error .uncuttable

/-- The pair of variables that a constraint is admitted as, the left side first. -/
def sides (s : Settings) (c : Subtyping) : Except Stop (TypeVar × TypeVar) := do
  let v ← s.admitted c.sub
  let w ← s.admitted c.sup
  return (v, w)

def isRefused (s : Settings) (c : Subtyping) : Bool :=
  match s.sides c with
  | .error (.refused _) => true
  | _ => false

variable {s : Settings}

theorem cut_path_subset (n : Int) (v : TypeVar) : ∀ l ∈ (v.cut n).path, l ∈ v.path := fun _ h =>
  List.mem_of_mem_take h

theorem fieldDefect?_eq_none {v : TypeVar} (h : ∀ why, s.admission v ≠ .refused why) : s.fieldDefect? v.path = none := by
  cases hd : s.fieldDefect? v.path with
  | none => rfl
  | some d => exact absurd (by simp only [admission, hd]) (h (.badField d.1 d.2 v))

/-- No field of an admitted variable has a defect. -/
theorem defect?_of_admitted {v w : TypeVar} (h : s.admitted v = .ok w) {f : Field} (hf : .field f ∈ w.path) :
    f.defect? s = none := by
  have hpath : (∀ why, s.admission v ≠ .refused why) ∧ ∀ l ∈ w.path, l ∈ v.path := by
    unfold admitted at h
    cases ha : s.admission v with
    | whole => rw [ha] at h; cases h; exact ⟨by simp, fun _ h => h⟩
    | cutTo n => rw [ha] at h; cases h; exact ⟨by simp, cut_path_subset n v⟩
    | refused why => rw [ha] at h; cases h
    | uncuttable => rw [ha] at h; cases h
  have hnone := List.findSome?_eq_none_iff.mp (fieldDefect?_eq_none hpath.1) _ (hpath.2 _ hf)
  simpa using hnone

theorem sides_eq_ok {c : Subtyping} {v w : TypeVar} (h : s.sides c = .ok (v, w)) :
    s.admitted c.sub = .ok v ∧ s.admitted c.sup = .ok w := by
  unfold sides at h
  cases hv : s.admitted c.sub with
  | error e => rw [hv] at h; cases h
  | ok v' =>
    cases hw : s.admitted c.sup with
    | error e => rw [hv, hw] at h; cases h
    | ok w' => rw [hv, hw] at h; cases h; exact ⟨rfl, rfl⟩

end Settings

theorem Field.bits_pos {s : Settings} {f : Field} (h : f.defect? s = none) : 0 < f.bits := by
  by_contra hle
  rw [Field.defect?, if_pos (Int.not_lt.mp hle)] at h
  cases h

/-! ## One constraint -/

namespace Intake

@[simp] theorem rejected_report (k : Intake) (r : Report) : (k.report r).rejected = k.rejected := rfl
@[simp] theorem rejected_say (k : Intake) (l : Level) (m : String) : (k.say l m).rejected = k.rejected := rfl

theorem accept_eq (s : Settings) (k : Intake) (v : TypeVar) :
    (k.accept s v).2 = s.admitted v ∧ (k.accept s v).1.rejected = k.rejected := by
  unfold accept Settings.admitted
  cases s.admission v <;> exact ⟨rfl, rfl⟩

theorem admitBoth_eq (s : Settings) (k : Intake) (c : Subtyping) :
    (k.admitBoth s c).2 = s.sides c ∧ (k.admitBoth s c).1.rejected = k.rejected := by
  obtain ⟨hv, hr⟩ := accept_eq s k c.sub
  unfold admitBoth Settings.sides
  split
  · rename_i k1 e he
    rw [he] at hv hr
    rw [← hv]
    exact ⟨rfl, hr⟩
  · rename_i k1 v he
    rw [he] at hv hr
    obtain ⟨hw, hr'⟩ := accept_eq s k1 c.sup
    rw [← hv]
    split
    · rename_i k2 e he'
      rw [he'] at hw hr'
      rw [← hw]
      exact ⟨rfl, hr'.trans hr⟩
    · rename_i k2 w he'
      rw [he'] at hw hr'
      rw [← hw]
      exact ⟨rfl, hr'.trans hr⟩

/-- A path that cannot be cut ends the intake. -/
theorem add_fails_iff (s : Settings) (k : Intake) (c : Subtyping) :
    (∃ k', k.add s c = .error k') ↔ s.sides c = .error .uncuttable := by
  rw [← (admitBoth_eq s k c).1]
  unfold add
  rcases k.admitBoth s c with ⟨k1, (why | _) | ⟨v, w⟩⟩ <;> simp

theorem bind_fails_iff (s : Settings) (k : Intake) (b : Binding) :
    (∃ k', k.bind s b = .error k') ↔ s.sides b.fact = .error .uncuttable := by
  rw [← (admitBoth_eq s k b.fact).1]
  unfold bind
  rcases k.admitBoth s b.fact with ⟨k1, (why | _) | ⟨v, w⟩⟩ <;> simp

/-- What an admitted binding binds. -/
def boundBy (s : Settings) (b : Binding) : Option (Target × Option TypeVar) :=
  match s.sides b.fact with
  | .ok (v, _) => some (b.target, some v)
  | .error _ => none

/-- `k` has gone through these constraints, the bindings of `bs` among them. -/
structure Took (s : Settings) (facts : List Subtyping) (bs : List Binding) (k : Intake) : Prop where
  wf : k.graph.WellFormed
  contains_iff {u : TypeVar} : k.graph.contains u = true ↔
    ∃ c ∈ facts, ∃ v w, s.sides c = .ok (v, w) ∧ (u.Begins v ∨ u.Begins w)
  records_iff {v w : TypeVar} : k.graph.Records v w ↔ v ≠ w ∧ ∃ c ∈ facts, s.sides c = .ok (v, w)
  boundVars : k.graph.boundVars = bs.filterMap (boundBy s)
  rejected : k.rejected = facts.filter s.isRefused

theorem took_empty (s : Settings) : Took s [] [] empty where
  wf := Graph.empty_wellFormed
  contains_iff {u} := by
    rw [empty, Graph.empty_wellFormed.contains_iff]
    simp [Graph.empty, Graph.typeVar?]
  records_iff := by simp [empty, Graph.Records, Graph.empty, Graph.typeVar?]
  boundVars := rfl
  rejected := rfl

/-- What connecting two variables adds. -/
theorem connect_adds {k : Intake} (hk : k.graph.WellFormed) (v w : TypeVar) :
    (∀ u, (k.connect v w).1.graph.contains u = true ↔ k.graph.contains u = true ∨ u.Begins v ∨ u.Begins w) ∧
      (∀ x y, (k.connect v w).1.graph.Records x y ↔ k.graph.Records x y ∨ (v ≠ w ∧ x = v ∧ y = w)) ∧
      (k.connect v w).1.graph.boundVars = k.graph.boundVars := by
  obtain ⟨hg, hgrow, hv⟩ := Graph.intern_spec hk v
  obtain ⟨hg', hgrow', hw⟩ := Graph.intern_spec hg w
  have hv' := hgrow'.typeVar? hv
  have hbare := Graph.bare_relate ((k.graph.intern v).1.intern w).1 (k.graph.intern v).2
    ((k.graph.intern v).1.intern w).2
  have hwf := Graph.relate_wellFormed hg' (Graph.lt_size hv') (Graph.lt_size hw)
  refine ⟨fun u => ?_, fun x y => ?_, ?_⟩
  · refine (Graph.contains_of_bare hbare hg' hwf u).trans ?_
    rw [Graph.contains_intern hg, Graph.contains_intern hk, or_assoc]
  · refine (Graph.records_relate hg' hv' hw).trans ?_
    rw [hgrow'.records_iff hg, hgrow.records_iff hk]
  · refine (Graph.boundVars_of_bare hbare).trans ?_
    rw [hgrow'.boundVars hg, hgrow.boundVars hk]

section Steps

variable {s : Settings} {facts : List Subtyping} {bs : List Binding} {k : Intake}

theorem took_connect (h : Took s facts bs k) {k1 : Intake} (hg : k1.graph = k.graph) (hr : k1.rejected = k.rejected)
    {c : Subtyping} {v w : TypeVar} (hc : s.sides c = .ok (v, w)) :
    Took s (facts ++ [c]) bs (k1.connect v w).1 := by
  obtain ⟨hcontains, hrecords, hbound⟩ := connect_adds (k := k1) (hg ▸ h.wf) v w
  refine ⟨(connect_spec (hg ▸ h.wf) v w).1, fun {u} => ?_, fun {x y} => ?_, ?_, ?_⟩
  · rw [hcontains, hg, h.contains_iff]
    simp [hc, or_and_right, exists_or]
  · rw [hrecords, hg, h.records_iff]
    simp only [List.mem_append, List.mem_singleton, or_and_right, exists_or, exists_eq_left, hc, Except.ok.injEq,
      Prod.mk.injEq]
    constructor
    · rintro (⟨hne, c', hc', he⟩ | ⟨hne, rfl, rfl⟩)
      · exact ⟨hne, Or.inl ⟨c', hc', he⟩⟩
      · exact ⟨hne, Or.inr ⟨rfl, rfl⟩⟩
    · rintro ⟨hne, ⟨c', hc', he⟩ | ⟨rfl, rfl⟩⟩
      · exact Or.inl ⟨hne, c', hc', he⟩
      · exact Or.inr ⟨hne, rfl, rfl⟩
  · rw [hbound, hg, h.boundVars]
  · show k1.rejected = _
    rw [hr, h.rejected, List.filter_append]
    simp [Settings.isRefused, hc]

theorem took_reject (h : Took s facts bs k) {k1 : Intake} (hg : k1.graph = k.graph) (hr : k1.rejected = k.rejected)
    {c : Subtyping} {why : Inadmissible} (hc : s.sides c = .error (.refused why)) :
    Took s (facts ++ [c]) bs (k1.reject c why) := by
  refine ⟨hg ▸ h.wf, fun {u} => ?_, fun {x y} => ?_, ?_, ?_⟩
  · rw [graph_reject, hg, h.contains_iff]
    simp [hc, or_and_right, exists_or]
  · rw [graph_reject, hg, h.records_iff]
    simp [hc, or_and_right, exists_or]
  · rw [graph_reject, hg, h.boundVars]
  · show k1.rejected ++ [c] = _
    rw [hr, h.rejected, List.filter_append]
    simp [Settings.isRefused, hc]

theorem took_add (h : Took s facts bs k) {c : Subtyping} {k' : Intake} {nodes : Option (Nat × Nat)}
    (ha : k.add s c = .ok (k', nodes)) : Took s (facts ++ [c]) bs k' := by
  obtain ⟨hsides, hrej⟩ := admitBoth_eq s k c
  rcases add_cases ha with ⟨k1, v, w, hg, he, rfl, -⟩ | ⟨k1, why, hg, he, rfl, -⟩
  · rw [he] at hsides hrej
    exact took_connect h hg hrej hsides.symm
  · rw [he] at hsides hrej
    exact took_reject h hg hrej hsides.symm

theorem took_bind (h : Took s facts bs k) {b : Binding} {k' : Intake} (hb : k.bind s b = .ok k') :
    Took s (facts ++ [b.fact]) (bs ++ [b]) k' := by
  obtain ⟨hsides, hrej⟩ := admitBoth_eq s k b.fact
  rcases bind_cases hb with ⟨k1, v, w, hg, he, rfl⟩ | ⟨k1, why, hg, he, rfl⟩
  · rw [he] at hsides hrej
    have hc := took_connect h hg hrej hsides.symm
    obtain ⟨-, hv, -⟩ := connect_spec (hg ▸ h.wf : k1.graph.WellFormed) v w
    refine ⟨Graph.bindTarget_wellFormed hc.wf _ (Graph.lt_size hv), hc.contains_iff, hc.records_iff, ?_, hc.rejected⟩
    rw [Graph.boundVars_bindTarget, hc.boundVars, hv, List.filterMap_append]
    simp [boundBy, ← hsides]
  · rw [he] at hsides hrej
    have hc := took_reject h hg hrej hsides.symm
    refine ⟨hc.wf, hc.contains_iff, hc.records_iff, ?_, hc.rejected⟩
    refine Eq.trans hc.boundVars ?_
    rw [List.filterMap_append]
    simp [boundBy, ← hsides]

end Steps

/-! ## Whole constraint sets -/

/-- The elements of a list taken in one after another, while none fails. -/
theorem foldlM_took {ε α β : Type} {f : β → α → Except ε β} {P : List α → β → Prop}
    (hf : ∀ done x b b', P done b → f b x = .ok b' → P (done ++ [x]) b') (xs : List α) {done : List α} {b b' : β}
    (hb : P done b) (h : xs.foldlM f b = .ok b') : P (done ++ xs) b' := by
  induction xs generalizing done b with
  | nil => cases h; simpa using hb
  | cons x xs ih =>
    rw [List.foldlM_cons] at h
    cases hx : f b x with
    | error e => rw [hx] at h; cases h
    | ok c =>
      rw [hx] at h
      rw [List.append_cons]
      exact ih (hf done x b c hb hx) h

theorem foldlM_fails_iff {ε α β : Type} {f : β → α → Except ε β} {P : α → Prop}
    (hf : ∀ b x, (∃ e, f b x = .error e) ↔ P x) (xs : List α) (b : β) :
    (∃ e, xs.foldlM f b = .error e) ↔ ∃ x ∈ xs, P x := by
  induction xs generalizing b with
  | nil => simp [pure, Except.pure]
  | cons x xs ih =>
    rw [List.foldlM_cons, List.exists_mem_cons_iff, ← hf b x]
    cases hx : f b x with
    | error e => exact ⟨fun _ => Or.inl ⟨e, rfl⟩, fun _ => ⟨e, rfl⟩⟩
    | ok c => exact (ih c).trans ⟨Or.inr, fun h => h.resolve_left fun ⟨_, he⟩ => by cases he⟩

theorem addAll_eq_ok {s : Settings} {k k' : Intake} {c : ConstraintSet} (h : k.addAll s c = .ok k') :
    ∃ k1, c.subtypings.foldlM (fun k c => (k.add s c).map (·.1)) k = .ok k1 ∧
      c.bindings.foldlM (fun k b => k.bind s b) k1 = .ok k' := by
  unfold addAll at h
  cases hs : c.subtypings.foldlM (fun k c => (k.add s c).map (·.1)) k with
  | error e => rw [hs] at h; cases h
  | ok k1 => rw [hs] at h; exact ⟨k1, rfl, h⟩

theorem took_build {s : Settings} {c : ConstraintSet} {k : Intake} (h : build s c = .ok k) : Took s c.facts c.bindings k := by
  unfold build at h
  cases ha : empty.addAll s c with
  | error e => rw [ha] at h; cases h
  | ok k' =>
    rw [ha] at h
    cases h
    obtain ⟨k1, hsub, hbind⟩ := addAll_eq_ok ha
    have h1 : Took s c.subtypings [] k1 := by
      refine foldlM_took (P := fun done k => Took s done [] k) (fun done x b b' hb h => ?_) c.subtypings (took_empty s) hsub
      cases hx : b.add s x with
      | error e => rw [hx] at h; cases h
      | ok y => rw [hx] at h; cases h; exact took_add hb hx
    have h2 : Took s (c.subtypings ++ c.bindings.map (·.fact)) c.bindings k' := by
      refine foldlM_took (P := fun done k => Took s (c.subtypings ++ done.map (·.fact)) done k)
        (fun done x b b' hb h => ?_) c.bindings (?_ : Took s (c.subtypings ++ ([] : List Binding).map (·.fact)) [] k1) hbind
      · rw [List.map_append, ← List.append_assoc]
        exact took_bind hb h
      · simpa using h1
    exact ⟨h2.wf, h2.contains_iff, h2.records_iff, h2.boundVars, h2.rejected⟩

/-- A constraint set is taken in unless one of its constraints has a path that cannot be cut. -/
theorem build_fails_iff (s : Settings) (c : ConstraintSet) :
    (∃ k, build s c = .error k) ↔ ∃ f ∈ c.facts, s.sides f = .error .uncuttable := by
  have hsub := foldlM_fails_iff (f := fun k c => (k.add s c).map (·.1)) (P := fun c => s.sides c = .error .uncuttable)
    (fun k c => by
      rw [← add_fails_iff s k c]
      cases k.add s c <;> simp [Except.map]) c.subtypings empty
  have hbind := foldlM_fails_iff (f := fun k b => k.bind s b)
    (P := fun b => s.sides b.fact = .error .uncuttable) (fun k b => bind_fails_iff s k b) c.bindings
  have hbuild : (∃ k, build s c = .error k) ↔ ∃ k, empty.addAll s c = .error k := by
    unfold build
    cases empty.addAll s c <;> simp [Except.map]
  have hfacts : (∃ f ∈ c.facts, s.sides f = .error .uncuttable) ↔
      (∃ f ∈ c.subtypings, s.sides f = .error .uncuttable) ∨ ∃ b ∈ c.bindings, s.sides b.fact = .error .uncuttable := by
    simp [ConstraintSet.facts, or_and_right, exists_or]
  rw [hbuild, hfacts, ← hsub]
  unfold addAll
  cases hs : c.subtypings.foldlM (fun k c => (k.add s c).map (·.1)) empty with
  | error e => exact ⟨fun _ => Or.inl ⟨e, rfl⟩, fun _ => ⟨e, rfl⟩⟩
  | ok k1 => exact (hbind k1).trans ⟨Or.inr, fun h => h.resolve_left fun ⟨_, he⟩ => by cases he⟩

/-- Every field of a variable in the graph has a positive number of bits. -/
theorem Took.bits_pos {s : Settings} {facts : List Subtyping} {bs : List Binding} {k : Intake} (h : Took s facts bs k)
    {v : TypeVar} (hv : k.graph.contains v = true) {f : Field} (hf : .field f ∈ v.path) : 0 < f.bits := by
  obtain ⟨c, -, x, y, hc, hb⟩ := h.contains_iff.mp hv
  obtain ⟨hx, hy⟩ := Settings.sides_eq_ok hc
  rcases hb with ⟨-, hp⟩ | ⟨-, hp⟩
  · exact Field.bits_pos (Settings.defect?_of_admitted hx (hp.subset hf))
  · exact Field.bits_pos (Settings.defect?_of_admitted hy (hp.subset hf))

end Intake

end TypeRecovery
