/-
  TypeRecovery.Proofs.Closure.Run — what a run keeps, step by step.

  A run has taken some edges from its queue (`done`), in the order in which it took them. Its
  invariant `Inv` says that the edges of its graph are those taken and those waiting, each
  once, that nothing but subtype edges has changed, and that the first edges are still there
  and entail the rest. Between two steps the rules hold for the edges taken (`Joined`): when
  an edge is joined with those that are there, the other edge of each pair of rule (1) was
  either recorded before or is taken later.

  Proved:
  - `join_spec`: one step adds only entailed edges, and every consequence of the edge it took
    with those recorded.
  - `finish_spec`: a run keeps its invariant, stopped or not; one that is not stopped by a
    bound has emptied its queue, since there are at most `size * size` edges to take.
-/

import Mathlib.Data.Finset.Prod
import TypeRecovery.Graph.Closure
import TypeRecovery.Proofs.Closure.Rules
import TypeRecovery.Proofs.Graph.Construction

namespace TypeRecovery

namespace Graph

/-- `g'` is `g` with more subtype edges. -/
structure Under (g g' : Graph) : Prop where
  bare : g'.bare = g.bare
  supertypes {a b : Nat} : b ∈ g.supertypes a → b ∈ g'.supertypes a

theorem Under.below {g g' : Graph} (h : g.Under g') {a b : Nat} (hab : g.Below a b) : g'.Below a b :=
  hab.imp_right h.supertypes

theorem Under.joined {g g' : Graph} (h : g.Under g') {done : List (Nat × Nat)} (hj : g.Joined done) :
    g'.Joined done where
  trans hab hbc := h.below (hj.trans hab hbc)
  push hab hl hx hy := by
    rw [child?_of_bare h.bare] at hx hy
    exact h.below (hj.push hab hl hx hy)
  store hab hx hy := by
    rw [child?_of_bare h.bare] at hx hy
    exact h.below (hj.store hab hx hy)

theorem WellFormed.edges_length_le {g : Graph} (hg : g.WellFormed) : g.edges.length ≤ g.size * g.size := by
  have hsub : g.edges.toFinset ⊆ Finset.range g.size ×ˢ Finset.range g.size := by
    rintro ⟨a, b⟩ h
    obtain ⟨ha, hb⟩ := hg.edge_lt (List.mem_toFinset.mp h)
    exact Finset.mem_product.mpr ⟨Finset.mem_range.mpr ha, Finset.mem_range.mpr hb⟩
  calc g.edges.length = g.edges.toFinset.card := (List.toFinset_card_of_nodup hg.edges_nodup).symm
    _ ≤ (Finset.range g.size ×ˢ Finset.range g.size).card := Finset.card_le_card hsub
    _ = g.size * g.size := by rw [Finset.card_product, Finset.card_range]

end Graph

namespace Run

/-! ## Recording edges -/

/-- `r'` has recorded some more edges, all of them in `P`, and put them at the end of its queue. -/
structure Grows (P : Nat → Nat → Prop) (r r' : Run) : Prop where
  wf : r'.graph.WellFormed
  bare : r'.graph.bare = r.graph.bare
  steps : r'.steps = r.steps
  added : ∃ new : List (Nat × Nat), r'.queue.toList = r.queue.toList ++ new ∧
    r'.graph.edges.Perm (r.graph.edges ++ new) ∧ (∀ e ∈ new, P e.1 e.2) ∧
    r'.derived = r.derived + new.length ∧ r'.transitive + r'.pushed = r.transitive + r.pushed + new.length

variable {P : Nat → Nat → Prop} {r r' r'' : Run}

theorem Grows.refl (hr : r.graph.WellFormed) : Grows P r r := ⟨hr, rfl, rfl, [], by simp⟩

theorem Grows.trans (h : Grows P r r') (h' : Grows P r' r'') : Grows P r r'' := by
  obtain ⟨new, hq, he, hP, hd, hc⟩ := h.added
  obtain ⟨new', hq', he', hP', hd', hc'⟩ := h'.added
  refine ⟨h'.wf, h'.bare.trans h.bare, h'.steps.trans h.steps, new ++ new', ?_, ?_, ?_, ?_, ?_⟩
  · rw [hq', hq, List.append_assoc]
  · rw [← List.append_assoc]
    exact he'.trans (he.append_right new')
  · intro e h
    exact (List.mem_append.mp h).elim (hP e) (hP' e)
  · rw [hd', hd, List.length_append]; omega
  · rw [hc', hc, List.length_append]; omega

theorem Grows.under (h : Grows P r r') : r.graph.Under r'.graph := by
  obtain ⟨new, -, he, -⟩ := h.added
  refine ⟨h.bare, fun {a b} hab => Graph.mem_edges.mp ?_⟩
  exact he.mem_iff.mpr (List.mem_append_left _ (Graph.mem_edges.mpr hab))

/-- Whatever held of all edges and of those in `P` holds of all edges. -/
theorem Grows.all_edges (h : Grows P r r') (hP : ∀ e ∈ r.graph.edges, P e.1 e.2) : ∀ e ∈ r'.graph.edges, P e.1 e.2 := by
  obtain ⟨new, -, he, hnew, -⟩ := h.added
  intro e hm
  exact (List.mem_append.mp (he.mem_iff.mp hm)).elim (hP e) (hnew e)

theorem derive_eq (r : Run) (a b : Nat) :
    r.derive a b = if a = b ∨ b ∈ r.graph.supertypes a then (r, false) else
      ({ r with graph := r.graph.link a b, queue := r.queue.push (a, b), derived := r.derived + 1 }, true) := by
  by_cases h : a = b ∨ b ∈ r.graph.supertypes a
  · simp only [derive, Graph.relate_eq, if_pos h]
  · simp only [derive, Graph.relate_eq, if_neg h]

theorem deriveTransitive_eq (r : Run) (a b : Nat) :
    r.deriveTransitive a b = if a = b ∨ b ∈ r.graph.supertypes a then r else
      { r with graph := r.graph.link a b, queue := r.queue.push (a, b), derived := r.derived + 1,
               transitive := r.transitive + 1 } := by
  by_cases h : a = b ∨ b ∈ r.graph.supertypes a
  · simp only [deriveTransitive, derive_eq, if_pos h]
  · simp only [deriveTransitive, derive_eq, if_neg h]

theorem derivePushed_eq (r : Run) (a b : Nat) :
    r.derivePushed a b = if a = b ∨ b ∈ r.graph.supertypes a then r else
      { r with graph := r.graph.link a b, queue := r.queue.push (a, b), derived := r.derived + 1,
               pushed := r.pushed + 1 } := by
  by_cases h : a = b ∨ b ∈ r.graph.supertypes a
  · simp only [derivePushed, derive_eq, if_pos h]
  · simp only [derivePushed, derive_eq, if_neg h]

/-- A run that records one edge, whichever rule it counts it for. -/
theorem grows_of_link (hr : r.graph.WellFormed) {a b : Nat} (ha : a < r.graph.size) (hb : b < r.graph.size)
    (hab : ¬(a = b ∨ b ∈ r.graph.supertypes a)) (hP : P a b) (hg : r'.graph = r.graph.link a b)
    (hq : r'.queue = r.queue.push (a, b)) (hs : r'.steps = r.steps) (hd : r'.derived = r.derived + 1)
    (hc : r'.transitive + r'.pushed = r.transitive + r.pushed + 1) :
    Grows P r r' ∧ r'.graph.Below a b := by
  obtain ⟨hne, hn⟩ := not_or.mp hab
  refine ⟨⟨?_, ?_, hs, [(a, b)], ?_, ?_, ?_, hd, hc⟩, ?_⟩
  · rw [hg]; exact Graph.link_wellFormed hr ha hb hne hn
  · rw [hg]; exact Graph.bare_link _ a b
  · rw [hq, Queue.toList_push]
  · rw [hg]; exact Graph.edges_link hr ha hn
  · intro e he
    rw [List.mem_singleton.mp he]
    exact hP
  · rw [hg]; exact Or.inr ((Graph.mem_supertypes_link ha).mpr (Or.inr ⟨rfl, rfl⟩))

theorem deriveTransitive_spec (hr : r.graph.WellFormed) {a b : Nat} (ha : a < r.graph.size) (hb : b < r.graph.size)
    (hP : P a b) : Grows P r (r.deriveTransitive a b) ∧ (r.deriveTransitive a b).graph.Below a b := by
  rw [deriveTransitive_eq]
  split
  · rename_i h; exact ⟨.refl hr, h⟩
  · rename_i h
    exact grows_of_link hr ha hb h hP rfl rfl rfl rfl (Nat.add_right_comm _ _ _)

theorem derivePushed_spec (hr : r.graph.WellFormed) {a b : Nat} (ha : a < r.graph.size) (hb : b < r.graph.size)
    (hP : P a b) : Grows P r (r.derivePushed a b) ∧ (r.derivePushed a b).graph.Below a b := by
  rw [derivePushed_eq]
  split
  · rename_i h; exact ⟨.refl hr, h⟩
  · rename_i h
    exact grows_of_link hr ha hb h hP rfl rfl rfl rfl (Nat.add_assoc _ _ _).symm

/-! ## One step -/

/-- Taking the elements of a list in turn: what each of them adds stays. -/
theorem foldl_spec {α : Type} {f : Run → α → Run} {Q : α → Graph → Prop} {g : Graph} (xs : List α)
    (hf : ∀ r x, x ∈ xs → r.graph.WellFormed → r.graph.bare = g.bare → Grows P r (f r x) ∧ Q x (f r x).graph)
    (hQ : ∀ x g g', Graph.Under g g' → Q x g → Q x g') (hr : r.graph.WellFormed) (hb : r.graph.bare = g.bare) :
    Grows P r (xs.foldl f r) ∧ ∀ x ∈ xs, Q x (xs.foldl f r).graph := by
  induction xs generalizing r with
  | nil => exact ⟨.refl hr, fun x hx => by cases hx⟩
  | cons x xs ih =>
    obtain ⟨hx, hQx⟩ := hf r x List.mem_cons_self hr hb
    obtain ⟨hxs, hQxs⟩ := ih (fun r y hy => hf r y (List.mem_cons_of_mem _ hy)) hx.wf (hx.bare.trans hb)
    refine ⟨hx.trans hxs, fun y hy => ?_⟩
    rcases List.mem_cons.mp hy with rfl | hy
    · exact hQ y _ _ hxs.under hQx
    · exact hQxs y hy

/-- What pushing `a ⊑ b` along a label of `a` must leave. -/
def Pushed (b : Nat) (c : Label × Nat) (g : Graph) : Prop :=
  ∀ y, g.child? b c.1 = some y → (c.1.variance = .covariant → g.Below c.2 y) ∧ (c.1 = .store → g.Below y c.2)

theorem push_spec {g : Graph} (hg : g.WellFormed) (hr : r.graph.WellFormed) (hbare : r.graph.bare = g.bare) {a b x : Nat}
    {l : Label} (hab : g.EntailsAt a b) (hx : g.child? a l = some x) :
    Grows g.EntailsAt r (r.push b l x) ∧ Pushed b (l, x) (r.push b l x).graph := by
  cases hy : g.child? b l with
  | none =>
    have hp : r.push b l x = r := by simp only [push, Graph.child?_of_bare hbare, hy]
    rw [hp]
    refine ⟨.refl hr, fun y h => ?_⟩
    rw [Graph.child?_of_bare hbare, hy] at h
    cases h
  | some y =>
    have hxs : x < r.graph.size := Graph.size_of_bare hbare ▸ (hg.child_lt hx).2
    have hys : y < r.graph.size := Graph.size_of_bare hbare ▸ (hg.child_lt hy).2
    have huniq : ∀ {r' : Run}, Grows g.EntailsAt r r' → ∀ {z}, r'.graph.child? b l = some z → z = y := by
      intro r' h z hz
      rw [Graph.child?_of_bare (h.bare.trans hbare), hy, Option.some_inj] at hz
      exact hz.symm
    rcases Label.covariant_or_store l with hl | rfl
    · have hp : r.push b l x = r.derivePushed x y := by simp only [push, Graph.child?_of_bare hbare, hy, hl]
      rw [hp]
      obtain ⟨hgrow, hbelow⟩ := derivePushed_spec hr hxs hys (hab.push hg hl hx hy)
      refine ⟨hgrow, fun z h => ?_⟩
      cases huniq hgrow h
      exact ⟨fun _ => hbelow, fun e => absurd (Label.contravariant_iff.mpr e) (by simp [hl])⟩
    · have hp : r.push b .store x = r.derivePushed y x := by
        simp only [push, Graph.child?_of_bare hbare, hy, Label.variance]
      rw [hp]
      obtain ⟨hgrow, hbelow⟩ := derivePushed_spec hr hys hxs (hab.store hg hx hy)
      refine ⟨hgrow, fun z h => ?_⟩
      cases huniq hgrow h
      exact ⟨fun e => absurd e (by simp [Label.variance]), fun _ => hbelow⟩

theorem pushed_under {b : Nat} {c : Label × Nat} {g g' : Graph} (h : g.Under g') (hp : Pushed b c g) : Pushed b c g' := by
  intro y hy
  rw [Graph.child?_of_bare h.bare] at hy
  exact ⟨fun hl => h.below ((hp y hy).1 hl), fun hl => h.below ((hp y hy).2 hl)⟩

/-- One step adds entailed edges only, and all that follow from `a ⊑ b` and the edges recorded. -/
theorem join_spec (visits : Visits) {g : Graph} (hg : g.WellFormed) (hr : r.graph.WellFormed) (hbare : r.graph.bare = g.bare)
    (hsound : ∀ e ∈ r.graph.edges, g.EntailsAt e.1 e.2) {a b : Nat} (hab : (a, b) ∈ r.graph.edges) :
    Grows g.EntailsAt r (r.join visits a b) ∧
      (∀ c ∈ r.graph.supertypes b, (r.join visits a b).graph.Below a c) ∧
      (∀ z ∈ r.graph.subtypes a, (r.join visits a b).graph.Below z b) ∧
      ∀ c ∈ g.children a, Pushed b c (r.join visits a b).graph := by
  have hP : g.EntailsAt a b := hsound _ hab
  have hlt : ∀ {r' : Run}, r'.graph.bare = g.bare → ∀ {i}, i < g.size → i < r'.graph.size :=
    fun h _ hi => (Graph.size_of_bare h).symm ▸ hi
  -- out of `b`
  obtain ⟨h1, hout⟩ := foldl_spec (P := g.EntailsAt) (g := g) (f := fun r c => r.deriveTransitive a c)
    (Q := fun c g' => g'.Below a c) (visits.supertypes r b) (fun r' c hc hwf hb => by
      have hac := hP.trans (hsound _ (Graph.mem_edges.mpr ((visits.supertypes_perm r b).mem_iff.mp hc)))
      exact deriveTransitive_spec hwf (hlt hb hac.lt_size.1) (hlt hb hac.lt_size.2) hac)
    (fun _ _ _ hu => hu.below) hr hbare
  generalize hr1 : (visits.supertypes r b).foldl (fun r c => r.deriveTransitive a c) r = r1 at h1 hout
  have hb1 := h1.bare.trans hbare
  -- into `a`
  obtain ⟨h2, hinto⟩ := foldl_spec (P := g.EntailsAt) (g := g) (f := fun r z => r.deriveTransitive z b)
    (Q := fun z g' => g'.Below z b) (visits.subtypes r1 a) (fun r' z hz hwf hb => by
      have hz := (visits.subtypes_perm r1 a).mem_iff.mp hz
      have hza := h1.all_edges hsound _ (Graph.mem_edges.mpr (h1.wf.mem_subtypes.mp hz))
      have hzb := hza.trans hP
      exact deriveTransitive_spec hwf (hlt hb hzb.lt_size.1) (hlt hb hzb.lt_size.2) hzb)
    (fun _ _ _ hu => hu.below) h1.wf hb1
  generalize hr2 : (visits.subtypes r1 a).foldl (fun r z => r.deriveTransitive z b) r1 = r2 at h2 hinto
  have hb2 := h2.bare.trans hb1
  -- along the labels of `a`
  obtain ⟨h3, hpush⟩ := foldl_spec (P := g.EntailsAt) (g := g) (f := fun r c => r.push b c.1 c.2)
    (Q := Pushed b) (r2.graph.children a) (fun r' c hc hwf hb => by
      rw [Graph.children_of_bare hb2] at hc
      exact push_spec hg hwf hb hP (hg.mem_children_iff.mp hc))
    (fun _ _ _ => pushed_under) h2.wf hb2
  have hj : r.join visits a b = (r2.graph.children a).foldl (fun r c => r.push b c.1 c.2) r2 := by
    rw [← hr2, ← hr1]; rfl
  rw [hj]
  refine ⟨(h1.trans h2).trans h3, fun c hc => (h2.trans h3).under.below ?_, fun z hz => h3.under.below ?_, fun c hc => ?_⟩
  · exact hout c ((visits.supertypes_perm r b).mem_iff.mpr hc)
  · have hz1 : z ∈ r1.graph.subtypes a :=
      h1.wf.mem_subtypes.mpr (h1.under.supertypes (hr.mem_subtypes.mp hz))
    exact hinto z ((visits.subtypes_perm r1 a).mem_iff.mpr hz1)
  · exact hpush c (by rwa [Graph.children_of_bare hb2])

/-! ## The whole run -/

/-- `r` started from `g` and has taken the edges in `done`. -/
structure Inv (g : Graph) (done : List (Nat × Nat)) (r : Run) : Prop where
  wf : r.graph.WellFormed
  bare : r.graph.bare = g.bare
  keeps : ∀ e ∈ g.edges, e ∈ r.graph.edges
  sound : ∀ e ∈ r.graph.edges, g.EntailsAt e.1 e.2
  /-- Every edge has been taken or waits. -/
  edges : r.graph.edges.Perm (done ++ r.queue.toList)
  steps : r.steps = done.length
  derived : r.derived = r.transitive + r.pushed
  edgeCount : r.graph.edges.length = g.edges.length + r.derived

theorem startRun_inv {g : Graph} (hg : g.WellFormed) {seed : List (Nat × Nat)} (hs : seed.Perm g.edges) (n : Nat) :
    Inv g [] (g.startRun seed n) where
  wf := hg
  bare := rfl
  keeps _ h := h
  sound _ h := Graph.entailsAt_of_edge hg h
  edges := by simpa [Graph.startRun] using hs.symm
  steps := rfl
  derived := rfl
  edgeCount := rfl

theorem Inv.length_le {g : Graph} {done : List (Nat × Nat)} (hi : Inv g done r) : done.length ≤ g.size * g.size := by
  have h := hi.edges.length_eq
  have h' := hi.wf.edges_length_le
  rw [Graph.size_of_bare hi.bare] at h'
  rw [List.length_append] at h
  omega

/-- An edge leaves the queue. -/
theorem Inv.take {g : Graph} {done : List (Nat × Nat)} (hi : Inv g done r) {e : Nat × Nat} {rest : Queue (Nat × Nat)}
    (hp : r.queue.pop? = some (e, rest)) (n : Nat) :
    Inv g (done ++ [e]) { r with queue := rest, steps := r.steps + 1, readings := n } :=
  { hi with
    edges := by
      have h := hi.edges
      rw [Queue.toList_of_pop? hp] at h
      simpa using h
    steps := by rw [List.length_append]; exact congrArg (· + 1) hi.steps }

theorem Inv.grows {g : Graph} {done : List (Nat × Nat)} (hi : Inv g done r) (h : Grows g.EntailsAt r r') :
    Inv g done r' := by
  obtain ⟨new, hq, he, -, hd, hc⟩ := h.added
  refine ⟨h.wf, h.bare.trans hi.bare, fun e hm => ?_, h.all_edges hi.sound, ?_, h.steps.trans hi.steps, ?_, ?_⟩
  · exact he.mem_iff.mpr (List.mem_append_left _ (hi.keeps e hm))
  · rw [hq, ← List.append_assoc]
    exact he.trans (hi.edges.append_right new)
  · have := hi.derived; omega
  · rw [he.length_eq, List.length_append, hi.edgeCount, hd]; omega

/-- When the edge just taken is joined, each rule that has it for a premise has been applied:
an edge taken earlier was recorded by then, and no edge leads to itself. -/
theorem joined_join (visits : Visits) {g : Graph} (hg : g.WellFormed) {done : List (Nat × Nat)} {a b : Nat}
    (hi : Inv g (done ++ [(a, b)]) r) (hj : r.graph.Joined done) :
    Inv g (done ++ [(a, b)]) (r.join visits a b) ∧ (r.join visits a b).graph.Joined (done ++ [(a, b)]) := by
  have hmem : ∀ e ∈ done ++ [(a, b)], e ∈ r.graph.edges := fun e h =>
    hi.edges.mem_iff.mpr (List.mem_append_left _ h)
  obtain ⟨hgrow, hout, hinto, hpush⟩ := join_spec visits hg hi.wf hi.bare hi.sound (hmem (a, b) (by simp))
  have hj' := hgrow.under.joined hj
  have hb := hgrow.bare.trans hi.bare
  refine ⟨hi.grows hgrow, ⟨fun {x y z} hxy hyz => ?_, fun {x y u v l} hxy hl hu hv => ?_, fun {x y u v} hxy hu hv => ?_⟩⟩
  · rcases List.mem_append.mp hxy with h | h
    · rcases List.mem_append.mp hyz with h' | h'
      · exact hj'.trans h h'
      · cases List.mem_singleton.mp h'
        exact hinto x (hi.wf.mem_subtypes.mpr (Graph.mem_edges.mp (hmem _ hxy)))
    · cases List.mem_singleton.mp h
      exact hout z (Graph.mem_edges.mp (hmem _ hyz))
  · rcases List.mem_append.mp hxy with h | h
    · exact hj'.push h hl hu hv
    · cases List.mem_singleton.mp h
      rw [Graph.child?_of_bare hb] at hu
      exact (hpush (l, u) (hg.mem_children_iff.mpr hu) v hv).1 hl
  · rcases List.mem_append.mp hxy with h | h
    · exact hj'.store h hu hv
    · cases List.mem_singleton.mp h
      rw [Graph.child?_of_bare hb] at hu
      exact (hpush (.store, u) (hg.mem_children_iff.mpr hu) v hv).2 rfl

/-- Looking at the bounds changes no more than the number of readings. -/
theorem checkBounds_run (s : Settings) (clock : Clock) (started : Amount) (r : Run) :
    ∃ n, (r.checkBounds s clock started).1 = { r with readings := n } := by
  unfold checkBounds
  split
  · exact ⟨r.readings, rfl⟩
  · unfold timeExceeded
    split
    · exact ⟨r.readings, rfl⟩
    · split
      · exact ⟨r.readings + 1, rfl⟩
      · exact ⟨r.readings, rfl⟩

/-- A run keeps its invariant; unless a bound stops it, the rules hold for all edges in the end. -/
theorem finish_spec {g : Graph} (hg : g.WellFormed) (visits : Visits) (s : Settings) (clock : Clock) (started : Amount) :
    ∀ (budget : Nat) (done : List (Nat × Nat)) (r : Run), Inv g done r → r.graph.Joined done →
      g.size * g.size < budget + done.length →
      ∃ done', Inv g done' (r.finish visits s clock started budget).1 ∧
        ((r.finish visits s clock started budget).2 = none →
          (r.finish visits s clock started budget).1.queue.toList = [] ∧
            (r.finish visits s clock started budget).1.graph.Joined done') := by
  intro budget
  induction budget with
  | zero =>
    intro done r hi _ hlt
    have := hi.length_le
    omega
  | succ budget ih =>
    intro done r hi hj hlt
    unfold finish
    cases hp : r.queue.pop? with
    | none => exact ⟨done, hi, fun _ => ⟨Queue.pop?_eq_none_iff.mp hp, hj⟩⟩
    | some e =>
      obtain ⟨⟨a, b⟩, rest⟩ := e
      obtain ⟨n, hn⟩ := checkBounds_run s clock started { r with queue := rest, steps := r.steps + 1 }
      have hi' := hi.take hp n
      cases hc : Run.checkBounds s clock started { r with queue := rest, steps := r.steps + 1 } with
      | mk r' bound =>
        rw [hc] at hn
        simp only at hn
        cases bound with
        | some bound =>
          simp only [hc]
          subst hn
          exact ⟨done ++ [(a, b)], hi', fun h => by cases h⟩
        | none =>
          simp only [hc]
          subst hn
          obtain ⟨hi'', hj''⟩ := joined_join visits hg hi' hj
          refine ih (done ++ [(a, b)]) _ hi'' hj'' ?_
          rw [List.length_append, List.length_singleton]
          omega

end Run

namespace Graph

theorem Joined.subset {g : Graph} {done done' : List (Nat × Nat)} (h : g.Joined done) (hs : ∀ e ∈ done', e ∈ done) :
    g.Joined done' where
  trans hab hbc := h.trans (hs _ hab) (hs _ hbc)
  push hab := h.push (hs _ hab)
  store hab := h.store (hs _ hab)

/-- The run that starts from a graph keeps its invariant, and its budget lasts. -/
theorem finish_startRun {g : Graph} (hg : g.WellFormed) {seed : List (Nat × Nat)} (hs : seed.Perm g.edges)
    (visits : Visits) (s : Settings) (clock : Clock) (readings : Nat) :
    let last := (g.startRun seed (readings + 1)).finish visits s clock (clock readings) (g.size * g.size + seed.length + 1)
    ∃ done, Run.Inv g done last.1 ∧ (last.2 = none → last.1.queue.toList = [] ∧ last.1.graph.Joined done) := by
  have hbudget : g.size * g.size < g.size * g.size + seed.length + 1 + ([] : List (Nat × Nat)).length := by
    rw [List.length_nil]
    omega
  exact Run.finish_spec hg visits s clock (clock readings) (g.size * g.size + seed.length + 1) []
    (g.startRun seed (readings + 1)) (Run.startRun_inv hg hs _) ⟨by simp, by simp, by simp⟩ hbudget

/-- The run that closes a graph, and what its end means. -/
theorem closeFrom_spec {g g' : Graph} (hg : g.WellFormed) {seed : List (Nat × Nat)} (hs : seed.Perm g.edges)
    {visits : Visits} {s : Settings} {clock : Clock} {readings readings' : Nat} {result : Except Exhausted ClosureStats}
    (h : g.closeFrom seed visits s clock readings = ⟨g', readings', result⟩) :
    ∃ r done, g' = r.graph ∧ Run.Inv g done r ∧ ∀ stats, result = .ok stats → r.graph.Saturated := by
  obtain ⟨done, hi, hend⟩ := finish_startRun hg hs visits s clock readings
  simp only [closeFrom] at h
  generalize hf : (g.startRun seed (readings + 1)).finish visits s clock (clock readings)
    (g.size * g.size + seed.length + 1) = f at h hi hend
  obtain ⟨r, exceeded⟩ := f
  cases exceeded with
  | some e =>
    cases h
    exact ⟨r, done, rfl, hi, fun stats hr => by cases hr⟩
  | none =>
    cases h
    obtain ⟨hq, hj⟩ := hend rfl
    refine ⟨r, done, rfl, hi, fun stats _ => hj.subset fun e he => ?_⟩
    have := hi.edges.mem_iff.mp he
    rwa [hq, List.append_nil] at this

end Graph

end TypeRecovery
