/-
  TypeRecovery.Proofs.Components.Agreement — both walks for components find the same.

  The walk by low links and the walk of groups meet, follow and leave the same nodes and edges in
  the same order. Where an edge closes a cycle one joins groups and the other lowers a link; where
  an opener is left, one takes the top group off and the other pops its stack down to the node.
  By the links of the way these come to the same. The walk of groups ends within its budget, so
  the loops of the other end as well.

  Proved:
  - `Agrees.step`, `Agrees.ends`, `Agrees.visits`: the two walks go on step by step, up to the end.
  - `returns_iff`: the loops end, with the components that the walk of groups finds.
  - `components_sinks_first`: these are the strongly connected components, those with no way out first.
-/

import TypeRecovery.Proofs.Components.LowLink

namespace TypeRecovery

namespace LowLink

/-! ## Step by step -/

/-- Two walks at the same point. -/
structure Agrees (n : Nat) (w : Walk) (s : LowLink) : Prop where
  work : s.work = w.path
  found : s.found = w.found.reverse
  stack : s.stack = w.groups.flatMap (·.members)
  onStack : ∀ u, s.onStack u = true ↔ w.visit u = .held
  met : ∀ u < n, s.index u = -1 ↔ w.visit u = .unseen
  counter : ∀ u, s.index u < s.counter
  links : Links s.index s.low w.groups (w.path.map (·.1))

open Walk (Inv)

variable {succ : Nat → List Nat} {n : Nat} {pending : Nat → Nat → Prop} {w : Walk} {s : LowLink}

theorem start_agrees (n : Nat) : Agrees n (Walk.start n) start where
  work := rfl
  found := rfl
  stack := rfl
  onStack u := by by_cases hu : u < n <;> simp [start, Walk.start, Walk.visit, hu]
  met u hu := by simp [start, Walk.start, Walk.visit, hu]
  counter u := by simp [start]
  links := ⟨.nil, .nil, by simp [Walk.start], by simp [Walk.start], by simp [Walk.start], by simp [Walk.start]⟩

theorem Agrees.enter (h : Agrees n w s) (hi : Inv succ n pending w) {v : Nat} (hv : w.visit v = .unseen)
    (successors : List Nat) : Agrees n (w.enter v successors) (s.enter v successors) := by
  have hlt : v < w.visits.size := Walk.lt_of_visit (by rw [hv]; decide)
  have hnew : s.index v = -1 := (h.met v (hi.size ▸ hlt)).mpr hv
  have hout : ∀ g ∈ w.groups, v ∉ g.members := by
    intro g hg hm
    rw [hi.held_iff.mpr ⟨g, hg, hm⟩] at hv
    cases hv
  have hway : ∀ u ∈ w.path.map (·.1), ∃ g ∈ w.groups, u ∈ g.members := fun u hu => hi.aligned.mem hi.knit hu
  exact {
    work := congrArg ((v, successors) :: ·) h.work
    found := h.found
    stack := congrArg (v :: ·) h.stack
    onStack := by
      intro u
      rw [Walk.visit_enter]
      show Function.update s.onStack v true u = true ↔ _
      by_cases hu : u = v
      · subst hu
        simp [hlt]
      · simp [hu, h.onStack]
    met := by
      intro u hun
      rw [Walk.visit_enter]
      show Function.update s.index v s.counter u = -1 ↔ _
      by_cases hu : u = v
      · subst hu
        have := h.counter u
        rw [Function.update_self, if_pos ⟨rfl, hlt⟩]
        constructor
        · intro he
          omega
        · intro he
          cases he
      · rw [Function.update_of_ne hu, if_neg (fun he => hu he.1), h.met u hun]
    counter := by
      intro u
      show Function.update s.index v s.counter u < s.counter + 1
      by_cases hu : u = v
      · subst hu
        rw [Function.update_self]
        omega
      · have := h.counter u
        rw [Function.update_of_ne hu]
        omega
    links := h.links.enter hway hout h.counter }

/-- The edge at hand is taken off the way. -/
theorem Agrees.take (h : Agrees n w s) {v u : Nat} {rest : List Nat} {way : List (Nat × List Nat)}
    (hw : w.path = (v, u :: rest) :: way) :
    Agrees n { w with path := (v, rest) :: way } { s with work := (v, rest) :: way } :=
  { h with
    work := rfl
    links := by
      have := h.links
      rwa [hw] at this }

theorem Agrees.join (h : Agrees n w s) (hi : Inv succ n pending w) {v u : Nat} {rest : List Nat} {way : List (Nat × List Nat)}
    (hw : w.path = (v, rest) :: way) (hu : w.visit u = .held) :
    Agrees n { w with groups := Walk.joinTo u w.groups } (s.lower v (s.index u)) := by
  obtain ⟨above, g, below, hsplit, hug, hjoin⟩ := Walk.joinTo_eq (hi.held_iff.mp hu)
  have hlinks := h.links
  rw [hw] at hlinks
  exact { h with
    stack := by
      show s.stack = (Walk.joinTo u w.groups).flatMap (·.members)
      rw [hjoin, Links.flatMap_joined, ← hsplit]
      exact h.stack
    links := by
      show Links s.index _ (Walk.joinTo u w.groups) (w.path.map (·.1))
      rw [hjoin, hw]
      exact hlinks.join hsplit hug }

theorem popTo_eq {v : Nat} {upper : List Nat} (hv : v ∉ upper) (stack : List Nat) :
    popTo v (upper ++ v :: stack) = some (upper ++ [v], stack) := by
  induction upper with
  | nil => simp [popTo]
  | cons u upper ih =>
    obtain ⟨hne, hv⟩ := not_or.mp (List.mem_cons.not.mp hv)
    simp [popTo, Ne.symm hne, ih hv]

theorem lower_eq_self {u : Nat} {i : Int} (h : s.low u ≤ i) : s.lower u i = s := by
  unfold lower
  rw [min_eq_left h, Function.update_eq_self]

section Leave

variable {v : Nat} {way : List (Nat × List Nat)}

theorem handBack_cons {u : Nat} {rest : List Nat} (hwork : s.work = (u, rest) :: way) (v : Nat) :
    s.handBack v = s.lower u (s.low v) := by
  simp only [handBack, hwork]

/-- The opener of the top group is left: the stack is popped down to it, and that is the group. -/
theorem Agrees.leave_opener (h : Agrees n w s) (hi : Inv succ n w.Pending w) {g : Group} {below : List Group}
    (hw : w.path = (g.opener, []) :: way) (hg : w.groups = g :: below) :
    ∃ s', ({ s with work := way }.handBack g.opener).close g.opener = some s' ∧
      Agrees n ⟨g.members.foldl (fun visits u => visits.setIfInBounds u .placed) w.visits, below, way,
        g.members :: w.found⟩ s' := by
  have hmem : g ∈ w.groups := by rw [hg]; exact List.mem_cons_self
  have hlinks : Links s.index s.low (g :: below) (g.opener :: way.map (·.1)) := by
    simpa only [hw, hg, List.map_cons] using h.links
  have hlow : s.low g.opener = s.index g.opener := hlinks.low_opener
  -- the node below it on the way was met before, so there is nothing to hand back
  have hback : ({ s with work := way } : LowLink).handBack g.opener = { s with work := way } := by
    rcases way with _ | ⟨⟨u, rest⟩, way⟩
    · rfl
    · rw [handBack_cons rfl]
      have hu := hlinks.low_le u (by simp)
      have hlt := (List.pairwise_cons.mp hlinks.ascending).1 u (by simp)
      exact lower_eq_self (show s.low u ≤ s.low g.opener by omega)
  obtain ⟨upper, hupper⟩ := hlinks.bottom g List.mem_cons_self
  have hnotin : g.opener ∉ upper := by
    have hn := (hi.knit g hmem).nodup
    rw [hupper] at hn
    exact fun hm => (List.nodup_append.mp hn).2.2 _ hm _ List.mem_cons_self rfl
  have hstack : s.stack = upper ++ g.opener :: below.flatMap (·.members) := by
    rw [h.stack, hg, List.flatMap_cons, hupper, List.append_assoc, List.singleton_append]
  have hpop : popTo g.opener s.stack = some (g.members, below.flatMap (·.members)) := by
    rw [hstack, popTo_eq hnotin, hupper]
  refine ⟨({ s with work := way } : LowLink).place g.members (below.flatMap (·.members)), ?_, ?_⟩
  · rw [hback, close, if_pos hlow]
    show (popTo g.opener s.stack).map _ = _
    rw [hpop]
    rfl
  · exact {
      work := rfl
      found := by
        show s.found ++ [g.members] = (g.members :: w.found).reverse
        rw [h.found, List.reverse_cons]
      stack := rfl
      onStack := by
        intro u
        rw [Walk.visit_place]
        by_cases hu : u ∈ g.members
        · simp [place, hu]
        · simp [place, hu, h.onStack]
      met := by
        intro u hun
        rw [Walk.visit_place]
        by_cases hu : u ∈ g.members
        · have hheld := hi.held_iff.mpr ⟨g, hmem, hu⟩
          rw [if_pos hu]
          show s.index u = -1 ↔ _
          rw [h.met u hun, hheld]
          decide
        · rw [if_neg hu]
          exact h.met u hun
      counter := h.counter
      links := hlinks.leave_opener }

/-- A mere member of the top group is left: its low link is handed back, and it stays on the stack. -/
theorem Agrees.leave_member (h : Agrees n w s) (hi : Inv succ n w.Pending w) (hw : w.path = (v, []) :: way)
    (hne : ∀ g below, w.groups = g :: below → g.opener ≠ v) :
    ∃ s', ({ s with work := way }.handBack v).close v = some s' ∧ Agrees n { w with path := way } s' := by
  have halign := hi.aligned
  rw [hw, List.map_cons] at halign
  obtain ⟨g, below, hg, hvg⟩ := halign.top hi.knit
  have hlinks : Links s.index s.low (g :: below) (v :: way.map (·.1)) := by simpa only [hw, hg, List.map_cons] using h.links
  rw [hg] at halign
  have hopener : v ≠ g.opener := (hne g below hg).symm
  cases halign with
  | opener _ => exact absurd rfl hopener
  | member _ _ hbelow =>
    rcases way with _ | ⟨⟨u, rest⟩, way⟩
    · cases hbelow
    · rw [List.map_cons] at hlinks
      have hlt : s.low v < s.index v := hlinks.low_lt List.mem_cons_self hvg hopener
      have huv : v ≠ u := by
        intro he
        have := (List.pairwise_cons.mp hlinks.ascending).1 u List.mem_cons_self
        rw [he] at this
        omega
      have hclosed : ¬(Function.update s.low u (min (s.low u) (s.low v)) v = s.index v) := by
        rw [Function.update_of_ne huv]
        omega
      refine ⟨({ s with work := (u, rest) :: way } : LowLink).lower u (s.low v), ?_, ?_⟩
      · rw [handBack_cons rfl, close]
        exact if_neg hclosed
      · exact { h with
          work := rfl
          links := by
            show Links s.index _ w.groups (u :: way.map (·.1))
            rw [hg]
            exact hlinks.leave_member hvg }

theorem Agrees.leave (h : Agrees n w s) (hi : Inv succ n w.Pending w) (hw : w.path = (v, []) :: way) :
    ∃ s', ({ s with work := way }.handBack v).close v = some s' ∧ Agrees n ({ w with path := way }.leave v) s' := by
  rcases Walk.leave_eq { w with path := way } v with ⟨g, below, hg, rfl, he⟩ | ⟨hne, he⟩
  · rw [he]
    exact h.leave_opener hi hw hg
  · rw [he]
    exact h.leave_member hi hw hne

end Leave

theorem Agrees.step (h : Agrees n w s) (hi : Inv succ n w.Pending w) (hsucc : ∀ v < n, ∀ u ∈ succ v, u < n) (hw : w.path ≠ []) :
    ∃ s', s.step succ = some s' ∧ Agrees n (w.step succ) s' := by
  have hwork := h.work
  rcases Walk.step_cases succ w with ⟨he, -⟩ | ⟨v, way, hv, hs⟩ | ⟨v, u, rest, way, hv, hs⟩
  · exact absurd he hw
  · rw [hs]
    rw [hv] at hwork
    simp only [LowLink.step, hwork]
    exact h.leave hi hv
  · rw [hv] at hwork
    have htake := h.take hv
    obtain ⟨hi', hvu, -⟩ := hi.take hv
    have hun : u < n := by
      obtain ⟨g, hg, hvg⟩ := hi.aligned.mem hi.knit (show v ∈ w.path.map (·.1) by rw [hv]; exact List.mem_cons_self)
      exact hsucc v (hi.lt_of_mem hg hvg) u hvu
    simp only [LowLink.step, hwork]
    rcases hs with ⟨hu, hs⟩ | ⟨hu, hs⟩ | ⟨hu, hs⟩
    · have hnew : s.index u = -1 := (h.met u hun).mpr hu
      rw [hs, if_pos hnew]
      exact ⟨_, rfl, htake.enter hi' hu (succ u)⟩
    · have hmet : s.index u ≠ -1 := by
        rw [ne_eq, h.met u hun, hu]
        decide
      rw [hs, if_neg hmet, if_pos ((h.onStack u).mpr hu)]
      exact ⟨_, rfl, htake.join hi' rfl hu⟩
    · have hmet : s.index u ≠ -1 := by
        rw [ne_eq, h.met u hun, hu]
        decide
      have hoff : ¬s.onStack u = true := by
        rw [h.onStack u, hu]
        decide
      rw [hs, if_neg hmet, if_neg hoff]
      exact ⟨_, rfl, htake⟩

/-! ## Whole runs -/

/-- Where the walk of groups comes to the end of its way, so does the loop. -/
theorem Agrees.ends (h : Agrees n w s) (hi : Inv succ n w.Pending w) (hsucc : ∀ v < n, ∀ u ∈ succ v, u < n) {budget : Nat}
    (hend : (w.run succ budget).path = []) : ∃ t, Ends succ s t ∧ Agrees n (w.run succ budget) t := by
  induction budget generalizing w s with
  | zero => exact ⟨s, .done (h.work.trans hend), h⟩
  | succ budget ih =>
    unfold Walk.run at hend ⊢
    by_cases hw : w.path = []
    · rw [if_pos (List.isEmpty_iff.mpr hw)]
      exact ⟨s, .done (h.work.trans hw), h⟩
    · rw [if_neg (by simpa using hw)] at hend ⊢
      obtain ⟨s', hs, h'⟩ := h.step hi hsucc hw
      obtain ⟨t, hends, ht⟩ := ih h' (hi.step hsucc) hend
      exact ⟨t, .step (by rwa [h.work]) hs hends, ht⟩

theorem Agrees.visits (h : Agrees n w s) (hi : Inv succ n w.Pending w) (hsucc : ∀ v < n, ∀ u ∈ succ v, u < n) (hw : w.path = [])
    {roots : List Nat} (hroots : ∀ root ∈ roots, root < n) :
    ∃ t, Visits succ roots s t ∧ Agrees n (roots.foldl (Walk.walkFrom succ (walkBudget n succ)) w) t := by
  induction roots generalizing w s with
  | nil => exact ⟨s, .nil, h⟩
  | cons root roots ih =>
    have hroot : s.index root = -1 ↔ w.visit root = .unseen := h.met root (hroots root List.mem_cons_self)
    have hrest : ∀ r ∈ roots, r < n := fun r hr => hroots r (List.mem_cons_of_mem _ hr)
    obtain ⟨hi', hend, -⟩ := Walk.walkFrom_spec hsucc hi hw root
    rw [List.foldl_cons]
    by_cases hv : w.visit root = .unseen
    · have hfrom : w.walkFrom succ (walkBudget n succ) root = (w.enter root (succ root)).run succ (walkBudget n succ) := by
        simp only [Walk.walkFrom, hv]
      rw [hfrom] at hend hi' ⊢
      obtain ⟨s', hs', h'⟩ := (h.enter hi hv (succ root)).ends (hi.enter_root hw hv) hsucc hend
      obtain ⟨t, ht, h''⟩ := ih h' hi' hend hrest
      exact ⟨t, .walk (hroot.mpr hv) hs' ht, h''⟩
    · have hfrom : w.walkFrom succ (walkBudget n succ) root = w := by
        unfold Walk.walkFrom
        split
        · rename_i hunseen
          exact absurd hunseen hv
        · rfl
      obtain ⟨t, ht, h''⟩ := ih h hi hw hrest
      rw [hfrom]
      exact ⟨t, .met (fun hnew => hv (hroot.mp hnew)) ht, h''⟩

/-- The loops end, and always with the components that the walk of groups finds. -/
theorem returns_iff (hsucc : ∀ v < n, ∀ u ∈ succ v, u < n) {found : List (List Nat)} :
    Returns n succ found ↔ found = components n succ := by
  obtain ⟨t, ht, h⟩ := (start_agrees n).visits (Walk.start_inv succ n) hsucc rfl fun root hr => List.mem_range.mp hr
  constructor
  · rintro ⟨t', ht', rfl⟩
    rw [← ht.unique ht']
    exact h.found
  · rintro rfl
    exact ⟨t, ht, h.found⟩

end LowLink

/-! ## The components of a graph -/

/-- The loops end, in one way. Each node is in one component, once; two nodes are in the same
exactly if each is reached from the other; and an edge between two components leads to the one
found first. -/
theorem components_sinks_first (n : Nat) (succ : Nat → List Nat) (hsucc : ∀ v < n, ∀ u ∈ succ v, u < n) :
    (∀ found, LowLink.Returns n succ found ↔ found = components n succ) ∧
    (components n succ).flatten.Perm (List.range n) ∧
    (∀ x < n, ∀ y < n, (∃ c ∈ components n succ, x ∈ c ∧ y ∈ c) ↔ Leads succ x y ∧ Leads succ y x) ∧
    ∀ c ∈ components n succ, ∀ d ∈ components n succ, c ≠ d → ∀ x ∈ c, ∀ y ∈ d, y ∈ succ x →
      [d, c].Sublist (components n succ) := by
  refine ⟨fun found => LowLink.returns_iff hsucc, components_perm hsucc, fun x hx y hy => ⟨?_, fun h => ?_⟩, ?_⟩
  · rintro ⟨c, hc, hxc, hyc⟩
    exact (mem_components_iff hsucc hc hxc hy).mp hyc
  · obtain ⟨c, hc, hxc⟩ := exists_mem_component hsucc hx
    exact ⟨c, hc, hxc, (mem_components_iff hsucc hc hxc hy).mpr h⟩
  · intro c hc d hd hne x hx y hy hxy
    exact components_order hsucc hc hd hne hx hy hxy

/-- A cycle entered from two sides, an edge in twice, a loop, and an edge across to what is already placed. -/
def crossed : Nat → List Nat
  | 0 => [1, 1]
  | 1 => [2]
  | 2 => [0, 3, 1]
  | 3 => [3, 4]
  | 5 => [4, 2]
  | _ => []

theorem crossed_components :
    (∀ v < 6, ∀ u ∈ crossed v, u < 6) ∧ LowLink.Returns 6 crossed [[4], [3], [2, 1, 0], [5]] ∧
      (Leads crossed 1 0 ∧ Leads crossed 0 1) ∧ ¬(Leads crossed 3 0 ∧ Leads crossed 0 3) ∧
      [[3], [2, 1, 0]].Sublist [[4], [3], [2, 1, 0], [5]] := by
  have hsucc : ∀ v < 6, ∀ u ∈ crossed v, u < 6 := by decide
  have hfound : components 6 crossed = [[4], [3], [2, 1, 0], [5]] := by decide
  obtain ⟨hloops, -, hsame, horder⟩ := components_sinks_first 6 crossed hsucc
  rw [hfound] at hloops hsame horder
  refine ⟨hsucc, (hloops _).mpr rfl, (hsame 1 (by decide) 0 (by decide)).mp (by decide), ?_, ?_⟩
  · intro h
    exact absurd ((hsame 3 (by decide) 0 (by decide)).mpr h) (by decide)
  · exact horder [2, 1, 0] (by decide) [3] (by decide) (by decide) 2 (by decide) 3 (by decide) (by decide)

end TypeRecovery
