/-
  TypeRecovery.Proofs.Components.LowLink — the components by low links.

  Tarjan's walk numbers the nodes in the order it meets them and keeps those not yet placed on
  one stack. Each node on the way has a low link, the least number of a node on the stack that
  an edge from it or from a node left above it has been seen to lead to. A node that is left
  with its own number for a low link is popped, with all above it, as a component. None of the
  loops has a bound, and a pop from an empty stack would fail.

  The stack of `Walk` is the same one, cut into groups, each with its opener at the bottom. No
  low link on the way is less than the number of the opener of its group; and from every other
  node of a group the way goes on to one, perhaps itself, whose low link is less than the node's
  number (`Links`). So a node is left with its own number for a low link exactly if it is an opener.

  Proved:
  - `Ends.unique`, `Visits.unique`: the loops end in one way at most.
  - `Links.enter`, `Links.join`, `Links.leave_member`, `Links.leave_opener`: each kind of step keeps the links.
  - `Links.low_opener`, `Links.low_lt`: with what low link a node is left.
-/

import Mathlib.Logic.Function.Basic
import TypeRecovery.Proofs.Components.Correct

namespace TypeRecovery

structure LowLink where
  /-- The number of a node, `-1` before it is met. -/
  index : Nat → Int
  low : Nat → Int
  onStack : Nat → Bool
  /-- The node met last first. -/
  stack : List Nat
  /-- The nodes on the way from the root, the last first, each with the edges still to follow. -/
  work : List (Nat × List Nat)
  /-- Components in the order they are found. -/
  found : List (List Nat)
  counter : Int

namespace LowLink

def start : LowLink := ⟨fun _ => -1, fun _ => 0, fun _ => false, [], [], [], 0⟩

def enter (s : LowLink) (v : Nat) (successors : List Nat) : LowLink where
  index := Function.update s.index v s.counter
  low := Function.update s.low v s.counter
  onStack := Function.update s.onStack v true
  stack := v :: s.stack
  work := (v, successors) :: s.work
  found := s.found
  counter := s.counter + 1

def lower (s : LowLink) (v : Nat) (i : Int) : LowLink := { s with low := Function.update s.low v (min (s.low v) i) }

/-- What is popped down to a node, and what stays; nothing if the node is not on the stack. -/
def popTo (v : Nat) : List Nat → Option (List Nat × List Nat)
  | [] => none
  | u :: stack => if u = v then some ([u], stack) else (popTo v stack).map fun (popped, rest) => (u :: popped, rest)

/-- A node that is left hands its low link to the one before it on the way. -/
def handBack (s : LowLink) (v : Nat) : LowLink :=
  match s.work with
  | [] => s
  | (u, _) :: _ => s.lower u (s.low v)

/-- Moves what is popped to the components. -/
def place (s : LowLink) (popped rest : List Nat) : LowLink :=
  { s with
    onStack := fun u => s.onStack u && !popped.contains u
    stack := rest
    found := s.found ++ [popped] }

def close (s : LowLink) (v : Nat) : Option LowLink :=
  if s.low v = s.index v then (popTo v s.stack).map fun (popped, rest) => s.place popped rest else some s

def step (succ : Nat → List Nat) (s : LowLink) : Option LowLink :=
  match s.work with
  | [] => some s
  | (v, []) :: work => ({ s with work := work }.handBack v).close v
  | (v, u :: rest) :: work =>
    let s := { s with work := (v, rest) :: work }
    if s.index u = -1 then some (s.enter u (succ u))
    else if s.onStack u then some (s.lower v (s.index u))
    else some s

/-- The loop from one point ends at another, with an empty way. -/
inductive Ends (succ : Nat → List Nat) : LowLink → LowLink → Prop
  | done {s : LowLink} : s.work = [] → Ends succ s s
  | step {s s' t : LowLink} : s.work ≠ [] → s.step succ = some s' → Ends succ s' t → Ends succ s t

/-- The same of the loop over roots, which walks from each that has not been met. -/
inductive Visits (succ : Nat → List Nat) : List Nat → LowLink → LowLink → Prop
  | nil {s : LowLink} : Visits succ [] s s
  | met {root : Nat} {roots : List Nat} {s t : LowLink} : s.index root ≠ -1 → Visits succ roots s t →
      Visits succ (root :: roots) s t
  | walk {root : Nat} {roots : List Nat} {s s' t : LowLink} : s.index root = -1 → Ends succ (s.enter root (succ root)) s' →
      Visits succ roots s' t → Visits succ (root :: roots) s t

/-- All loops end, with these components. -/
def Returns (n : Nat) (succ : Nat → List Nat) (found : List (List Nat)) : Prop :=
  ∃ t, Visits succ (List.range n) start t ∧ t.found = found

theorem Ends.unique {succ : Nat → List Nat} {s t t' : LowLink} (h : Ends succ s t) (h' : Ends succ s t') : t = t' := by
  induction h with
  | done hw =>
    cases h' with
    | done _ => rfl
    | step hne _ _ => exact absurd hw hne
  | step hne hs _ ih =>
    cases h' with
    | done hw => exact absurd hw hne
    | step _ hs' h' =>
      cases hs.symm.trans hs'
      exact ih h'

theorem Visits.unique {succ : Nat → List Nat} {roots : List Nat} {s t t' : LowLink} (h : Visits succ roots s t)
    (h' : Visits succ roots s t') : t = t' := by
  induction h with
  | nil => cases h'; rfl
  | met hmet _ ih =>
    cases h' with
    | met _ h' => exact ih h'
    | walk hnew _ _ => exact absurd hnew hmet
  | walk hnew hends _ ih =>
    cases h' with
    | met hmet _ => exact absurd hnew hmet
    | walk _ hends' h' =>
      cases hends.unique hends'
      exact ih h'

/-! ## The links of a way -/

/-- `index` and `low` on the groups of a stack and the way through them, both with their tops first. -/
structure Links (index low : Nat → Int) (groups : List Group) (way : List Nat) : Prop where
  ordered : (groups.flatMap (·.members)).Pairwise fun upper lower => index lower < index upper
  ascending : way.Pairwise fun upper lower => index lower < index upper
  bottom : ∀ g ∈ groups, ∃ upper, g.members = upper ++ [g.opener]
  low_le : ∀ v ∈ way, low v ≤ index v
  le_low : ∀ g ∈ groups, ∀ v ∈ way, v ∈ g.members → index g.opener ≤ low v
  sinks : ∀ g ∈ groups, ∀ v ∈ way, v ∈ g.members → v ≠ g.opener → ∃ x ∈ way, index v ≤ index x ∧ low x < index v

namespace Links

variable {index low : Nat → Int} {groups : List Group} {way : List Nat}

theorem opener_mem (h : Links index low groups way) {g : Group} (hg : g ∈ groups) : g.opener ∈ g.members := by
  obtain ⟨upper, hupper⟩ := h.bottom g hg
  rw [hupper]
  exact List.mem_append_right _ List.mem_cons_self

/-- The opener of a group was met before its other members. -/
theorem opener_le (h : Links index low groups way) {g : Group} (hg : g ∈ groups) {v : Nat} (hv : v ∈ g.members) :
    index g.opener ≤ index v := by
  obtain ⟨upper, hupper⟩ := h.bottom g hg
  have hmembers := (List.pairwise_flatMap.mp h.ordered).1 g hg
  rw [hupper] at hmembers hv
  rcases List.mem_append.mp hv with hv | hv
  · have := (List.pairwise_append.mp hmembers).2.2 v hv g.opener List.mem_cons_self
    omega
  · rw [List.mem_singleton.mp hv]

/-- The node reached last was met last of those on the way. -/
theorem le_top {v : Nat} (h : Links index low groups (v :: way)) {x : Nat} (hx : x ∈ v :: way) : index x ≤ index v := by
  rcases List.mem_cons.mp hx with rfl | hx
  · exact Int.le_refl _
  · exact Int.le_of_lt ((List.pairwise_cons.mp h.ascending).1 x hx)

/-- Of two nodes the one in the upper group was met later. -/
theorem lt_of_groups (h : Links index low groups way) {above below : List Group} {g : Group}
    (hsplit : groups = above ++ g :: below) {u : Nat} (hu : u ∈ g.members) :
    (∀ k ∈ above, ∀ x ∈ k.members, index u < index x) ∧ ∀ k ∈ below, ∀ x ∈ k.members, index x < index u := by
  have hgroups := (List.pairwise_flatMap.mp h.ordered).2
  rw [hsplit] at hgroups
  obtain ⟨-, hbelow, habove⟩ := List.pairwise_append.mp hgroups
  refine ⟨fun k hk x hx => habove k hk g List.mem_cons_self x hx u hu, fun k hk x hx => ?_⟩
  exact (List.pairwise_cons.mp hbelow).1 k hk u hu x hx

/-- The links are those of the nodes on the stack. -/
theorem congr (h : Links index low groups way) {index' low' : Nat → Int} (hway : ∀ v ∈ way, ∃ g ∈ groups, v ∈ g.members)
    (hindex : ∀ g ∈ groups, ∀ v ∈ g.members, index' v = index v) (hlow : ∀ v ∈ way, low' v = low v) :
    Links index' low' groups way := by
  have hindexWay : ∀ v ∈ way, index' v = index v := by
    intro v hv
    obtain ⟨g, hg, hvg⟩ := hway v hv
    exact hindex g hg v hvg
  have hindexStack : ∀ v ∈ groups.flatMap (·.members), index' v = index v := by
    intro v hv
    obtain ⟨g, hg, hvg⟩ := List.mem_flatMap.mp hv
    exact hindex g hg v hvg
  have hopener : ∀ g ∈ groups, index' g.opener = index g.opener := fun g hg => hindex g hg _ (h.opener_mem hg)
  refine ⟨h.ordered.imp_of_mem ?_, h.ascending.imp_of_mem ?_, h.bottom, ?_, ?_, ?_⟩
  · intro upper lower hupper hlower hlt
    rwa [hindexStack upper hupper, hindexStack lower hlower]
  · intro upper lower hupper hlower hlt
    rwa [hindexWay upper hupper, hindexWay lower hlower]
  · intro v hv
    rw [hlow v hv, hindexWay v hv]
    exact h.low_le v hv
  · intro g hg v hv hvg
    rw [hopener g hg, hlow v hv]
    exact h.le_low g hg v hv hvg
  · intro g hg v hv hvg hne
    obtain ⟨x, hx, hvx, hlt⟩ := h.sinks g hg v hv hvg hne
    refine ⟨x, hx, ?_, ?_⟩
    · rwa [hindexWay v hv, hindexWay x hx]
    · rwa [hindexWay v hv, hlow x hx]

/-- A node that is met gets the next number, for a low link too. -/
theorem enter (h : Links index low groups way) (hway : ∀ v ∈ way, ∃ g ∈ groups, v ∈ g.members) {v : Nat}
    (hv : ∀ g ∈ groups, v ∉ g.members) {c : Int} (hc : ∀ u, index u < c) :
    Links (Function.update index v c) (Function.update low v c) (⟨v, [v]⟩ :: groups) (v :: way) := by
  have hne : ∀ g ∈ groups, ∀ u ∈ g.members, u ≠ v := fun g hg u hu he => hv g hg (he ▸ hu)
  have hneWay : ∀ u ∈ way, u ≠ v := by
    intro u hu
    obtain ⟨g, hg, hug⟩ := hway u hu
    exact hne g hg u hug
  have hold : Links (Function.update index v c) (Function.update low v c) groups way :=
    h.congr hway (fun g hg u hu => Function.update_of_ne (hne g hg u hu) ..) fun u hu => Function.update_of_ne (hneWay u hu) ..
  have hnew : ∀ u, u ≠ v → Function.update index v c u < Function.update index v c v := by
    intro u hu
    rw [Function.update_of_ne hu, Function.update_self]
    exact hc u
  refine ⟨?_, ?_, ?_, ?_, ?_, ?_⟩
  · refine List.pairwise_cons.mpr ⟨fun u hu => ?_, hold.ordered⟩
    obtain ⟨g, hg, hug⟩ := List.mem_flatMap.mp hu
    exact hnew u (hne g hg u hug)
  · exact List.pairwise_cons.mpr ⟨fun u hu => hnew u (hneWay u hu), hold.ascending⟩
  · exact List.forall_mem_cons.mpr ⟨⟨[], rfl⟩, hold.bottom⟩
  · refine List.forall_mem_cons.mpr ⟨?_, hold.low_le⟩
    rw [Function.update_self, Function.update_self]
  · intro g hg u hu hug
    rcases List.mem_cons.mp hg with rfl | hg
    · cases List.mem_singleton.mp hug
      show Function.update index v c v ≤ _
      rw [Function.update_self, Function.update_self]
    · exact hold.le_low g hg u ((List.mem_cons.mp hu).resolve_left (hne g hg u hug)) hug
  · intro g hg u hu hug hopener
    rcases List.mem_cons.mp hg with rfl | hg
    · exact absurd (List.mem_singleton.mp hug) hopener
    · have hu := (List.mem_cons.mp hu).resolve_left (hne g hg u hug)
      obtain ⟨x, hx, hxu, hlt⟩ := hold.sinks g hg u hu hug hopener
      exact ⟨x, List.mem_cons_of_mem _ hx, hxu, hlt⟩

/-- A low link may be lowered as far as the number of the opener. -/
theorem lowered (h : Links index low groups way) {low' : Nat → Int} (hle : ∀ v, low' v ≤ low v)
    (hlow : ∀ g ∈ groups, ∀ v ∈ way, v ∈ g.members → index g.opener ≤ low' v) : Links index low' groups way where
  ordered := h.ordered
  ascending := h.ascending
  bottom := h.bottom
  low_le v hv := (hle v).trans (h.low_le v hv)
  le_low := hlow
  sinks g hg v hv hvg hne := by
    obtain ⟨x, hx, hvx, hlt⟩ := h.sinks g hg v hv hvg hne
    exact ⟨x, hx, hvx, (hle x).trans_lt hlt⟩

theorem update_min_le (low : Nat → Int) (v : Nat) (i : Int) (u : Nat) : Function.update low v (min (low v) i) u ≤ low u := by
  by_cases hu : u = v
  · subst hu
    rw [Function.update_self]
    omega
  · rw [Function.update_of_ne hu]

theorem le_update_min {low : Nat → Int} {b : Int} {u : Nat} (h : b ≤ low u) {i : Int} (hi : b ≤ i) (v : Nat) :
    b ≤ Function.update low v (min (low v) i) u := by
  by_cases hu : u = v
  · subst hu
    rw [Function.update_self]
    omega
  · rwa [Function.update_of_ne hu]

/-- A mere member of its group is left with a low link less than its number. -/
theorem low_lt {v : Nat} (h : Links index low groups (v :: way)) {g : Group} (hg : g ∈ groups) (hv : v ∈ g.members)
    (hne : v ≠ g.opener) : low v < index v := by
  obtain ⟨x, hx, hvx, hlt⟩ := h.sinks g hg v List.mem_cons_self hv hne
  rcases List.mem_cons.mp hx with rfl | hx
  · exact hlt
  · have := (List.pairwise_cons.mp h.ascending).1 x hx
    omega

/-- The opener of the top group is left with its own number. -/
theorem low_opener {g : Group} {below : List Group} (h : Links index low (g :: below) (g.opener :: way)) :
    low g.opener = index g.opener := by
  have hle := h.low_le g.opener List.mem_cons_self
  have hlow := h.le_low g List.mem_cons_self g.opener List.mem_cons_self (h.opener_mem List.mem_cons_self)
  omega

/-- Way and groups without the node that is left, if the one below it has taken over its low link. -/
theorem leave {v u : Nat} (h : Links index low groups (v :: u :: way)) (hlow : low u ≤ low v) :
    Links index low groups (u :: way) where
  ordered := h.ordered
  ascending := h.ascending.of_cons
  bottom := h.bottom
  low_le x hx := h.low_le x (List.mem_cons_of_mem _ hx)
  le_low g hg x hx hxg := h.le_low g hg x (List.mem_cons_of_mem _ hx) hxg
  sinks g hg y hy hyg hne := by
    obtain ⟨x, hx, hyx, hlt⟩ := h.sinks g hg y (List.mem_cons_of_mem _ hy) hyg hne
    rcases List.mem_cons.mp hx with rfl | hx
    · refine ⟨u, List.mem_cons_self, ?_, by omega⟩
      rcases List.mem_cons.mp hy with rfl | hy
      · exact Int.le_refl _
      · exact Int.le_of_lt ((List.pairwise_cons.mp h.ascending.of_cons).1 y hy)
    · exact ⟨x, hx, hyx, hlt⟩

theorem leave_member {g : Group} {below : List Group} {v u : Nat} (h : Links index low (g :: below) (v :: u :: way))
    (hv : v ∈ g.members) : Links index (Function.update low u (min (low u) (low v))) (g :: below) (u :: way) := by
  have hg : g ∈ g :: below := List.mem_cons_self
  have hvlow : index g.opener ≤ low v := h.le_low g hg v List.mem_cons_self hv
  have hne : v ≠ u := fun he => by
    have := (List.pairwise_cons.mp h.ascending).1 u List.mem_cons_self
    rw [he] at this
    omega
  have hlowered : Links index (Function.update low u (min (low u) (low v))) (g :: below) (v :: u :: way) := by
    refine h.lowered (update_min_le low u (low v)) fun k hk x hx hxk => le_update_min (h.le_low k hk x hx hxk) ?_ u
    rcases List.mem_cons.mp hk with rfl | hk
    · exact hvlow
    · have := (h.lt_of_groups (List.nil_append _).symm (h.opener_mem hg)).2 k hk _ (h.opener_mem (List.mem_cons_of_mem _ hk))
      omega
  refine hlowered.leave ?_
  rw [Function.update_self, Function.update_of_ne hne]
  omega

/-- Nothing below hangs on the opener of the group above. -/
theorem leave_opener {g : Group} {below : List Group} (h : Links index low (g :: below) (g.opener :: way)) :
    Links index low below way where
  ordered := (List.pairwise_append.mp h.ordered).2.1
  ascending := h.ascending.of_cons
  bottom k hk := h.bottom k (List.mem_cons_of_mem _ hk)
  low_le x hx := h.low_le x (List.mem_cons_of_mem _ hx)
  le_low k hk x hx hxk := h.le_low k (List.mem_cons_of_mem _ hk) x (List.mem_cons_of_mem _ hx) hxk
  sinks k hk y hy hyk hne := by
    obtain ⟨x, hx, hyx, hlt⟩ := h.sinks k (List.mem_cons_of_mem _ hk) y (List.mem_cons_of_mem _ hy) hyk hne
    rcases List.mem_cons.mp hx with rfl | hx
    · have hlow := h.low_opener
      omega
    · exact ⟨x, hx, hyx, hlt⟩

theorem flatMap_joined (above : List Group) (g : Group) (below : List Group) :
    (Walk.joined above g :: below).flatMap (·.members) = (above ++ g :: below).flatMap (·.members) := by
  simp [Walk.joined, List.flatMap_append]

/-- The node at the top of the way sees a node on the stack: the groups down to that one's have one opener from now on. -/
theorem join {above below : List Group} {g : Group} {v u : Nat} (h : Links index low groups (v :: way))
    (hsplit : groups = above ++ g :: below) (hu : u ∈ g.members) :
    Links index (Function.update low v (min (low v) (index u))) (Walk.joined above g :: below) (v :: way) := by
  have hmem : ∀ k, k ∈ above ∨ k = g ∨ k ∈ below → k ∈ groups := by
    intro k hk
    rw [hsplit]
    simpa using hk
  obtain ⟨habove, hbelow⟩ := h.lt_of_groups hsplit hu
  have hopener : index g.opener ≤ index u := h.opener_le (hmem g (by simp)) hu
  refine ⟨?_, h.ascending, ?_, ?_, ?_, ?_⟩
  · rw [flatMap_joined, ← hsplit]
    exact h.ordered
  · refine List.forall_mem_cons.mpr ⟨?_, fun k hk => h.bottom k (hmem k (by simp [hk]))⟩
    obtain ⟨upper, hupper⟩ := h.bottom g (hmem g (by simp))
    refine ⟨above.flatMap (·.members) ++ upper, ?_⟩
    simp [Walk.joined, List.flatMap_append, hupper]
  · exact fun x hx => (update_min_le low v _ x).trans (h.low_le x hx)
  · intro k hk x hx hxk
    rcases List.mem_cons.mp hk with rfl | hk
    · obtain ⟨k, hk, hxk⟩ := Walk.mem_joined.mp hxk
      refine le_update_min ?_ hopener v
      rcases List.mem_append.mp hk with hk | hk
      · have hk' := hmem k (by simp [hk])
        have hlow := h.le_low k hk' x hx hxk
        have := (h.lt_of_groups hsplit (h.opener_mem (hmem g (by simp)))).1 k hk _ (h.opener_mem hk')
        show index g.opener ≤ low x
        omega
      · cases List.mem_singleton.mp hk
        exact h.le_low g (hmem g (by simp)) x hx hxk
    · have hk' := hmem k (by simp [hk])
      have := hbelow k hk _ (h.opener_mem hk')
      exact le_update_min (h.le_low k hk' x hx hxk) (by omega) v
  · -- whatever the way has above it in the groups joined, it now also has the node at the top
    have hold : ∀ k ∈ groups, ∀ y ∈ v :: way, y ∈ k.members → y ≠ k.opener →
        ∃ x ∈ v :: way, index y ≤ index x ∧ Function.update low v (min (low v) (index u)) x < index y := by
      intro k hk y hy hyk hne
      obtain ⟨x, hx, hyx, hlt⟩ := h.sinks k hk y hy hyk hne
      exact ⟨x, hx, hyx, (update_min_le low v _ x).trans_lt hlt⟩
    intro k hk y hy hyk hne
    rcases List.mem_cons.mp hk with rfl | hk
    · obtain ⟨k, hk, hyk⟩ := Walk.mem_joined.mp hyk
      rcases List.mem_append.mp hk with hk | hk
      · refine ⟨v, List.mem_cons_self, h.le_top hy, ?_⟩
        have := habove k hk y hyk
        rw [Function.update_self]
        omega
      · cases List.mem_singleton.mp hk
        exact hold g (hmem g (by simp)) y hy hyk hne
    · exact hold k (hmem k (by simp [hk])) y hy hyk hne

end Links

end LowLink

end TypeRecovery
