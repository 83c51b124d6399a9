/-
  TypeRecovery.Proofs.Components.Walk — what the walk for components keeps.

  The nodes met and not placed are divided into groups. Around its opener each group is
  strongly connected (`Knit`). Of two groups the lower leads to the upper, and no edge that
  has been followed leads down again (`Stacked`). The way from the root passes the groups
  from the bottom to the top, entering each at its opener (`Aligned`). So when the opener of
  the top group is left, all edges of the group have been followed, and they end in the
  group itself or in components: the group is a component, and none found before it reaches it.

  Proved:
  - `Inv.enter`, `Inv.skip`, `Inv.join`, `Inv.leave`: each kind of step keeps the invariant.
  - `Inv.step`: so does a step.
-/

import Mathlib.Data.List.Nodup
import Mathlib.Data.List.TakeWhile
import Mathlib.Logic.Relation
import TypeRecovery.Components

namespace TypeRecovery

theorem getElem?_foldl_set {α : Type} (is : List Nat) (x : α) (a : Array α) (j : Nat) :
    (is.foldl (fun a i => a.setIfInBounds i x) a)[j]? = if j ∈ is ∧ j < a.size then some x else a[j]? := by
  induction is generalizing a with
  | nil => simp
  | cons i is ih =>
    rw [List.foldl_cons, ih, Array.size_setIfInBounds, Array.getElem?_setIfInBounds]
    by_cases hj : j < a.size <;> by_cases hi : i = j <;> by_cases hm : j ∈ is <;> simp_all [eq_comm]

theorem size_foldl_set {α : Type} (is : List Nat) (x : α) (a : Array α) :
    (is.foldl (fun a i => a.setIfInBounds i x) a).size = a.size := by
  induction is generalizing a with
  | nil => rfl
  | cons i is ih => rw [List.foldl_cons, ih, Array.size_setIfInBounds]

/-- A walk along edges, of any length. -/
def Leads (succ : Nat → List Nat) : Nat → Nat → Prop := Relation.ReflTransGen fun v u => u ∈ succ v

namespace Leads

variable {succ : Nat → List Nat}

theorem refl (v : Nat) : Leads succ v v := Relation.ReflTransGen.refl

theorem trans {u v w : Nat} (h : Leads succ u v) (h' : Leads succ v w) : Leads succ u w :=
  Relation.ReflTransGen.trans h h'

theorem edge {v u : Nat} (h : u ∈ succ v) : Leads succ v u := Relation.ReflTransGen.single h

/-- A walk does not leave a set that no edge leaves. -/
theorem stays {P : Nat → Prop} (hP : ∀ v, P v → ∀ u ∈ succ v, P u) {v u : Nat} (h : Leads succ v u) (hv : P v) : P u := by
  induction h with
  | refl => exact hv
  | tail _ hu ih => exact hP _ ih _ hu

end Leads

namespace Walk

/-- The edge from `x` to `y` has not been followed. -/
def Pending (w : Walk) (x y : Nat) : Prop := ∃ rest, (x, rest) ∈ w.path ∧ y ∈ rest

structure Knit (succ : Nat → List Nat) (g : Group) : Prop where
  opener_mem : g.opener ∈ g.members
  nodup : g.members.Nodup
  leads {x : Nat} : x ∈ g.members → Leads succ g.opener x
  back {x : Nat} : x ∈ g.members → Leads succ x g.opener

structure Stacked (succ : Nat → List Nat) (pending : Nat → Nat → Prop) (upper lower : Group) : Prop where
  disjoint : upper.members.Disjoint lower.members
  leads : Leads succ lower.opener upper.opener
  ascends : ∀ x ∈ upper.members, ∀ y ∈ lower.members, y ∈ succ x → pending x y

/-- The way, its top first, passes each group between the first node it meets there and the opener. -/
inductive Aligned : List Group → List Nat → Prop
  | nil : Aligned [] []
  | opener {g : Group} {below : List Group} {way : List Nat} : Aligned below way →
      Aligned (g :: below) (g.opener :: way)
  | member {g : Group} {below : List Group} {v : Nat} {way : List Nat} : v ∈ g.members → v ≠ g.opener →
      Aligned (g :: below) way → Aligned (g :: below) (v :: way)

/-- Components, the latest first: strongly connected, and reaching none found later. -/
structure Placed (succ : Nat → List Nat) (found : List (List Nat)) : Prop where
  nodup : found.flatten.Nodup
  nonempty : ∀ c ∈ found, c ≠ []
  strong : ∀ c ∈ found, ∀ x ∈ c, ∀ y ∈ c, Leads succ x y
  closed : ∀ x ∈ found.flatten, ∀ y ∈ succ x, y ∈ found.flatten
  order : found.Pairwise fun later earlier => ∀ x ∈ earlier, ∀ y ∈ succ x, y ∉ later

/-- `pending` are the edges that need not have been followed. -/
structure Inv (succ : Nat → List Nat) (n : Nat) (pending : Nat → Nat → Prop) (w : Walk) : Prop where
  size : w.visits.size = n
  held_iff {v : Nat} : w.visit v = .held ↔ ∃ g ∈ w.groups, v ∈ g.members
  placed_iff {v : Nat} : v < n → (w.visit v = .placed ↔ v ∈ w.found.flatten)
  found_lt : ∀ v ∈ w.found.flatten, v < n
  knit : ∀ g ∈ w.groups, Knit succ g
  stacked : w.groups.Pairwise (Stacked succ pending)
  aligned : Aligned w.groups (w.path.map (·.1))
  followed : ∀ g ∈ w.groups, ∀ x ∈ g.members, ∀ y ∈ succ x, pending x y ∨ w.visit y ≠ .unseen
  waits {x y : Nat} : w.Pending x y → y ∈ succ x
  found : Placed succ w.found

variable {succ : Nat → List Nat} {n : Nat} {pending pending' : Nat → Nat → Prop} {w : Walk}

/-! ## Visits -/

theorem lt_of_visit {v : Nat} (h : w.visit v ≠ .placed) : v < w.visits.size := by
  by_contra hv
  exact h (by simp [visit, hv])

theorem visit_enter (v : Nat) (s : List Nat) (u : Nat) :
    (w.enter v s).visit u = if u = v ∧ v < w.visits.size then .held else w.visit u := by
  show ((w.visits.setIfInBounds v .held)[u]?).getD .placed = _
  rw [Array.getElem?_setIfInBounds]
  by_cases hu : v = u
  · subst hu
    by_cases hv : v < w.visits.size <;> simp [hv, visit]
  · simp [hu, Ne.symm hu, visit]

theorem leave_eq (w : Walk) (v : Nat) : (∃ g below, w.groups = g :: below ∧ g.opener = v ∧
    w.leave v = ⟨g.members.foldl (fun visits u => visits.setIfInBounds u .placed) w.visits, below, w.path,
      g.members :: w.found⟩) ∨ (∀ g below, w.groups = g :: below → g.opener ≠ v) ∧ w.leave v = w := by
  obtain ⟨visits, _ | ⟨g, below⟩, way, found⟩ := w
  · exact Or.inr ⟨fun _ _ h => (nomatch h), rfl⟩
  · by_cases hg : g.opener = v
    · exact Or.inl ⟨g, below, rfl, hg, by simp [leave, hg]⟩
    · refine Or.inr ⟨fun _ _ h => by cases h; exact hg, by simp [leave, hg]⟩

theorem visit_place (us : List Nat) (groups : List Group) (way : List (Nat × List Nat)) (found : List (List Nat))
    (u : Nat) :
    (⟨us.foldl (fun visits u => visits.setIfInBounds u .placed) w.visits, groups, way, found⟩ : Walk).visit u =
      if u ∈ us then .placed else w.visit u := by
  show ((us.foldl (fun visits u => visits.setIfInBounds u .placed) w.visits)[u]?).getD .placed = _
  rw [getElem?_foldl_set]
  by_cases hu : u ∈ us <;> by_cases hlt : u < w.visits.size <;> simp [hu, hlt, visit]

/-! ## The stack of groups -/

theorem Stacked.mono {upper lower : Group} (h : Stacked succ pending upper lower)
    (hp : ∀ x, ∀ y ∈ lower.members, pending x y → pending' x y) : Stacked succ pending' upper lower :=
  ⟨h.disjoint, h.leads, fun x hx y hy hxy => hp x y hy (h.ascends x hx y hy hxy)⟩

/-- The node that the way has reached is in the top group. -/
theorem Aligned.top {groups : List Group} {v : Nat} {way : List Nat} (h : Aligned groups (v :: way))
    (hk : ∀ g ∈ groups, Knit succ g) : ∃ g below, groups = g :: below ∧ v ∈ g.members := by
  cases h with
  | opener _ => exact ⟨_, _, rfl, (hk _ List.mem_cons_self).opener_mem⟩
  | member hv _ _ => exact ⟨_, _, rfl, hv⟩

/-- Every node on the way is in a group. -/
theorem Aligned.mem {groups : List Group} {way : List Nat} (h : Aligned groups way)
    (hk : ∀ g ∈ groups, Knit succ g) {v : Nat} (hv : v ∈ way) : ∃ g ∈ groups, v ∈ g.members := by
  induction h with
  | nil => cases hv
  | opener _ ih =>
    rcases List.mem_cons.mp hv with rfl | hv
    · exact ⟨_, List.mem_cons_self, (hk _ List.mem_cons_self).opener_mem⟩
    · obtain ⟨g, hg, hvg⟩ := ih (fun g hg => hk g (List.mem_cons_of_mem _ hg)) hv
      exact ⟨g, List.mem_cons_of_mem _ hg, hvg⟩
  | member hx _ _ ih =>
    rcases List.mem_cons.mp hv with rfl | hv
    · exact ⟨_, List.mem_cons_self, hx⟩
    · exact ih hk hv

/-- Joining groups keeps the way aligned: their openers but the lowest become members. -/
theorem Aligned.join {groups : List Group} {way : List Nat} (h : Aligned groups way) {joined : List Nat} {g : Group} :
    ∀ {above below : List Group}, groups = above ++ g :: below → (∀ k ∈ above ++ [g], k.opener ∈ k.members) →
      (∀ k ∈ above ++ [g], ∀ v ∈ k.members, v ∈ joined) → (∀ k ∈ above, g.opener ∉ k.members) →
      Aligned (⟨g.opener, joined⟩ :: below) way := by
  induction h with
  | nil => intro above below he; simp at he
  | @opener k lower way h ih =>
    intro above below he ho hj hn
    cases above with
    | nil =>
      cases he
      exact .opener h
    | cons k' above =>
      cases he
      -- the opener of a group above is a mere member from now on
      have hk : k.opener ∈ k.members := ho k (by simp)
      refine .member (hj k (by simp) _ hk) ?_ (ih rfl ?_ ?_ ?_)
      · rintro (he : k.opener = g.opener)
        exact hn k (by simp) (he ▸ hk)
      · exact fun k' hk' => ho k' (List.mem_cons_of_mem _ hk')
      · exact fun k' hk' => hj k' (List.mem_cons_of_mem _ hk')
      · exact fun k' hk' => hn k' (List.mem_cons_of_mem _ hk')
  | @member k lower v way hv hne h ih =>
    intro above below he ho hj hn
    have hvj : v ∈ joined := hj k (by cases above <;> cases he <;> simp) v hv
    refine .member hvj ?_ (ih he ho hj hn)
    cases above with
    | nil => cases he; exact hne
    | cons k' above =>
      cases he
      rintro rfl
      exact hn k (by simp) hv

/-- The group that `g` and those above it become. -/
def joined (above : List Group) (g : Group) : Group := ⟨g.opener, (above ++ [g]).flatMap (·.members)⟩

theorem mem_joined {above : List Group} {g : Group} {x : Nat} :
    x ∈ (joined above g).members ↔ ∃ k ∈ above ++ [g], x ∈ k.members := List.mem_flatMap

theorem Stacked.joined {above : List Group} {g l : Group} (h : ∀ k ∈ above ++ [g], Stacked succ pending k l) :
    Stacked succ pending (joined above g) l := by
  refine ⟨fun x hx hxl => ?_, (h g (by simp)).leads, fun x hx y hy hxy => ?_⟩
  · obtain ⟨k, hk, hx⟩ := mem_joined.mp hx
    exact (h k hk).disjoint hx hxl
  · obtain ⟨k, hk, hx⟩ := mem_joined.mp hx
    exact (h k hk).ascends x hx y hy hxy

theorem Knit.joined {above : List Group} {g : Group} (hk : ∀ k ∈ above ++ [g], Knit succ k)
    (hs : (above ++ [g]).Pairwise (Stacked succ pending))
    (hback : ∀ k ∈ above ++ [g], ∀ x ∈ k.members, Leads succ x g.opener) : Knit succ (joined above g) where
  opener_mem := mem_joined.mpr ⟨g, by simp, (hk g (by simp)).opener_mem⟩
  nodup := List.nodup_flatMap.mpr ⟨fun k h => (hk k h).nodup, hs.imp fun h => h.disjoint⟩
  leads := by
    intro x hx
    obtain ⟨k, h, hx⟩ := mem_joined.mp hx
    have hkx := (hk k h).leads hx
    rcases List.mem_append.mp h with h | h
    · exact ((List.pairwise_append.mp hs).2.2 k h g (by simp)).leads.trans hkx
    · cases List.mem_singleton.mp h
      exact hkx
  back := by
    intro x hx
    obtain ⟨k, h, hx⟩ := mem_joined.mp hx
    exact hback k h x hx

theorem joinTo_eq {v : Nat} {groups : List Group} (h : ∃ g ∈ groups, v ∈ g.members) :
    ∃ above g below, groups = above ++ g :: below ∧ v ∈ g.members ∧ joinTo v groups = joined above g :: below := by
  have hsplit := List.takeWhile_append_dropWhile (p := fun g : Group => !g.members.contains v) (l := groups)
  have hhead := List.head?_dropWhile_not (fun g : Group => !g.members.contains v) groups
  cases hd : groups.dropWhile fun g => !g.members.contains v with
  | nil =>
    obtain ⟨g, hg, hv⟩ := h
    rw [hd, List.append_nil] at hsplit
    have := List.mem_takeWhile_imp (hsplit.symm ▸ hg)
    simp [hv] at this
  | cons g below =>
    rw [hd] at hsplit hhead
    refine ⟨_, g, below, hsplit.symm, by simpa using hhead, ?_⟩
    have hdrop : groups.drop (groups.takeWhile fun g => !g.members.contains v).length = g :: below := by
      conv => lhs; arg 2; rw [← hsplit]
      exact List.drop_left
    simp only [joinTo, hdrop, joined]

/-! ## Steps -/

theorem Inv.lt_of_mem (hi : Inv succ n pending w) {g : Group} (hg : g ∈ w.groups) {x : Nat} (hx : x ∈ g.members) :
    x < n := by
  have h := hi.held_iff.mpr ⟨g, hg, hx⟩
  exact hi.size ▸ lt_of_visit (by rw [h]; decide)

/-- Every node on the stack leads to the node that the way has reached. -/
theorem Inv.leads_top (hi : Inv succ n pending w) {v : Nat} {rest : List Nat} {way : List (Nat × List Nat)}
    (hp : w.path = (v, rest) :: way) {g : Group} (hg : g ∈ w.groups) {x : Nat} (hx : x ∈ g.members) :
    Leads succ x v := by
  have ha := hi.aligned
  rw [hp, List.map_cons] at ha
  obtain ⟨top, below, ht, hv⟩ := ha.top hi.knit
  have hstack := hi.stacked
  rw [ht] at hg hstack
  have hk : Knit succ top := hi.knit top (by rw [ht]; exact List.mem_cons_self)
  have htop : Leads succ g.opener v := by
    rcases List.mem_cons.mp hg with rfl | hg
    · exact hk.leads hv
    · exact ((List.pairwise_cons.mp hstack).1 g hg).leads.trans (hk.leads hv)
  exact ((hi.knit g (ht ▸ hg)).back hx).trans htop

/-- A node met for the first time opens a group; its own edges wait. -/
theorem Inv.enter (hi : Inv succ n pending w) {v : Nat} (hv : w.visit v = .unseen)
    (htop : ∀ g ∈ w.groups, Leads succ g.opener v)
    (hp : ∀ x y, pending x y → pending' x y ∨ y = v) (hnew : ∀ y ∈ succ v, pending' v y) :
    Inv succ n pending' (w.enter v (succ v)) := by
  have hlt : v < w.visits.size := lt_of_visit (by rw [hv]; decide)
  have hout : ∀ g ∈ w.groups, v ∉ g.members := by
    intro g hg hm
    rw [hi.held_iff.mpr ⟨g, hg, hm⟩] at hv
    cases hv
  have hvisit : ∀ u, (w.enter v (succ v)).visit u = if u = v then .held else w.visit u := by
    intro u
    rw [visit_enter]
    simp only [hlt, and_true]
  exact {
    size := by show (w.visits.setIfInBounds v .held).size = n; rw [Array.size_setIfInBounds, hi.size]
    held_iff := by
      intro u
      rw [hvisit]
      show _ ↔ ∃ g ∈ (⟨v, [v]⟩ : Group) :: w.groups, u ∈ g.members
      by_cases hu : u = v
      · simp [hu]
      · simp [hu, hi.held_iff]
    placed_iff := by
      intro u hu
      rw [hvisit]
      show _ ↔ u ∈ w.found.flatten
      by_cases he : u = v
      · subst he
        rw [← hi.placed_iff hu, hv]
        simp
      · rw [if_neg he, hi.placed_iff hu]
    found_lt := hi.found_lt
    knit := by
      intro g hg
      rcases List.mem_cons.mp hg with rfl | hg
      · exact ⟨by simp, by simp, fun hx => by rw [List.mem_singleton.mp hx]; exact .refl v,
          fun hx => by rw [List.mem_singleton.mp hx]; exact .refl v⟩
      · exact hi.knit g hg
    stacked := by
      refine List.pairwise_cons.mpr ⟨fun g hg => ⟨?_, htop g hg, ?_⟩, ?_⟩
      · exact List.singleton_disjoint.mpr (hout g hg)
      · intro x hx y _ hxy
        cases List.mem_singleton.mp hx
        exact hnew y hxy
      · refine hi.stacked.imp_of_mem fun {upper lower} _ hl h => h.mono fun x y hy hxy => ?_
        exact (hp x y hxy).resolve_right fun he => hout lower hl (he ▸ hy)
    aligned := .opener hi.aligned
    followed := by
      intro g hg x hx y hxy
      rw [hvisit]
      rcases List.mem_cons.mp hg with rfl | hg
      · cases List.mem_singleton.mp hx
        exact Or.inl (hnew y hxy)
      · by_cases hy : y = v
        · simp [hy]
        · rw [if_neg hy]
          exact (hi.followed g hg x hx y hxy).imp_left fun h => (hp x y h).resolve_right hy
    waits := by
      rintro x y ⟨rest, hm, hy⟩
      rcases List.mem_cons.mp hm with h | hm
      · cases h
        exact hy
      · exact hi.waits ⟨rest, hm, hy⟩
    found := hi.found }

/-- An edge into a component needs no more than to be taken off the way. -/
theorem Inv.skip (hi : Inv succ n pending w) {u : Nat} (hu : w.visit u = .placed)
    (hp : ∀ x y, pending x y → pending' x y ∨ y = u) : Inv succ n pending' w := by
  have hout : ∀ g ∈ w.groups, u ∉ g.members := by
    intro g hg hm
    rw [hi.held_iff.mpr ⟨g, hg, hm⟩] at hu
    cases hu
  exact { hi with
    stacked := hi.stacked.imp_of_mem fun {upper lower} _ hl h => h.mono fun x y hy hxy =>
      (hp x y hxy).resolve_right fun he => hout lower hl (he ▸ hy)
    followed := by
      intro g hg x hx y hxy
      rcases hi.followed g hg x hx y hxy with h | h
      · rcases hp x y h with h | rfl
        · exact Or.inl h
        · exact Or.inr (by rw [hu]; decide)
      · exact Or.inr h }

/-- An edge back to the stack closes a cycle through all groups it jumps over. -/
theorem Inv.join (hi : Inv succ n pending w) {v u : Nat} {rest : List Nat} {way : List (Nat × List Nat)}
    (hw : w.path = (v, rest) :: way) (hvu : u ∈ succ v) (hu : w.visit u = .held)
    (hp : ∀ x y, pending x y → pending' x y ∨ y = u) :
    Inv succ n pending' { w with groups := joinTo u w.groups } := by
  obtain ⟨above, g, below, hsplit, hug, hjoin⟩ := joinTo_eq (hi.held_iff.mp hu)
  have hmem : ∀ k, k ∈ w.groups ↔ k ∈ above ++ [g] ∨ k ∈ below := by
    intro k
    rw [hsplit, ← List.mem_append, List.append_assoc, List.singleton_append]
  have hheld : ∀ {x}, (∃ k ∈ joinTo u w.groups, x ∈ k.members) ↔ ∃ k ∈ w.groups, x ∈ k.members := by
    intro x
    simp only [hjoin, hmem, List.exists_mem_cons_iff, mem_joined, or_and_right, exists_or]
  have hknit : ∀ k ∈ above ++ [g], Knit succ k := fun k hk => hi.knit k ((hmem k).mpr (Or.inl hk))
  have hg : g ∈ above ++ [g] := by simp
  have hstack := hi.stacked
  rw [hsplit, ← List.singleton_append, ← List.append_assoc] at hstack
  obtain ⟨hupper, hbelow, hacross⟩ := List.pairwise_append.mp hstack
  -- the edge just followed ends in a joined group: every pending edge to one below still waits
  have hpend : ∀ {k}, k ∈ below → ∀ x, ∀ y ∈ k.members, pending x y → pending' x y := by
    intro k hk x y hy hxy
    refine (hp x y hxy).resolve_right fun he => ?_
    exact (hacross g hg k hk).disjoint hug (he ▸ hy)
  -- from every member up to the node reached, over the edge, and back down
  have hback : ∀ k ∈ above ++ [g], ∀ x ∈ k.members, Leads succ x g.opener := by
    intro k hk x hx
    have hxv := hi.leads_top hw ((hmem k).mpr (Or.inl hk)) hx
    exact (hxv.trans (.edge hvu)).trans ((hknit g hg).back hug)
  exact {
    size := hi.size
    held_iff := hi.held_iff.trans hheld.symm
    placed_iff := hi.placed_iff
    found_lt := hi.found_lt
    knit := by
      intro k hk
      simp only [hjoin, List.mem_cons] at hk
      rcases hk with rfl | hk
      · exact .joined hknit hupper hback
      · exact hi.knit k ((hmem k).mpr (Or.inr hk))
    stacked := by
      show (joinTo u w.groups).Pairwise _
      rw [hjoin]
      refine List.pairwise_cons.mpr ⟨fun l hl => ?_, hbelow.imp_of_mem fun _ hl h => h.mono (hpend hl)⟩
      exact (Stacked.joined fun k hk => hacross k hk l hl).mono (hpend hl)
    aligned := by
      show Aligned (joinTo u w.groups) _
      rw [hjoin]
      refine hi.aligned.join hsplit (fun k hk => (hknit k hk).opener_mem) ?_ ?_
      · exact fun k hk x hx => mem_joined.mpr ⟨k, hk, hx⟩
      · intro k hk h
        exact ((List.pairwise_append.mp hupper).2.2 k hk g (by simp)).disjoint h (hknit g hg).opener_mem
    followed := by
      intro k hk x hx y hxy
      obtain ⟨k, hk, hx⟩ := hheld.mp ⟨k, hk, hx⟩
      rcases hi.followed k hk x hx y hxy with h | h
      · rcases hp x y h with h | rfl
        · exact Or.inl h
        · exact Or.inr (by show w.visit y ≠ _; rw [hu]; decide)
      · exact Or.inr h
    waits := hi.waits
    found := hi.found }

theorem Placed.cons {found : List (List Nat)} (h : Placed succ found) {c : List Nat} (hne : c ≠ []) (hn : c.Nodup)
    (hs : ∀ x ∈ c, ∀ y ∈ c, Leads succ x y) (hout : ∀ x ∈ c, x ∉ found.flatten)
    (hc : ∀ x ∈ c, ∀ y ∈ succ x, y ∈ c ∨ y ∈ found.flatten) : Placed succ (c :: found) where
  nodup := List.nodup_append.mpr ⟨hn, h.nodup, fun _ hx _ hy he => hout _ hx (he ▸ hy)⟩
  nonempty := List.forall_mem_cons.mpr ⟨hne, h.nonempty⟩
  strong := List.forall_mem_cons.mpr ⟨hs, h.strong⟩
  closed := by
    intro x hx y hxy
    rcases List.mem_append.mp hx with hx | hx
    · exact List.mem_append.mpr (hc x hx y hxy)
    · exact List.mem_append.mpr (Or.inr (h.closed x hx y hxy))
  order := by
    refine List.pairwise_cons.mpr ⟨fun d hd x hx y hxy hy => ?_, h.order⟩
    exact hout y hy (h.closed x (List.mem_flatten.mpr ⟨d, hd, hx⟩) y hxy)

/-- A node that has no edge left is on the way, but no edge waits there. -/
theorem pending_of_left {v : Nat} {way : List (Nat × List Nat)} (hw : w.path = (v, []) :: way) {x y : Nat}
    (h : w.Pending x y) : { w with path := way }.Pending x y := by
  obtain ⟨rest, hm, hy⟩ := h
  rw [hw] at hm
  rcases List.mem_cons.mp hm with h | hm
  · cases h; cases hy
  · exact ⟨rest, hm, hy⟩

theorem Inv.waits_left (hi : Inv succ n w.Pending w) {v : Nat} {way : List (Nat × List Nat)}
    (hw : w.path = (v, []) :: way) {x y : Nat} (h : { w with path := way }.Pending x y) : y ∈ succ x := by
  obtain ⟨rest, hm, hy⟩ := h
  exact hi.waits ⟨rest, by rw [hw]; exact List.mem_cons_of_mem _ hm, hy⟩

section Leave

variable {g : Group} {below : List Group} {way : List (Nat × List Nat)} (hi : Inv succ n w.Pending w)
  (hw : w.path = (g.opener, []) :: way) (hg : w.groups = g :: below)
include hi hw hg

theorem Inv.aligned_below : Aligned below (way.map (·.1)) := by
  have ha := hi.aligned
  rw [hw, hg, List.map_cons] at ha
  cases ha with
  | opener h => exact h
  | member _ hne _ => exact absurd rfl hne

/-- When the opener of the top group is left, all edges of the group have been followed. -/
theorem Inv.not_pending {x : Nat} (hx : x ∈ g.members) (y : Nat) : ¬w.Pending x y := by
  intro hxy
  have hstack := hi.stacked
  rw [hg] at hstack
  obtain ⟨rest, hm, -⟩ := pending_of_left hw hxy
  have hkb : ∀ k ∈ below, Knit succ k := fun k hk => hi.knit k (by rw [hg]; exact List.mem_cons_of_mem _ hk)
  obtain ⟨k, hk, hxk⟩ := (hi.aligned_below hw hg).mem hkb (List.mem_map.mpr ⟨(x, rest), hm, rfl⟩)
  exact ((List.pairwise_cons.mp hstack).1 k hk).disjoint hx hxk

/-- Then they end in the group itself or in components: the group is a component. -/
theorem Inv.found_top (hsucc : ∀ v < n, ∀ u ∈ succ v, u < n) : Placed succ (g.members :: w.found) := by
  have hmem : g ∈ w.groups := by rw [hg]; exact List.mem_cons_self
  have hk := hi.knit g hmem
  have hstack := hi.stacked
  rw [hg] at hstack
  refine hi.found.cons (List.ne_nil_of_mem hk.opener_mem) hk.nodup ?_ ?_ ?_
  · exact fun x hx y hy => (hk.back hx).trans (hk.leads hy)
  · intro x hx hf
    have h := (hi.placed_iff (hi.lt_of_mem hmem hx)).mpr hf
    rw [hi.held_iff.mpr ⟨g, hmem, hx⟩] at h
    cases h
  · intro x hx y hxy
    have hseen := (hi.followed g hmem x hx y hxy).resolve_left (hi.not_pending hw hg hx y)
    cases hy : w.visit y with
    | unseen => exact absurd hy hseen
    | placed => exact Or.inr ((hi.placed_iff (hsucc x (hi.lt_of_mem hmem hx) y hxy)).mp hy)
    | held =>
      obtain ⟨k, hk, hyk⟩ := hi.held_iff.mp hy
      rw [hg] at hk
      rcases List.mem_cons.mp hk with rfl | hk
      · exact Or.inl hyk
      · have := ((List.pairwise_cons.mp hstack).1 k hk).ascends x hx y hyk hxy
        exact absurd this (hi.not_pending hw hg hx y)

theorem Inv.leave_opener (hsucc : ∀ v < n, ∀ u ∈ succ v, u < n) :
    let w' : Walk := ⟨g.members.foldl (fun visits u => visits.setIfInBounds u .placed) w.visits, below, way,
      g.members :: w.found⟩
    Inv succ n w'.Pending w' := by
  have hstack := hi.stacked
  rw [hg] at hstack
  obtain ⟨htop, hbelow⟩ := List.pairwise_cons.mp hstack
  have hin : ∀ {k}, k ∈ below → k ∈ w.groups := fun hk => by rw [hg]; exact List.mem_cons_of_mem _ hk
  have hheld : ∀ {x}, w.visit x = .held ↔ x ∈ g.members ∨ ∃ k ∈ below, x ∈ k.members := by
    intro x
    rw [hi.held_iff, hg, List.exists_mem_cons_iff]
  exact {
    size := (size_foldl_set _ _ _).trans hi.size
    held_iff := by
      intro x
      rw [visit_place]
      by_cases hx : x ∈ g.members
      · simp only [hx, if_true, reduceCtorEq, false_iff]
        rintro ⟨k, hk, hxk⟩
        exact (htop k hk).disjoint hx hxk
      · rw [if_neg hx, hheld, or_iff_right hx]
    placed_iff := by
      intro x hxn
      rw [visit_place]
      show _ ↔ x ∈ g.members ++ w.found.flatten
      by_cases hx : x ∈ g.members
      · simp [hx]
      · rw [if_neg hx, hi.placed_iff hxn, List.mem_append, or_iff_right hx]
    found_lt := by
      intro x hx
      rcases List.mem_append.mp hx with hx | hx
      · exact hi.lt_of_mem (by rw [hg]; exact List.mem_cons_self) hx
      · exact hi.found_lt x hx
    knit := fun k hk => hi.knit k (hin hk)
    stacked := hbelow.imp fun h => h.mono fun _ _ _ h => pending_of_left hw h
    aligned := hi.aligned_below hw hg
    followed := by
      intro k hk x hx y hxy
      rw [visit_place]
      rcases hi.followed k (hin hk) x hx y hxy with h | h
      · exact Or.inl (pending_of_left hw h)
      · refine Or.inr ?_
        split
        · decide
        · exact h
    waits := hi.waits_left hw
    found := hi.found_top hw hg hsucc }

end Leave

/-- A node is left when its last edge has been followed. -/
theorem Inv.leave (hsucc : ∀ v < n, ∀ u ∈ succ v, u < n) (hi : Inv succ n w.Pending w) {v : Nat}
    {way : List (Nat × List Nat)} (hw : w.path = (v, []) :: way) :
    Inv succ n ({ w with path := way }.leave v).Pending ({ w with path := way }.leave v) := by
  rcases leave_eq { w with path := way } v with ⟨g, below, hg, rfl, he⟩ | ⟨hne, he⟩
  · rw [he]
    exact hi.leave_opener hw hg hsucc
  · have ha := hi.aligned
    rw [hw, List.map_cons] at ha
    rw [he]
    exact { hi with
      aligned := by
        obtain ⟨g, below, hg, -⟩ := ha.top hi.knit
        show Aligned w.groups _
        rw [hg] at ha ⊢
        cases ha with
        | opener h => exact absurd rfl (hne g below hg)
        | member _ _ h => exact h
      stacked := hi.stacked.imp fun h => h.mono fun _ _ _ h => pending_of_left hw h
      followed := fun g hg x hx y hxy => (hi.followed g hg x hx y hxy).imp_left (pending_of_left hw)
      waits := hi.waits_left hw }

/-! ## A step -/

theorem step_cases (succ : Nat → List Nat) (w : Walk) :
    (w.path = [] ∧ w.step succ = w) ∨
    (∃ v way, w.path = (v, []) :: way ∧ w.step succ = { w with path := way }.leave v) ∨
    ∃ v u rest way, w.path = (v, u :: rest) :: way ∧
      ((w.visit u = .unseen ∧ w.step succ = { w with path := (v, rest) :: way }.enter u (succ u)) ∨
       (w.visit u = .held ∧ w.step succ = { w with path := (v, rest) :: way, groups := joinTo u w.groups }) ∨
       (w.visit u = .placed ∧ w.step succ = { w with path := (v, rest) :: way })) := by
  rcases hw : w.path with _ | ⟨⟨v, _ | ⟨u, rest⟩⟩, way⟩
  · exact Or.inl ⟨rfl, by simp only [step, hw]⟩
  · exact Or.inr (Or.inl ⟨v, way, rfl, by simp only [step, hw]⟩)
  · refine Or.inr (Or.inr ⟨v, u, rest, way, rfl, ?_⟩)
    have hv : ({ w with path := (v, rest) :: way } : Walk).visit u = w.visit u := rfl
    simp only [step, hw, hv]
    cases w.visit u with
    | unseen => exact Or.inl ⟨rfl, rfl⟩
    | held => exact Or.inr (Or.inl ⟨rfl, rfl⟩)
    | placed => exact Or.inr (Or.inr ⟨rfl, rfl⟩)

/-- The edge at hand is taken off the way, and is then the only one not accounted for. -/
theorem Inv.take (hi : Inv succ n w.Pending w) {v u : Nat} {rest : List Nat} {way : List (Nat × List Nat)}
    (hw : w.path = (v, u :: rest) :: way) :
    Inv succ n w.Pending { w with path := (v, rest) :: way } ∧ u ∈ succ v ∧
      ∀ x y, w.Pending x y → { w with path := (v, rest) :: way }.Pending x y ∨ y = u := by
  have hsub : ∀ {x y}, { w with path := (v, rest) :: way }.Pending x y → w.Pending x y := by
    rintro x y ⟨s, hm, hy⟩
    rcases List.mem_cons.mp hm with h | hm
    · cases h
      exact ⟨u :: rest, by rw [hw]; exact List.mem_cons_self, List.mem_cons_of_mem _ hy⟩
    · exact ⟨s, by rw [hw]; exact List.mem_cons_of_mem _ hm, hy⟩
  refine ⟨{ hi with aligned := ?_, waits := fun h => hi.waits (hsub h) }, ?_, ?_⟩
  · have := hi.aligned
    rwa [hw] at this
  · exact hi.waits ⟨u :: rest, by rw [hw]; exact List.mem_cons_self, List.mem_cons_self⟩
  · rintro x y ⟨s, hm, hy⟩
    rw [hw] at hm
    rcases List.mem_cons.mp hm with h | hm
    · cases h
      rcases List.mem_cons.mp hy with rfl | hy
      · exact Or.inr rfl
      · exact Or.inl ⟨rest, List.mem_cons_self, hy⟩
    · exact Or.inl ⟨s, List.mem_cons_of_mem _ hm, hy⟩

theorem Inv.step (hsucc : ∀ v < n, ∀ u ∈ succ v, u < n) (hi : Inv succ n w.Pending w) :
    Inv succ n (w.step succ).Pending (w.step succ) := by
  rcases step_cases succ w with ⟨-, hs⟩ | ⟨v, way, hw, hs⟩ | ⟨v, u, rest, way, hw, hs⟩
  · rw [hs]; exact hi
  · rw [hs]; exact hi.leave hsucc hw
  · obtain ⟨hi', hvu, hp⟩ := hi.take hw
    rcases hs with ⟨hu, hs⟩ | ⟨hu, hs⟩ | ⟨hu, hs⟩
    · rw [hs]
      refine hi'.enter hu (fun g hg => ?_) (fun x y hxy => ?_) fun y hy => ⟨succ u, List.mem_cons_self, hy⟩
      · exact (hi.leads_top hw hg (hi.knit g hg).opener_mem).trans (.edge hvu)
      · refine (hp x y hxy).imp_left ?_
        rintro ⟨s, hm, hy⟩
        exact ⟨s, List.mem_cons_of_mem _ hm, hy⟩
    · rw [hs]; exact hi'.join rfl hvu hu hp
    · rw [hs]; exact hi'.skip hu hp

end Walk

end TypeRecovery
