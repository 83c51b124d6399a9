/-
  TypeRecovery.Proofs.Graph.Construction — making nodes and recording subtypings.

  A node is made as a new root (`plant`) or as a new child (`graft`); a subtyping is recorded
  between two nodes that are there (`relate`).

  Proved:
  - `intern_spec`: the node of a variable is found or made, and every node keeps its number and
    its variable (`Grows`).
  - `mem_edges_relate`: what a recorded subtyping adds.
  - `plant_wellFormed`, `graft_wellFormed`, `relate_wellFormed`, `bindTarget_wellFormed`: each
    change keeps a graph well formed.
-/

import TypeRecovery.Proofs.Graph.WellFormed

namespace TypeRecovery.Graph

/-! ## New nodes -/

/-- The graph with a new node for a base name. -/
def plant (g : Graph) (b : String) : Graph :=
  { g.push (.root b) none with roots := g.roots ++ [(b, g.size)] }

def addChild (l : Label) (j : Nat) (n : Node) : Node := { n with children := n.children ++ [(l, j)] }

/-- The graph with a new child of `i` by `l`. -/
def graft (g : Graph) (i : Nat) (v : TypeVar) (l : Label) : Graph :=
  { g.push v (some (i, l)) with nodes := (g.push v (some (i, l))).nodes.modify i (addChild l g.size) }

theorem internRoot_eq (g : Graph) (b : String) :
    g.internRoot b = match g.root? b with
      | some i => (g, i)
      | none => (g.plant b, g.size) := rfl

theorem internChild_eq (g : Graph) (i : Nat) (v : TypeVar) (l : Label) :
    g.internChild i v l = match g.child? i l with
      | some j => (g, j)
      | none => (g.graft i v l, g.size) := rfl

/-- A view of a node that a change leaves alone. -/
theorem map_getElem?_modify {α β : Type} (f : α → β) (m : α → α) (h : ∀ x, f (m x) = f x) (xs : Array α)
    (i k : Nat) : ((xs.modify i m)[k]?).map f = (xs[k]?).map f := by
  rw [Array.getElem?_modify]
  split
  · rw [Option.map_map]
    congr 1; funext x; exact h x
  · rfl

/-- A view of which a new node shows no more than a missing one. -/
theorem getD_map_push {α β : Type} (f : α → β) {x : α} {d : β} (h : f x = d) (xs : Array α) (k : Nat) :
    (((xs.push x)[k]?).map f).getD d = ((xs[k]?).map f).getD d := by
  rw [Array.getElem?_push]
  split
  · rename_i hk
    subst hk
    simp [h]
  · rfl

theorem parent?_eq (g : Graph) (k : Nat) : g.parent? k = ((g.nodes[k]?).map (·.parent)).getD none := by
  unfold parent?
  cases g.nodes[k]? <;> rfl

section Plant

variable (g : Graph) (b : String) (k : Nat)

@[simp] theorem size_plant : (g.plant b).size = g.size + 1 := by simp [plant, push, size]

theorem typeVar?_plant : (g.plant b).typeVar? k = if k = g.size then some (.root b) else g.typeVar? k := by
  simp only [typeVar?, plant, push, Array.getElem?_push, size]
  by_cases h : k = g.nodes.size <;> simp [h]

@[simp] theorem parent?_plant : (g.plant b).parent? k = g.parent? k := by
  rw [parent?_eq, parent?_eq]
  exact getD_map_push _ rfl _ _

@[simp] theorem children_plant : (g.plant b).children k = g.children k := getD_map_push _ rfl _ _

@[simp] theorem child?_plant (l : Label) : (g.plant b).child? k l = g.child? k l := by simp [child?]

@[simp] theorem supertypes_plant : (g.plant b).supertypes k = g.supertypes k := getD_map_push _ rfl _ _

@[simp] theorem subtypes_plant : (g.plant b).subtypes k = g.subtypes k := getD_map_push _ rfl _ _

theorem root?_plant {b : String} (h : g.root? b = none) (c : String) :
    (g.plant b).root? c = if c = b then some g.size else g.root? c :=
  Entries.lookup?_append_new h g.size c

end Plant

section Graft

variable (g : Graph) (i : Nat) (v : TypeVar) (l : Label) (k : Nat)

@[simp] theorem size_graft : (g.graft i v l).size = g.size + 1 := by simp [graft, push, size]

@[simp] theorem root?_graft (b : String) : (g.graft i v l).root? b = g.root? b := rfl

theorem typeVar?_graft : (g.graft i v l).typeVar? k = if k = g.size then some v else g.typeVar? k := by
  refine (map_getElem?_modify Node.typeVar (addChild l g.size) (fun _ => rfl) _ _ _).trans ?_
  simp only [typeVar?, push, Array.getElem?_push, size]
  by_cases h : k = g.nodes.size <;> simp [h]

theorem parent?_graft : (g.graft i v l).parent? k = if k = g.size then some (i, l) else g.parent? k := by
  rw [parent?_eq, parent?_eq]
  refine (congrArg (·.getD none) (map_getElem?_modify Node.parent (addChild l g.size) (fun _ => rfl) _ _ _)).trans ?_
  simp only [push, Array.getElem?_push, size]
  by_cases h : k = g.nodes.size <;> simp [h]

theorem children_graft {i : Nat} (hi : i < g.size) :
    (g.graft i v l).children k = if k = i then g.children i ++ [(l, g.size)] else g.children k := by
  simp only [children, graft, push, Array.getElem?_modify]
  by_cases hk : k = i
  · subst hk
    have hn : (g.nodes.push ⟨v, some (k, l), [], [], []⟩)[k]? = g.nodes[k]? := by
      rw [Array.getElem?_push]
      exact if_neg (Nat.ne_of_lt hi)
    have hs : g.nodes[k]? = some g.nodes[k] := Array.getElem?_eq_getElem hi
    simp [hn, hs, size, addChild]
  · rw [if_neg (Ne.symm hk), if_neg hk]
    exact getD_map_push _ rfl _ _

theorem child?_graft {i : Nat} (hi : i < g.size) {l : Label} (h : g.child? i l = none) (m : Label) :
    (g.graft i v l).child? k m = if k = i ∧ m = l then some g.size else g.child? k m := by
  rw [child?, children_graft g v l k hi]
  by_cases hk : k = i
  · subst hk
    rw [if_pos rfl, Entries.lookup?_append_new h]
    simp [child?]
  · simp [hk, child?]

theorem supertypes_graft : (g.graft i v l).supertypes k = g.supertypes k :=
  (congrArg (·.getD []) (map_getElem?_modify Node.supertypes (addChild l g.size) (fun _ => rfl) _ _ _)).trans (getD_map_push _ rfl _ _)

theorem subtypes_graft : (g.graft i v l).subtypes k = g.subtypes k :=
  (congrArg (·.getD []) (map_getElem?_modify Node.subtypes (addChild l g.size) (fun _ => rfl) _ _ _)).trans (getD_map_push _ rfl _ _)

end Graft

/-- A node more without subtype edges leaves the subtype edges as they were. -/
theorem edges_of_size_succ {g g' : Graph} (hs : ∀ k, g'.supertypes k = g.supertypes k)
    (hn : g'.size = g.size + 1) : g'.edges = g.edges := by
  have hlast : g.supertypes g.size = [] := by simp [supertypes, size]
  simp only [edges_eq, hn, List.range_succ, List.flatMap_append, hs]
  simp [hlast]

theorem WellFormed.child_lt {g : Graph} (hg : g.WellFormed) {i j : Nat} {l : Label} (h : g.child? i l = some j) :
    i < g.size ∧ j < g.size := by
  obtain ⟨_, _, hi, hj⟩ := hg.extends_ h
  exact ⟨lt_size hi, lt_size hj⟩

theorem plant_wellFormed {g : Graph} (hg : g.WellFormed) {b : String} (hb : g.root? b = none) :
    (g.plant b).WellFormed where
  root_iff {c i} := by
    rw [root?_plant g hb, typeVar?_plant]
    by_cases hc : c = b
    · subst hc
      by_cases hi : i = g.size
      · simp [hi]
      · have hn : g.typeVar? i ≠ some (.root c) := fun h => by simp [hg.root_iff.mpr h] at hb
        simp [hi, Ne.symm hi, hn]
    · by_cases hi : i = g.size
      · have hn : g.root? c ≠ some g.size := fun h => Nat.lt_irrefl _ (lt_size (hg.root_iff.mp h))
        simp [hc, hi, hn, TypeVar.root, Ne.symm hc]
      · simp [hc, hi, hg.root_iff]
  child_iff := by simp [hg.child_iff]
  extends_ {i j l} h := by
    rw [child?_plant] at h
    obtain ⟨hij, v, hi, hj⟩ := hg.extends_ h
    refine ⟨hij, v, ?_, ?_⟩
    · rw [typeVar?_plant, if_neg (Nat.ne_of_lt (lt_size hi)), hi]
    · rw [typeVar?_plant, if_neg (Nat.ne_of_lt (lt_size hj)), hj]
  orphan_root {i v} hi hp := by
    rw [typeVar?_plant] at hi
    rw [parent?_plant] at hp
    split at hi
    · cases hi; rfl
    · exact hg.orphan_root hi hp
  childrenNodup i := by simpa using hg.childrenNodup i
  supertypes_lt h := by
    rw [supertypes_plant] at h
    rw [size_plant]
    exact Nat.lt_succ_of_lt (hg.supertypes_lt h)
  mem_subtypes := by simp [hg.mem_subtypes]
  irreflexive a := by simpa using hg.irreflexive a
  supertypesNodup a := by simpa using hg.supertypesNodup a
  edgeCount_eq := by
    rw [edges_of_size_succ (supertypes_plant g b) (size_plant g b)]
    exact hg.edgeCount_eq
  bindings_lt e he := by
    rw [size_plant]
    exact Nat.lt_succ_of_lt (hg.bindings_lt e he)

theorem graft_wellFormed {g : Graph} (hg : g.WellFormed) {i : Nat} {u : TypeVar} (hu : g.typeVar? i = some u)
    {l : Label} (hl : g.child? i l = none) : (g.graft i (u.extend l) l).WellFormed where
  root_iff {b k} := by
    rw [root?_graft, typeVar?_graft]
    by_cases hk : k = g.size
    · subst hk
      have hn : g.root? b ≠ some g.size := fun h => Nat.lt_irrefl _ (lt_size (hg.root_iff.mp h))
      simp [hn]
    · simp [hk, hg.root_iff]
  child_iff {k j m} := by
    rw [child?_graft g _ k (lt_size hu) hl, parent?_graft]
    by_cases hk : k = i ∧ m = l
    · obtain ⟨rfl, rfl⟩ := hk
      have hn : g.parent? j ≠ some (k, m) := fun h => by simp [hg.child_iff.mpr h] at hl
      by_cases hj : j = g.size
      · simp [hj]
      · simp [hj, Ne.symm hj, hn]
    · by_cases hj : j = g.size
      · have hn : g.child? k m ≠ some j := fun h => absurd (hg.child_lt h).2 (by omega)
        have hne : ¬(i = k ∧ l = m) := fun h => hk ⟨h.1.symm, h.2.symm⟩
        rw [if_neg hk, if_pos hj, Option.some_inj, Prod.mk.injEq]
        exact ⟨fun h => absurd h hn, fun h => absurd h hne⟩
      · simp [hk, hj, hg.child_iff]
  extends_ {k j m} h := by
    rw [child?_graft g _ k (lt_size hu) hl] at h
    split at h
    · rename_i hk
      obtain ⟨rfl, rfl⟩ := hk
      cases h
      refine ⟨lt_size hu, u, ?_, ?_⟩
      · rw [typeVar?_graft, if_neg (Nat.ne_of_lt (lt_size hu)), hu]
      · rw [typeVar?_graft, if_pos rfl]
    · obtain ⟨hkj, w, hk, hj⟩ := hg.extends_ h
      refine ⟨hkj, w, ?_, ?_⟩
      · rw [typeVar?_graft, if_neg (Nat.ne_of_lt (lt_size hk)), hk]
      · rw [typeVar?_graft, if_neg (Nat.ne_of_lt (lt_size hj)), hj]
  orphan_root {k v} hk hp := by
    rw [typeVar?_graft] at hk
    rw [parent?_graft] at hp
    split at hk
    · rename_i h; rw [if_pos h] at hp; cases hp
    · rename_i h; rw [if_neg h] at hp; exact hg.orphan_root hk hp
  childrenNodup k := by
    rw [children_graft g _ l k (lt_size hu)]
    split
    · have hn := Entries.lookup?_eq_none_iff.mp hl
      rw [List.map_append, List.nodup_append]
      refine ⟨hg.childrenNodup i, by simp, fun a ha b hb => ?_⟩
      simp only [List.map_cons, List.map_nil, List.mem_singleton] at hb
      subst hb
      exact fun e => hn (e ▸ ha)
    · exact hg.childrenNodup k
  supertypes_lt {a b} h := by
    rw [supertypes_graft] at h
    rw [size_graft]
    exact Nat.lt_succ_of_lt (hg.supertypes_lt h)
  mem_subtypes {a b} := by rw [subtypes_graft, supertypes_graft]; exact hg.mem_subtypes
  irreflexive a := by rw [supertypes_graft]; exact hg.irreflexive a
  supertypesNodup a := by rw [supertypes_graft]; exact hg.supertypesNodup a
  edgeCount_eq := by
    rw [edges_of_size_succ (supertypes_graft g i _ l) (size_graft g i _ l)]
    exact hg.edgeCount_eq
  bindings_lt e he := by
    rw [size_graft]
    exact Nat.lt_succ_of_lt (hg.bindings_lt e he)

/-- `g'` has the nodes of `g` under their numbers, and the same subtype edges and bindings. -/
structure Grows (g g' : Graph) : Prop where
  typeVar? {k : Nat} {v : TypeVar} : g.typeVar? k = some v → g'.typeVar? k = some v
  supertypes (k : Nat) : g'.supertypes k = g.supertypes k
  bindings : g'.bindings = g.bindings

theorem Grows.refl (g : Graph) : g.Grows g := ⟨id, fun _ => rfl, rfl⟩

theorem Grows.trans {g g' g'' : Graph} (h : g.Grows g') (h' : g'.Grows g'') : g.Grows g'' :=
  ⟨fun hv => h'.typeVar? (h.typeVar? hv), fun k => (h'.supertypes k).trans (h.supertypes k),
    h'.bindings.trans h.bindings⟩

theorem grows_plant (g : Graph) (b : String) : g.Grows (g.plant b) := by
  refine ⟨fun {k v} h => ?_, supertypes_plant g b, rfl⟩
  rw [typeVar?_plant, if_neg (Nat.ne_of_lt (lt_size h)), h]

theorem grows_graft (g : Graph) (i : Nat) (v : TypeVar) (l : Label) : g.Grows (g.graft i v l) := by
  refine ⟨fun {k w} h => ?_, supertypes_graft g i v l, rfl⟩
  rw [typeVar?_graft, if_neg (Nat.ne_of_lt (lt_size h)), h]

theorem internRoot_spec {g : Graph} (hg : g.WellFormed) (b : String) :
    (g.internRoot b).1.WellFormed ∧ g.Grows (g.internRoot b).1 ∧
      (g.internRoot b).1.typeVar? (g.internRoot b).2 = some (.root b) := by
  rw [internRoot_eq]
  cases h : g.root? b with
  | some i => exact ⟨hg, .refl g, hg.root_iff.mp h⟩
  | none => exact ⟨plant_wellFormed hg h, grows_plant g b, by simp [typeVar?_plant]⟩

theorem internChild_spec {g : Graph} (hg : g.WellFormed) {i : Nat} {v : TypeVar} (hv : g.typeVar? i = some v)
    (l : Label) :
    (g.internChild i (v.extend l) l).1.WellFormed ∧ g.Grows (g.internChild i (v.extend l) l).1 ∧
      (g.internChild i (v.extend l) l).1.typeVar? (g.internChild i (v.extend l) l).2 = some (v.extend l) := by
  rw [internChild_eq]
  cases h : g.child? i l with
  | some j => exact ⟨hg, .refl g, (hg.child?_eq_some_iff hv).mp h⟩
  | none => exact ⟨graft_wellFormed hg hv h, grows_graft g i _ l, by simp [typeVar?_graft]⟩

theorem internPath_spec {g : Graph} (hg : g.WellFormed) {i : Nat} {v : TypeVar} (hv : g.typeVar? i = some v)
    (p : List Label) :
    (g.internPath i v p).1.WellFormed ∧ g.Grows (g.internPath i v p).1 ∧
      (g.internPath i v p).1.typeVar? (g.internPath i v p).2 = some (v.along p) := by
  induction p generalizing g i v with
  | nil => exact ⟨hg, .refl g, by simpa [internPath] using hv⟩
  | cons l p ih =>
    obtain ⟨hg', hgrow, hv'⟩ := internChild_spec hg hv l
    obtain ⟨hg'', hgrow', hv''⟩ := ih hg' hv'
    refine ⟨hg'', hgrow.trans hgrow', ?_⟩
    rw [TypeVar.along_cons]
    exact hv''

/-- The node of a variable is found or made; every other node stays. -/
theorem intern_spec {g : Graph} (hg : g.WellFormed) (v : TypeVar) :
    (g.intern v).1.WellFormed ∧ g.Grows (g.intern v).1 ∧
      (g.intern v).1.typeVar? (g.intern v).2 = some v := by
  obtain ⟨hg', hgrow, hr⟩ := internRoot_spec hg v.base
  obtain ⟨hg'', hgrow', hv⟩ := internPath_spec hg' hr v.path
  exact ⟨hg'', hgrow.trans hgrow', hv⟩

/-! ## New subtype edges -/

def addSupertype (b : Nat) (n : Node) : Node := { n with supertypes := n.supertypes ++ [b] }

def addSubtype (a : Nat) (n : Node) : Node := { n with subtypes := n.subtypes ++ [a] }

/-- The graph with a new subtype edge. -/
def link (g : Graph) (a b : Nat) : Graph :=
  { g with nodes := (g.nodes.modify a (addSupertype b)).modify b (addSubtype a), edgeCount := g.edgeCount + 1 }

theorem relate_eq (g : Graph) (a b : Nat) :
    g.relate a b = if a = b ∨ b ∈ g.supertypes a then (g, false) else (g.link a b, true) := by
  unfold relate
  by_cases h : a = b
  · simp [h]
  · simp only [h, if_false, hasEdge_iff, false_or]
    rfl

theorem map_modify {α β : Type} (f : α → β) (m : α → α) (h : ∀ x, f (m x) = f x) (xs : Array α) (i : Nat) :
    (xs.modify i m).map f = xs.map f := by
  refine Array.ext_getElem? fun k => ?_
  rw [Array.getElem?_map, Array.getElem?_map, map_getElem?_modify f m h]

@[simp] theorem bare_link (g : Graph) (a b : Nat) : (g.link a b).bare = g.bare := by
  simp only [bare, link]
  rw [map_modify _ (addSubtype a) (fun _ => rfl), map_modify _ (addSupertype b) (fun _ => rfl)]

theorem supertypes_link {g : Graph} {a : Nat} (ha : a < g.size) (b k : Nat) :
    (g.link a b).supertypes k = if k = a then g.supertypes a ++ [b] else g.supertypes k := by
  have h := map_getElem?_modify Node.supertypes (addSubtype a) (fun _ => rfl) (g.nodes.modify a (addSupertype b)) b k
  refine (congrArg (·.getD []) h).trans ?_
  rw [Array.getElem?_modify]
  by_cases hk : k = a
  · subst hk
    have hs : g.nodes[k]? = some g.nodes[k] := Array.getElem?_eq_getElem ha
    simp [supertypes, hs, addSupertype]
  · simp [hk, Ne.symm hk, supertypes]

theorem subtypes_link {g : Graph} {b : Nat} (hb : b < g.size) (a k : Nat) :
    (g.link a b).subtypes k = if k = b then g.subtypes b ++ [a] else g.subtypes k := by
  have h := map_getElem?_modify Node.subtypes (addSupertype b) (fun _ => rfl) g.nodes a k
  simp only [subtypes, link, Array.getElem?_modify (i := b)]
  by_cases hk : k = b
  · subst hk
    have hs : g.nodes[k]? = some g.nodes[k] := Array.getElem?_eq_getElem hb
    rw [if_pos rfl, if_pos rfl, Option.map_map]
    show (Option.map ((· ++ [a]) ∘ Node.subtypes) _).getD [] = _
    rw [← Option.map_map, h, hs]
    rfl
  · simp only [hk, Ne.symm hk, if_false]
    exact congrArg (·.getD []) h

theorem mem_supertypes_link {g : Graph} {a : Nat} (ha : a < g.size) {b x y : Nat} :
    y ∈ (g.link a b).supertypes x ↔ y ∈ g.supertypes x ∨ (x = a ∧ y = b) := by
  rw [supertypes_link ha]
  by_cases hx : x = a
  · subst hx; simp
  · simp [hx]

theorem mem_subtypes_link {g : Graph} {b : Nat} (hb : b < g.size) {a x y : Nat} :
    x ∈ (g.link a b).subtypes y ↔ x ∈ g.subtypes y ∨ (x = a ∧ y = b) := by
  rw [subtypes_link hb]
  by_cases hy : y = b
  · subst hy; simp
  · simp [hy]

theorem link_supertypesNodup {g : Graph} (hg : g.WellFormed) {a b : Nat} (ha : a < g.size) (hb : b ∉ g.supertypes a)
    (k : Nat) : ((g.link a b).supertypes k).Nodup := by
  rw [supertypes_link ha]
  split
  · refine List.nodup_append.mpr ⟨hg.supertypesNodup a, by simp, fun x hx y hy => ?_⟩
    rw [List.mem_singleton.mp hy]
    rintro rfl
    exact hb hx
  · exact hg.supertypesNodup k

theorem edges_link {g : Graph} (hg : g.WellFormed) {a b : Nat} (ha : a < g.size) (hb : b ∉ g.supertypes a) :
    (g.link a b).edges.Perm (g.edges ++ [(a, b)]) := by
  refine (List.perm_ext_iff_of_nodup (edges_nodup (link_supertypesNodup hg ha hb)) ?_).mpr ?_
  · refine List.nodup_append.mpr ⟨hg.edges_nodup, by simp, fun e he f hf => ?_⟩
    rw [List.mem_singleton.mp hf]
    rintro rfl
    exact hb (mem_edges.mp he)
  · rintro ⟨x, y⟩
    rw [mem_edges, mem_supertypes_link ha, List.mem_append, mem_edges]
    simp

theorem link_wellFormed {g : Graph} (hg : g.WellFormed) {a b : Nat} (ha : a < g.size) (hb : b < g.size)
    (hab : a ≠ b) (hn : b ∉ g.supertypes a) : (g.link a b).WellFormed where
  root_iff := by simp only [root?_of_bare (bare_link g a b), typeVar?_of_bare (bare_link g a b), hg.root_iff, implies_true]
  child_iff := by simp only [child?_of_bare (bare_link g a b), parent?_of_bare (bare_link g a b), hg.child_iff, implies_true]
  extends_ {i j l} h := by
    simp only [typeVar?_of_bare (bare_link g a b)]
    exact hg.extends_ (child?_of_bare (bare_link g a b) i l ▸ h)
  orphan_root {i v} hi hp :=
    hg.orphan_root (typeVar?_of_bare (bare_link g a b) i ▸ hi) (parent?_of_bare (bare_link g a b) i ▸ hp)
  childrenNodup i := by rw [children_of_bare (bare_link g a b)]; exact hg.childrenNodup i
  supertypes_lt {x y} h := by
    rw [size_of_bare (bare_link g a b)]
    rcases (mem_supertypes_link ha).mp h with h | ⟨_, rfl⟩
    · exact hg.supertypes_lt h
    · exact hb
  mem_subtypes {x y} := by rw [mem_subtypes_link hb, mem_supertypes_link ha, hg.mem_subtypes]
  irreflexive x h := by
    rcases (mem_supertypes_link ha).mp h with h | ⟨rfl, rfl⟩
    · exact hg.irreflexive x h
    · exact hab rfl
  supertypesNodup := link_supertypesNodup hg ha hn
  edgeCount_eq := by
    rw [(edges_link hg ha hn).length_eq, List.length_append]
    exact congrArg (· + 1) hg.edgeCount_eq
  bindings_lt e he := by rw [size_of_bare (bare_link g a b)]; exact hg.bindings_lt e he

@[simp] theorem bare_relate (g : Graph) (a b : Nat) : (g.relate a b).1.bare = g.bare := by
  rw [relate_eq]
  split <;> simp

theorem relate_wellFormed {g : Graph} (hg : g.WellFormed) {a b : Nat} (ha : a < g.size) (hb : b < g.size) :
    (g.relate a b).1.WellFormed := by
  rw [relate_eq]
  split
  · exact hg
  · rename_i h
    obtain ⟨hab, hn⟩ := not_or.mp h
    exact link_wellFormed hg ha hb hab hn

/-- An edge is added, no other, and none between a node and itself. -/
theorem mem_edges_relate {g : Graph} {a : Nat} (ha : a < g.size) (b i j : Nat) :
    (i, j) ∈ (g.relate a b).1.edges ↔ (i, j) ∈ g.edges ∨ (a ≠ b ∧ i = a ∧ j = b) := by
  rw [mem_edges, mem_edges, relate_eq]
  split
  · rename_i h
    refine ⟨Or.inl, ?_⟩
    rintro (hij | ⟨hne, rfl, rfl⟩)
    · exact hij
    · exact h.resolve_left hne
  · rename_i h
    rw [mem_supertypes_link ha]
    simp [(not_or.mp h).1]

theorem bindTarget_wellFormed {g : Graph} (hg : g.WellFormed) (t : Target) {i : Nat} (hi : i < g.size) :
    (g.bindTarget t i).WellFormed :=
  { hg with
    bindings_lt := fun e he => by
      rcases List.mem_append.mp he with he | he
      · exact hg.bindings_lt e he
      · rw [List.mem_singleton.mp he]; exact hi }

end TypeRecovery.Graph
