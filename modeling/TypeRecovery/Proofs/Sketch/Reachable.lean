/-
  TypeRecovery.Proofs.Sketch.Reachable — what a walk finds, and what a target reports.

  A walk divides the sketches it has seen into those done and those that wait. Each stands at a
  level, the number of references over which it was found. Levels never fall along the done and
  the waiting sketches, and those that wait differ by one level at most; so a sketch found from the
  first one waiting, one level further, may go to the end. What a done sketch names has been seen,
  at most one level further. When none wait, the done sketches are therefore closed under
  references, and by induction on the number of references no way to a sketch is shorter than its
  level.

  Entering a target reads the sketches and their reports and changes neither, so each target is
  entered as if it were the only one. A report on a class carries the number of the class, which
  tells the reports on different classes apart wherever they are put together.

  Proved:
  - `Frontier.step`, `walk_frontier`: what one turn and a whole walk keep.
  - `sweeps_of_reachable?`: a walk that ends gives what can be reached, nearer sketches first.
  - `reachable_complete`: it ends in every closed table, and the reports of a target are those on
    the sketches that its class reaches.
-/

import TypeRecovery.Proofs.Sketch.Numbers

namespace TypeRecovery

namespace SketchTable

/-! ## Ways over references -/

/-- The sketch `a` refers to `b`. -/
def Names (t : SketchTable) (a b : Int) : Prop := ∃ sketch, t.sketch? a = some sketch ∧ b ∈ sketch.references

/-- A way over so many references. -/
inductive Way (t : SketchTable) (a : Int) : Nat → Int → Prop
  | here : Way t a 0 a
  | next {n : Nat} {b c : Int} : Way t a n b → t.Names b c → Way t a (n + 1) c

def Reaches (t : SketchTable) (a b : Int) : Prop := ∃ n, t.Way a n b

/-- No way from the root to `b` is shorter than all ways to `a`. -/
def AsNear (t : SketchTable) (root a b : Int) : Prop := ∀ n, t.Way root n b → ∃ m, m ≤ n ∧ t.Way root m a

/-- `ids` are the sketches that the root reaches, each once, the root first and nearer ones before
farther ones. -/
structure Sweeps (t : SketchTable) (root : Int) (ids : List Int) : Prop where
  head : ids.head? = some root
  nodup : ids.Nodup
  mem_iff {id : Int} : id ∈ ids ↔ t.Reaches root id
  order : ids.Pairwise (t.AsNear root)

/-! ## One walk -/

theorem mem_enqueue (references : List Int) (seen queue : List Int) {r : Int} :
    r ∈ (enqueue seen queue references).1 ↔ r ∈ seen ∨ r ∈ references := by
  induction references generalizing seen queue with
  | nil => simp [enqueue]
  | cons x rest ih =>
    rw [enqueue_cons]
    split
    · rename_i hx
      rw [ih, List.mem_cons]
      constructor
      · rintro (h | h)
        · exact Or.inl h
        · exact Or.inr (Or.inr h)
      · rintro (h | rfl | h)
        · exact Or.inl h
        · exact Or.inl hx
        · exact Or.inr h
    · rw [ih, List.mem_append, List.mem_singleton, List.mem_cons, or_assoc]

/-- The sketches seen are those done and those that wait, each at its level. -/
structure Frontier (t : SketchTable) (root : Int) (level : Int → Nat) (done queue : List Int) : Prop where
  nodup : (done ++ queue).Nodup
  origin : root ∈ done ++ queue ∧ level root = 0
  way {x : Int} : x ∈ done ++ queue → t.Way root (level x) x
  sorted : (done ++ queue).Pairwise fun a b => level a ≤ level b
  width {a b : Int} : a ∈ queue → b ∈ queue → level b ≤ level a + 1
  closed {a b : Int} : a ∈ done → t.Names a b → b ∈ done ++ queue ∧ level b ≤ level a + 1

variable {t : SketchTable} {root : Int}

theorem Frontier.start (t : SketchTable) (root : Int) : t.Frontier root (fun _ => 0) [] [root] where
  nodup := List.nodup_singleton root
  origin := ⟨List.mem_singleton_self root, rfl⟩
  way h := List.mem_singleton.mp h ▸ .here
  sorted := List.pairwise_singleton _ root
  width _ _ := Nat.zero_le _
  closed h := absurd h List.not_mem_nil

/-- The first one waiting is done; what it names and has not been seen waits, one level further. -/
theorem Frontier.step {level : Int → Nat} {done rest new : List Int} {id : Int} {sketch : Sketch}
    (hf : t.Frontier root level done (id :: rest)) (hsketch : t.sketch? id = some sketch)
    (hn : (done ++ id :: rest ++ new).Nodup) (hnew : ∀ r ∈ new, r ∈ sketch.references)
    (hsees : ∀ r ∈ sketch.references, r ∈ done ++ id :: rest ++ new) :
    t.Frontier root (fun x => if x ∈ new then level id + 1 else level x) (done ++ [id]) (rest ++ new) := by
  have hsplit : done ++ [id] ++ (rest ++ new) = done ++ id :: rest ++ new := by simp
  have hid : id ∈ done ++ id :: rest := List.mem_append_right _ List.mem_cons_self
  have hold : ∀ x ∈ done ++ id :: rest, x ∉ new := fun x hx hxn => (List.nodup_append.mp hn).2.2 x hx x hxn rfl
  obtain ⟨hdone, hqueue, hacross⟩ := List.pairwise_append.mp hf.sorted
  -- the level of the first one waiting lies between those done and those that wait
  have hlow : ∀ x ∈ rest, level id ≤ level x := (List.pairwise_cons.mp hqueue).1
  have hhigh : ∀ x ∈ done ++ id :: rest, level x ≤ level id + 1 := by
    intro x hx
    rcases List.mem_append.mp hx with hx | hx
    · exact Nat.le_succ_of_le (hacross x hx id List.mem_cons_self)
    · exact hf.width List.mem_cons_self hx
  have hrest : ∀ x ∈ rest, x ∈ done ++ id :: rest :=
    fun x hx => List.mem_append_right _ (List.mem_cons_of_mem _ hx)
  refine ⟨hsplit ▸ hn, ⟨?_, ?_⟩, fun {x} hx => ?_, ?_, fun {a b} ha hb => ?_, fun {a b} ha hab => ?_⟩
  · rw [hsplit]
    exact List.mem_append_left _ hf.origin.1
  · simp only [if_neg (hold root hf.origin.1), hf.origin.2]
  · rw [hsplit] at hx
    rcases List.mem_append.mp hx with hx | hx
    · simpa only [if_neg (hold x hx)] using hf.way hx
    · simpa only [if_pos hx] using (hf.way hid).next ⟨sketch, hsketch, hnew x hx⟩
  · rw [hsplit]
    refine List.pairwise_append.mpr ⟨hf.sorted.imp_of_mem fun {a b} ha hb h => ?_, ?_, fun a ha b hb => ?_⟩
    · simpa only [if_neg (hold a ha), if_neg (hold b hb)] using h
    · refine List.pairwise_of_forall_mem_list fun a ha b hb => ?_
      simp only [if_pos ha, if_pos hb, Nat.le_refl]
    · simpa only [if_neg (hold a ha), if_pos hb] using hhigh a ha
  · have hla : level id ≤ if a ∈ new then level id + 1 else level a := by
      rcases List.mem_append.mp ha with ha | ha
      · simpa only [if_neg (hold a (hrest a ha))] using hlow a ha
      · simp only [if_pos ha, Nat.le_succ]
    have hlb : (if b ∈ new then level id + 1 else level b) ≤ level id + 1 := by
      rcases List.mem_append.mp hb with hb | hb
      · simpa only [if_neg (hold b (hrest b hb))] using hhigh b (hrest b hb)
      · simp only [if_pos hb, Nat.le_refl]
    omega
  · rw [hsplit]
    rcases List.mem_append.mp ha with ha | ha
    · obtain ⟨hb, hle⟩ := hf.closed ha hab
      refine ⟨List.mem_append_left _ hb, ?_⟩
      simpa only [if_neg (hold a (List.mem_append_left _ ha)), if_neg (hold b hb)] using hle
    · cases List.mem_singleton.mp ha
      obtain ⟨sketch', hsketch', href⟩ := hab
      cases hsketch.symm.trans hsketch'
      have hb := hsees b href
      refine ⟨hb, ?_⟩
      simp only [if_neg (hold id hid)]
      rcases List.mem_append.mp hb with hb | hb
      · simpa only [if_neg (hold b hb)] using hhigh b hb
      · simp only [if_pos hb, Nat.le_refl]

/-- A walk that ends has everything done. -/
theorem walk_frontier (budget : Nat) {level : Int → Nat} {done queue ids : List Int}
    (hf : t.Frontier root level done queue) (h : t.walk budget (done ++ queue) queue = some ids) :
    ∃ level', t.Frontier root level' (done ++ ids) [] := by
  induction budget generalizing level done queue ids with
  | zero =>
    cases queue with
    | nil =>
      cases h
      exact ⟨level, by rwa [List.append_nil]⟩
    | cons id rest => cases h
  | succ budget ih =>
    cases queue with
    | nil =>
      cases h
      exact ⟨level, by rwa [List.append_nil]⟩
    | cons id rest =>
      rw [walk] at h
      obtain ⟨sketch, hsketch, h⟩ := Option.bind_eq_some_iff.mp h
      obtain ⟨new, he, hn, hnew⟩ := enqueue_spec sketch.references rest hf.nodup
      have hsees : ∀ r ∈ sketch.references, r ∈ done ++ id :: rest ++ new := fun r hr => by
        have hmem := (mem_enqueue sketch.references (done ++ id :: rest) rest).mpr (Or.inr hr)
        rwa [he] at hmem
      rw [he] at h
      obtain ⟨more, hmore, h⟩ := Option.bind_eq_some_iff.mp h
      cases h
      have hsplit : done ++ id :: rest ++ new = done ++ [id] ++ (rest ++ new) := by simp
      obtain ⟨level', hf'⟩ := ih (hf.step hsketch hn hnew hsees) (hsplit ▸ hmore)
      exact ⟨level', by simpa using hf'⟩

/-- When none wait, no way is shorter than the level of where it leads. -/
theorem Frontier.level_le {level : Int → Nat} {ids : List Int} (hf : t.Frontier root level ids []) {n : Nat} {x : Int}
    (h : t.Way root n x) : x ∈ ids ∧ level x ≤ n := by
  induction h with
  | here =>
    obtain ⟨hmem, hroot⟩ := hf.origin
    exact ⟨by simpa using hmem, Nat.le_of_eq hroot⟩
  | next _ hnames ih =>
    obtain ⟨hmem, hle⟩ := hf.closed ih.1 hnames
    exact ⟨by simpa using hmem, Nat.le_trans hle (Nat.succ_le_succ ih.2)⟩

theorem head?_of_reachable? {ids : List Int} (h : t.reachable? root = some ids) : ids.head? = some root := by
  rw [reachable?, walk] at h
  obtain ⟨sketch, -, h⟩ := Option.bind_eq_some_iff.mp h
  obtain ⟨more, -, h⟩ := Option.bind_eq_some_iff.mp h
  cases h
  rfl

theorem sweeps_of_reachable? {ids : List Int} (h : t.reachable? root = some ids) : t.Sweeps root ids := by
  obtain ⟨level, hf⟩ := walk_frontier (t.size + 1) (.start t root) h
  rw [List.nil_append] at hf
  refine ⟨head?_of_reachable? h, by simpa using hf.nodup, fun {id} => ⟨fun hid => ?_, ?_⟩, ?_⟩
  · exact ⟨level id, hf.way (List.mem_append_left _ hid)⟩
  · rintro ⟨n, hway⟩
    exact (hf.level_le hway).1
  · refine (by simpa using hf.sorted : ids.Pairwise _).imp_of_mem fun {a b} ha _ hle n hway => ?_
    exact ⟨level a, Nat.le_trans hle (hf.level_le hway).2, hf.way (List.mem_append_left _ ha)⟩

end SketchTable

/-! ## Reports on classes -/

/-- The report carries the number `id` of the class that it is about. -/
def Report.concerns (r : Report) (id : Int) : Bool :=
  match Entries.lookup? r.evidence "class" with
  | some (.plain (.whole n)) => n = id
  | _ => false

theorem TypeClass.concerns_report (c : TypeClass) (kind : ReportKind) (message : String) (severity : Severity)
    (evidence : Evidence) (id : Int) : (c.report kind message severity evidence).concerns id = decide ((c.id : Int) = id) := by
  simp [Report.concerns, TypeClass.report, Entries.lookup?_set, Subject.ofInt]

/-- All reports on a class are made for it. -/
theorem Shape.exists_report (s : Settings) (filler : Nat) (c : TypeClass) {r : Report}
    (h : r ∈ (Shape.ofClass s filler c).reports) :
    ∃ kind message severity evidence, r = c.report kind message severity evidence := by
  have hmixed : ∀ u, ∀ r ∈ c.mixedReports u ++ c.pointeeReports u,
      ∃ kind message severity evidence, r = c.report kind message severity evidence := by
    intro u r hr
    rcases List.mem_append.mp hr with hr | hr
    · unfold TypeClass.mixedReports at hr
      split at hr
      · exact ⟨_, _, _, _, List.mem_singleton.mp hr⟩
      · cases hr
    · unfold TypeClass.pointeeReports at hr
      split at hr
      · split at hr
        · cases hr
        · exact ⟨_, _, _, _, List.mem_singleton.mp hr⟩
      · cases hr
  unfold Shape.ofClass at h
  dsimp only at h
  split at h
  · exact hmixed _ r h
  · split at h
    · exact hmixed _ r h
    · split at h
      · exact hmixed _ r h
      · rcases List.mem_append.mp h with h | h
        · exact hmixed _ r h
        · obtain ⟨conflict, -, rfl⟩ := List.mem_map.mp h
          cases conflict with
          | widths => exact ⟨_, _, _, _, rfl⟩
          | overlap => exact ⟨_, _, _, _, rfl⟩

namespace SketchTable

/-- Reports are kept under the number that they carry. -/
theorem concerns_of_mem_reportsOf {s : Settings} {p : Partition} {id : Int} {r : Report}
    (h : r ∈ (ofPartition s p).reportsOf id) (id' : Int) : r.concerns id' = decide (id = id') := by
  cases hlookup : Entries.lookup? (ofPartition s p).reports id with
  | none => simp [reportsOf, hlookup] at h
  | some rs =>
    have hr : r ∈ rs := by simpa [reportsOf, hlookup] using h
    have hmem := Entries.mem_of_lookup? hlookup
    rw [reports_ofPartition] at hmem
    obtain ⟨e, he, heq⟩ := List.mem_map.mp (List.mem_filter.mp hmem).1
    obtain ⟨c, -, rfl⟩ := List.mem_map.mp he
    cases heq
    obtain ⟨kind, message, severity, evidence, rfl⟩ := Shape.exists_report s _ c hr
    exact c.concerns_report kind message severity evidence id'

/-- Among the reports on different sketches, those that carry a number are those on its sketch. -/
theorem filter_concerns {s : Settings} {p : Partition} {ids : List Int} (hn : ids.Nodup) (id : Int) :
    (ids.flatMap (ofPartition s p).reportsOf).filter (·.concerns id) =
      if id ∈ ids then (ofPartition s p).reportsOf id else [] := by
  have hall : ∀ x, ((ofPartition s p).reportsOf x).filter (·.concerns id) =
      if x = id then (ofPartition s p).reportsOf x else [] := by
    intro x
    split
    · rename_i hx
      exact List.filter_eq_self.mpr fun r hr => by rw [concerns_of_mem_reportsOf hr, decide_eq_true hx]
    · rename_i hx
      exact List.filter_eq_nil_iff.mpr fun r hr => by simp [concerns_of_mem_reportsOf hr, hx]
  induction ids with
  | nil => simp
  | cons x rest ih =>
    obtain ⟨hx, hrest⟩ := List.nodup_cons.mp hn
    rw [List.flatMap_cons, List.filter_append, ih hrest, hall]
    by_cases hid : x = id
    · subst hid
      simp [hx]
    · simp [hid, Ne.symm hid]

/-! ## Entering targets -/

theorem walk_congr {t t' : SketchTable} (h : t'.sketches = t.sketches) (budget : Nat) (seen queue : List Int) :
    t'.walk budget seen queue = t.walk budget seen queue := by
  induction budget generalizing seen queue with
  | zero => cases queue <;> rfl
  | succ budget ih =>
    cases queue with
    | nil => rfl
    | cons id rest => simp only [walk, sketch?, h, ih]

/-- The reports that a target gets when it is entered for the sketch `id`. -/
def gathered (t : SketchTable) (id : Int) : List Report := ((t.reachable? id).getD []).flatMap t.reportsOf

theorem gathered_congr {t t' : SketchTable} (hs : t'.sketches = t.sketches) (hr : t'.reports = t.reports) (id : Int) :
    t'.gathered id = t.gathered id := by
  have hreach : t'.reachable? id = t.reachable? id := by
    rw [reachable?, reachable?, size, size, hs]
    exact walk_congr hs _ _ _
  have hof : t'.reportsOf = t.reportsOf := funext fun x => by rw [reportsOf, reportsOf, hr]
  rw [gathered, gathered, hreach, hof]

/-- Every target has the reports that are gathered for its sketch. -/
theorem reports_ofPartition_target {s : Settings} {p : Partition} {x : Target} {e : TargetSketch}
    (h : (ofPartition s p).target? x = some e) : e.reports = (ofPartition s p).gathered e.sketch := by
  refine ofPartition_induction
    (motive := fun t => ∀ x e, t.target? x = some e → e.reports = t.gathered e.sketch) ?_ ?_ x e h
  · intro x e he
    cases he
  · intro t y id ht x e he
    have hsame : (t.enterTarget y id).gathered e.sketch = t.gathered e.sketch := gathered_congr (by rfl) (by rfl) _
    rw [hsame]
    rw [target?, enterTarget, Entries.lookup?_set] at he
    split at he
    · cases he
      rfl
    · exact ht x e he

/-- The entry `e` of a target bound to the class `c`: its reports are those on the sketches that the
sketch of the class reaches, in the order of the walk. So whatever was reported on a class stands in
it, as often as it was reported, exactly if the class can be reached. -/
structure Gathers (t : SketchTable) (c : TypeClass) (e : TargetSketch) : Prop where
  sketch : e.sketch = c.id
  swept : ∃ ids, t.Sweeps c.id ids ∧ e.reports = ids.flatMap t.reportsOf
  reached {id : Int} : t.Reaches c.id id → e.reports.filter (·.concerns id) = t.reportsOf id
  unreached {id : Int} : ¬t.Reaches c.id id → e.reports.filter (·.concerns id) = []

theorem gathers_ofPartition {s : Settings} {p : Partition} {x : Target} {c : TypeClass} {e : TargetSketch}
    (hclosed : (ofPartition s p).Closed) (he : (ofPartition s p).target? x = some e) (hsketch : e.sketch = c.id)
    (hc : ((ofPartition s p).sketch? c.id).isSome = true) : (ofPartition s p).Gathers c e := by
  obtain ⟨ids, hids, -⟩ := hclosed.reachable? hc
  have hsweeps := sweeps_of_reachable? hids
  have hreports : e.reports = ids.flatMap (ofPartition s p).reportsOf := by
    rw [reports_ofPartition_target he, gathered, hsketch, hids, Option.getD_some]
  refine ⟨hsketch, ⟨ids, hsweeps, hreports⟩, fun {id} h => ?_, fun {id} h => ?_⟩
  · rw [hreports, filter_concerns hsweeps.nodup, if_pos (hsweeps.mem_iff.mpr h)]
  · rw [hreports, filter_concerns hsweeps.nodup, if_neg (fun hid => h (hsweeps.mem_iff.mp hid))]

end SketchTable

open SketchTable in
/-- In a closed table the walk from every sketch ends, with what the sketch reaches, nearer sketches
before farther ones; and in a solve every target bound to a class gathers the reports on all the
class reaches. -/
theorem reachable_complete :
    (∀ t : SketchTable, t.Closed → ∀ root, (t.sketch? root).isSome = true →
      ∃ ids, t.reachable? root = some ids ∧ t.Sweeps root ids) ∧
    ∀ (s : Settings) (clock : Clock) (readings : Nat) (c : ConstraintSet) (sol : Solution),
      (solve s clock readings c).result = .ok sol →
      ∀ x, Option.Rel sol.table.Gathers (sol.partition.target? x) (sol.table.target? x) := by
  constructor
  · intro t ht root hroot
    obtain ⟨ids, hids, -⟩ := ht.reachable? hroot
    exact ⟨ids, hids, sweeps_of_reachable? hids⟩
  · intro s clock readings c sol h x
    have hg := solved_wellFormed h
    rw [solved_table h, solved_partition h]
    have hclosed := ofPartition_closed hg s
    cases he : (ofPartition s (.ofGraph sol.graph)).target? x with
    | none =>
      cases hc : (Partition.ofGraph sol.graph).target? x with
      | none => exact .none
      | some cls =>
        obtain ⟨e, he'⟩ := exists_entry (Partition.targets_nodup _) s hc
        rw [he] at he'
        cases he'
    | some e =>
      obtain ⟨cls, hc, -, -, hsketch, hlt⟩ := target_class hg s he
      rw [hc]
      have hin : ((ofPartition s (.ofGraph sol.graph)).sketch? cls.id).isSome = true :=
        (mem_ids_ofPartition s).mpr (Or.inl ⟨Int.natCast_nonneg _, Int.ofNat_lt.mpr hlt⟩)
      exact .some (gathers_ofPartition hclosed he hsketch hin)

/-- A function that takes itself, and through which is loaded as well. -/
def takesItself : ConstraintSet where
  subtypings := [⟨⟨"f", [.input 0]⟩, ⟨"f", []⟩⟩, ⟨⟨"f", [.load]⟩, ⟨"x", []⟩⟩]
  bindings := [⟨.name "callback", ⟨⟨"f", []⟩, ⟨"f", []⟩⟩⟩]

/-- The report on its class, which the load adds, stands in its target. -/
theorem takesItself_gathers :
    ∃ sol cls e, (solve .standard (.ticking (.whole 0)) 0 takesItself).result = .ok sol ∧
      sol.table.Closed ∧ (∃ ids, sol.table.reachable? cls.id = some ids ∧ sol.table.Sweeps cls.id ids) ∧
      sol.table.target? (.name "callback") = some e ∧ sol.table.Gathers cls e ∧
      ∃ r ∈ sol.table.reportsOf cls.id, r ∈ e.reports := by
  obtain ⟨sol, h, hbound, hload, hinput⟩ :
      ∃ sol, (solve .standard (.ticking (.whole 0)) 0 takesItself).result = .ok sol ∧
        Entries.lookup? sol.graph.boundVars (.name "callback") = some (some ⟨"f", []⟩) ∧
        sol.graph.contains (TypeVar.extend ⟨"f", []⟩ .load) = true ∧
        sol.graph.contains (TypeVar.extend ⟨"f", []⟩ (.input 0)) = true :=
    ⟨_, rfl, by decide, by decide, by decide⟩
  have hg := solved_wellFormed h
  have hs := solved_saturated h
  have htight := solved_table_tight h
  -- the class of the function has both steps, so its sketch is a function and the load is reported
  obtain ⟨cls, loaded, hcls, -, htoLoaded⟩ := Partition.target?_extend hg hs hload
  obtain ⟨cls', taken, hcls', -, htoTaken⟩ := Partition.target?_extend hg hs hinput
  cases hcls.symm.trans hcls'
  have hmem := Partition.mem_of_classOf? hcls
  have htidy := Partition.tidy_of_mem hmem
  have hclass := (Partition.ofGraph_numbered sol.graph).class?_id hmem
  have hkind : (Shape.ofClass .standard (Partition.ofGraph sol.graph).classes.size cls).sketch.kindName = "function" := by
    unfold Shape.ofClass
    simp only [(Uses.isCalled_iff htidy).mpr ⟨0, taken.id, Or.inl htoTaken⟩, if_true]
    rfl
  obtain ⟨r, hr, -⟩ := Shape.other_family_reported htidy .standard _ htoLoaded
    (fun he => absurd (he.trans hkind) (by decide))
  have hrecorded : r ∈ sol.table.reportsOf cls.id := by
    rw [solved_table h, solved_partition h, SketchTable.reportsOf_class (Partition.ofGraph_numbered _) _ hclass]
    exact hr
  -- the target is bound to that class
  have htarget : sol.partition.target? (.name "callback") = some cls := by
    have hlookup := Partition.lookup?_targets hg (.name "callback")
    rw [hbound, Option.bind_some, Option.bind_some, hcls, Option.map_some] at hlookup
    rw [solved_partition h, Partition.target?, hlookup, Option.bind_some, hclass]
  have hclosed : sol.table.Closed := fun id sketch hid ref href =>
    SketchTable.mem_ids_iff.mp (htight.closed hid ref href)
  have hin : (sol.table.sketch? cls.id).isSome = true := by
    rw [solved_table h, solved_partition h, SketchTable.sketch?_class (Partition.ofGraph_numbered _) _ hclass]
    rfl
  obtain ⟨e, he⟩ := htight.bound htarget
  have hgathers : sol.table.Gathers cls e := by
    have hrel := reachable_complete.2 _ _ _ _ sol h (.name "callback")
    rw [htarget, he] at hrel
    cases hrel with
    | some hgathers => exact hgathers
  refine ⟨sol, cls, e, h, hclosed, reachable_complete.1 _ hclosed _ hin, he, hgathers, r, hrecorded, ?_⟩
  rw [← hgathers.reached ⟨0, .here⟩] at hrecorded
  exact (List.mem_filter.mp hrecorded).1

end TypeRecovery
