/-
  TypeRecovery.Proofs.Insertion — edges and targets in whatever order they come.

  A class keeps its edges, and a table its targets, in the order in which they were entered, and
  both are shown sorted. What was entered is known without its order: a class leads by a label to
  the classes that the steps with this label lead to, and a table has for each target the entry it
  finds for it. Two classes or tables that agree in this hold the same labels or entries, and since
  keys tell these apart they show them in the same order. The rest of a document and the texts of
  sketches are made without a look at the targets.

  A target that is entered twice has its last entry, so for one target the order counts; the
  entries of different targets can change places. In a solve a target is entered for the class it
  was first bound to.

  Proved:
  - `labels_leading`, `shape_leading`: the labels and the shape of a class do not depend on the order
    of its steps, and the classes of a graph are made of such steps (`eq_leading`).
  - `alike_of_target?`: tables of the same sketches that find the same entries are handed over alike.
  - `target?_entering_perm`: each target entered once is found, in whatever order they were entered.
  - `ofPartition_bindings`: in whatever order the targets of a graph are bound, as long as each is
    first bound to the same node.
  - `sortKeys_settle_order`: all this, and that keys tell labels, variables and targets apart.
-/

import TypeRecovery.Command.Run
import TypeRecovery.Proofs.Sketch.Numbers
import TypeRecovery.Proofs.Sketch.Reachable

namespace TypeRecovery

/-! ## The edges of a class -/

namespace TypeClass

/-- The class with an edge added for each step, a label and the class it leads to, in turn. -/
def leading (c : TypeClass) (steps : List (Label × Nat)) : TypeClass :=
  { c with edges := steps.foldl (fun edges (l, d) => addEdge edges l d) [] }

variable (c : TypeClass)

theorem leading_tidy (steps : List (Label × Nat)) : Partition.Tidy (c.leading steps).edges :=
  (Partition.foldl_addEdge (fun d => d) steps Partition.tidy_nil).1

theorem mem_destinations_leading {steps : List (Label × Nat)} {l : Label} {d : Nat} :
    d ∈ (c.leading steps).destinations l ↔ (l, d) ∈ steps := by
  refine ((Partition.foldl_addEdge (fun d => d) steps Partition.tidy_nil).2 l d).trans ?_
  simp

theorem target?_leading {steps steps' : List (Label × Nat)} (h : ∀ e, e ∈ steps ↔ e ∈ steps') (l : Label) :
    (c.leading steps).target? l = (c.leading steps').target? l :=
  min?_congr fun d => by rw [mem_destinations_leading, mem_destinations_leading, h]

theorem mem_labels_leading {steps : List (Label × Nat)} {l : Label} :
    l ∈ (c.leading steps).labels ↔ ∃ d, (l, d) ∈ steps := by
  have hedges := c.leading_tidy steps
  simp only [← mem_destinations_leading c]
  rw [← not_iff_not, ← target?_eq_none_iff hedges, target?, List.min?_eq_none_iff, List.eq_nil_iff_forall_not_mem, not_exists]

/-- The same steps in any order, some of them repeated, give a class the same labels. -/
theorem labels_leading {steps steps' : List (Label × Nat)} (h : ∀ e, e ∈ steps ↔ e ∈ steps') :
    (c.leading steps).labels = (c.leading steps').labels :=
  labels_congr (c.leading_tidy steps') (c.leading_tidy steps) fun l => by
    rw [mem_labels_leading, mem_labels_leading, exists_congr fun d => h (l, d)]

theorem uses_leading {steps steps' : List (Label × Nat)} (h : ∀ e, e ∈ steps ↔ e ∈ steps') :
    Uses.ofClass (c.leading steps) = Uses.ofClass (c.leading steps') := by
  rw [Uses.ofClass_eq, Uses.ofClass_eq, labels_leading c h, funext (target?_leading c h)]

/-- Nothing else of its edges decides the shape of a class and what is reported on it. -/
theorem shape_leading {steps steps' : List (Label × Nat)} (h : ∀ e, e ∈ steps ↔ e ∈ steps') (s : Settings) (filler : Nat) :
    Shape.ofClass s filler (c.leading steps) = Shape.ofClass s filler (c.leading steps') := by
  unfold Shape.ofClass
  rw [uses_leading c h]
  rfl

/-- What is shown of the edges of a class: the labels of its steps, in order, and the shape that they
give it, both the same in whatever order the steps were taken. -/
structure ShowsEdges (steps : List (Label × Nat)) : Prop where
  mem_iff {l : Label} : l ∈ (c.leading steps).labels ↔ ∃ d, (l, d) ∈ steps
  ascending : (c.leading steps).labels.Pairwise fun a b => a.compare b = .lt
  labels_eq {steps' : List (Label × Nat)} : steps'.Perm steps → (c.leading steps').labels = (c.leading steps).labels
  shape_eq {steps' : List (Label × Nat)} : steps'.Perm steps → ∀ s filler,
    Shape.ofClass s filler (c.leading steps') = Shape.ofClass s filler (c.leading steps)

theorem showsEdges (steps : List (Label × Nat)) : c.ShowsEdges steps where
  mem_iff := mem_labels_leading c
  ascending := Label.sortedByKey.strict (c.leading_tidy steps).keys
  labels_eq h := labels_leading c fun _ => h.mem_iff
  shape_eq h := shape_leading c fun _ => h.mem_iff

end TypeClass

/-- The steps from the members of a class, in the order of its members. -/
def Graph.stepsFrom (g : Graph) (c : TypeClass) : List (Label × Nat) :=
  (c.members.flatMap g.children).map fun (l, j) => (l, Partition.classOfNode (Partition.ofGraph g).classOf j)

theorem Partition.eq_leading {g : Graph} {c : TypeClass} (hc : c ∈ (ofGraph g).classes) : c.leading (g.stepsFrom c) = c := by
  obtain ⟨id, members, -, rfl⟩ := mem_classes hc
  simp only [TypeClass.leading, Graph.stepsFrom, List.foldl_map]
  rfl

/-! ## The targets of a table -/

namespace SketchTable

/-- Every target has one entry, under its own name. -/
structure Named (t : SketchTable) : Prop where
  nodup : (t.targets.map (·.1)).Nodup
  own {x : Target} {e : TargetSketch} : t.target? x = some e → e.target = x

theorem Straight.named {t : SketchTable} (h : t.Straight) : t.Named := ⟨h.nodup, fun he => (h.entry he).1⟩

/-- The table with these targets, entered in turn. -/
def entering (t : SketchTable) (entered : List TargetSketch) : SketchTable :=
  { t with targets := Entries.setAll [] (entered.map fun e => (e.target, e)) }

theorem entering_named (t : SketchTable) (entered : List TargetSketch) : (t.entering entered).Named where
  nodup := Entries.nodup_setAll _
  own he := by
    refine Entries.of_lookup?_setAll (P := fun x e => e.target = x) (fun e he => ?_) he
    obtain ⟨e', -, rfl⟩ := List.mem_map.mp he
    rfl

theorem target?_eq_some_iff {t : SketchTable} (ht : t.Named) {x : Target} {e : TargetSketch} :
    t.target? x = some e ↔ (x, e) ∈ t.targets := Entries.lookup?_eq_some_iff ht.nodup

/-- Each target entered once is found, in whatever order they were entered. -/
theorem target?_entering_perm (t : SketchTable) {entered entered' : List TargetSketch}
    (hn : (entered.map (·.target)).Nodup) (h : entered.Perm entered') (x : Target) :
    (t.entering entered).target? x = (t.entering entered').target? x := by
  have hkeys : ((entered.map fun e => (e.target, e)).map (·.1)).Nodup := by rwa [List.map_map]
  have hperm := h.map fun e => (e.target, e)
  rw [target?, target?, entering, entering, Entries.setAll_nil hkeys, Entries.setAll_nil ((hperm.map _).nodup_iff.mp hkeys)]
  exact Entries.lookup?_perm hkeys hperm x

/-! ## What is shown of a table -/

section Listed

variable {t t' : SketchTable} (ht : t.Named)
include ht

theorem mem_sortedTargets {e : TargetSketch} : e ∈ t.sortedTargets ↔ t.target? e.target = some e := by
  rw [sortedTargets, List.mem_mergeSort, List.mem_map, target?_eq_some_iff ht]
  constructor
  · rintro ⟨⟨x, e⟩, he, rfl⟩
    rwa [ht.own ((target?_eq_some_iff ht).mpr he)]
  · exact fun he => ⟨_, he, rfl⟩

/-- Of entries under their own names, those of one key are those of one target. -/
theorem eq_of_sortKey {a b : TargetSketch} (ha : a ∈ t.targets.map (·.2)) (hb : b ∈ t.targets.map (·.2))
    (h : a.target.sortKey = b.target.sortKey) : a = b := by
  have hfound : ∀ {e}, e ∈ t.targets.map (·.2) → t.target? e.target = some e := fun he =>
    (mem_sortedTargets ht).mp (List.mem_mergeSort.mpr he)
  have hsame : t.target? b.target = some a := Target.sortKey_inj h ▸ hfound ha
  exact Option.some.inj (hsame.symm.trans (hfound hb))

theorem nodup_entries : (t.targets.map (·.2)).Nodup := by
  have hnames : (t.targets.map (·.2)).map (·.target) = t.targets.map (·.1) := by
    rw [List.map_map]
    exact List.map_congr_left fun e he => ht.own ((target?_eq_some_iff ht).mpr he)
  exact (hnames ▸ ht.nodup).of_map

theorem sortedTargets_ascending : t.sortedTargets.Pairwise fun a b => a.target.compare b.target = .lt :=
  pairwise_lt_mergeSort_key (fun e : TargetSketch => e.target.sortKey) (fun _ ha _ hb => eq_of_sortKey ht ha hb) (nodup_entries ht)

/-- Tables that find the same entries list them in the same order. -/
theorem sortedTargets_congr (ht' : t'.Named) (h : ∀ x, t'.target? x = t.target? x) : t'.sortedTargets = t.sortedTargets := by
  have hperm : t'.targets.Perm t.targets := by
    refine (List.perm_ext_iff_of_nodup ht'.nodup.of_map ht.nodup.of_map).mpr fun (x, e) => ?_
    rw [← target?_eq_some_iff ht', ← target?_eq_some_iff ht, h]
  exact mergeSort_key_eq_of_perm (fun e : TargetSketch => e.target.sortKey) (fun _ ha _ hb => eq_of_sortKey ht' ha hb) (hperm.map _)

end Listed

theorem renderIn_congr {t t' : SketchTable} (h : t'.sketches = t.sketches) (depth : Nat) :
    t'.renderIn depth = t.renderIn depth := by
  induction depth with
  | zero =>
    funext active id
    unfold renderIn
    simp only [sketch?, h]
  | succ depth ih =>
    funext active id
    unfold renderIn
    simp only [sketch?, h, ih]

/-- One document, and one text in every form in which a solve prints a table. -/
structure Alike (t t' : SketchTable) : Prop where
  targets : t.sortedTargets = t'.sortedTargets
  document : t.toJson = t'.toJson
  printed (o : Command.Options) : Command.tableText? o t = Command.tableText? o t'

theorem alike_of_target? {t t' : SketchTable} (ht : t.Named) (ht' : t'.Named) (hs : t'.sketches = t.sketches)
    (h : ∀ x, t'.target? x = t.target? x) : t'.Alike t := by
  have htargets := sortedTargets_congr ht ht' h
  have hdocument : t'.toJson = t.toJson := by simp only [toJson, sortedSketches, htargets, hs]
  refine ⟨htargets, hdocument, fun o => ?_⟩
  have hrender : ∀ id depth, t'.render? id depth = t.render? id depth := fun id depth => by
    rw [render?, render?, renderIn_congr hs]
  have hdepthless : Command.depthlessText? t' = Command.depthlessText? t :=
    funext fun id => by simp only [Command.depthlessText?, sketch?, hs]
  have hlines : Command.targetLines? t' o.depth = Command.targetLines? t o.depth := by
    cases o.depth <;> simp only [Command.targetLines?, htargets, hrender, hdepthless]
  simp only [Command.tableText?, hdocument, hlines]

/-- What is shown of targets entered in turn: the entries found, in order, and the same of all tables
in which the same are found, as they are where no target is entered twice. -/
structure ShowsTargets (t : SketchTable) (entered : List TargetSketch) : Prop where
  mem_iff {e : TargetSketch} : e ∈ (t.entering entered).sortedTargets ↔ (t.entering entered).target? e.target = some e
  ascending : (t.entering entered).sortedTargets.Pairwise fun a b => a.target.compare b.target = .lt
  alike {entered' : List TargetSketch} : (∀ x, (t.entering entered').target? x = (t.entering entered).target? x) →
    (t.entering entered').Alike (t.entering entered)
  alike_perm {entered' : List TargetSketch} : (entered.map (·.target)).Nodup → entered'.Perm entered →
    (t.entering entered').Alike (t.entering entered)

theorem showsTargets (t : SketchTable) (entered : List TargetSketch) : t.ShowsTargets entered where
  mem_iff := mem_sortedTargets (entering_named t entered)
  ascending := sortedTargets_ascending (entering_named t entered)
  alike h := alike_of_target? (entering_named t entered) (entering_named t _) rfl h
  alike_perm hn h := alike_of_target? (entering_named t entered) (entering_named t _) rfl fun x =>
    (t.target?_entering_perm hn h.symm x).symm

/-! ## The table of a graph under other bindings -/

/-- What a target is entered with is decided by its class, the sketches and the reports. -/
theorem target?_ofPartition_congr (s : Settings) {p p' : Partition} (hn : (p.targets.map (·.1)).Nodup)
    (hn' : (p'.targets.map (·.1)).Nodup) (hs : (ofPartition s p').sketches = (ofPartition s p).sketches)
    (hr : (ofPartition s p').reports = (ofPartition s p).reports)
    (h : ∀ x, Entries.lookup? p'.targets x = Entries.lookup? p.targets x) (x : Target) :
    (ofPartition s p').target? x = (ofPartition s p).target? x := by
  have hsketch : ((ofPartition s p').target? x).map (·.sketch) = ((ofPartition s p).target? x).map (·.sketch) := by
    rw [target?_sketch s hn', target?_sketch s hn, h]
  cases he : (ofPartition s p).target? x with
  | none => rwa [he, Option.map_none, Option.map_eq_none_iff] at hsketch
  | some e =>
    rw [he, Option.map_some, Option.map_eq_some_iff] at hsketch
    obtain ⟨e', he', hsame⟩ := hsketch
    have hreports : e'.reports = e.reports := by
      rw [reports_ofPartition_target he', reports_ofPartition_target he, hsame, gathered_congr hs hr]
    obtain ⟨hname, hclass⟩ := (ofPartition_straight s p).entry he
    obtain ⟨hname', hclass'⟩ := (ofPartition_straight s p').entry he'
    rw [he', Option.some_inj]
    obtain ⟨name, id, sketch, reports⟩ := e
    obtain ⟨name', id', sketch', reports'⟩ := e'
    rw [TargetSketch.mk.injEq]
    exact ⟨hname'.trans hname.symm, hclass'.trans (hsame.trans hclass.symm), hsame, hreports⟩

section Bindings

variable (s : Settings) (g : Graph) (bs : List (Target × Nat))

theorem classSketches_bindings : classSketches s (.ofGraph { g with bindings := bs }) = classSketches s (.ofGraph g) := by
  simp only [classSketches, Partition.ofGraph, List.size_toArray, List.length_map, List.map_map]
  rfl

theorem fillers_bindings : fillers s (.ofGraph { g with bindings := bs }) = fillers s (.ofGraph g) := by
  simp only [fillers, Partition.ofGraph, List.size_toArray, List.length_map, List.any_map]
  rfl

/-- As long as each target is first bound to the same node, the table is the same but for the order
of its entries. -/
theorem ofPartition_bindings (h : ∀ x, Entries.lookup? bs x = Entries.lookup? g.bindings x) :
    (ofPartition s (.ofGraph { g with bindings := bs })).Alike (ofPartition s (.ofGraph g)) := by
  have hs : (ofPartition s (.ofGraph { g with bindings := bs })).sketches = (ofPartition s (.ofGraph g)).sketches := by
    rw [sketches_ofPartition, sketches_ofPartition, classSketches_bindings, fillers_bindings]
  have hr : (ofPartition s (.ofGraph { g with bindings := bs })).reports = (ofPartition s (.ofGraph g)).reports := by
    rw [reports_ofPartition, reports_ofPartition, classSketches_bindings]
  refine alike_of_target? (ofPartition_straight s _).named (ofPartition_straight s _).named hs ?_
  refine target?_ofPartition_congr s (Partition.targets_nodup g) (Partition.targets_nodup _) hs hr fun x => ?_
  rw [Partition.lookup?_first, Partition.lookup?_first, h]
  rfl

end Bindings

end SketchTable

/-! ## One order -/

open SketchTable in
/-- Keys tell labels, variables and targets apart, a number and a name of the same digits too, and each
kind is in one order by them. So a class shows its edges, and a table its targets, in that order,
whatever the order in which they came; each class of a graph is such a class, and the table of a graph
is handed over alike if its targets are bound in another order. -/
theorem sortKeys_settle_order :
    (SortedByKey Label.sortKey Label.compare ∧ SortedByKey TypeVar.sortKey TypeVar.compare ∧
      SortedByKey Target.sortKey Target.compare ∧ ∀ n s, (Target.number n).compare (.name s) = .lt) ∧
    (∀ (c : TypeClass) (steps : List (Label × Nat)), c.ShowsEdges steps) ∧
    (∀ (g : Graph), ∀ c ∈ (Partition.ofGraph g).classes, c.leading (g.stepsFrom c) = c) ∧
    (∀ (t : SketchTable) (entered : List TargetSketch), t.ShowsTargets entered) ∧
    (∀ (s : Settings) (g : Graph) (bs : List (Target × Nat)),
      (∀ x, Entries.lookup? bs x = Entries.lookup? g.bindings x) →
        (ofPartition s (.ofGraph { g with bindings := bs })).Alike (ofPartition s (.ofGraph g))) :=
  ⟨⟨Label.sortedByKey, TypeVar.sortedByKey, Target.sortedByKey, Target.number_before_name⟩, TypeClass.showsEdges,
    fun _ _ hc => Partition.eq_leading hc, showsTargets, ofPartition_bindings⟩

/-- A procedure that is also read as a struct, two fields of which begin at one byte. -/
def calledStruct : TypeClass := ⟨0, [0], [⟨"f", []⟩], [], [], []⟩

def calledSteps : List (Label × Nat) :=
  [(.load, 5), (.store, 4), (.store, 1), (.input 0, 2), (.input 1, 3), (.output 0, 2), (.field ⟨8, 4⟩, 1), (.field ⟨32, 4⟩, 1)]

/-- Targets of one sketch. Ten comes before nine, and a negative number first, since texts are compared. -/
def sharing : List TargetSketch :=
  [⟨.name "9", 0, 0, []⟩, ⟨.number 9, 0, 0, []⟩, ⟨.number 10, 0, 0, []⟩, ⟨.name "-1", 0, 0, []⟩, ⟨.number (-1), 0, 0, []⟩]

def wordTable : SketchTable := ⟨[(0, .primitive (.whole 32))], [], []⟩

/-- Two variables, each with a target of the same text. -/
def namesakes : Graph :=
  { ((Graph.empty.intern ⟨"p", [.load]⟩).1.intern ⟨"q", []⟩).1 with bindings := [(.name "7", 0), (.number 7, 2)] }

theorem mixed_settle_order :
    calledSteps.reverse.Perm calledSteps ∧
    (calledStruct.leading calledSteps.reverse).labels = (calledStruct.leading calledSteps).labels ∧
    (calledStruct.leading calledSteps).labels =
      [.load, .store, .input 0, .input 1, .output 0, .field ⟨8, 4⟩, .field ⟨32, 4⟩] ∧
    (sharing.map (·.target)).Nodup ∧ sharing.reverse.Perm sharing ∧
    (wordTable.entering sharing.reverse).Alike (wordTable.entering sharing) ∧
    Command.targetLines? (wordTable.entering sharing) (some 3) = some
      ["target -1: undefined4", "target 10: undefined4", "target 9: undefined4", "target \"-1\": undefined4",
        "target \"9\": undefined4"] ∧
    (Partition.ofGraph namesakes).classes.size = 3 ∧
    (∀ c ∈ (Partition.ofGraph namesakes).classes, c.leading (namesakes.stepsFrom c) = c) ∧
    (∀ x, Entries.lookup? namesakes.bindings.reverse x = Entries.lookup? namesakes.bindings x) ∧
    (SketchTable.ofPartition .standard (.ofGraph { namesakes with bindings := namesakes.bindings.reverse })).Alike
      (.ofPartition .standard (.ofGraph namesakes)) ∧
    Command.targetLines? (.ofPartition .standard (.ofGraph namesakes)) (some 3) =
      some ["target 7: undefined8", "target \"7\": undefined8*"] := by
  obtain ⟨-, hclass, hgraphClass, htable, hgraph⟩ := sortKeys_settle_order
  have hsteps : calledSteps.reverse.Perm calledSteps := List.reverse_perm _
  have hlabels : (calledStruct.leading calledSteps).labels =
      [.load, .store, .input 0, .input 1, .output 0, .field ⟨8, 4⟩, .field ⟨32, 4⟩] := List.mergeSort_of_pairwise (by decide)
  have hentered : sharing.reverse.Perm sharing := List.reverse_perm _
  have hnames : (sharing.map (·.target)).Nodup := by decide
  have hbound : ∀ x, Entries.lookup? namesakes.bindings.reverse x = Entries.lookup? namesakes.bindings x :=
    Entries.lookup?_perm (by decide) (List.reverse_perm _)
  exact ⟨hsteps, (hclass calledStruct calledSteps).labels_eq hsteps, hlabels, hnames, hentered,
    (htable wordTable sharing).alike_perm hnames hentered, by cbv, by cbv, hgraphClass namesakes, hbound,
    hgraph _ _ _ hbound, by cbv⟩

end TypeRecovery
