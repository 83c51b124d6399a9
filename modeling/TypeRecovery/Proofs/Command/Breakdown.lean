/-
  TypeRecovery.Proofs.Command.Breakdown — the runs that break off without an exit code.

  Most setbacks are complained about and end a run with its exit code for unusable input. A few
  are not: bytes from standard input or from the file with settings that are no text, a name that
  no file can have, a path that would have to be cut at a limit that is not an integer, a duration
  that cannot be shown, a depth left out where one is needed, and output with half of a surrogate
  pair in it. `Breaks` follows these through the steps of a task; no other step breaks off.

  Of what an interpreter may bound besides, nothing is said here: the digits of an integer that is
  read or shown, the nesting of a document, the depth of a recursion and the memory.

  Proved:
  - `breaks_bind`: a step breaks off before another one, or the other one does.
  - `breaks_loadInput`, `breaks_loadSettings`, `breaks_solveTask`, …: where each part breaks off.
  - `breaks_emit`: putting text out breaks off if the text holds a half.
  - `breaks_work`: the setbacks of a whole task.
  - `exit_code_iff`: a request ends with an exit code unless one of them is met.
-/

import TypeRecovery.Proofs.Command.Task
import TypeRecovery.Proofs.Graph.Admission

namespace TypeRecovery.Command

variable {α β : Type} {b : Breakdown}

namespace Course

/-- The step meets a setback that is not complained about. -/
def Breaks (w : Course α) (b : Breakdown) : Prop := ∃ s, w.result = .error s ∧ s.ending = .broken b

theorem breaks_of_error {w : Course α} {s : Setback} (h : w.result = .error s) : w.Breaks b ↔ s.ending = .broken b := by
  simp [Breaks, h]

theorem not_breaks_of_ok {w : Course α} {a : α} (h : w.result = .ok a) : ¬w.Breaks b := by
  simp [Breaks, h]

@[simp] theorem not_breaks_pure (a : α) : ¬(pure a : Course α).Breaks b := not_breaks_of_ok rfl

@[simp] theorem not_breaks_say (events : List Event) : ¬(say events).Breaks b := not_breaks_of_ok rfl

@[simp] theorem not_breaks_complain (message : String) : ¬(complain message : Course α).Breaks b := by
  rw [breaks_of_error rfl]
  exact nofun

@[simp] theorem breaks_stop (s : Setback) : (stop s : Course α).Breaks b ↔ s.ending = .broken b := breaks_of_error rfl

/-- A step breaks off before another one, or the other one does. -/
theorem breaks_bind {w : Course α} {f : α → Course β} :
    (w >>= f).Breaks b ↔ w.Breaks b ∨ ∃ a, w.result = .ok a ∧ (f a).Breaks b := by
  unfold Breaks
  rw [result_bind]
  cases w.result <;> simp [Except.bind]

@[simp] theorem breaks_say_bind (events : List Event) (f : Unit → Course β) : (say events >>= f).Breaks b ↔ (f ()).Breaks b :=
  Iff.rfl

end Course

open Course (breaks_bind breaks_of_error not_breaks_of_ok)

/-! ## Input -/

theorem breaks_opened {path : String} {content : Except FileFault Bytes} :
    (opened path content).Breaks b ↔ content = .error .badName ∧ b = .badName := by
  unfold opened
  split
  · simp
  · simp
  · simp [Setback.ending, eq_comm]
  · rename_i f _ hbad
    simp [show f ≠ .badName from hbad]

theorem result_opened {path : String} {content : Except FileFault Bytes} {bs : Bytes} :
    (opened path content).result = .ok bs ↔ content = .ok bs := by
  unfold opened
  split
  · rename_i bs'
    exact ⟨fun h => congrArg Except.ok (Except.ok.inj h), fun h => congrArg Except.ok (Except.ok.inj h)⟩
  · exact ⟨nofun, nofun⟩
  · exact ⟨nofun, nofun⟩
  · exact ⟨nofun, nofun⟩

theorem fileText?_eq_none_iff {bs : Bytes} : fileText? bs = none ↔ Text.ofBytes? bs = none := Option.map_eq_none_iff

theorem breaks_inputText {path : String} {bs : Bytes} :
    (inputText path bs).Breaks b ↔ path = standardInput ∧ Text.ofBytes? bs = none ∧ b = .undecodable := by
  rw [← fileText?_eq_none_iff, inputText]
  cases fileText? bs with
  | some text => simp
  | none =>
    by_cases hpath : path = standardInput
    · simp [hpath, Setback.ending, eq_comm]
    · simp [hpath]

theorem not_breaks_ofDecoded (d : Document.Decoded α) : ¬(ofDecoded d).Breaks b := by
  cases d <;> simp [ofDecoded]

theorem not_breaks_parseInput (path text : String) : ¬(parseInput path text).Breaks b := by
  unfold parseInput
  cases Language.parse text (some (inputName path)) with
  | ok c => simp
  | error e => simp [Setback.ending]

theorem not_breaks_loadText (mark : Text.Mark) (format : InputFormat) (path text : String) :
    ¬(loadText mark format path text).Breaks b := by
  rw [loadText]
  generalize format.byText text = found
  cases found with
  | document =>
    rw [Course.breaks_say_bind]
    exact not_breaks_ofDecoded _
  | auto | language | message =>
    rw [Course.breaks_say_bind]
    exact not_breaks_parseInput path text

/-- Standard input has no ending that tells a message. -/
theorem byName_standardInput (format : InputFormat) : format.byName standardInput = format := by
  refine if_neg fun h => ?_
  have hending : PathName.ending standardInput ∉ messageEndings := by decide +kernel
  exact hending h.2

theorem breaks_loadInput {mark : Text.Mark} {format : InputFormat} {path : String} {content : Except FileFault Bytes} :
    (loadInput mark format path content).Breaks b ↔ (content = .error .badName ∧ b = .badName) ∨
      ∃ bs, content = .ok bs ∧ path = standardInput ∧ format ≠ .message ∧ Text.ofBytes? bs = none ∧ b = .undecodable := by
  rw [loadInput, breaks_bind, breaks_opened]
  refine or_congr_right (exists_congr fun bs => ?_)
  rw [result_opened]
  refine and_congr_right fun _ => ?_
  generalize hfound : format.byName path = found
  have hstandard : path = standardInput → found = format := fun h => by rw [← hfound, h, byName_standardInput]
  cases found with
  | message =>
    rw [Course.breaks_say_bind]
    exact iff_of_false (not_breaks_ofDecoded _) fun h => h.2.1 (hstandard h.1).symm
  | auto | language | document =>
    rw [breaks_bind, breaks_inputText]
    constructor
    · rintro (⟨hpath, hbytes, hb⟩ | ⟨text, -, htext⟩)
      · refine ⟨hpath, ?_, hbytes, hb⟩
        rintro rfl
        cases hstandard hpath
      · exact absurd htext (not_breaks_loadText mark _ path text)
    · rintro ⟨hpath, -, hbytes, hb⟩
      exact Or.inl ⟨hpath, hbytes, hb⟩

/-! ## Settings -/

theorem breaks_settingsMembers {mark : Text.Mark} {path : String} {content : Except FileFault Bytes} :
    (settingsMembers mark path content).Breaks b ↔ (content = .error .badName ∧ b = .badName) ∨
      ∃ bs, content = .ok bs ∧ Text.ofBytes? bs = none ∧ b = .undecodable := by
  unfold settingsMembers
  split
  · simp [Setback.ending, eq_comm]
  · rename_i f hbad
    simp [show f ≠ .badName from hbad]
  · rename_i bs
    simp only [reduceCtorEq, false_and, false_or, Except.ok.injEq, exists_eq_left']
    rw [← fileText?_eq_none_iff]
    cases fileText? bs with
    | none => simp [Setback.ending, eq_comm]
    | some text =>
      dsimp only
      split <;> simp

theorem breaks_loadSettings {mark : Text.Mark} {o : Options} {content : Except FileFault Bytes} :
    (loadSettings mark o content).Breaks b ↔ o.settingsFile ≠ "" ∧ ((content = .error .badName ∧ b = .badName) ∨
      ∃ bs, content = .ok bs ∧ Text.ofBytes? bs = none ∧ b = .undecodable) := by
  rw [← @breaks_settingsMembers b mark o.settingsFile content]
  unfold loadSettings
  by_cases hfile : o.settingsFile = ""
  · rw [if_pos (String.isEmpty_iff.mpr hfile)]
    refine iff_of_false ?_ fun h => h.1 hfile
    dsimp only
    rw [Course.pure_bind]
    split <;> simp
  · rw [if_neg fun h => hfile (String.isEmpty_iff.mp h), breaks_bind]
    constructor
    · rintro (h | ⟨members, -, h⟩)
      · exact ⟨hfile, h⟩
      · dsimp only at h
        split at h <;> simp at h
    · exact fun h => Or.inl h.2

/-! ## Output -/

section Output

variable {o : Options} {mark : Text.Mark}

theorem breaks_emit (text : String) : (o.emit mark text).Breaks b ↔ mark.isIn text = true ∧ b = .unencodable := by
  unfold Course.Breaks
  rw [result_emit]
  cases mark.isIn text with
  | false => simp
  | true => simp [Setback.ending, eq_comm]

/-- Once the text is out, nothing breaks off any more. -/
theorem breaks_emit_bind {text : String} {f : Unit → Course α} {a : α} (h : (f ()).result = .ok a) :
    (o.emit mark text >>= f).Breaks b ↔ mark.isIn text = true ∧ b = .unencodable := by
  rw [breaks_bind, breaks_emit]
  exact or_iff_left fun ⟨_, _, hf⟩ => not_breaks_of_ok h hf

end Output

/-! ## Tasks -/

section Tasks

variable {o : Options} {mark : Text.Mark} {s : Settings} {clock : Clock} {console : Console} {c : ConstraintSet}

theorem breaks_buildGraph :
    (buildGraph s c).Breaks b ↔ (∃ f ∈ c.facts, s.sides f = .error .uncuttable) ∧ b = .uncuttable := by
  rw [← Intake.build_fails_iff]
  unfold buildGraph
  cases Intake.build s c with
  | ok k => simp
  | error k => simp [Setback.ending, eq_comm]

theorem breaks_checkTask : (checkTask o s console c).Breaks b ↔
    (∃ f ∈ c.facts, s.sides f = .error .uncuttable) ∧ b = .uncuttable := by
  rw [checkTask, breaks_bind, breaks_buildGraph]
  exact or_iff_left fun ⟨_, _, h⟩ => not_breaks_of_ok rfl h

/-- The text that a conversion puts out, unless it makes a message. -/
inductive Converts (o : Options) (c : ConstraintSet) : String → Prop
  | document : o.documentFormat = .document → Converts o c (Document.write (.indented 2) c)
  | language {text : String} : o.documentFormat = .language →
      Language.write (if o.ascii then .ascii else .symbols) c = .ok text → Converts o c text

section Converts

variable {text : String}

theorem not_converts_message (h : o.documentFormat = .message) : ¬Converts o c text := by
  rintro (hother | ⟨hother, -⟩)
  · cases h.symm.trans hother
  · cases h.symm.trans hother

theorem converts_document (h : o.documentFormat = .document) :
    Converts o c text ↔ text = Document.write (.indented 2) c := by
  constructor
  · rintro (- | ⟨hother, -⟩)
    · rfl
    · cases h.symm.trans hother
  · rintro rfl
    exact .document h

theorem converts_language (h : o.documentFormat = .language) :
    Converts o c text ↔ Language.write (if o.ascii then .ascii else .symbols) c = .ok text := by
  constructor
  · rintro (hother | ⟨-, htext⟩)
    · cases h.symm.trans hother
    · exact htext
  · exact .language h

end Converts

theorem breaks_convertTask : (convertTask o mark c).Breaks b ↔
    ∃ text, Converts o c text ∧ mark.isIn text = true ∧ b = .unencodable := by
  unfold convertTask
  cases hformat : o.documentFormat with
  | message =>
    refine iff_of_false (fun h => ?_) fun ⟨text, h, _⟩ => not_converts_message hformat h
    rcases breaks_bind.mp h with h | ⟨content, -, h⟩
    · exact not_breaks_ofDecoded _ h
    · exact not_breaks_of_ok rfl h
  | document =>
    simp only [converts_document hformat, exists_eq_left]
    exact breaks_emit_bind rfl
  | language =>
    simp only [converts_language hformat]
    cases Language.write (if o.ascii then .ascii else .symbols) c with
    | ok text =>
      simp only [Except.ok.injEq, exists_eq_left']
      exact breaks_emit_bind rfl
    | error e => simp

/-- The closure of the constraints ends, but its duration cannot be shown. -/
def Overlong (s : Settings) (clock : Clock) (c : ConstraintSet) : Prop :=
  ∃ k stats, Intake.build s c = .ok k ∧ (k.graph.close s clock 0).result = .ok stats ∧ stats.isMeasurable = false

theorem result_buildGraph_iff {k : Intake} : (buildGraph s c).result = .ok k ↔ Intake.build s c = .ok k := by
  unfold buildGraph
  cases Intake.build s c with
  | ok k' => exact ⟨fun h => congrArg Except.ok (Except.ok.inj h), fun h => congrArg Except.ok (Except.ok.inj h)⟩
  | error k' => exact ⟨nofun, nofun⟩

theorem breaks_drawing : (drawing o s clock c).Breaks b ↔
    ((∃ f ∈ c.facts, s.sides f = .error .uncuttable) ∧ b = .uncuttable) ∨
      (o.unsaturated = false ∧ Overlong s clock c ∧ b = .overlong) := by
  rw [drawing, breaks_bind, breaks_buildGraph]
  refine or_congr_right ?_
  simp only [result_buildGraph_iff]
  cases hunsaturated : o.unsaturated with
  | true => simp
  | false =>
    simp only [Bool.false_eq_true, if_false, true_and]
    constructor
    · rintro ⟨k, hk, h⟩
      cases hclosed : (k.graph.close s clock 0).result with
      | error e => simp [hclosed, Setback.ending] at h
      | ok stats =>
        cases hm : stats.isMeasurable with
        | true => simp [hclosed, hm] at h
        | false =>
          simp [hclosed, hm, breaks_bind, Setback.ending] at h
          exact ⟨⟨k, stats, hk, hclosed, hm⟩, h.symm⟩
    · rintro ⟨⟨k, stats, hk, hclosed, hm⟩, rfl⟩
      exact ⟨k, hk, by simp [hclosed, hm, breaks_bind, Setback.ending]⟩

/-- Lines are asked for without a depth, and the sketch of some target depends on it. -/
def Depthless (o : Options) (t : SketchTable) : Prop :=
  o.tableFormat = .lines ∧ o.depth = none ∧ ∃ e ∈ t.targets, ∀ width, t.sketch? e.2.sketch ≠ some (.primitive width)

theorem depthlessText?_eq_none_iff {t : SketchTable} {id : Int} :
    depthlessText? t id = none ↔ ∀ width, t.sketch? id ≠ some (.primitive width) := by
  unfold depthlessText?
  split
  · rename_i width h
    simp [h]
  · rename_i h
    exact iff_of_true rfl h

theorem mapM_eq_none_iff {f : α → Option β} {xs : List α} : xs.mapM f = none ↔ ∃ x ∈ xs, f x = none := by
  have hsome : (∃ ys, xs.mapM f = some ys) ↔ ∀ x ∈ xs, ∃ y, f x = some y := by
    simp only [mapM_eq_some, exists_forall₂]
  rw [← Option.not_isSome_iff_eq_none, Option.isSome_iff_exists, hsome]
  simp [Option.eq_none_iff_forall_ne_some]

theorem tableText?_eq_none_iff {t : SketchTable} : tableText? o t = none ↔ Depthless o t := by
  unfold tableText? Depthless
  cases o.tableFormat with
  | document => simp
  | lines =>
    cases o.depth with
    | some depth => simp [targetLines?]
    | none =>
      simp only [targetLines?, Option.map_eq_none_iff, mapM_eq_none_iff, depthlessText?_eq_none_iff,
        SketchTable.sortedTargets, List.mem_mergeSort, List.mem_map, true_and]
      constructor
      · rintro ⟨_, ⟨e, he, rfl⟩, h⟩
        exact ⟨e, he, h⟩
      · rintro ⟨e, he, h⟩
        exact ⟨e.2, ⟨e, he, rfl⟩, h⟩

/-- The text that a task with settings puts out once it has found it. -/
inductive Puts (o : Options) (s : Settings) (clock : Clock) (c : ConstraintSet) : Task → String → Prop
  | table {sol : Solution} {text : String} : (solve s clock 0 c).result = .ok sol →
      tableText? o sol.table = some text → Puts o s clock c .solve text
  | drawing {text : String} : (drawing o s clock c).result = .ok text → Puts o s clock c .draw text

theorem result_solution_iff {sol : Solution} : (solution s clock c).result = .ok sol ↔ (solve s clock 0 c).result = .ok sol := by
  unfold solution
  dsimp only
  rw [Course.result_say]
  cases (solve s clock 0 c).result with
  | ok sol' => exact ⟨fun h => congrArg Except.ok (Except.ok.inj h), fun h => congrArg Except.ok (Except.ok.inj h)⟩
  | error e => cases e <;> exact ⟨nofun, nofun⟩

theorem breaks_solution : (solution s clock c).Breaks b ↔
    ((∃ f ∈ c.facts, s.sides f = .error .uncuttable) ∧ b = .uncuttable) ∨ (Overlong s clock c ∧ b = .overlong) := by
  rw [solution, Course.breaks_say_bind, ← Intake.build_fails_iff]
  unfold Overlong
  cases hb : Intake.build s c with
  | error k =>
    have hsolve : (solve s clock 0 c).result = .error .uncuttable := by rw [solve, hb]
    simp [hsolve, Setback.ending, eq_comm (a := b)]
  | ok k =>
    cases hclosed : (k.graph.close s clock 0).result with
    | error e =>
      have hsolve : (solve s clock 0 c).result = .error (.exhausted e) := by simp [solve, hb, hclosed]
      simp [hsolve, hclosed, Setback.ending]
    | ok stats =>
      cases hm : stats.isMeasurable with
      | false =>
        have hsolve : (solve s clock 0 c).result = .error .overlong := by simp [solve, hb, hclosed, hm]
        simp [hsolve, hclosed, hm, Setback.ending, eq_comm (a := b)]
      | true =>
        obtain ⟨sol, hsolve⟩ : ∃ sol, (solve s clock 0 c).result = .ok sol := by simp [solve, hb, hclosed, hm]
        simp [hsolve, hclosed, hm]

theorem breaks_solveTask : (solveTask o mark s clock console c).Breaks b ↔ (solution s clock c).Breaks b ∨
    (∃ sol, (solve s clock 0 c).result = .ok sol ∧ Depthless o sol.table ∧ b = .depthless) ∨
      ∃ text, Puts o s clock c .solve text ∧ mark.isIn text = true ∧ b = .unencodable := by
  rw [solveTask, breaks_bind]
  refine or_congr_right ?_
  simp only [result_solution_iff]
  constructor
  · rintro ⟨sol, hsol, h⟩
    cases htext : tableText? o sol.table with
    | none =>
      simp only [htext, Course.breaks_stop] at h
      exact Or.inl ⟨sol, hsol, tableText?_eq_none_iff.mp htext, (Ending.broken.inj h).symm⟩
    | some text =>
      simp only [htext] at h
      exact Or.inr ⟨text, .table hsol htext, (breaks_emit_bind rfl).mp h⟩
  · rintro (⟨sol, hsol, hdepth, rfl⟩ | ⟨text, ⟨hsol, htext⟩, h⟩)
    · refine ⟨sol, hsol, ?_⟩
      simp only [tableText?_eq_none_iff.mpr hdepth, Course.breaks_stop]
      rfl
    · refine ⟨_, hsol, ?_⟩
      simp only [htext]
      exact (breaks_emit_bind rfl).mpr h

theorem breaks_drawTask : (drawTask o mark s clock c).Breaks b ↔ (drawing o s clock c).Breaks b ∨
    ∃ text, Puts o s clock c .draw text ∧ mark.isIn text = true ∧ b = .unencodable := by
  rw [drawTask, breaks_bind]
  refine or_congr_right (exists_congr fun text => and_congr ⟨.drawing, fun h => ?_⟩ (breaks_emit_bind rfl))
  cases h with
  | drawing h => exact h

theorem breaks_configured {task : Task} (htask : task ≠ .convert) : (configured o mark s clock console c task).Breaks b ↔
    ((∃ f ∈ c.facts, s.sides f = .error .uncuttable) ∧ b = .uncuttable) ∨
      ((task = .solve ∨ (task = .draw ∧ o.unsaturated = false)) ∧ Overlong s clock c ∧ b = .overlong) ∨
      (task = .solve ∧ ∃ sol, (solve s clock 0 c).result = .ok sol ∧ Depthless o sol.table ∧ b = .depthless) ∨
      ∃ text, Puts o s clock c task text ∧ mark.isIn text = true ∧ b = .unencodable := by
  cases task with
  | convert => exact absurd rfl htask
  | solve => simp [configured, breaks_solveTask, breaks_solution, or_assoc]
  | check =>
    rw [configured, breaks_checkTask]
    refine (or_iff_left ?_).symm
    rintro (⟨hkind | ⟨hkind, -⟩, -⟩ | ⟨hkind, -⟩ | ⟨text, hputs, -⟩)
    · cases hkind
    · cases hkind
    · cases hkind
    · cases hputs
  | draw => simp [configured, breaks_drawTask, breaks_drawing, or_assoc]

end Tasks

/-! ## Requests -/

namespace Request

/-- What a request meets that breaks its run off. Each stage is reached only when the ones before it succeed. -/
inductive Trips (r : Request) (supplies : Supplies) (clock : Clock) : Breakdown → Prop
  | inputName : supplies.input = .error .badName → Trips r supplies clock .badName
  /-- Standard input, read as text. -/
  | inputBytes {bs : Bytes} : supplies.input = .ok bs → r.input = standardInput → r.options.inputFormat ≠ .message →
      Text.ofBytes? bs = none → Trips r supplies clock .undecodable
  | settingsName {c : ConstraintSet} : (loadInput supplies.mark r.options.inputFormat r.input supplies.input).result = .ok c →
      r.task ≠ .convert → r.options.settingsFile ≠ "" → supplies.settings = .error .badName →
      Trips r supplies clock .badName
  | settingsBytes {c : ConstraintSet} {bs : Bytes} :
      (loadInput supplies.mark r.options.inputFormat r.input supplies.input).result = .ok c → r.task ≠ .convert →
      r.options.settingsFile ≠ "" → supplies.settings = .ok bs → Text.ofBytes? bs = none →
      Trips r supplies clock .undecodable
  /-- A path is too long, is not refused for that, and cannot be cut. -/
  | uncuttable {c : ConstraintSet} {s : Settings} {f : Subtyping} :
      (loadInput supplies.mark r.options.inputFormat r.input supplies.input).result = .ok c → r.task ≠ .convert →
      (loadSettings supplies.mark r.options supplies.settings).result = .ok s → f ∈ c.facts → s.sides f = .error .uncuttable →
      Trips r supplies clock .uncuttable
  | overlong {c : ConstraintSet} {s : Settings} :
      (loadInput supplies.mark r.options.inputFormat r.input supplies.input).result = .ok c →
      r.task = .solve ∨ (r.task = .draw ∧ r.options.unsaturated = false) →
      (loadSettings supplies.mark r.options supplies.settings).result = .ok s → Overlong s clock c → Trips r supplies clock .overlong
  | depthless {c : ConstraintSet} {s : Settings} {sol : Solution} :
      (loadInput supplies.mark r.options.inputFormat r.input supplies.input).result = .ok c → r.task = .solve →
      (loadSettings supplies.mark r.options supplies.settings).result = .ok s → (solve s clock 0 c).result = .ok sol →
      Depthless r.options sol.table → Trips r supplies clock .depthless
  /-- Half of a surrogate pair, named by an escape in the input, is in the text that is put out. -/
  | outputHalf {c : ConstraintSet} {s : Settings} {text : String} :
      (loadInput supplies.mark r.options.inputFormat r.input supplies.input).result = .ok c → r.task ≠ .convert →
      (loadSettings supplies.mark r.options supplies.settings).result = .ok s → Puts r.options s clock c r.task text →
      supplies.mark.isIn text = true → Trips r supplies clock .unencodable
  | convertedHalf {c : ConstraintSet} {text : String} :
      (loadInput supplies.mark r.options.inputFormat r.input supplies.input).result = .ok c → r.task = .convert →
      Converts r.options c text → supplies.mark.isIn text = true → Trips r supplies clock .unencodable

end Request

section Works

variable {r : Request} {supplies : Supplies} {clock : Clock} {console : Console} {c : ConstraintSet} {s : Settings}

theorem Request.Trips.of_input (h : (loadInput supplies.mark r.options.inputFormat r.input supplies.input).Breaks b) :
    r.Trips supplies clock b := by
  rcases breaks_loadInput.mp h with ⟨hname, rfl⟩ | ⟨bs, hbs, hpath, hformat, hbytes, rfl⟩
  · exact .inputName hname
  · exact .inputBytes hbs hpath hformat hbytes

theorem breaks_work_of_input (h : (loadInput supplies.mark r.options.inputFormat r.input supplies.input).Breaks b) :
    (r.work supplies clock console).Breaks b :=
  breaks_bind.mpr (Or.inl h)

theorem breaks_work_of_settings (hc : (loadInput supplies.mark r.options.inputFormat r.input supplies.input).result = .ok c)
    (htask : r.task ≠ .convert) (h : (loadSettings supplies.mark r.options supplies.settings).Breaks b) :
    (r.work supplies clock console).Breaks b := by
  rw [work_configured htask]
  exact breaks_bind.mpr (Or.inr ⟨c, hc, breaks_bind.mpr (Or.inl h)⟩)

theorem breaks_work_of_configured (hc : (loadInput supplies.mark r.options.inputFormat r.input supplies.input).result = .ok c)
    (htask : r.task ≠ .convert) (hs : (loadSettings supplies.mark r.options supplies.settings).result = .ok s)
    (h : (configured r.options supplies.mark s clock console c r.task).Breaks b) :
    (r.work supplies clock console).Breaks b := by
  rw [work_configured htask]
  exact breaks_bind.mpr (Or.inr ⟨c, hc, breaks_bind.mpr (Or.inr ⟨s, hs, h⟩)⟩)

theorem trips_of_breaks (h : (r.work supplies clock console).Breaks b) : r.Trips supplies clock b := by
  by_cases htask : r.task = .convert
  · rw [Request.work, breaks_bind, htask] at h
    rcases h with h | ⟨c, hc, h⟩
    · exact .of_input h
    · obtain ⟨text, hconverts, hhalf, rfl⟩ := breaks_convertTask.mp h
      exact .convertedHalf hc htask hconverts hhalf
  · rw [work_configured htask, breaks_bind] at h
    rcases h with h | ⟨c, hc, h⟩
    · exact .of_input h
    · rcases breaks_bind.mp h with h | ⟨s, hs, h⟩
      · obtain ⟨hfile, ⟨hname, rfl⟩ | ⟨bs, hbs, hbytes, rfl⟩⟩ := breaks_loadSettings.mp h
        · exact .settingsName hc htask hfile hname
        · exact .settingsBytes hc htask hfile hbs hbytes
      · rcases (breaks_configured htask).mp h with ⟨⟨f, hf, hsides⟩, rfl⟩ | ⟨hkind, hlong, rfl⟩ |
          ⟨hsolve, sol, hsol, hdepth, rfl⟩ | ⟨text, hputs, hhalf, rfl⟩
        · exact .uncuttable hc htask hs hf hsides
        · exact .overlong hc hkind hs hlong
        · exact .depthless hc hsolve hs hsol hdepth
        · exact .outputHalf hc htask hs hputs hhalf

theorem breaks_of_trips (h : r.Trips supplies clock b) : (r.work supplies clock console).Breaks b := by
  cases h with
  | inputName hname => exact breaks_work_of_input (breaks_loadInput.mpr (Or.inl ⟨hname, rfl⟩))
  | inputBytes hbs hpath hformat hbytes =>
    exact breaks_work_of_input (breaks_loadInput.mpr (Or.inr ⟨_, hbs, hpath, hformat, hbytes, rfl⟩))
  | settingsName hc htask hfile hname =>
    exact breaks_work_of_settings hc htask (breaks_loadSettings.mpr ⟨hfile, Or.inl ⟨hname, rfl⟩⟩)
  | settingsBytes hc htask hfile hbs hbytes =>
    exact breaks_work_of_settings hc htask (breaks_loadSettings.mpr ⟨hfile, Or.inr ⟨_, hbs, hbytes, rfl⟩⟩)
  | uncuttable hc htask hs hf hsides =>
    exact breaks_work_of_configured hc htask hs ((breaks_configured htask).mpr (Or.inl ⟨⟨_, hf, hsides⟩, rfl⟩))
  | overlong hc hkind hs hlong =>
    have htask : r.task ≠ .convert := by rcases hkind with h | ⟨h, -⟩ <;> rw [h] <;> exact nofun
    exact breaks_work_of_configured hc htask hs ((breaks_configured htask).mpr (Or.inr (Or.inl ⟨hkind, hlong, rfl⟩)))
  | depthless hc hsolve hs hsol hdepth =>
    have htask : r.task ≠ .convert := by rw [hsolve]; exact nofun
    exact breaks_work_of_configured hc htask hs
      ((breaks_configured htask).mpr (Or.inr (Or.inr (Or.inl ⟨hsolve, _, hsol, hdepth, rfl⟩))))
  | outputHalf hc htask hs hputs hhalf =>
    exact breaks_work_of_configured hc htask hs
      ((breaks_configured htask).mpr (Or.inr (Or.inr (Or.inr ⟨_, hputs, hhalf, rfl⟩))))
  | convertedHalf hc htask hconverts hhalf =>
    rw [Request.work, htask]
    exact breaks_bind.mpr (Or.inr ⟨_, hc, breaks_convertTask.mpr ⟨_, hconverts, hhalf, rfl⟩⟩)

theorem breaks_work : (r.work supplies clock console).Breaks b ↔ r.Trips supplies clock b := ⟨trips_of_breaks, breaks_of_trips⟩

end Works

/-! ## Endings -/

theorem endingOf_eq_broken_iff {w : Course ExitCode} : endingOf w.result = .broken b ↔ w.Breaks b := by
  unfold Course.Breaks
  cases w.result with
  | ok code => simp [endingOf]
  | error s => simp [endingOf]

theorem exit_or_broken (e : Ending) : (∃ code, e = .exit code) ↔ ∀ b, e ≠ .broken b := by
  cases e with
  | exit code => exact iff_of_true ⟨code, rfl⟩ fun b => Ending.noConfusion
  | broken b => exact iff_of_false (fun ⟨_, h⟩ => nomatch h) fun h => h b rfl

theorem endingOf_bind {w : Course α} {f : α → Course ExitCode} {s : Setback} (h : w.result = .error s) :
    endingOf (w >>= f).result = s.ending := by
  rw [Course.result_bind, h]
  rfl

/-- Bytes of a file that are no text are complained about. -/
theorem ending_of_not_text {mark : Text.Mark} {format : InputFormat} {path : String} {bs : Bytes} (hpath : path ≠ standardInput)
    (hformat : format.byName path ≠ .message) (hbytes : Text.ofBytes? bs = none) (f : ConstraintSet → Course ExitCode) :
    endingOf (loadInput mark format path (.ok bs) >>= f).result = .exit .unusable := by
  have htext : inputText path bs = .complain ("cannot read " ++ path ++ ": ...") := by
    rw [inputText, fileText?_eq_none_iff.mpr hbytes, if_neg hpath]
  refine endingOf_bind (s := .complaint ("cannot read " ++ path ++ ": ...")) ?_
  rw [loadInput, Course.result_bind, result_opened.mpr rfl]
  generalize format.byName path = found at hformat
  cases found with
  | message => exact absurd rfl hformat
  | auto | language | document =>
    show (inputText path bs >>= _).result = _
    rw [Course.result_bind, htext]
    rfl

end TypeRecovery.Command
