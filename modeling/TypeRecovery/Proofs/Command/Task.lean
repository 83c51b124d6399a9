/-
  TypeRecovery.Proofs.Command.Task — what a task does and comes to, and what its run leaves.

  A task has three parts. First it does what can be refused: it loads its input and its settings,
  takes the constraints in, solves or draws them, or finds the form in which they are written. All
  this is quiet. Then it puts its output out, where the options send it. Behind that it shows its
  reports, and nothing is refused any more. So each of the four tasks withholds its output if it is
  refused, and one that comes to its end has one of two exit codes.

  What a run leaves is told by its effects. Remarks change neither the output nor the folder; only
  a file that cannot be written changes the ending. So a run whose exit code says that the input
  is unusable or a bound was exceeded leaves nothing: it has made remarks.

  Proved:
  - `result_loadSettings`: the settings of a command line.
  - `quiet_loadInput`, `quiet_loadSettings`, `quiet_solution`, `quiet_drawing`: what puts nothing out.
  - `result_emit`: text is put out unless it holds half of a surrogate pair.
  - `not_refused_emit`, `not_refused_conclude`: what is never refused.
  - `orderly_solveTask`, `orderly_checkTask`, `orderly_drawTask`, `orderly_convertTask`: the four tasks in order.
  - `work_configured`, `result_work`: a request that is not a conversion, stage by stage.
  - `orderly_work`: a whole request in order.
  - `not_mentions_supplies`: the mark that a request takes.
  - `ending_run`, `mem_effects_run`: the run of a task.
  - `perform_remarks`, `perform_kept`, `ending_perform`: what the effects change.
  - `transcript_run`: what a request without a file for its output leaves.
  - `failed_leaves_nothing`: a run that fails puts nothing out.
-/

import TypeRecovery.Command.Session
import TypeRecovery.Proofs.Command.Input
import TypeRecovery.Proofs.Text.Half

namespace TypeRecovery.Command

open Course (Gives gives_pure gives_stop gives_bind Quiet Refused Withholds Performs performs_pure performs_stop performs_say
  performs_perform performs_bind not_refused_of_ok not_refused_bind withholds_of_quiet withholds_of_not_refused withholds_bind)

/-! ## Settings -/

/-- The members that settings are made from, those of the file first. -/
def Options.settingsMembers (o : Options) (mark : Text.Mark) (content : Except FileFault Bytes) :
    Except Setback Json.Members :=
  (if o.settingsFile.isEmpty then .ok [] else (Command.settingsMembers mark o.settingsFile content).result).map
    fun members => Entries.setAll members o.overrides

theorem result_loadSettings (mark : Text.Mark) (o : Options) (content : Except FileFault Bytes) :
    (loadSettings mark o content).result = (o.settingsMembers mark content).bind fun members =>
      (Settings.ofMembers members).mapError fun r => .complaint ("invalid configuration: " ++ r.message) := by
  unfold loadSettings Options.settingsMembers
  split
  · dsimp only [Except.bind, Except.map]
    rw [Course.pure_bind]
    cases Settings.ofMembers (Entries.setAll [] o.overrides) <;> rfl
  · rw [Course.result_bind]
    cases (Command.settingsMembers mark o.settingsFile content).result with
    | error s => rfl
    | ok members =>
      dsimp only [Except.bind, Except.map]
      cases Settings.ofMembers (Entries.setAll members o.overrides) <;> rfl

/-- Settings that were loaded have been accepted. -/
theorem loadSettings_eq_ok {mark : Text.Mark} {o : Options} {content : Except FileFault Bytes} {s : Settings}
    (h : (loadSettings mark o content).result = .ok s) : ∃ members, Settings.ofMembers members = .ok s := by
  rw [result_loadSettings] at h
  obtain ⟨members, -, h⟩ := bind_eq_ok.mp h
  refine ⟨members, ?_⟩
  cases hs : Settings.ofMembers members with
  | ok s' => rw [hs] at h; cases h; rfl
  | error r => rw [hs] at h; cases h

/-! ## Quiet steps -/

section Quiet

theorem quiet_opened (path : String) (content : Except FileFault Bytes) : (opened path content).Quiet := by
  unfold opened
  split
  · exact performs_pure _
  · exact performs_stop _
  · exact performs_stop _
  · exact performs_stop _

theorem quiet_inputText (path : String) (bs : Bytes) : (inputText path bs).Quiet := by
  unfold inputText
  split
  · exact performs_pure _
  · split <;> exact performs_stop _

theorem quiet_ofDecoded {α : Type} (d : Document.Decoded α) : (ofDecoded d).Quiet := by
  cases d with
  | ok a => exact performs_pure a
  | error e => exact performs_stop _

theorem quiet_loadText (mark : Text.Mark) (format : InputFormat) (path text : String) :
    (loadText mark format path text).Quiet := by
  have hlanguage : (parseInput path text).Quiet := by
    unfold parseInput
    split
    · exact performs_bind (performs_say _) fun _ => performs_pure _
    · exact performs_stop _
  unfold loadText
  split
  · exact performs_bind (performs_say _) fun _ => quiet_ofDecoded _
  · exact performs_bind (performs_say _) fun _ => hlanguage

theorem quiet_loadInput (mark : Text.Mark) (format : InputFormat) (path : String) (content : Except FileFault Bytes) :
    (loadInput mark format path content).Quiet := by
  refine performs_bind (quiet_opened path content) fun bs => ?_
  split
  · exact performs_bind (performs_say _) fun _ => quiet_ofDecoded _
  · exact performs_bind (quiet_inputText path bs) fun text => quiet_loadText mark _ path text

theorem quiet_settingsMembers (mark : Text.Mark) (path : String) (content : Except FileFault Bytes) :
    (settingsMembers mark path content).Quiet := by
  unfold settingsMembers
  split
  · exact performs_stop _
  · exact performs_stop _
  · split
    · exact performs_stop _
    · split
      · exact performs_pure _
      · exact performs_stop _
      · exact performs_stop _

theorem quiet_loadSettings (mark : Text.Mark) (o : Options) (content : Except FileFault Bytes) :
    (loadSettings mark o content).Quiet := by
  unfold loadSettings
  split
  · refine performs_bind (performs_pure _) fun members => ?_
    dsimp only
    split
    · exact performs_pure _
    · exact performs_stop _
  · refine performs_bind (quiet_settingsMembers mark _ content) fun members => ?_
    dsimp only
    split
    · exact performs_pure _
    · exact performs_stop _

variable (o : Options) (s : Settings) (clock : Clock) (c : ConstraintSet)

theorem quiet_solution : (solution s clock c).Quiet := by
  refine performs_bind (performs_say _) fun _ => ?_
  split
  · exact performs_pure _
  · exact performs_stop _
  · exact performs_stop _
  · exact performs_stop _

theorem quiet_buildGraph : (buildGraph s c).Quiet := by
  unfold buildGraph
  split
  · exact performs_bind (performs_say _) fun _ => performs_pure _
  · exact performs_bind (performs_say _) fun _ => performs_stop _

theorem quiet_drawing : (drawing o s clock c).Quiet := by
  refine performs_bind (quiet_buildGraph s c) fun k => ?_
  split
  · exact performs_pure _
  · dsimp only
    split
    · exact performs_stop _
    · split
      · exact performs_stop _
      · exact performs_bind (performs_say _) fun _ => performs_pure _

theorem quiet_conclude (console : Console) : (conclude console).Quiet :=
  performs_bind (performs_perform ⟨_, rfl⟩) fun _ => performs_pure _

end Quiet

/-! ## Output -/

section Output

variable (o : Options) (mark : Text.Mark)

/-- A line end is no half. -/
theorem isIn_withLineEnd (text : String) : mark.isIn (withLineEnd text) = mark.isIn text := by
  have hne : mark.char ≠ '\n' := by
    intro he
    have hlow := mark.toNat_char_bounds.1
    rw [he] at hlow
    exact absurd hlow (by decide)
  unfold withLineEnd
  split
  · rfl
  · rw [Bool.eq_iff_iff, Text.Mark.isIn_iff, Text.Mark.isIn_iff, String.toList_append, List.mem_append]
    exact or_iff_left fun h => hne (List.mem_singleton.mp h)

theorem result_emit (text : String) :
    (o.emit mark text).result = if mark.isIn text then .error .unencodable else .ok () := by
  rw [Options.emit, Text.Mark.bytes?, isIn_withLineEnd]
  cases mark.isIn text with
  | false => rfl
  | true =>
    rw [if_pos rfl, if_pos rfl]
    dsimp only
    split <;> rfl

/-- Text that has no bytes breaks a run off, which is no complaint. -/
theorem not_refused_emit (text : String) : ¬(o.emit mark text).Refused := by
  rintro ⟨s, code, hs, hcode⟩
  rw [result_emit, ite_eq_iff] at hs
  rcases hs with ⟨-, hs⟩ | ⟨-, hs⟩
  · cases hs
    cases hcode
  · cases hs

theorem not_refused_emitBytes (content : Bytes) : ¬(o.emitBytes content).Refused := not_refused_of_ok rfl

theorem not_refused_conclude (console : Console) : ¬(conclude console).Refused := not_refused_of_ok rfl

/-- Only a file that is named for the output is written. -/
def Options.Spares (e : Effect) : Prop := ∀ path content, e = .write path content → o.output ≠ ""

variable {o mark}

theorem spares_of_remark {e : Effect} (h : ∃ text, e = .remark text) : o.Spares e := by
  obtain ⟨text, rfl⟩ := h
  exact fun path content he => nomatch he

theorem spares_sending (path : String) (content : Bytes) : o.Spares (o.sending path content) := by
  intro path' content' he hout
  rw [Options.sending, hout] at he
  cases he

theorem spares_emit (text : String) : (o.emit mark text).Performs o.Spares := by
  unfold Options.emit
  split
  · exact performs_perform (spares_sending _ _)
  · split
    · rename_i hfile
      refine performs_bind (performs_perform fun _ _ _ hout => ?_) fun _ => performs_stop _
      rw [hout] at hfile
      cases hfile
    · exact performs_stop _

end Output

/-! ## Tasks -/

def ExitCode.Fails (code : ExitCode) : Prop := code = .unusable ∨ code = .exhausted

/-- What every task keeps to, however it comes out. -/
structure Orderly (o : Options) (w : Course ExitCode) : Prop where
  /-- All that can be refused is behind it before it puts anything out. -/
  withholds : w.Withholds
  code : Gives w fun code => ¬code.Fails
  spares : w.Performs o.Spares

section Tasks

variable {o : Options} {mark : Text.Mark}

theorem orderly_stop (setback : Setback) : Orderly o (.stop setback) :=
  ⟨withholds_of_quiet (performs_stop setback), gives_stop setback, performs_stop setback⟩

theorem orderly_bind {α : Type} {w : Course α} {f : α → Course ExitCode} (hw : w.Quiet) (hf : ∀ a, Orderly o (f a)) :
    Orderly o (w >>= f) :=
  ⟨withholds_bind hw fun a => (hf a).withholds, gives_bind fun a => (hf a).code,
    performs_bind (hw.mono fun _ => spares_of_remark) fun a => (hf a).spares⟩

/-- What comes last: nothing in it is refused. -/
theorem orderly_last {α : Type} {w : Course α} {f : α → Course ExitCode} (hw : ¬w.Refused) (hspares : w.Performs o.Spares)
    (hf : ∀ a, ¬(f a).Refused ∧ (f a).Quiet) (hcode : ∀ a, Gives (f a) fun code => ¬code.Fails) : Orderly o (w >>= f) :=
  ⟨withholds_of_not_refused (not_refused_bind hw fun a => (hf a).1), gives_bind hcode,
    performs_bind hspares fun a => (hf a).2.mono fun _ => spares_of_remark⟩

theorem gives_conclude (console : Console) : Gives (conclude console) fun code => ¬code.Fails := by
  refine gives_bind fun _ => gives_pure ?_
  split <;> simp [ExitCode.Fails]

theorem gives_success : Gives (pure .success : Course ExitCode) fun code => ¬code.Fails := gives_pure (by simp [ExitCode.Fails])

theorem orderly_conclude (console : Console) : Orderly o (conclude console) :=
  ⟨withholds_of_quiet (quiet_conclude console), gives_conclude console,
    (quiet_conclude console).mono fun _ => spares_of_remark⟩

theorem orderly_emit_conclude (text : String) (console : Console) : Orderly o (o.emit mark text >>= fun _ => conclude console) :=
  orderly_last (not_refused_emit o mark text) (spares_emit text)
    (fun _ => ⟨not_refused_conclude console, quiet_conclude console⟩) fun _ => gives_conclude console

theorem orderly_emit (text : String) : Orderly o (o.emit mark text >>= fun _ => pure .success) :=
  orderly_last (not_refused_emit o mark text) (spares_emit text) (fun _ => ⟨not_refused_of_ok rfl, performs_pure _⟩)
    fun _ => gives_success

theorem orderly_emitBytes (content : Bytes) : Orderly o (o.emitBytes content >>= fun _ => pure .success) :=
  orderly_last (not_refused_emitBytes o content) (performs_perform (spares_sending _ content))
    (fun _ => ⟨not_refused_of_ok rfl, performs_pure _⟩) fun _ => gives_success

variable (s : Settings) (clock : Clock) (console : Console) (c : ConstraintSet)

theorem orderly_solveTask : Orderly o (solveTask o mark s clock console c) := by
  refine orderly_bind (quiet_solution s clock c) fun solution => ?_
  split
  · exact orderly_stop _
  · exact orderly_emit_conclude _ _

theorem orderly_checkTask : Orderly o (checkTask o s console c) :=
  orderly_bind (quiet_buildGraph s c) fun _ => orderly_conclude _

theorem orderly_drawTask : Orderly o (drawTask o mark s clock c) :=
  orderly_bind (quiet_drawing o s clock c) fun text => orderly_emit text

theorem orderly_convertTask : Orderly o (convertTask o mark c) := by
  unfold convertTask
  split
  · exact orderly_bind (quiet_ofDecoded _) fun content => orderly_emitBytes content
  · exact orderly_emit _
  · split
    · exact orderly_emit _
    · exact orderly_stop _

end Tasks

/-! ## Requests -/

/-- A task that has its settings. -/
def configured (o : Options) (mark : Text.Mark) (s : Settings) (clock : Clock) (console : Console) (c : ConstraintSet) :
    Task → Course ExitCode
  | .convert => convertTask o mark c
  | .solve => solveTask o mark s clock console c
  | .check => checkTask o s console c
  | .draw => drawTask o mark s clock c

theorem work_configured {r : Request} (h : r.task ≠ .convert) (supplies : Supplies) (clock : Clock) (console : Console) :
    r.work supplies clock console = loadInput supplies.mark r.options.inputFormat r.input supplies.input >>= fun c =>
      loadSettings supplies.mark r.options supplies.settings >>= fun s =>
        configured r.options supplies.mark s clock console c r.task := by
  unfold Request.work
  cases htask : r.task with
  | convert => exact absurd htask h
  | solve | check | draw => rfl

/-- Once the input and the settings are there, what is left of a request is its task. -/
theorem result_work {r : Request} (h : r.task ≠ .convert) {supplies : Supplies} {c : ConstraintSet} {s : Settings}
    (hc : (loadInput supplies.mark r.options.inputFormat r.input supplies.input).result = .ok c)
    (hs : (loadSettings supplies.mark r.options supplies.settings).result = .ok s) (clock : Clock) (console : Console) :
    (r.work supplies clock console).result = (configured r.options supplies.mark s clock console c r.task).result := by
  rw [work_configured h, Course.result_bind, hc]
  show (loadSettings supplies.mark r.options supplies.settings >>= _).result = _
  rw [Course.result_bind, hs]
  rfl

theorem orderly_work (r : Request) (supplies : Supplies) (clock : Clock) (console : Console) :
    Orderly r.options (r.work supplies clock console) := by
  refine orderly_bind (quiet_loadInput _ _ _ _) fun c => ?_
  cases r.task with
  | convert => exact orderly_convertTask c
  | solve => exact orderly_bind (quiet_loadSettings _ _ _) fun s => orderly_solveTask s clock console c
  | check => exact orderly_bind (quiet_loadSettings _ _ _) fun s => orderly_checkTask s console c
  | draw => exact orderly_bind (quiet_loadSettings _ _ _) fun s => orderly_drawTask s clock c

/-! ## Marks -/

theorem Request.mentions_eq_false {r : Request} {input settings : Except FileFault Bytes} {c : Char} :
    r.mentions input settings c = false ↔ c ∉ r.input.toList ∧ c ∉ r.options.settingsFile.toList ∧
      ∀ content ∈ [input, settings], ∀ bs, content = .ok bs → Command.mentions c bs = false := by
  rw [Request.mentions, Bool.or_eq_false_iff, Bool.or_eq_false_iff, and_assoc, List.any_eq_false]
  refine and_congr (by simp) (and_congr (by simp) (forall₂_congr fun content _ => ?_))
  cases content with
  | ok bs => simp
  | error f => simp

/-- Unless a request mentions every mark, it takes one that it does not mention. -/
theorem Request.not_mentions_supplies {r : Request} {input settings : Except FileFault Bytes} {m : Text.Mark}
    (hm : r.mentions input settings m.char = false) :
    r.mentions input settings (r.supplies input settings).mark.char = false :=
  Text.Mark.not_taken_fresh hm

/-! ## Runs -/

/-- How a run ends whose task has the result. -/
def endingOf : Except Setback ExitCode → Ending
  | .ok code => .exit code
  | .error s => s.ending

section Run

variable (r : Request) (supplies : Supplies) (clock : Clock) (coloured : Bool)

theorem ending_run :
    (r.run supplies clock coloured).ending = endingOf (r.work supplies clock (Console.start coloured)).result := by
  unfold Request.run
  dsimp only
  cases (r.work supplies clock (Console.start coloured)).result <;> rfl

theorem remark_of_mem_remarks {console : Console} {s : Setback} {e : Effect} (h : e ∈ s.remarks console) :
    ∃ text, e = .remark text := by
  cases s with
  | malformed | complaint | exhausted => exact ⟨_, List.mem_singleton.mp h⟩
  | undecodable | unencodable | uncuttable | badName | depthless | overlong => exact nomatch h

theorem remark_escaped {mark : Text.Mark} {e : Effect} (h : ∃ text, e = .remark text) : ∃ text, e.escaped mark = .remark text := by
  obtain ⟨text, rfl⟩ := h
  exact ⟨_, rfl⟩

/-- A run makes remarks, and has the effects of its task. -/
theorem mem_effects_run {e : Effect} (h : e ∈ (r.run supplies clock coloured).effects) :
    (∃ text, e = .remark text) ∨ .perform e ∈ (r.work supplies clock (Console.start coloured)).acts := by
  unfold Request.run at h
  dsimp only at h
  obtain ⟨e, he, rfl⟩ := List.mem_map.mp h
  rcases List.mem_append.mp he with he | he
  · obtain ⟨act, hact, he⟩ := List.mem_filterMap.mp he
    cases act with
    | tell event =>
      rw [Act.effect?, ite_eq_iff] at he
      rcases he with ⟨-, he⟩ | ⟨-, he⟩
      · cases he
        exact Or.inl ⟨_, rfl⟩
      · cases he
    | perform e =>
      cases he
      cases e with
      | remark text => exact Or.inl ⟨_, rfl⟩
      | print content => exact Or.inr hact
      | write path content => exact Or.inr hact
  · refine Or.inl (remark_escaped ?_)
    split at he
    · cases he
    · exact remark_of_mem_remarks he

end Run

/-! ## Transcripts -/

namespace Transcript

variable {t : Transcript} {es : List Effect}

/-- Remarks change neither the output nor the folder. -/
theorem perform_remarks (h : ∀ e ∈ es, ∃ text, e = .remark text) :
    (t.perform es).output = t.output ∧ (t.perform es).folder = t.folder ∧ (t.perform es).ending = t.ending := by
  induction es generalizing t with
  | nil => exact ⟨rfl, rfl, rfl⟩
  | cons e es ih =>
    obtain ⟨⟨text, rfl⟩, hes⟩ := List.forall_mem_cons.mp h
    exact ih hes

/-- Without a file to write the folder and the ending stay as they are. -/
theorem perform_kept (h : ∀ e ∈ es, ∀ path content, e ≠ .write path content) :
    (t.perform es).folder = t.folder ∧ (t.perform es).ending = t.ending := by
  induction es generalizing t with
  | nil => exact ⟨rfl, rfl⟩
  | cons e es ih =>
    obtain ⟨he, hes⟩ := List.forall_mem_cons.mp h
    cases e with
    | print content => exact ih hes
    | remark text => exact ih hes
    | write path content => exact absurd rfl (he path content)

/-- A file that cannot be written breaks a run off; nothing else changes its ending. -/
theorem ending_perform (t : Transcript) (es : List Effect) :
    (t.perform es).ending = t.ending ∨ ∃ f, (t.perform es).ending = .broken (.unwritable f) := by
  induction es generalizing t with
  | nil => exact Or.inl rfl
  | cons e es ih =>
    cases e with
    | print content => exact ih _
    | remark text => exact ih _
    | write path content =>
      unfold perform
      split
      · exact ih _
      · exact Or.inr ⟨_, rfl⟩

end Transcript

section Kept

variable {r : Request} (hout : r.options.output = "") (supplies : Supplies) (clock : Clock) (coloured : Bool)
include hout

/-- A request without a file for its output ends as its task does, and leaves the folder alone. -/
theorem transcript_run (folder : Folder) :
    (Transcript.ofRun folder (r.run supplies clock coloured)).folder = folder ∧
      (Transcript.ofRun folder (r.run supplies clock coloured)).ending =
        endingOf (r.work supplies clock (Console.start coloured)).result := by
  rw [← ending_run]
  refine Transcript.perform_kept fun e he path content hwrite => ?_
  rcases mem_effects_run r supplies clock coloured he with hremark | hact
  · exact spares_of_remark (o := r.options) hremark path content hwrite hout
  · exact (orderly_work r supplies clock _).spares e hact path content hwrite hout

end Kept

/-! ## Runs that fail -/

theorem remarks_of_fails {inv : Invocation} (hinv : inv ≠ .overview) {supplies : Supplies} {clock : Clock} {coloured : Bool}
    {code : ExitCode} (hcode : code.Fails) (h : (inv.run supplies clock coloured).ending = .exit code) :
    ∀ e ∈ (inv.run supplies clock coloured).effects, ∃ text, e = .remark text := by
  intro e he
  cases inv with
  | overview => exact absurd rfl hinv
  | help task => cases h; rcases hcode with hcode | hcode <;> cases hcode
  | version => cases h; rcases hcode with hcode | hcode <;> cases hcode
  | misuse task m => exact ⟨_, List.mem_singleton.mp he⟩
  | request r =>
    have hwork := orderly_work r supplies clock (Console.start coloured)
    have hend := (ending_run r supplies clock coloured).symm.trans h
    rcases mem_effects_run r supplies clock coloured he with hremark | hact
    · exact hremark
    · cases hresult : (r.work supplies clock (Console.start coloured)).result with
      | ok finished =>
        rw [hresult] at hend
        cases hend
        exact absurd hcode (hwork.code _ hresult)
      | error s =>
        rw [hresult] at hend
        exact hwork.withholds ⟨s, code, hresult, hend⟩ e hact

/-- A command line that names a task and fails prints nothing and leaves every file as it was;
it does not even try to write one. -/
theorem failed_leaves_nothing {inv : Invocation} (hinv : inv ≠ .overview) (supplies : Supplies) (clock : Clock)
    (coloured : Bool) (folder : Folder) {code : ExitCode} (hcode : code = .unusable ∨ code = .exhausted)
    (h : (Transcript.ofRun folder (inv.run supplies clock coloured)).ending = .exit code) :
    (Transcript.ofRun folder (inv.run supplies clock coloured)).output = [] ∧
      (Transcript.ofRun folder (inv.run supplies clock coloured)).folder = folder ∧
      ∀ e ∈ (inv.run supplies clock coloured).effects, ∀ path content, e ≠ .write path content := by
  have hrun : (inv.run supplies clock coloured).ending = .exit code := by
    rcases Transcript.ending_perform _ (inv.run supplies clock coloured).effects with hkept | ⟨f, hf⟩
    · exact hkept.symm.trans h
    · exact nomatch hf.symm.trans h
  have hremarks := remarks_of_fails hinv hcode hrun
  obtain ⟨houtput, hfolder, -⟩ := Transcript.perform_remarks
    (t := ⟨[], "", folder, (inv.run supplies clock coloured).ending⟩) hremarks
  refine ⟨houtput, hfolder, fun e he path content => ?_⟩
  obtain ⟨text, rfl⟩ := hremarks e he
  exact Effect.noConfusion

/-- A text that is cut short and one that is whole, and a file from before. -/
def projectFolder : Folder :=
  [("short.tscl", Text.toBytes "x <="), ("whole.tscl", Text.toBytes "x <= y"), ("out.json", Text.toBytes "before")]

theorem failed_sessions :
    ((session ["convert", "-o", "out.json", "short.tscl"] projectFolder [] (.ticking (.whole 0))).ending = .exit .unusable ∧
      (session ["convert", "-o", "out.json", "short.tscl"] projectFolder [] (.ticking (.whole 0))).folder = projectFolder) ∧
    (session ["solve", "--max-steps", "0", "whole.tscl"] projectFolder [] (.ticking (.whole 0))).ending = .exit .exhausted ∧
      (session ["solve", "--max-steps", "0", "whole.tscl"] projectFolder [] (.ticking (.whole 0))).output = [] := by
  have hshort : (session ["convert", "-o", "out.json", "short.tscl"] projectFolder [] (.ticking (.whole 0))).ending =
      .exit .unusable := by decide +kernel
  have hsteps : (session ["solve", "--max-steps", "0", "whole.tscl"] projectFolder [] (.ticking (.whole 0))).ending =
      .exit .exhausted := by decide +kernel
  have hconvert : Invocation.ofArguments ["convert", "-o", "out.json", "short.tscl"] ≠ .overview := by nofun
  have hsolve : Invocation.ofArguments ["solve", "--max-steps", "0", "whole.tscl"] ≠ .overview := by nofun
  have hkept := failed_leaves_nothing hconvert _ _ _ projectFolder (Or.inl rfl) hshort
  have hsilent := failed_leaves_nothing hsolve _ _ _ projectFolder (Or.inr rfl) hsteps
  exact ⟨⟨hshort, hkept.2.1⟩, hsteps, hsilent.1⟩

end TypeRecovery.Command
