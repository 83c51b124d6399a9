/-
  TypeRecovery.Proofs.Rejections — every rejection has its errors.

  A constraint is rejected because of one of its sides, the left one if both are bad: that side has
  a field which cannot exist, or it has none and is too long where paths are not cut. The error on a
  rejected subtyping names that side; a rejected binding has a second error, on its target and of the
  same kind. A side that was cut before the other was found bad leaves a warning only. As no later
  stage reports an error, the errors of a solve are these, one constraint after the other, and a
  binding that has none is bound to the node of what its left side was admitted as.

  Proved:
  - `Settings.refuses_iff`, `Settings.rejects_iff`: bad variables and constraints, as the intake
    finds them.
  - `exists_forall₂_flatMap`: what the elements of a list add to another, for some and for none.
  - `solved_answers`: the errors, the rejected constraints and the bindings of a solve.
-/

import TypeRecovery.Proofs.Graph.Admissible
import TypeRecovery.Proofs.Severity

namespace TypeRecovery

/-! ## Bad sides -/

namespace Settings

/-- A variable that may not go into a graph, and the kind of error that this is. -/
inductive Refuses (s : Settings) (v : TypeVar) : ReportKind → Prop
  | badField {f : Field} : .field f ∈ v.path → ¬s.Allows f → Refuses s v .malformedLabel
  | tooLong : (∀ f, .field f ∈ v.path → s.Allows f) → s.pathPolicy = .reject →
      ¬s.maxPathLength.AtLeast v.path.length → Refuses s v .pathTooLong

/-- The first side that may not go into a graph. -/
inductive Offends (s : Settings) (c : Subtyping) : TypeVar → ReportKind → Prop
  | sub {kind : ReportKind} : s.Refuses c.sub kind → Offends s c c.sub kind
  | sup {kind : ReportKind} : (∀ kind, ¬s.Refuses c.sub kind) → s.Refuses c.sup kind → Offends s c c.sup kind

def Rejects (s : Settings) (c : Subtyping) : Prop := ∃ v kind, s.Offends c v kind

variable {s : Settings}

theorem isReject_iff : s.pathPolicy.isReject = true ↔ s.pathPolicy = .reject := by
  cases s.pathPolicy <;> simp [PathPolicy.isReject]

theorem not_allows_of_fieldDefect? {path : List Label} {f : Field} {d : FieldDefect}
    (h : s.fieldDefect? path = some (f, d)) : .field f ∈ path ∧ ¬s.Allows f := by
  obtain ⟨l, hl, hd⟩ := List.exists_of_findSome?_eq_some h
  cases l with
  | field g =>
    obtain ⟨d', hd', he⟩ := Option.map_eq_some_iff.mp hd
    cases he
    refine ⟨hl, fun hallows => ?_⟩
    rw [Field.defect?_eq_none_iff.mpr hallows] at hd'
    cases hd'
  | load | store | input | output => cases hd

theorem refuses_iff {v : TypeVar} {kind : ReportKind} :
    s.Refuses v kind ↔ ∃ why, s.admission v = .refused why ∧ why.fault.kind = kind := by
  cases hd : s.fieldDefect? v.path with
  | some fd =>
    obtain ⟨f, d⟩ := fd
    obtain ⟨hf, hbad⟩ := not_allows_of_fieldDefect? hd
    have hadm : s.admission v = .refused (.badField f d v) := by rw [admission, hd]
    simp only [hadm, Admission.refused.injEq, exists_eq_left']
    constructor
    · rintro (⟨-, -⟩ | ⟨hall, -, -⟩)
      · rfl
      · exact absurd (hall f hf) hbad
    · rintro rfl
      exact .badField hf hbad
  | none =>
    have hall := fieldDefect?_eq_none_iff.mp hd
    have hpath : (∃ why, s.admission v = .refused why ∧ why.fault.kind = kind) ↔
        s.pathPolicy = .reject ∧ ¬s.maxPathLength.AtLeast v.path.length ∧ kind = .pathTooLong := by
      rw [← Amount.whole_atMost_eq_true, ← isReject_iff, admission, hd]
      dsimp only
      by_cases hle : (Amount.whole v.path.length).atMost s.maxPathLength = true
      · simp [hle]
      · cases hp : s.pathPolicy.isReject with
        | true => simp [hle, Inadmissible.fault, Fault.pathTooLong, eq_comm]
        | false => cases s.maxPathLength.integer? <;> simp [hle]
    rw [hpath]
    constructor
    · rintro (⟨hf, hbad⟩ | ⟨-, hreject, hlong⟩)
      · exact absurd (hall _ hf) hbad
      · exact ⟨hreject, hlong, rfl⟩
    · rintro ⟨hreject, hlong, rfl⟩
      exact .tooLong hall hreject hlong

/-- A refusal is on the variable that is refused. -/
theorem subject_of_admission {v : TypeVar} {why : Inadmissible} (h : s.admission v = .refused why) :
    why.fault.subject = some (.variable v) := by
  unfold admission at h
  split at h
  · cases h
    rfl
  · split at h
    · cases h
    · split at h
      · cases h
        rfl
      · split at h <;> cases h

theorem admitted_of_admission {v : TypeVar} {why : Inadmissible} :
    s.admitted v = .error (.refused why) ↔ s.admission v = .refused why := by
  unfold admitted
  cases s.admission v <;> simp

theorem offends_of_refusal? {c : Subtyping} {why : Inadmissible} (h : s.refusal? c = some why) :
    ∃ v, s.Offends c v why.fault.kind ∧ why.fault.subject = some (.variable v) := by
  have hsides : s.sides c = .error (.refused why) := by
    unfold refusal? at h
    split at h
    · cases h
      assumption
    · cases h
  unfold sides at hsides
  cases hsub : s.admitted c.sub with
  | error e =>
    rw [hsub] at hsides
    cases hsides
    have hadm := admitted_of_admission.mp hsub
    exact ⟨c.sub, .sub (refuses_iff.mpr ⟨why, hadm, rfl⟩), subject_of_admission hadm⟩
  | ok v =>
    cases hsup : s.admitted c.sup with
    | error e =>
      rw [hsub, hsup] at hsides
      cases hsides
      have hadm := admitted_of_admission.mp hsup
      refine ⟨c.sup, .sup (fun kind hkind => ?_) (refuses_iff.mpr ⟨why, hadm, rfl⟩), subject_of_admission hadm⟩
      obtain ⟨why', hadm', -⟩ := refuses_iff.mp hkind
      rw [admitted_of_admission.mpr hadm'] at hsub
      cases hsub
    | ok w =>
      rw [hsub, hsup] at hsides
      cases hsides

/-- Where all paths can be cut, the constraints that are refused are those with a bad side. -/
theorem rejects_iff {c : Subtyping} (hcut : s.sides c ≠ .error .uncuttable) : s.Rejects c ↔ s.isRefused c = true := by
  rw [isRefused_eq_isSome]
  constructor
  · rintro ⟨v, kind, hoffends⟩
    have hsides : ∀ why, s.sides c = .error (.refused why) → (s.refusal? c).isSome = true :=
      fun why hwhy => by rw [refusal?, hwhy]; rfl
    cases hoffends with
    | sub hsub =>
      obtain ⟨why, hadm, -⟩ := refuses_iff.mp hsub
      refine hsides why ?_
      rw [sides, admitted_of_admission.mpr hadm]
      rfl
    | sup _ hsup =>
      obtain ⟨why, hadm, -⟩ := refuses_iff.mp hsup
      rw [sides, admitted_of_admission.mpr hadm] at hcut
      cases hsub : s.admitted c.sub with
      | ok v =>
        refine hsides why ?_
        rw [sides, hsub, admitted_of_admission.mpr hadm]
        rfl
      | error e =>
        cases e with
        | refused why' =>
          refine hsides why' ?_
          rw [sides, hsub]
          rfl
        | uncuttable =>
          rw [hsub] at hcut
          exact absurd rfl hcut
  · intro h
    obtain ⟨why, hwhy⟩ := Option.isSome_iff_exists.mp h
    obtain ⟨v, hoffends, -⟩ := offends_of_refusal? hwhy
    exact ⟨v, _, hoffends⟩

/-- A variable is refused for some reason. -/
def refusesSome (s : Settings) (v : TypeVar) : Bool :=
  match s.admission v with
  | .refused _ => true
  | _ => false

theorem refusesSome_iff {v : TypeVar} : s.refusesSome v = true ↔ ∃ kind, s.Refuses v kind := by
  simp only [refuses_iff, refusesSome]
  cases s.admission v <;> simp

instance (c : Subtyping) : Decidable (s.Rejects c) :=
  decidable_of_iff (s.refusesSome c.sub = true ∨ s.refusesSome c.sup = true) (by
    rw [refusesSome_iff, refusesSome_iff]
    constructor
    · rintro (⟨kind, h⟩ | ⟨kind, h⟩)
      · exact ⟨_, _, .sub h⟩
      · by_cases hsub : ∃ kind, s.Refuses c.sub kind
        · obtain ⟨kind', h'⟩ := hsub
          exact ⟨_, _, .sub h'⟩
        · exact ⟨_, _, .sup (fun kind' h' => hsub ⟨kind', h'⟩) h⟩
    · rintro ⟨v, kind, h | ⟨-, h⟩⟩
      · exact Or.inl ⟨_, h⟩
      · exact Or.inr ⟨_, h⟩)

end Settings

/-! ## Reports of rejections -/

/-- An error of this kind on `subject`, which tells the constraint. -/
structure Report.Blames (r : Report) (subject : Subject) (kind : ReportKind) (c : Subtyping) : Prop where
  severity : r.severity = .error
  kind : r.kind = kind
  subject : r.subject = some subject
  constraint : Entries.lookup? r.evidence "constraint" = some (.ofText c.text)

/-- The error on a rejected subtyping. -/
def Settings.Reported (s : Settings) (f : Subtyping) (r : Report) : Prop :=
  ∃ v kind, s.Offends f v kind ∧ r.Blames (.variable v) kind f

/-- The errors on a rejected binding, the second of the kind of the first. -/
def Settings.ReportedTwice (s : Settings) (b : Binding) (rs : Report × Report) : Prop :=
  ∃ v kind, s.Offends b.fact v kind ∧ rs.1.Blames (.variable v) kind b.fact ∧ rs.2.Blames (.target b.target) kind b.fact

/-- A binding in the graph, to the node of what its left side was admitted as. -/
def Settings.Kept (s : Settings) (b : Binding) (e : Target × Option TypeVar) : Prop :=
  e.1 = b.target ∧ ∃ v w, s.sides b.fact = .ok (v, w) ∧ e.2 = some v

namespace Intake

theorem refusalReport_blames {c : Subtyping} {why : Inadmissible} {subject : Subject} (h : why.fault.subject = some subject) :
    (refusalReport c why).Blames subject why.fault.kind c where
  severity := rfl
  kind := rfl
  subject := h
  constraint := by
    show Entries.lookup? (Entries.set why.fault.evidence "constraint" _) _ = _
    rw [Entries.lookup?_set, if_pos rfl]

theorem dropReport_blames (b : Binding) (why : Inadmissible) :
    (dropReport b why).Blames (.target b.target) why.fault.kind b.fact where
  severity := rfl
  kind := rfl
  subject := rfl
  constraint := rfl

end Intake

/-- What the chosen elements of a list add one after another, when the others add nothing. -/
theorem exists_forall₂_flatMap {α β γ : Type} {own : α → List β} (out : γ → List β) {p : α → Bool} {R : α → γ → Prop}
    {xs : List α} (h : ∀ x ∈ xs, (p x = true → ∃ y, R x y ∧ own x = out y) ∧ (p x = false → own x = [])) :
    ∃ ys, List.Forall₂ R (xs.filter p) ys ∧ xs.flatMap own = ys.flatMap out := by
  induction xs with
  | nil => exact ⟨[], .nil, rfl⟩
  | cons x rest ih =>
    obtain ⟨ys, hys, hflat⟩ := ih fun y hy => h y (List.mem_cons_of_mem _ hy)
    obtain ⟨hsome, hnone⟩ := h x List.mem_cons_self
    rw [List.flatMap_cons, hflat]
    cases hx : p x with
    | true =>
      obtain ⟨y, hy, hown⟩ := hsome hx
      refine ⟨y :: ys, ?_, by rw [List.flatMap_cons, hown]⟩
      rw [List.filter_cons_of_pos hx]
      exact .cons hy hys
    | false =>
      refine ⟨ys, ?_, by rw [hnone hx, List.nil_append]⟩
      rwa [List.filter_cons_of_neg (by rw [hx]; exact Bool.false_ne_true)]

/-! ## A whole solve -/

/-- What a solve of `c` says of its rejections, and what it keeps. -/
structure Solution.Owns (s : Settings) (c : ConstraintSet) (sol : Solution) : Prop where
  /-- One error for each rejected subtyping, then two for each rejected binding, in order. -/
  errors : ∃ rs ps, List.Forall₂ s.Reported (c.subtypings.filter (s.Rejects ·)) rs ∧
    List.Forall₂ s.ReportedTwice (c.bindings.filter (s.Rejects ·.fact)) ps ∧
    sol.reports.filter Report.isError = rs ++ ps.flatMap fun p => [p.1, p.2]
  rejected : sol.rejected = c.subtypings.filter (s.Rejects ·) ++ (c.bindings.filter (s.Rejects ·.fact)).map (·.fact)
  hasErrors_iff : sol.hasErrors = true ↔ sol.rejected ≠ []
  /-- The other bindings are kept, in order, and all are kept or rejected. -/
  kept : ∃ bs, List.Forall₂ s.Kept bs sol.graph.boundVars ∧ bs.Sublist c.bindings ∧
    (bs ++ c.bindings.filter (s.Rejects ·.fact)).Perm c.bindings

namespace Intake

variable {s : Settings} {c : ConstraintSet} {k : Intake}

theorem sides_ne_uncuttable (h : build s c = .ok k) {f : Subtyping} (hf : f ∈ c.facts) : s.sides f ≠ .error .uncuttable := by
  intro hcut
  obtain ⟨k', hk'⟩ := (build_fails_iff s c).mpr ⟨f, hf, hcut⟩
  rw [h] at hk'
  cases hk'

theorem rejects_eq_isRefused (h : build s c = .ok k) {f : Subtyping} (hf : f ∈ c.facts) :
    decide (s.Rejects f) = s.isRefused f := by
  rw [Bool.eq_iff_iff, decide_eq_true_eq]
  exact Settings.rejects_iff (sides_ne_uncuttable h hf)

theorem mem_facts_of_mem_bindings {b : Binding} (hb : b ∈ c.bindings) : b.fact ∈ c.facts :=
  List.mem_append_right _ (List.mem_map_of_mem hb)

theorem rejects_eq_isSome (h : build s c = .ok k) {f : Subtyping} (hf : f ∈ c.facts) :
    decide (s.Rejects f) = (s.refusal? f).isSome := by
  rw [rejects_eq_isRefused h hf, Settings.isRefused_eq_isSome]

theorem errorsOf_eq (h : build s c = .ok k) {f : Subtyping} (hf : f ∈ c.facts) :
    (decide (s.Rejects f) = true → ∃ r, s.Reported f r ∧ errorsOf s f = [r]) ∧
      (decide (s.Rejects f) = false → errorsOf s f = []) := by
  rw [rejects_eq_isSome h hf]
  unfold errorsOf
  cases hwhy : s.refusal? f with
  | none => simp
  | some why =>
    obtain ⟨v, hoffends, hsubject⟩ := Settings.offends_of_refusal? hwhy
    exact ⟨fun _ => ⟨_, ⟨v, _, hoffends, refusalReport_blames hsubject⟩, rfl⟩, by simp⟩

theorem bindingErrors_eq (h : build s c = .ok k) {b : Binding} (hb : b ∈ c.bindings) :
    (decide (s.Rejects b.fact) = true → ∃ p : Report × Report, s.ReportedTwice b p ∧ bindingErrors s b = [p.1, p.2]) ∧
      (decide (s.Rejects b.fact) = false → bindingErrors s b = []) := by
  rw [rejects_eq_isSome h (mem_facts_of_mem_bindings hb)]
  unfold bindingErrors
  cases hwhy : s.refusal? b.fact with
  | none => simp
  | some why =>
    obtain ⟨v, hoffends, hsubject⟩ := Settings.offends_of_refusal? hwhy
    refine ⟨fun _ => ⟨(refusalReport b.fact why, dropReport b why), ?_, rfl⟩, by simp⟩
    exact ⟨v, _, hoffends, refusalReport_blames hsubject, dropReport_blames b why⟩

theorem errors_reported (h : build s c = .ok k) :
    ∃ rs ps, List.Forall₂ s.Reported (c.subtypings.filter (s.Rejects ·)) rs ∧
      List.Forall₂ s.ReportedTwice (c.bindings.filter (s.Rejects ·.fact)) ps ∧
      k.errors = rs ++ ps.flatMap fun p => [p.1, p.2] := by
  obtain ⟨rs, hrs, hsub⟩ := exists_forall₂_flatMap (fun r => [r])
    fun f hf => errorsOf_eq h (List.mem_append_left _ hf)
  obtain ⟨ps, hps, hbind⟩ := exists_forall₂_flatMap (fun p : Report × Report => [p.1, p.2])
    fun b hb => bindingErrors_eq h hb
  refine ⟨rs, ps, hrs, hps, ?_⟩
  rw [errors_build h, hsub, hbind, List.flatMap_singleton']

theorem boundBy_eq_toList (h : build s c = .ok k) {b : Binding} (hb : b ∈ c.bindings) :
    ((!decide (s.Rejects b.fact)) = true → ∃ e, s.Kept b e ∧ (boundBy s b).toList = [e]) ∧
      ((!decide (s.Rejects b.fact)) = false → (boundBy s b).toList = []) := by
  have hcut := sides_ne_uncuttable h (mem_facts_of_mem_bindings hb)
  rw [rejects_eq_isRefused h (mem_facts_of_mem_bindings hb)]
  unfold Settings.isRefused boundBy Settings.Kept
  rcases hsides : s.sides b.fact with (why | _) | ⟨v, w⟩
  · simp
  · exact absurd hsides hcut
  · simp

/-- The bindings of the graph are the admitted ones, in order. -/
theorem boundVars_kept (h : build s c = .ok k) :
    List.Forall₂ s.Kept (c.bindings.filter fun b => !decide (s.Rejects b.fact)) k.graph.boundVars := by
  obtain ⟨es, hes, hflat⟩ := exists_forall₂_flatMap (fun e => [e])
    fun b hb => boundBy_eq_toList h hb
  rw [(took_build h).boundVars, List.filterMap_eq_flatMap_toList, hflat, List.flatMap_singleton']
  exact hes

end Intake

/-- Each rejection of a solve has its errors, there are no others, and the bindings that were not
rejected are kept. -/
theorem solved_owns {s : Settings} {clock : Clock} {readings : Nat} {c : ConstraintSet} {sol : Solution}
    (h : (solve s clock readings c).result = .ok sol) : sol.Owns s c := by
  obtain ⟨k, g, n, stats, hb, hclose, -, rfl⟩ := solve_eq_ok h
  have htook := Intake.took_build hb
  have herrors := solved_errors s c k g stats
  have hfilter : c.bindings.filter (fun b => s.isRefused b.fact) = c.bindings.filter (s.Rejects ·.fact) :=
    List.filter_congr fun b hbm => (Intake.rejects_eq_isRefused hb (Intake.mem_facts_of_mem_bindings hbm)).symm
  refine ⟨?_, ?_, ?_, ?_⟩
  · obtain ⟨rs, ps, hrs, hps, he⟩ := Intake.errors_reported hb
    exact ⟨rs, ps, hrs, hps, herrors.trans he⟩
  · show k.rejected = _
    rw [htook.rejected, ConstraintSet.facts, List.filter_append, List.filter_map, ← hfilter]
    refine congrArg (· ++ _) (List.filter_congr fun f hf => ?_)
    exact (Intake.rejects_eq_isRefused hb (List.mem_append_left _ hf)).symm
  · show _ ↔ k.rejected ≠ []
    rw [ne_eq, ← Intake.errors_eq_nil_iff hb, ← herrors, List.filter_eq_nil_iff]
    simp [Solution.hasErrors, Report.isError]
  · have hbare := Graph.closeFrom_bare htook.wf (.refl _) hclose
    refine ⟨_, ?_, List.filter_sublist, List.perm_append_comm.trans (List.filter_append_perm _ _)⟩
    show List.Forall₂ s.Kept _ g.boundVars
    rw [Graph.boundVars_of_bare hbare]
    exact Intake.boundVars_kept hb

/-- Its left side is cut before its right side is refused. -/
def cutLeft : Subtyping := ⟨⟨"p", [.load, .store, .load]⟩, ⟨"q", [.field ⟨0, 0⟩]⟩⟩

/-- Its right side would have been cut. -/
def tooWide : Binding := ⟨.number 1, ⟨⟨"q", [.field ⟨513, 0⟩]⟩, ⟨"r", [.load, .load, .load]⟩⟩⟩

def halfBad : ConstraintSet where
  subtypings := [cutLeft, ⟨⟨"q", []⟩, ⟨"p", [.load]⟩⟩]
  bindings := [tooWide, ⟨.name "f", ⟨⟨"q", []⟩, ⟨"q", [.output 0]⟩⟩⟩]

theorem halfBad_owns :
    ∃ sol, (solve Intake.cutAtTwo (.ticking (.whole 0)) 0 halfBad).result = .ok sol ∧ sol.Owns Intake.cutAtTwo halfBad ∧
      sol.rejected = [cutLeft, tooWide.fact] ∧ sol.graph.boundVars = [(.name "f", some ⟨"q", []⟩)] ∧
      sol.intakeReports.map (fun r => (r.severity, r.kind)) = [(.warning, .pathTruncated), (.error, .malformedLabel),
        (.error, .malformedLabel), (.error, .malformedLabel)] := by
  obtain ⟨sol, h, hrejected, hbound, hreports⟩ :
      ∃ sol, (solve Intake.cutAtTwo (.ticking (.whole 0)) 0 halfBad).result = .ok sol ∧
        sol.rejected = [cutLeft, tooWide.fact] ∧ sol.graph.boundVars = [(.name "f", some ⟨"q", []⟩)] ∧
        sol.intakeReports.map (fun r => (r.severity, r.kind)) = [(.warning, .pathTruncated), (.error, .malformedLabel),
          (.error, .malformedLabel), (.error, .malformedLabel)] := ⟨_, rfl, rfl, by decide, rfl⟩
  exact ⟨sol, h, solved_owns h, hrejected, hbound, hreports⟩

end TypeRecovery
