/-
  TypeRecovery.Proofs.Severity — which reports are errors.

  Only the intake reports errors. A subtyping that is refused is one error, on the variable that
  was refused; a binding that is refused is a second one, on its target; a cut is a warning. What
  is reported later, of targets bound twice and of sketches, never is an error.

  Proved:
  - `errors_add`, `errors_bind`: the errors of one constraint.
  - `errors_foldlM`: the errors of steps, one after the other.
  - `errors_build`: the errors of a whole intake, in the order of its constraints.
  - `not_isError_partition`, `not_isError_table`: reports of the later stages.
  - `solved_errors`: the errors of a solve are those of its intake.
  - `hasErrors_reports`: a console that shows reports.
-/

import TypeRecovery.Console
import TypeRecovery.Proofs.Graph.Admission
import TypeRecovery.Proofs.Partition.Targets
import TypeRecovery.Proofs.Sketch.Table
import TypeRecovery.Proofs.Solution

namespace TypeRecovery

def Report.isError (r : Report) : Bool := r.severity = .error

/-! ## Intake -/

/-- Why a constraint is refused, if it is. -/
def Settings.refusal? (s : Settings) (c : Subtyping) : Option Inadmissible :=
  match s.sides c with
  | .error (.refused why) => some why
  | _ => none

theorem Settings.isRefused_eq_isSome (s : Settings) (c : Subtyping) : s.isRefused c = (s.refusal? c).isSome := by
  unfold isRefused refusal?
  rcases s.sides c with (why | _) | ⟨v, w⟩ <;> rfl

namespace Intake

def errors (k : Intake) : List Report := k.reports.filter Report.isError

def refusalReport (c : Subtyping) (why : Inadmissible) : Report := why.fault.report [("constraint", .ofText c.text)]

/-- The errors that a subtyping causes. -/
def errorsOf (s : Settings) (c : Subtyping) : List Report := (s.refusal? c).toList.map (refusalReport c)

/-- The errors that a binding causes: on the variable and on the target. -/
def bindingErrors (s : Settings) (b : Binding) : List Report :=
  (s.refusal? b.fact).toList.flatMap fun why => [refusalReport b.fact why, dropReport b why]

theorem errors_accept (s : Settings) (k : Intake) (v : TypeVar) : (k.accept s v).1.errors = k.errors := by
  unfold accept
  cases s.admission v with
  | cutTo n => simp [errors, report, say, Report.isError, cutReport]
  | whole | refused | uncuttable => rfl

theorem errors_admitBoth (s : Settings) (k : Intake) (c : Subtyping) : (k.admitBoth s c).1.errors = k.errors := by
  have hsub := errors_accept s k c.sub
  unfold admitBoth
  split
  · rename_i k1 e he
    rwa [he] at hsub
  · rename_i k1 v he
    rw [he] at hsub
    have hsup := errors_accept s k1 c.sup
    split
    · rename_i k2 e he'
      rw [he'] at hsup
      exact hsup.trans hsub
    · rename_i k2 w he'
      rw [he'] at hsup
      exact hsup.trans hsub

theorem errors_report (k : Intake) (r : Report) (h : r.severity = .error) : (k.report r).errors = k.errors ++ [r] := by
  simp [errors, report, Report.isError, h]

theorem errors_reject (k : Intake) (c : Subtyping) (why : Inadmissible) :
    (k.reject c why).errors = k.errors ++ [refusalReport c why] :=
  errors_report _ _ rfl

/-- What the sides of a constraint come to does not depend on the intake, and a cut is no error. -/
theorem sides_of_admitBoth {s : Settings} {k k1 : Intake} {c : Subtyping} {r : Except Stop (TypeVar × TypeVar)}
    (h : k.admitBoth s c = (k1, r)) : s.sides c = r ∧ k1.errors = k.errors := by
  have hsides := (admitBoth_eq s k c).1
  have herrors := errors_admitBoth s k c
  rw [h] at hsides herrors
  exact ⟨hsides.symm, herrors⟩

section Steps

variable {s : Settings} {k k' : Intake}

theorem errors_add {c : Subtyping} {nodes : Option (Nat × Nat)} (h : k.add s c = .ok (k', nodes)) :
    k'.errors = k.errors ++ errorsOf s c := by
  rcases add_cases h with ⟨k1, v, w, -, he, rfl, -⟩ | ⟨k1, why, -, he, rfl, -⟩
  · obtain ⟨hsides, herrors⟩ := sides_of_admitBoth he
    show k1.errors = _
    simp [errorsOf, Settings.refusal?, hsides, herrors]
  · obtain ⟨hsides, herrors⟩ := sides_of_admitBoth he
    rw [errors_reject, herrors]
    simp [errorsOf, Settings.refusal?, hsides]

theorem errors_bind {b : Binding} (h : k.bind s b = .ok k') : k'.errors = k.errors ++ bindingErrors s b := by
  rcases bind_cases h with ⟨k1, v, w, -, he, rfl⟩ | ⟨k1, why, -, he, rfl⟩
  · obtain ⟨hsides, herrors⟩ := sides_of_admitBoth he
    show k1.errors = _
    simp [bindingErrors, Settings.refusal?, hsides, herrors]
  · obtain ⟨hsides, herrors⟩ := sides_of_admitBoth he
    rw [errors_report _ _ rfl, errors_reject, herrors]
    simp [bindingErrors, Settings.refusal?, hsides]

end Steps

/-- Where each step adds errors of its own, a fold adds them in order. -/
theorem errors_foldlM {α : Type} {ε : Type} {step : Intake → α → Except ε Intake} {own : α → List Report}
    (hstep : ∀ k x k', step k x = .ok k' → k'.errors = k.errors ++ own x) {xs : List α} {k k' : Intake}
    (h : xs.foldlM step k = .ok k') : k'.errors = k.errors ++ xs.flatMap own := by
  have hnone : k.errors = k.errors ++ ([] : List α).flatMap own := (List.append_nil _).symm
  refine foldlM_took (P := fun done b => b.errors = k.errors ++ done.flatMap own) (fun done x b b' hb hx => ?_) xs hnone h
  rw [hstep b x b' hx, hb, List.flatMap_append, List.flatMap_singleton, List.append_assoc]

/-- The errors of an intake are those of its constraints, in order. -/
theorem errors_build {s : Settings} {c : ConstraintSet} {k : Intake} (h : build s c = .ok k) :
    k.errors = c.subtypings.flatMap (errorsOf s) ++ c.bindings.flatMap (bindingErrors s) := by
  obtain ⟨k', ha, rfl⟩ := map_eq_ok.mp h
  obtain ⟨k1, hsub, hbind⟩ := addAll_eq_ok ha
  have hadds : k1.errors = empty.errors ++ c.subtypings.flatMap (errorsOf s) := by
    refine errors_foldlM (fun k x k' hx => ?_) hsub
    obtain ⟨⟨b, nodes⟩, hadd, rfl⟩ := map_eq_ok.mp hx
    exact errors_add hadd
  have hbinds : k'.errors = k1.errors ++ c.bindings.flatMap (bindingErrors s) :=
    errors_foldlM (fun k x k' hx => errors_bind hx) hbind
  show k'.errors = _
  rw [hbinds, hadds]
  rfl

theorem errorsOf_eq_nil_iff {s : Settings} {c : Subtyping} : errorsOf s c = [] ↔ ¬s.isRefused c = true := by
  rw [errorsOf, Settings.isRefused_eq_isSome]
  cases s.refusal? c <;> simp

theorem bindingErrors_eq_nil_iff {s : Settings} {b : Binding} : bindingErrors s b = [] ↔ ¬s.isRefused b.fact = true := by
  rw [bindingErrors, Settings.isRefused_eq_isSome]
  cases s.refusal? b.fact <;> simp

/-- There are errors exactly if there are constraints that were rejected. -/
theorem errors_eq_nil_iff {s : Settings} {c : ConstraintSet} {k : Intake} (h : build s c = .ok k) :
    k.errors = [] ↔ k.rejected = [] := by
  rw [errors_build h, (took_build h).rejected, ConstraintSet.facts]
  simp only [List.append_eq_nil_iff, List.flatMap_eq_nil_iff, List.filter_append, List.filter_eq_nil_iff,
    List.forall_mem_map, errorsOf_eq_nil_iff, bindingErrors_eq_nil_iff]

end Intake

/-! ## Later stages -/

theorem TargetClasses.not_isError_dispute {t : Target} {kept dropped : Nat} {r : Report} (h : dispute? t kept dropped = some r) :
    r.isError = false := by
  unfold dispute? at h
  split at h
  · cases h
  · cases h
    rfl

theorem not_isError_partition (g : Graph) : ∀ r ∈ (Partition.ofGraph g).reports, r.isError = false := by
  intro r hr
  rw [Partition.reports_eq] at hr
  obtain ⟨e, -, he⟩ := List.mem_filterMap.mp hr
  obtain ⟨first, -, hdispute⟩ := Option.bind_eq_some_iff.mp he
  exact TargetClasses.not_isError_dispute hdispute

theorem TypeClass.not_isError_mixed (c : TypeClass) (u : Uses) :
    ∀ r ∈ c.mixedReports u ++ c.pointeeReports u, r.isError = false := by
  refine List.forall_mem_append.mpr ⟨?_, ?_⟩
  · unfold mixedReports
    split
    · exact List.forall_mem_singleton.mpr rfl
    · exact List.forall_mem_nil _
  · unfold pointeeReports
    split
    · split
      · exact List.forall_mem_nil _
      · exact List.forall_mem_singleton.mpr rfl
    · exact List.forall_mem_nil _

theorem TypeClass.not_isError_conflict (c : TypeClass) (x : LayoutConflict) : (c.conflictReport x).isError = false := by
  cases x <;> rfl

theorem Shape.not_isError (s : Settings) (filler : Nat) (c : TypeClass) :
    ∀ r ∈ (Shape.ofClass s filler c).reports, r.isError = false := by
  have hmixed := c.not_isError_mixed (Uses.ofClass c)
  rw [Shape.ofClass]
  split
  · exact hmixed
  · split
    · exact hmixed
    · split
      · exact hmixed
      · exact List.forall_mem_append.mpr ⟨hmixed, List.forall_mem_map.mpr fun x _ => c.not_isError_conflict x⟩

theorem not_isError_table (s : Settings) (p : Partition) : ∀ r ∈ (SketchTable.ofPartition s p).allReports, r.isError = false := by
  intro r hr
  simp only [SketchTable.allReports, List.mem_flatMap, List.mem_mergeSort, SketchTable.reports_ofPartition,
    SketchTable.classSketches, List.map_map, List.mem_filter, List.mem_map] at hr
  obtain ⟨e, ⟨⟨c, -, rfl⟩, -⟩, hr⟩ := hr
  exact Shape.not_isError s _ c r hr

/-- The errors of a solve are those of its intake. -/
theorem solved_errors (s : Settings) (c : ConstraintSet) (k : Intake) (g : Graph) (stats : ClosureStats) :
    (Solution.ofClosed s c k g stats).reports.filter Report.isError = k.errors := by
  have hpartition : (Partition.ofGraph g).reports.filter Report.isError = [] :=
    List.filter_eq_nil_iff.mpr fun r hr => by simp [not_isError_partition g r hr]
  have htable : (SketchTable.ofPartition s (Partition.ofGraph g)).allReports.filter Report.isError = [] :=
    List.filter_eq_nil_iff.mpr fun r hr => by simp [not_isError_table s _ r hr]
  rw [Solution.reports, List.filter_append, List.filter_append]
  show k.errors ++ (Partition.ofGraph g).reports.filter Report.isError ++
    (SketchTable.ofPartition s (Partition.ofGraph g)).allReports.filter Report.isError = k.errors
  rw [hpartition, htable, List.append_nil, List.append_nil]

/-! ## Shown -/

namespace Console

theorem hasErrors_report (c : Console) (r : Report) : (c.report r).hasErrors = (c.hasErrors || r.isError) := by
  show (c.severities ++ [r.severity]).contains .error = (c.severities.contains .error || decide (r.severity = .error))
  rw [List.contains_append]
  cases r.severity <;> simp

/-- Errors have been shown when there were some before or are among the reports. -/
theorem hasErrors_reports (c : Console) (rs : List Report) :
    (c.reports rs).hasErrors = (c.hasErrors || rs.any Report.isError) := by
  induction rs generalizing c with
  | nil => simp [reports]
  | cons r rs ih =>
    show ((c.report r).reports rs).hasErrors = _
    rw [ih, hasErrors_report, List.any_cons, Bool.or_assoc]

end Console

end TypeRecovery
