/-
  TypeRecovery.Proofs.Language.RoundTrip — constraint sets written and read again.

  A set has no written form when one of its bases is empty, or a base or the name of a target
  holds a double quote or a line end (`Inexpressible`). Any other set is written, and what was
  written is read as the same set: the same constraints in the same order, each target the
  number or the name that it was. The grammar gives no name that quotes cannot hold and no
  empty base, so what it reads can be written again.

  Proved:
  - `write_fails_iff`: which sets have no written form.
  - `parse_write`: a written set is read as itself.
  - `parse_eq_ok`: a set that was read has a written form.
  - `write_parse`: all of it together.
-/

import Mathlib.Data.List.TakeWhile
import TypeRecovery.Proofs.ConstraintSet
import TypeRecovery.Proofs.Language.Document

namespace TypeRecovery

namespace ConstraintSet

/-- A set is made of its statements. -/
theorem ofStatements_statements {s : ConstraintSet} (h : s.Distinct) : ofStatements s.statements = s := by
  rw [ofStatements, statements, List.foldl_append, List.foldl_map, List.foldl_map]
  exact ofLists_eq h

theorem addStatement_distinct {s : ConstraintSet} (h : s.Distinct) (st : Statement) : (s.addStatement st).Distinct := by
  cases st with
  | subtyping c => exact insert_distinct h c
  | binding b => exact bind_distinct h b

theorem mem_addStatement {s : ConstraintSet} {st st' : Statement} :
    st' ∈ (s.addStatement st).statements ↔ st' ∈ s.statements ∨ st' = st := by
  cases st <;> cases st' <;> simp [addStatement, statements, insert, bind, mem_appendNew]

theorem foldl_addStatement (sts : List Statement) {s : ConstraintSet} (h : s.Distinct) :
    (sts.foldl addStatement s).Distinct ∧
      ∀ st, st ∈ (sts.foldl addStatement s).statements ↔ st ∈ s.statements ∨ st ∈ sts := by
  induction sts generalizing s with
  | nil => exact ⟨h, fun st => by simp⟩
  | cons st sts ih =>
    obtain ⟨hd, hmem⟩ := ih (addStatement_distinct h st)
    refine ⟨hd, fun st' => ?_⟩
    rw [List.foldl_cons, hmem, mem_addStatement, List.mem_cons, or_assoc]

theorem ofStatements_distinct (sts : List Statement) : (ofStatements sts).Distinct :=
  (foldl_addStatement sts empty_distinct).1

theorem mem_ofStatements {sts : List Statement} {st : Statement} : st ∈ (ofStatements sts).statements ↔ st ∈ sts := by
  rw [ofStatements, (foldl_addStatement sts empty_distinct).2]
  simp [empty, statements]

end ConstraintSet

namespace Language

open Rule

/-! ## What cannot be written -/

/-- Quotes cannot hold the name: it holds a double quote or a line end. -/
def Breaks (name : String) : Prop := '"' ∈ name.toList ∨ '\n' ∈ name.toList ∨ '\r' ∈ name.toList

/-- A base is empty or quotes cannot hold it, or they cannot hold the name of a target. -/
def Inexpressible (s : ConstraintSet) : Prop :=
  (∃ name ∈ s.bases, name = "" ∨ Breaks name) ∨ ∃ name, .name name ∈ s.targets ∧ Breaks name

theorem not_breaks_iff {name : String} : ¬Breaks name ↔ ∀ c ∈ name.toList, isQuotable c = true := by
  have hchar : ∀ c : Char, isQuotable c = true ↔ c ≠ '"' ∧ c ≠ '\r' ∧ c ≠ '\n' := fun c => by
    simp [isQuotable, and_assoc]
  simp only [Breaks, hchar, not_or]
  constructor
  · rintro ⟨hquote, hfeed, hreturn⟩ c hc
    exact ⟨fun h => hquote (h ▸ hc), fun h => hreturn (h ▸ hc), fun h => hfeed (h ▸ hc)⟩
  · intro h
    exact ⟨fun hc => (h _ hc).1 rfl, fun hc => (h _ hc).2.2 rfl, fun hc => (h _ hc).2.1 rfl⟩

/-! ## What each writer asks -/

def BaseExpressible (name : String) : Prop := name ≠ "" ∧ ¬Breaks name

def FactExpressible (c : Subtyping) : Prop := BaseExpressible c.sub.base ∧ BaseExpressible c.sup.base

def TargetExpressible (t : Target) : Prop := ∀ name, t = .name name → ¬Breaks name

def StatementExpressible : Statement → Prop
  | .subtyping c => FactExpressible c
  | .binding b => FactExpressible b.fact ∧ TargetExpressible b.target

instance (name : String) : Decidable (Breaks name) := inferInstanceAs (Decidable (_ ∨ _))

instance (name : String) : Decidable (BaseExpressible name) := inferInstanceAs (Decidable (_ ∧ _))

instance (c : Subtyping) : Decidable (FactExpressible c) := inferInstanceAs (Decidable (_ ∧ _))

instance : (t : Target) → Decidable (TargetExpressible t)
  | .number _ => .isTrue fun _ h => nomatch h
  | .name s => decidable_of_iff (¬Breaks s) ⟨fun h _ he => Target.name.inj he ▸ h, fun h => h s rfl⟩

instance : (st : Statement) → Decidable (StatementExpressible st)
  | .subtyping c => inferInstanceAs (Decidable (FactExpressible c))
  | .binding b => inferInstanceAs (Decidable (FactExpressible b.fact ∧ TargetExpressible b.target))

theorem quotable_of_isIdentifier {name : String} (h : isIdentifier name = true) : ∀ c ∈ name.toList, isQuotable c = true := by
  obtain ⟨d, ds, hname, hd, hds⟩ := isIdentifier_iff.mp h
  intro c hc
  rw [hname] at hc
  rcases List.mem_cons.mp hc with rfl | hc
  · exact isQuotable_of_isNameChar (isNameChar_of_isNameStart hd)
  · exact isQuotable_of_isNameChar (hds c hc)

theorem writes_name {name : String} : (∃ text, writeName? name = some text) ↔ ¬Breaks name := by
  rw [not_breaks_iff]
  constructor
  · rintro ⟨text, h⟩
    rcases writeName?_cases h with ⟨c, cs, hname, hc, hcs, -⟩ | ⟨hq, -⟩
    · exact quotable_of_isIdentifier (isIdentifier_iff.mpr ⟨c, cs, hname, hc, hcs⟩)
    · exact hq
  · intro h
    unfold writeName?
    split
    · exact ⟨_, rfl⟩
    · exact ⟨_, if_pos (List.all_eq_true.mpr h)⟩

theorem writes_base {name : String} : (∃ text, writeBase name = .ok text) ↔ BaseExpressible name := by
  rw [BaseExpressible, ← writes_name]
  constructor
  · rintro ⟨text, h⟩
    obtain ⟨hne, hw⟩ := writeBase_eq_ok h
    exact ⟨by simpa using hne, text, hw⟩
  · rintro ⟨hne, text, hw⟩
    refine ⟨text, ?_⟩
    rw [writeBase, if_neg (by simpa using hne), hw]

theorem writes_typeVar (sp : Spelling) {v : TypeVar} : (∃ text, writeTypeVar sp v = .ok text) ↔ BaseExpressible v.base := by
  rw [← writes_base]
  constructor
  · rintro ⟨text, h⟩
    obtain ⟨base, hb, -⟩ := writeTypeVar_eq_ok h
    exact ⟨base, hb⟩
  · rintro ⟨base, hb⟩
    exact ⟨_, by rw [writeTypeVar, hb]; rfl⟩

theorem writes_subtyping (sp : Spelling) {c : Subtyping} : (∃ text, writeSubtyping sp c = .ok text) ↔ FactExpressible c := by
  rw [FactExpressible, ← writes_typeVar sp, ← writes_typeVar sp]
  constructor
  · rintro ⟨text, h⟩
    obtain ⟨sub, sup, hsub, hsup, -⟩ := writeSubtyping_eq_ok h
    exact ⟨⟨sub, hsub⟩, sup, hsup⟩
  · rintro ⟨⟨sub, hsub⟩, sup, hsup⟩
    exact ⟨_, by rw [writeSubtyping, hsub, hsup]; rfl⟩

theorem writes_target {t : Target} : (∃ text, writeTarget t = .ok text) ↔ TargetExpressible t := by
  cases t with
  | number n => exact ⟨fun _ _ h => (nomatch h), fun _ => ⟨_, rfl⟩⟩
  | name s =>
    simp only [writeTarget_name, writes_name, TargetExpressible, Target.name.injEq]
    exact ⟨fun h name he => he ▸ h, fun h => h s rfl⟩

theorem writes_statement (sp : Spelling) {st : Statement} :
    (∃ text, writeStatement sp st = .ok text) ↔ StatementExpressible st := by
  cases st with
  | subtyping c => exact writes_subtyping sp
  | binding b =>
    rw [StatementExpressible, ← writes_subtyping sp, ← writes_target]
    constructor
    · rintro ⟨text, h⟩
      obtain ⟨fact, target, hfact, htarget, -⟩ := writeBinding_eq_ok h
      exact ⟨⟨fact, hfact⟩, target, htarget⟩
    · rintro ⟨⟨fact, hfact⟩, target, htarget⟩
      exact ⟨_, by rw [writeStatement, writeBinding, hfact, htarget]; rfl⟩

/-! ## Whole sets -/

theorem not_inexpressible_iff {s : ConstraintSet} : ¬Inexpressible s ↔ ∀ st ∈ s.statements, StatementExpressible st := by
  have hbases : (¬∃ name ∈ s.bases, name = "" ∨ Breaks name) ↔ ∀ c ∈ s.facts, FactExpressible c := by
    simp only [not_exists, not_and, not_or]
    exact ConstraintSet.forall_bases (P := BaseExpressible)
  have htargets : (¬∃ name, .name name ∈ s.targets ∧ Breaks name) ↔ ∀ b ∈ s.bindings, TargetExpressible b.target := by
    rw [← ConstraintSet.forall_targets]
    simp only [not_exists, not_and, TargetExpressible]
    exact ⟨fun h t ht name he => h name (he ▸ ht), fun h name hname => h _ hname name rfl⟩
  rw [Inexpressible, not_or, hbases, htargets, ConstraintSet.forall_facts]
  simp only [ConstraintSet.statements, List.forall_mem_append, List.forall_mem_map, StatementExpressible, and_assoc]
  exact and_congr_right fun _ => ⟨fun h b hb => ⟨h.1 b hb, h.2 b hb⟩, fun h => ⟨fun b hb => (h b hb).1, fun b hb => (h b hb).2⟩⟩

instance (s : ConstraintSet) : Decidable (Inexpressible s) :=
  decidable_of_iff (¬∀ st ∈ s.statements, StatementExpressible st) (by rw [← not_inexpressible_iff, not_not])

/-- The written lines, each beside its statement. -/
theorem write_eq_ok {sp : Spelling} {s : ConstraintSet} {text : String} (h : write sp s = .ok text) :
    ∃ lines : List (Statement × String), lines.map (·.1) = s.statements ∧
      (∀ e ∈ lines, writeStatement sp e.1 = .ok e.2) ∧ text.toList = lines.flatMap fun e => e.2.toList ++ ['\n'] := by
  rw [write, writeLines_eq] at h
  cases hm : s.statements.mapM (writeStatement sp) with
  | error e => rw [hm] at h; cases h
  | ok ls =>
    rw [hm] at h
    cases h
    obtain ⟨hlen, hzip⟩ := List.forall₂_iff_zip.mp (mapM_eq_ok.mp hm)
    refine ⟨s.statements.zip ls, List.map_fst_zip (Nat.le_of_eq hlen), fun e he => hzip he, ?_⟩
    have hls : (s.statements.zip ls).map (·.2) = ls := List.map_snd_zip (Nat.le_of_eq hlen.symm)
    conv_lhs => rw [← hls]
    simp [String.toList_join, List.flatMap_map]

theorem writes_iff (sp : Spelling) {s : ConstraintSet} : (∃ text, write sp s = .ok text) ↔ ¬Inexpressible s := by
  rw [not_inexpressible_iff]
  constructor
  · rintro ⟨text, h⟩ st hst
    obtain ⟨lines, hlines, hw, -⟩ := write_eq_ok h
    rw [← hlines] at hst
    obtain ⟨e, he, rfl⟩ := List.mem_map.mp hst
    exact (writes_statement sp).mp ⟨e.2, hw e he⟩
  · intro h
    obtain ⟨ls, hls⟩ := exists_forall₂.mpr fun st hst => (writes_statement sp).mpr (h st hst)
    exact ⟨_, by rw [write, writeLines_eq, mapM_eq_ok.mpr hls]; rfl⟩

theorem write_fails_iff {sp : Spelling} {s : ConstraintSet} : (∃ e, write sp s = .error e) ↔ Inexpressible s := by
  rw [← not_iff_not, ← writes_iff sp]
  cases write sp s <;> simp

/-- What is written is read as the same set. -/
theorem parse_write {sp : Spelling} {s : ConstraintSet} {text : String} (hs : s.Distinct) (h : write sp s = .ok text)
    (file : Option String) : parse text file = .ok s := by
  obtain ⟨lines, hlines, hw, htext⟩ := write_eq_ok h
  have hread : Reads documentRule text.toList s.statements [] := by
    rw [htext, ← hlines]
    exact reads_document hw
  rw [parse, readBy, apply_of_reads hread]
  exact congrArg Except.ok (ConstraintSet.ofStatements_statements hs)

/-! ## What the grammar gives -/

theorem gives_identifier : Gives identifierRule BaseExpressible := gives_lexeme fun cs l h => by
  unfold identifier at h
  split at h
  · rename_i c rest
    split at h
    · rename_i hc
      cases h
      refine ⟨fun h => by simp [Lexeme.longer, Lexeme.map] at h, not_breaks_iff.mpr fun d hd => ?_⟩
      rw [Lexeme.longer, Lexeme.map, String.toList_ofList] at hd
      rcases List.mem_cons.mp hd with rfl | hd
      · exact isQuotable_of_isNameChar (isNameChar_of_isNameStart hc)
      · exact isQuotable_of_isNameChar (List.mem_takeWhile_imp hd)
    · cases h
  · cases h

theorem closeQuote_value {l : Lexeme (List Char)} {m : Lexeme String} (h : closeQuote l = some m) :
    m.value = String.ofList l.value := by
  unfold closeQuote at h
  split at h
  · cases h; rfl
  · cases h

theorem gives_quoted : Gives quotedRule fun name => ¬Breaks name := gives_lexeme fun cs l h => by
  unfold quoted at h
  split at h
  · obtain ⟨m, hm, rfl⟩ := Option.map_eq_some_iff.mp h
    refine not_breaks_iff.mpr fun c hc => ?_
    rw [Lexeme.longer, closeQuote_value hm, String.toList_ofList] at hc
    exact List.mem_takeWhile_imp hc
  · cases h

theorem gives_quotedName : Gives quotedNameRule BaseExpressible := gives_lexeme fun cs l h => by
  unfold quotedName at h
  split at h
  · rename_i rest
    obtain ⟨m, hm, rfl⟩ := Option.map_eq_some_iff.mp h
    obtain ⟨r, hr, hclose⟩ := Option.bind_eq_some_iff.mp hm
    cases rest with
    | nil => cases hr
    | cons c rest =>
      rw [run1] at hr
      split at hr
      · rename_i hc
        cases hr
        have hvalue := closeQuote_value hclose
        rw [Lexeme.longer, BaseExpressible, hvalue, not_breaks_iff, String.toList_ofList]
        refine ⟨fun h => ?_, fun d hd => List.mem_takeWhile_imp hd⟩
        have := congrArg String.toList h
        simp [run, hc] at this
      · cases hr
  · cases h

theorem gives_base : Gives baseRule BaseExpressible := gives_whole (gives_orElse gives_identifier gives_quotedName)

theorem gives_typeVar : Gives typeVarRule fun v => BaseExpressible v.base :=
  gives_whole (gives_bind gives_base fun _ hb => gives_bind (gives_true _) fun _ _ => gives_pure hb)

theorem gives_subtyping : Gives subtypingRule FactExpressible :=
  gives_whole (gives_bind gives_typeVar fun _ hsub => gives_bind (gives_true _) fun _ _ => gives_bind (gives_true _) fun _ _ =>
    gives_bind (gives_true _) fun _ _ => gives_bind gives_typeVar fun _ hsup => gives_pure ⟨hsub, hsup⟩)

theorem gives_target : Gives targetRule TargetExpressible := by
  refine gives_whole (gives_orElse ?_ (gives_orElse ?_ ?_))
  · exact gives_bind (gives_true _) fun n _ => gives_pure fun _ h => nomatch h
  · exact gives_bind gives_quoted fun name h => gives_pure fun _ he => by cases he; exact h
  · exact gives_bind gives_identifier fun name h => gives_pure fun _ he => by cases he; exact h.2

theorem gives_binding : Gives bindingRule fun b => FactExpressible b.fact ∧ TargetExpressible b.target :=
  gives_whole (gives_bind (gives_true _) fun _ _ => gives_bind (gives_true _) fun _ _ => gives_bind gives_target fun _ ht =>
    gives_bind (gives_true _) fun _ _ => gives_bind (gives_true _) fun _ _ => gives_bind (gives_true _) fun _ _ =>
      gives_bind gives_subtyping fun _ hf => gives_pure ⟨hf, ht⟩)

theorem gives_statement : Gives statementRule StatementExpressible :=
  gives_whole (gives_orElse (gives_bind gives_binding fun _ h => gives_pure h) (gives_bind gives_subtyping fun _ h => gives_pure h))

theorem gives_line : Gives lineRule fun o => ∀ st ∈ o, StatementExpressible st := by
  refine gives_whole (gives_orElse (gives_whole ?_) (gives_whole ?_))
  · exact gives_bind (gives_true _) fun _ _ => gives_bind gives_statement fun _ hst => gives_bind (gives_true _) fun _ _ =>
      gives_bind (gives_true _) fun _ _ => gives_bind (gives_true _) fun _ _ => gives_pure fun _ he => by cases he; exact hst
  · exact gives_bind (gives_true _) fun _ _ => gives_bind (gives_true _) fun _ _ => gives_bind (gives_true _) fun _ _ =>
      gives_pure fun _ he => nomatch he

theorem gives_document : Gives documentRule fun sts => ∀ st ∈ sts, StatementExpressible st := by
  have hfurther : Gives furtherLineRule fun o => ∀ st ∈ o, StatementExpressible st :=
    gives_part (gives_bind (gives_true _) fun _ _ => gives_line)
  refine gives_whole (gives_bind gives_line fun o ho => gives_bind (gives_many hfurther) fun os hos =>
    gives_bind (gives_true _) fun _ _ => gives_pure fun st hst => ?_)
  obtain ⟨o', ho', he⟩ := List.mem_filterMap.mp hst
  rcases List.mem_cons.mp ho' with rfl | ho'
  · exact ho st he
  · exact hos o' ho' st he

theorem parse_eq_ok {text : String} {file : Option String} {s : ConstraintSet} (h : parse text file = .ok s) :
    s.Distinct ∧ ¬Inexpressible s := by
  obtain ⟨sts, haccepted, rfl⟩ := parse_eq_ok_iff.mp h
  obtain ⟨after, hsts⟩ := outcome_of_accepted haccepted
  refine ⟨ConstraintSet.ofStatements_distinct sts, not_inexpressible_iff.mpr fun st hst => ?_⟩
  exact gives_document _ _ _ hsts st (ConstraintSet.mem_ofStatements.mp hst)

end Language

/-- Writing fails for exactly the inexpressible sets, and what is written of any other set is
read as that set. What was read of any text can be written, and is read again. -/
theorem write_parse (sp : Language.Spelling) :
    (∀ s : ConstraintSet, ((∃ e, Language.write sp s = .error e) ↔ Language.Inexpressible s) ∧
      (s.Distinct → ¬Language.Inexpressible s →
        ∃ text, Language.write sp s = .ok text ∧ ∀ file, Language.parse text file = .ok s)) ∧
    ∀ text file s, Language.parse text file = .ok s →
      ∃ out, Language.write sp s = .ok out ∧ ∀ file', Language.parse out file' = .ok s := by
  have hround : ∀ s : ConstraintSet, s.Distinct → ¬Language.Inexpressible s →
      ∃ text, Language.write sp s = .ok text ∧ ∀ file, Language.parse text file = .ok s := by
    intro s hs hx
    obtain ⟨text, hw⟩ := (Language.writes_iff sp).mpr hx
    exact ⟨text, hw, Language.parse_write hs hw⟩
  refine ⟨fun s => ⟨Language.write_fails_iff, hround s⟩, fun text file s h => ?_⟩
  obtain ⟨hs, hx⟩ := Language.parse_eq_ok h
  exact hround s hs hx

/-- Names that could be taken for something else: a base called `target`, a base that looks like
a binding, a number and the text of that number, an empty name, a base called `σ`. -/
def lookalikes : ConstraintSet where
  subtypings := [⟨⟨"target", []⟩, ⟨"target 7: x", [.load]⟩⟩]
  bindings := [⟨.number 7, ⟨⟨"a@b", [.input 0]⟩, ⟨"σ", [.field ⟨-1, 2⟩]⟩⟩⟩,
    ⟨.name "7", ⟨⟨"a@b", [.input 0]⟩, ⟨"σ", []⟩⟩⟩, ⟨.name "", ⟨⟨"a@b", [.input 0]⟩, ⟨"σ", []⟩⟩⟩]

def mixedText : String := "x <= y # note\r\n\ntarget \"7\" : x⊑y"

theorem lookalikes_write_parse :
    (lookalikes.Distinct ∧ ¬Language.Inexpressible lookalikes ∧
      ∃ text, Language.write .ascii lookalikes = .ok text ∧ ∀ file, Language.parse text file = .ok lookalikes) ∧
    ∃ s, Language.parse mixedText none = .ok s ∧
      ∃ out, Language.write .ascii s = .ok out ∧ ∀ file, Language.parse out file = .ok s := by
  have hdistinct : lookalikes.Distinct := ⟨by decide, by decide⟩
  have hexpressible : ¬Language.Inexpressible lookalikes := by decide
  have hparse : Language.parse mixedText none =
      .ok ⟨[⟨⟨"x", []⟩, ⟨"y", []⟩⟩], [⟨.name "7", ⟨⟨"x", []⟩, ⟨"y", []⟩⟩⟩]⟩ := by decide +kernel
  exact ⟨⟨hdistinct, hexpressible, ((write_parse .ascii).1 lookalikes).2 hdistinct hexpressible⟩,
    _, hparse, (write_parse .ascii).2 mixedText none _ hparse⟩

end TypeRecovery
