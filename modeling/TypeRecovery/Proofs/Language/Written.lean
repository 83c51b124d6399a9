/-
  TypeRecovery.Proofs.Language.Written — the grammar reads what was written.

  Each piece of a written constraint set is read by the rule of its kind, up to what stands
  behind it: a label or a name ends where no name character follows, a type variable where
  no dot follows either, a statement at the end of its line. The choices between rules are
  settled by the first character, since the pieces of one choice begin with different ones.
  One choice is not: a subtyping whose base begins with `target` begins like a binding, and
  only what stands behind those letters tells (`refuses_binding`).

  Proved: `reads_label`, `reads_base`, `reads_typeVar`, `reads_subtyping`, `reads_target` and
  `reads_binding`, one for each kind of piece.
-/

import TypeRecovery.Language.Reader
import TypeRecovery.Proofs.Language.Rule
import TypeRecovery.Proofs.Text.Joined

namespace TypeRecovery.Language

open Rule Text

/-! ## Labels -/

theorem toList_fieldText (letter : String) (f : Field) : (Label.fieldText letter f).toList =
    letter.toList ++ ((toString f.bits).toList ++ '@' :: (toString f.offset).toList) := by
  simp [Label.fieldText]

theorem refuses_fieldLabel {c : Char} (cs : List Char) (h : c ≠ 'σ') (h' : c ≠ 'f') : Refuses fieldLabelRule (c :: cs) :=
  refuses_lexeme (by simp [fieldLabel, h, h'])

theorem refuses_indexed {c d : Char} (w cs : List Char) (make : Nat → Label) (h : c ≠ d) :
    Refuses (lexeme (indexed (c :: w) make)) (d :: cs) :=
  refuses_lexeme (by simp [indexed, word_eq_none h])

theorem reads_label (sp : Spelling) (l : Label) {rest : List Char} (hr : Stops isNameChar rest) :
    Reads labelRule (sp.label l).toList l rest := by
  refine reads_whole ?_
  cases l with
  | field f =>
    refine reads_orElse ?_
    cases sp with
    | symbols =>
      rw [Spelling.label, Label.text, Label.textWith, toList_fieldText]
      exact reads_lexeme (scans_fieldLabel (Or.inl rfl) f hr)
    | ascii =>
      rw [Spelling.label, Label.asciiText, Label.textWith, toList_fieldText]
      exact reads_lexeme (scans_fieldLabel (Or.inr rfl) f hr)
  | input i =>
    have htext : (sp.label (.input i)).toList = ['i', 'n', '_'] ++ i.repr.toList := by
      cases sp <;> exact String.toList_append
    rw [htext]
    refine reads_orElse_second (refuses_fieldLabel _ (by decide) (by decide)) (reads_orElse ?_)
    exact reads_lexeme (scans_indexed ['i', 'n', '_'] .input i hr)
  | output i =>
    have htext : (sp.label (.output i)).toList = ['o', 'u', 't', '_'] ++ i.repr.toList := by
      cases sp <;> exact String.toList_append
    rw [htext]
    refine reads_orElse_second (refuses_fieldLabel _ (by decide) (by decide)) ?_
    refine reads_orElse_second (refuses_indexed _ _ _ (by decide)) (reads_orElse ?_)
    exact reads_lexeme (scans_indexed ['o', 'u', 't', '_'] .output i hr)
  | load =>
    have htext : (sp.label .load).toList = ['l', 'o', 'a', 'd'] := by cases sp <;> rfl
    rw [htext]
    refine reads_orElse_second (refuses_fieldLabel _ (by decide) (by decide)) ?_
    refine reads_orElse_second (refuses_indexed _ _ _ (by decide)) ?_
    exact reads_orElse_second (refuses_indexed _ _ _ (by decide)) (reads_lexeme (scans_load hr))
  | store =>
    have htext : (sp.label .store).toList = ['s', 't', 'o', 'r', 'e'] := by cases sp <;> rfl
    rw [htext]
    refine reads_orElse_second (refuses_fieldLabel _ (by decide) (by decide)) ?_
    refine reads_orElse_second (refuses_indexed _ _ _ (by decide)) ?_
    exact reads_orElse_second (refuses_indexed _ _ _ (by decide)) (reads_lexeme (scans_store hr))

/-! ## Names -/

theorem isIdentifier_iff {name : String} : isIdentifier name = true ↔
    ∃ c cs, name.toList = c :: cs ∧ isNameStart c = true ∧ ∀ d ∈ cs, isNameChar d = true := by
  unfold isIdentifier
  cases name.toList with
  | nil => simp
  | cons c cs =>
    simp only [Bool.and_eq_true, List.all_eq_true, List.cons.injEq]
    exact ⟨fun h => ⟨c, cs, ⟨rfl, rfl⟩, h⟩, fun ⟨_, _, ⟨hc, hcs⟩, h⟩ => hc ▸ hcs ▸ h⟩

/-- A written name is an identifier or stands in quotes. -/
theorem writeName?_cases {name text : String} (h : writeName? name = some text) :
    (∃ c cs, name.toList = c :: cs ∧ isNameStart c = true ∧ (∀ d ∈ cs, isNameChar d = true) ∧ text = name) ∨
      ((∀ c ∈ name.toList, isQuotable c = true) ∧ text.toList = '"' :: name.toList ++ ['"']) := by
  unfold writeName? at h
  split at h
  · rename_i hid
    cases h
    obtain ⟨c, cs, hname, hc, hcs⟩ := isIdentifier_iff.mp hid
    exact Or.inl ⟨c, cs, hname, hc, hcs, rfl⟩
  · split at h
    · rename_i hq
      cases h
      exact Or.inr ⟨List.all_eq_true.mp hq, by simp⟩
    · cases h

theorem writeBase_eq_ok {name text : String} (h : writeBase name = .ok text) :
    name.toList ≠ [] ∧ writeName? name = some text := by
  unfold writeBase at h
  split at h
  · cases h
  · rename_i hne
    cases hw : writeName? name with
    | none => rw [hw] at h; cases h
    | some t => rw [hw] at h; cases h; exact ⟨by simpa using hne, rfl⟩

theorem head_of_writeName? {name text : String} (h : writeName? name = some text) :
    ∃ c cs, text.toList = c :: cs ∧ (c = '"' ∨ isNameStart c = true) := by
  rcases writeName?_cases h with ⟨c, cs, hname, hc, -, rfl⟩ | ⟨-, htext⟩
  · exact ⟨c, cs, hname, Or.inr hc⟩
  · exact ⟨'"', name.toList ++ ['"'], htext, Or.inl rfl⟩

theorem identifier_eq_none {c : Char} (cs : List Char) (h : isNameStart c = false) : identifier (c :: cs) = none := by
  simp [identifier, h]

theorem quoted_eq_none {c : Char} (cs : List Char) (h : c ≠ '"') : quoted (c :: cs) = none := by
  unfold quoted
  split
  · rename_i he
    cases he
    exact absurd rfl h
  · rfl

theorem quotedName_eq_none {c : Char} (cs : List Char) (h : c ≠ '"') : quotedName (c :: cs) = none := by
  unfold quotedName
  split
  · rename_i he
    cases he
    exact absurd rfl h
  · rfl

theorem ne_quote_of_isNameStart {c : Char} (h : isNameStart c = true) : c ≠ '"' :=
  isNameChar_ne (isNameChar_of_isNameStart h) (by decide)

theorem reads_base {name text : String} (h : writeBase name = .ok text) {rest : List Char} (hr : Stops isNameChar rest) :
    Reads baseRule text.toList name rest := by
  obtain ⟨hne, hw⟩ := writeBase_eq_ok h
  refine reads_whole ?_
  rcases writeName?_cases hw with ⟨c, cs, hname, hc, hcs, rfl⟩ | ⟨hq, htext⟩
  · have hscan := scans_identifier hc hcs hr
    rw [← hname, String.ofList_toList] at hscan
    exact reads_orElse (reads_lexeme hscan)
  · have hscan := scans_quotedName hne hq rest
    rw [String.ofList_toList] at hscan
    rw [htext]
    exact reads_orElse_second (refuses_lexeme (identifier_eq_none _ (by decide))) (reads_lexeme hscan)

/-! ## Type variables -/

def isVarChar (c : Char) : Bool := isNameChar c || c = '.'

theorem Stops.name {rest : List Char} (h : Stops isVarChar rest) : Stops isNameChar rest :=
  h.mono fun c hc => by simp [isVarChar, hc]

/-- The written form of a type variable: its base, and each label behind a dot. -/
theorem writeTypeVar_eq_ok {sp : Spelling} {v : TypeVar} {text : String} (h : writeTypeVar sp v = .ok text) :
    ∃ base, writeBase v.base = .ok base ∧
      text.toList = base.toList ++ v.path.flatMap fun l => '.' :: (sp.label l).toList := by
  unfold writeTypeVar at h
  cases hb : writeBase v.base with
  | error e => rw [hb] at h; cases h
  | ok base =>
    rw [hb] at h
    cases h
    refine ⟨base, rfl, ?_⟩
    rw [toList_intercalate, List.flatMap_map]
    rfl

theorem reads_suffix (sp : Spelling) (l : Label) {rest : List Char} (hr : Stops isNameChar rest) :
    Reads labelSuffixRule ('.' :: (sp.label l).toList) l rest :=
  reads_whole (reads_bind (reads_fixed ['.'] _) (reads_label sp l hr))

theorem refuses_suffix {rest : List Char} (hr : Stops isVarChar rest) : rest = [] ∨ Refuses labelSuffixRule rest := by
  cases rest with
  | nil => exact Or.inl rfl
  | cons c rest =>
    have hc : '.' ≠ c := by
      rintro rfl
      exact absurd (stops_cons.mp hr) (by decide)
    exact Or.inr (refuses_whole (refuses_bind (refuses_fixed (word_eq_none hc))))

theorem reads_path (sp : Spelling) (path : List Label) {rest : List Char} (hr : Stops isVarChar rest) :
    Reads (many labelSuffixRule) (path.flatMap fun l => '.' :: (sp.label l).toList) path rest := by
  have h := reads_many hr.name (refuses_suffix hr) (path.map fun l => ('.' :: (sp.label l).toList, l))
    (fun e he r hr' => ?_) (fun e he r => ?_) (fun e he => ?_)
  · simpa [List.flatMap_map, Function.comp_def] using h
  · obtain ⟨l, -, rfl⟩ := List.mem_map.mp he
    exact reads_suffix sp l hr'
  · obtain ⟨l, -, rfl⟩ := List.mem_map.mp he
    exact stops_cons.mpr (by decide)
  · obtain ⟨l, -, rfl⟩ := List.mem_map.mp he
    exact List.cons_ne_nil _ _

/-- Behind the base stands a label or what stands behind the variable. -/
theorem stops_path (sp : Spelling) (path : List Label) {rest : List Char} (hr : Stops isNameChar rest) :
    Stops isNameChar ((path.flatMap fun l => '.' :: (sp.label l).toList) ++ rest) := by
  cases path with
  | nil => exact hr
  | cons l path => exact stops_cons.mpr (by decide)

theorem reads_typeVar {sp : Spelling} {v : TypeVar} {text : String} (h : writeTypeVar sp v = .ok text)
    {rest : List Char} (hr : Stops isVarChar rest) : Reads typeVarRule text.toList v rest := by
  obtain ⟨base, hb, htext⟩ := writeTypeVar_eq_ok h
  rw [htext, ← List.append_nil (v.path.flatMap _)]
  exact reads_whole (reads_bind (reads_base hb (by simpa using stops_path sp v.path hr.name))
    (reads_bind (reads_path sp v.path hr) (reads_pure v rest)))

theorem head_of_writeTypeVar {sp : Spelling} {v : TypeVar} {text : String} (h : writeTypeVar sp v = .ok text) :
    ∃ c cs, text.toList = c :: cs ∧ (c = '"' ∨ isNameStart c = true) := by
  obtain ⟨base, hb, htext⟩ := writeTypeVar_eq_ok h
  obtain ⟨c, cs, hbase, hc⟩ := head_of_writeName? (writeBase_eq_ok hb).2
  exact ⟨c, cs ++ _, by rw [htext, hbase, List.cons_append], hc⟩

/-! ## Blanks and relations -/

theorem reads_noSpace {rest : List Char} (hr : Stops isSpace rest) : Reads spacesRule [] () rest :=
  reads_lexeme (by
    have hrun : run isSpace ([] ++ rest) = ⟨[], 0, rest⟩ := run_append (fun _ h => nomatch h) hr
    rw [Scans, spaces, hrun]
    rfl)

theorem reads_space {rest : List Char} (hr : Stops isSpace rest) : Reads spacesRule [' '] () rest :=
  reads_lexeme (by
    rw [Scans, spaces, run_append (fun c hc => by rw [List.mem_singleton.mp hc]; rfl) hr]; rfl)

theorem reads_someSpace {rest : List Char} (hr : Stops isSpace rest) : Reads spaces1Rule [' '] () rest :=
  reads_lexeme (by
    have hscan := scans_run1 (p := isSpace) (List.cons_ne_nil ' ' []) (List.forall_mem_singleton.mpr rfl) hr
    rw [Scans] at hscan
    rw [Scans, spaces1, hscan]
    rfl)

theorem refuses_someSpace {rest : List Char} (hr : Stops isSpace rest) : Refuses spaces1Rule rest :=
  refuses_lexeme (by rw [spaces1, run1_eq_none hr]; rfl)

theorem isSpace_eq_false_of_isNameChar {c : Char} (h : isNameChar c = true) : isSpace c = false := by
  simp [isSpace, isNameChar_ne h (d := ' ') (by decide), isNameChar_ne h (d := '\t') (by decide)]

theorem isSpace_eq_false_of_head {c : Char} (h : c = '"' ∨ isNameStart c = true) : isSpace c = false := by
  rcases h with rfl | h
  · rfl
  · exact isSpace_eq_false_of_isNameChar (isNameChar_of_isNameStart h)

/-- The first character of a relation. -/
theorem relation_head (sp : Spelling) : ∃ c cs, sp.relation.toList = c :: cs ∧ isSpace c = false ∧ isDigit c = false ∧
    c ≠ '-' ∧ c ≠ '"' ∧ isNameStart c = false := by
  cases sp with
  | symbols => exact ⟨'⊑', [], rfl, by decide, by decide, by decide, by decide, by decide⟩
  | ascii => exact ⟨'<', ['='], rfl, by decide, by decide, by decide, by decide, by decide⟩

theorem reads_relation (sp : Spelling) (rest : List Char) : Reads relationRule sp.relation.toList () rest := by
  refine reads_whole ?_
  cases sp with
  | symbols =>
    exact reads_orElse_second (refuses_fixed (word_eq_none (d := '⊑') (by decide))) (reads_fixed ['⊑'] rest)
  | ascii => exact reads_orElse (reads_fixed ['<', '='] rest)

/-! ## Statements -/

theorem writeSubtyping_eq_ok {sp : Spelling} {c : Subtyping} {text : String} (h : writeSubtyping sp c = .ok text) :
    ∃ sub sup, writeTypeVar sp c.sub = .ok sub ∧ writeTypeVar sp c.sup = .ok sup ∧
      text.toList = sub.toList ++ (' ' :: (sp.relation.toList ++ (' ' :: sup.toList))) := by
  unfold writeSubtyping at h
  cases hsub : writeTypeVar sp c.sub with
  | error e => rw [hsub] at h; cases h
  | ok sub =>
    cases hsup : writeTypeVar sp c.sup with
    | error e => rw [hsub, hsup] at h; cases h
    | ok sup =>
      rw [hsub, hsup] at h
      cases h
      exact ⟨sub, sup, rfl, rfl, by simp⟩

theorem reads_subtyping {sp : Spelling} {c : Subtyping} {text : String} (h : writeSubtyping sp c = .ok text)
    {rest : List Char} (hr : Stops isVarChar rest) : Reads subtypingRule text.toList c rest := by
  obtain ⟨sub, sup, hsub, hsup, htext⟩ := writeSubtyping_eq_ok h
  obtain ⟨d, ds, hrel, hspace, -⟩ := relation_head sp
  obtain ⟨e, es, hhead, he⟩ := head_of_writeTypeVar hsup
  have hsep : text.toList = sub.toList ++ ([' '] ++ (sp.relation.toList ++ ([' '] ++ (sup.toList ++ [])))) := by
    simpa using htext
  rw [hsep]
  refine reads_whole (reads_bind (reads_typeVar hsub (stops_cons.mpr (by decide))) ?_)
  refine reads_bind (reads_space ?_) (reads_bind (reads_relation sp _) ?_)
  · rw [hrel]
    exact stops_cons.mpr hspace
  refine reads_bind (reads_space ?_) (reads_bind (reads_typeVar hsup hr) (reads_pure c rest))
  rw [hhead]
  exact stops_cons.mpr (isSpace_eq_false_of_head he)

theorem head_of_writeSubtyping {sp : Spelling} {c : Subtyping} {text : String} (h : writeSubtyping sp c = .ok text) :
    ∃ d ds, text.toList = d :: ds ∧ (d = '"' ∨ isNameStart d = true) := by
  obtain ⟨sub, sup, hsub, -, htext⟩ := writeSubtyping_eq_ok h
  obtain ⟨d, ds, hd, hhead⟩ := head_of_writeTypeVar hsub
  exact ⟨d, _, by rw [htext, hd, List.cons_append], hhead⟩

/-! ## Targets -/

theorem refuses_integer {c : Char} (cs : List Char) (hc : c ≠ '-') (h : isDigit c = false) :
    Refuses integerTarget (c :: cs) :=
  refuses_bind (refuses_lexeme (by rw [integer, signed_eq_none hc h]; rfl))

theorem writeTarget_name {s text : String} : writeTarget (.name s) = .ok text ↔ writeName? s = some text := by
  cases h : writeName? s <;> simp [writeTarget, h]

theorem reads_target {t : Target} {text : String} (h : writeTarget t = .ok text) {rest : List Char}
    (hr : Stops isNameChar rest) : Reads targetRule text.toList t rest := by
  refine reads_whole ?_
  cases t with
  | number n =>
    cases h
    exact reads_orElse (reads_return Target.number (reads_lexeme (scans_integer n hr)))
  | name s =>
    rcases writeName?_cases (writeTarget_name.mp h) with ⟨c, cs, hname, hc, hcs, rfl⟩ | ⟨hq, htext⟩
    · have hscan := scans_identifier hc hcs hr
      rw [← hname, String.ofList_toList] at hscan
      have hminus : c ≠ '-' := isNameChar_ne (isNameChar_of_isNameStart hc) (by decide)
      refine reads_orElse_second ?_ (reads_orElse_second ?_ (reads_return Target.name (reads_lexeme hscan)))
      · rw [hname]
        exact refuses_integer _ hminus (isDigit_eq_false_of_isNameStart hc)
      · rw [hname]
        exact refuses_bind (refuses_lexeme (quoted_eq_none _ (ne_quote_of_isNameStart hc)))
    · have hscan := scans_quoted hq rest
      rw [String.ofList_toList] at hscan
      rw [htext]
      exact reads_orElse_second (refuses_integer _ (by decide) (by decide))
        (reads_orElse (reads_return Target.name (reads_lexeme hscan)))

/-- No target begins with a relation. -/
theorem refuses_target (sp : Spelling) (rest : List Char) : Refuses targetRule (sp.relation.toList ++ rest) := by
  obtain ⟨c, cs, hrel, -, hdigit, hminus, hquote, hstart⟩ := relation_head sp
  rw [hrel]
  refine refuses_whole (refuses_orElse (refuses_integer _ hminus hdigit) (refuses_orElse ?_ ?_))
  · exact refuses_bind (refuses_lexeme (quoted_eq_none _ hquote))
  · exact refuses_bind (refuses_lexeme (identifier_eq_none _ hstart))

theorem head_of_writeTarget {t : Target} {text : String} (h : writeTarget t = .ok text) :
    ∃ c cs, text.toList = c :: cs ∧ isSpace c = false := by
  cases t with
  | number n =>
    cases h
    cases n with
    | ofNat n =>
      obtain ⟨c, cs, hc⟩ := List.exists_cons_of_ne_nil (repr_ne_nil n)
      have hname := isNameChar_of_isDigit (isDigit_of_mem_repr (n := n) (hc ▸ List.mem_cons_self))
      exact ⟨c, cs, hc, isSpace_eq_false_of_isNameChar hname⟩
    | negSucc n => exact ⟨'-', (n + 1).repr.toList, by rw [toString_negative, String.toList_append]; rfl, by decide⟩
  | name s =>
    obtain ⟨c, cs, hc, hhead⟩ := head_of_writeName? (writeTarget_name.mp h)
    exact ⟨c, cs, hc, isSpace_eq_false_of_head hhead⟩

/-! ## Subtypings and bindings told apart -/

/-- Name characters at the head of a text belong to the run of them that it begins with. -/
theorem append_of_prefix {p : Char → Bool} {w u v : List Char} (h : w <+: u ++ v) (hw : ∀ c ∈ w, p c = true)
    (hv : Stops p v) : ∃ u', u = w ++ u' := by
  obtain ⟨r, hr⟩ := h
  rcases List.append_eq_append_iff.mp hr with ⟨u', hu, -⟩ | ⟨v', rfl, hv'⟩
  · exact ⟨u', hu⟩
  · cases v' with
    | nil => exact ⟨[], by simp⟩
    | cons c v' =>
      have hc := hw c (List.mem_append_right _ List.mem_cons_self)
      rw [hv', List.cons_append] at hv
      rw [stops_cons.mp hv] at hc
      cases hc

theorem prefix_of_word {w cs : List Char} {l : Lexeme Unit} (h : word w cs = some l) : w <+: cs := by
  unfold word at h
  split at h
  · exact List.isPrefixOf_iff_prefix.mp ‹_›
  · cases h

def targetWord : List Char := ['t', 'a', 'r', 'g', 'e', 't']

/-- What stands behind the letters of `target` at the head of a subtyping: more of its base, or a
label, or the relation where a binding has its target. -/
theorem refuses_spaceAndTarget (sp : Spelling) {more : List Char} (hmore : ∀ c ∈ more, isNameChar c = true) (path : List Label)
    (rest : List Char) (f : Target → Rule Binding) :
    Refuses (spaces1Rule >>= fun _ => targetRule >>= f)
      (more ++ ((path.flatMap fun l => '.' :: (sp.label l).toList) ++ ' ' :: (sp.relation.toList ++ rest))) := by
  cases more with
  | cons c more =>
    have hspace := isSpace_eq_false_of_isNameChar (hmore c List.mem_cons_self)
    exact refuses_bind (refuses_someSpace (stops_cons.mpr hspace))
  | nil =>
    cases path with
    | cons l path => exact refuses_bind (refuses_someSpace (stops_cons.mpr (by decide)))
    | nil =>
      obtain ⟨c, cs, hrel, hspace, -⟩ := relation_head sp
      refine refuses_bind_after (t := [' ']) (a := ()) (reads_someSpace ?_) (refuses_bind (refuses_target sp rest))
      rw [hrel]
      exact stops_cons.mpr hspace

theorem refuses_binding {sp : Spelling} {c : Subtyping} {text : String} (h : writeSubtyping sp c = .ok text)
    (rest : List Char) : Refuses bindingRule (text.toList ++ rest) := by
  obtain ⟨sub, sup, hsub, -, htext⟩ := writeSubtyping_eq_ok h
  obtain ⟨base, hb, hsubtext⟩ := writeTypeVar_eq_ok hsub
  refine refuses_whole ?_
  cases hw : word targetWord (text.toList ++ rest) with
  | none => exact refuses_bind (refuses_fixed hw)
  | some l =>
    have hprefix := prefix_of_word hw
    rcases writeName?_cases (writeBase_eq_ok hb).2 with ⟨e, es, hname, he, hes, rfl⟩ | ⟨-, hquoted⟩
    · have hchars : ∀ x ∈ c.sub.base.toList, isNameChar x = true := by
        rw [hname]
        exact List.forall_mem_cons.mpr ⟨isNameChar_of_isNameStart he, hes⟩
      have hall : text.toList ++ rest = c.sub.base.toList ++ ((c.sub.path.flatMap fun l => '.' :: (sp.label l).toList) ++
          ' ' :: (sp.relation.toList ++ (' ' :: sup.toList ++ rest))) := by
        rw [htext, hsubtext]
        simp
      have hstop : Stops isNameChar ((c.sub.path.flatMap fun l => '.' :: (sp.label l).toList) ++
          ' ' :: (sp.relation.toList ++ (' ' :: sup.toList ++ rest))) := stops_path sp c.sub.path (stops_cons.mpr (by decide))
      rw [hall] at hprefix
      obtain ⟨more, hmore⟩ := append_of_prefix hprefix (List.all_eq_true.mp (by decide)) hstop
      rw [hmore] at hchars
      rw [hall, hmore, List.append_assoc]
      exact refuses_bind_after (reads_fixed targetWord _)
        (refuses_spaceAndTarget sp (fun x hx => hchars x (List.mem_append_right _ hx)) _ _ _)
    · rw [htext, hsubtext, hquoted] at hprefix
      obtain ⟨r, hr⟩ := hprefix
      simp [targetWord] at hr

theorem writeBinding_eq_ok {sp : Spelling} {b : Binding} {text : String} (h : writeBinding sp b = .ok text) :
    ∃ fact target, writeSubtyping sp b.fact = .ok fact ∧ writeTarget b.target = .ok target ∧
      text.toList = targetWord ++ (' ' :: (target.toList ++ ([':', ' '] ++ fact.toList))) := by
  unfold writeBinding at h
  cases hf : writeSubtyping sp b.fact with
  | error e => rw [hf] at h; cases h
  | ok fact =>
    cases ht : writeTarget b.target with
    | error e => rw [hf, ht] at h; cases h
    | ok target =>
      rw [hf, ht] at h
      cases h
      exact ⟨fact, target, rfl, rfl, by simp [targetWord]⟩

theorem reads_binding {sp : Spelling} {b : Binding} {text : String} (h : writeBinding sp b = .ok text) {rest : List Char}
    (hr : Stops isVarChar rest) : Reads bindingRule text.toList b rest := by
  obtain ⟨fact, target, hfact, htarget, htext⟩ := writeBinding_eq_ok h
  obtain ⟨c, cs, hhead, hspace⟩ := head_of_writeTarget htarget
  obtain ⟨d, ds, hfhead, hd⟩ := head_of_writeSubtyping hfact
  have hsep : text.toList = targetWord ++ ([' '] ++ (target.toList ++ ([] ++ ([':'] ++ ([' '] ++ (fact.toList ++ [])))))) := by
    simpa using htext
  rw [hsep]
  refine reads_whole (reads_bind (reads_fixed targetWord _) (reads_bind (reads_someSpace ?_) ?_))
  · rw [hhead]
    exact stops_cons.mpr hspace
  refine reads_bind (reads_target htarget (stops_cons.mpr (by decide))) ?_
  refine reads_bind (reads_noSpace (stops_cons.mpr (by decide))) (reads_bind (reads_fixed [':'] _) ?_)
  refine reads_bind (reads_space ?_) (reads_bind (reads_subtyping hfact hr) (reads_pure b rest))
  rw [hfhead]
  exact stops_cons.mpr (isSpace_eq_false_of_head hd)

end TypeRecovery.Language
