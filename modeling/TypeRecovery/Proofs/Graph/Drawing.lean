/-
  TypeRecovery.Proofs.Graph.Drawing — the drawing of a graph, read back.

  In the DOT language a string stands in quotes. A backslash in front of a quote or a backslash
  escapes it, and the string ends at the first quote that is not escaped (`quoteTail`). So a text
  with strings in it reads as single characters and the contents of its strings (`Reads`), in one
  way at most.

  A drawing escapes the quotes of a name, but not its backslashes. What is read back is the name
  where every backslash has a character behind it that it does not escape (`Readable`), and only
  there: two backslashes come back as one, and one in front of a quote, its own or the one that ends
  the string, turns the escaping around. Otherwise nothing in a drawing but the names is a quote or
  a backslash, so the names decide.

  Proved:
  - `quoteTail_closed`: which names come back from their strings.
  - `reads_plain`, `reads_string`: a text read up to its first string, and up to the end of one.
  - `reads_node`, `reads_label`, `reads_edge`, `reads_statements`: the lines of a drawing.
  - `draw_reads`: a drawing is the node of each variable under its text, then the edges, exactly
    when every text is readable.
-/

import TypeRecovery.Graph.Drawing
import TypeRecovery.Proofs.Text.Digits
import TypeRecovery.Proofs.Text.Joined

namespace TypeRecovery

namespace Graph

/-! ## Strings in quotes -/

def followedBy (c : Char) (r : List Char × List Char) : List Char × List Char := (c :: r.1, r.2)

/-- The content of a string behind its opening quote, and what stands behind the closing one. -/
def quoteTail : List Char → Option (List Char × List Char)
  | [] => none
  | '"' :: rest => some ([], rest)
  | '\\' :: '"' :: rest => (quoteTail rest).map (followedBy '"')
  | '\\' :: '\\' :: rest => (quoteTail rest).map (followedBy '\\')
  | c :: rest => (quoteTail rest).map (followedBy c)

/-- What stands behind a backslash that escapes nothing. -/
def Harmless (after : List Char) : Prop := ∃ c rest, after = c :: rest ∧ c ≠ '"' ∧ c ≠ '\\'

/-- No backslash stands in front of a quote, of a backslash or at the end. -/
def Readable (s : List Char) : Prop := ∀ after, '\\' :: after <:+ s → Harmless after

theorem readable_nil : Readable [] := fun _ h => absurd (List.suffix_nil.mp h) (List.cons_ne_nil _ _)

theorem readable_cons {c : Char} {s : List Char} : Readable (c :: s) ↔ (c = '\\' → Harmless s) ∧ Readable s := by
  constructor
  · intro h
    refine ⟨?_, fun after hafter => h after (hafter.trans (List.suffix_cons c s))⟩
    rintro rfl
    exact h s (List.suffix_refl _)
  · rintro ⟨hc, hs⟩ after hafter
    rcases List.suffix_cons_iff.mp hafter with heq | hafter
    · obtain ⟨rfl, rfl⟩ := List.cons_eq_cons.mp heq
      exact hc rfl
    · exact hs after hafter

theorem readable_of_not_mem {s : List Char} (h : '\\' ∉ s) : Readable s := fun _ hafter =>
  absurd (hafter.subset List.mem_cons_self) h

/-- A name with its quotes escaped. -/
def escaped (s : List Char) : List Char := s.flatMap fun c => if c = '"' then ['\\', '"'] else [c]

theorem toList_escapeQuotes (s : String) : (escapeQuotes s).toList = escaped s.toList := String.toList_ofList

theorem escaped_cons {c : Char} (h : c ≠ '"') (s : List Char) : escaped (c :: s) = c :: escaped s := by
  simp [escaped, h]

theorem escaped_of_not_mem {s : List Char} (h : '"' ∉ s) : escaped s = s := by
  induction s with
  | nil => rfl
  | cons c s ih =>
    have hc : c ≠ '"' := fun e => h (e ▸ List.mem_cons_self)
    rw [escaped_cons hc, ih fun hs => h (List.mem_cons_of_mem _ hs)]

theorem quoteTail_cons {c : Char} (hquote : c ≠ '"') (hslash : c ≠ '\\') (rest : List Char) :
    quoteTail (c :: rest) = (quoteTail rest).map (followedBy c) := by
  rw [quoteTail]
  · exact hquote
  · exact fun _ e _ => hslash e
  · exact fun _ e _ => hslash e

theorem quoteTail_slash {c : Char} (hquote : c ≠ '"') (hslash : c ≠ '\\') (rest : List Char) :
    quoteTail ('\\' :: c :: rest) = (quoteTail (c :: rest)).map (followedBy '\\') := by
  rw [quoteTail]
  · decide
  · intro rest' _ e
    exact hquote (List.cons_eq_cons.mp e).1
  · intro rest' _ e
    exact hslash (List.cons_eq_cons.mp e).1

theorem map_followedBy {c d : Char} {o : Option (List Char × List Char)} {s rest : List Char} :
    o.map (followedBy c) = some (d :: s, rest) ↔ c = d ∧ o = some (s, rest) := by
  cases o with
  | none => simp
  | some r =>
    obtain ⟨s', rest'⟩ := r
    simp [followedBy, and_assoc]

/-! ### A written name, read back -/

section Closed

variable {c : Char} {s rest rest' : List Char}

/-- A name as a drawing writes it, up to its closing quote, and what stands behind that. -/
def closed (s rest : List Char) : List Char := escaped s ++ '"' :: rest

theorem closed_quote : quoteTail (closed ('"' :: s) rest) = (quoteTail (closed s rest)).map (followedBy '"') := rfl

theorem closed_cons (hquote : c ≠ '"') (hslash : c ≠ '\\') :
    quoteTail (closed (c :: s) rest) = (quoteTail (closed s rest)).map (followedBy c) := by
  rw [closed, escaped_cons hquote]
  exact quoteTail_cons hquote hslash _

/-- The closing quote is taken for one of the name. -/
theorem closed_slash_end : quoteTail (closed ['\\'] rest) = (quoteTail rest).map (followedBy '"') := rfl

/-- A quote of the name is taken for the closing one. -/
theorem closed_slash_quote : quoteTail (closed ('\\' :: '"' :: s) rest) = some (['\\'], closed s rest) := rfl

theorem closed_slash_slash :
    quoteTail (closed ('\\' :: '\\' :: s) rest) = (quoteTail (closed s rest)).map (followedBy '\\') := rfl

theorem closed_slash (hquote : c ≠ '"') (hslash : c ≠ '\\') :
    quoteTail (closed ('\\' :: c :: s) rest) = (quoteTail (closed (c :: s) rest)).map (followedBy '\\') := by
  rw [closed, closed, escaped_cons (by decide), escaped_cons hquote]
  exact quoteTail_slash hquote hslash _

/-- Where backslashes were lost, what is read on does not make up for them. -/
theorem closed_ne (s : List Char) (k : Nat) : quoteTail (closed s rest) ≠ some (List.replicate (k + 1) '\\' ++ s, rest') := by
  -- on the length, because two backslashes are read at once
  induction hlen : s.length using Nat.strongRecOn generalizing s k with
  | ind n ih =>
    subst hlen
    intro h
    rw [List.replicate_succ, List.cons_append] at h
    cases s with
    | nil => cases h
    | cons c s =>
      by_cases hquote : c = '"'
      · subst hquote
        rw [closed_quote, map_followedBy] at h
        exact absurd h.1 (by decide)
      by_cases hslash : c = '\\'
      · subst hslash
        cases s with
        | nil =>
          rw [closed_slash_end, map_followedBy] at h
          exact absurd h.1 (by decide)
        | cons d s =>
          by_cases hquote' : d = '"'
          · subst hquote'
            rw [closed_slash_quote] at h
            simp at h
          by_cases hslash' : d = '\\'
          · subst hslash'
            rw [closed_slash_slash, map_followedBy] at h
            have hlen : s.length < ('\\' :: '\\' :: s).length := Nat.lt_of_lt_of_le (Nat.lt_succ_self _) (Nat.le_succ _)
            refine ih s.length hlen s (k + 1) rfl ?_
            rw [h.2]
            simp [List.replicate_succ']
          · rw [closed_slash hquote' hslash', map_followedBy, closed_cons hquote' hslash'] at h
            cases k with
            | zero => exact hslash' (map_followedBy.mp h.2).1
            | succ k =>
              rw [List.replicate_succ, List.cons_append] at h
              exact hslash' (map_followedBy.mp h.2).1
      · rw [closed_cons hquote hslash, map_followedBy] at h
        exact hslash h.1

/-- A name comes back from its string exactly when it is readable. -/
theorem quoteTail_closed : quoteTail (closed s rest) = some (s, rest') ↔ Readable s ∧ rest' = rest := by
  induction s with
  | nil => simp [closed, escaped, quoteTail, readable_nil, eq_comm]
  | cons c s ih =>
    rw [readable_cons]
    by_cases hquote : c = '"'
    · subst hquote
      rw [closed_quote, map_followedBy, ih]
      simp
    by_cases hslash : c = '\\'
    · subst hslash
      cases s with
      | nil =>
        rw [closed_slash_end, map_followedBy]
        simp [Harmless]
      | cons d s =>
        by_cases hquote' : d = '"'
        · subst hquote'
          rw [closed_slash_quote]
          simp [Harmless]
        by_cases hslash' : d = '\\'
        · subst hslash'
          rw [closed_slash_slash, map_followedBy]
          have hlost : quoteTail (closed s rest) ≠ some (List.replicate 1 '\\' ++ s, rest') := closed_ne s 0
          simpa [Harmless] using hlost
        · have hharmless : Harmless (d :: s) := ⟨d, s, rfl, hquote', hslash'⟩
          rw [closed_slash hquote' hslash', map_followedBy, ih]
          simp [hharmless]
    · rw [closed_cons hquote hslash, map_followedBy, ih]
      simp [hslash]

end Closed

/-! ## Texts with strings -/

inductive Token where
  | mark (c : Char)
  | text (content : List Char)
  deriving DecidableEq, Repr

/-- The tokens of a text. -/
inductive Reads : List Char → List Token → Prop
  | done : Reads [] []
  | mark {c : Char} {cs : List Char} {ts : List Token} : c ≠ '"' → Reads cs ts → Reads (c :: cs) (.mark c :: ts)
  | text {cs content rest : List Char} {ts : List Token} : quoteTail cs = some (content, rest) → Reads rest ts →
      Reads ('"' :: cs) (.text content :: ts)

theorem Reads.unique {cs : List Char} {ts us : List Token} (h : Reads cs ts) (h' : Reads cs us) : ts = us := by
  induction h generalizing us with
  | done =>
    cases h'
    rfl
  | mark hc _ ih =>
    cases h' with
    | mark _ h' => rw [ih h']
    | text => exact absurd rfl hc
  | text hs _ ih =>
    cases h' with
    | mark hc => exact absurd rfl hc
    | text hs' h' =>
      obtain ⟨rfl, rfl⟩ := Prod.mk.inj (Option.some.inj (hs.symm.trans hs'))
      rw [ih h']

def marks (s : List Char) : List Token := s.map .mark

/-- What is not a quote stands for itself. -/
theorem reads_plain {s rest : List Char} {ts : List Token} (h : '"' ∉ s) :
    Reads (s ++ rest) (marks s ++ ts) ↔ Reads rest ts := by
  induction s with
  | nil => exact Iff.rfl
  | cons c s ih =>
    rw [← ih fun hs => h (List.mem_cons_of_mem _ hs)]
    constructor
    · intro hread
      cases hread with
      | mark _ hread => exact hread
    · intro hread
      exact .mark (fun e => h (e ▸ List.mem_cons_self)) hread

theorem reads_string {s rest : List Char} {ts : List Token} :
    Reads ('"' :: closed s rest) (.text s :: ts) ↔ Readable s ∧ Reads rest ts := by
  constructor
  · intro h
    cases h with
    | text hs hread =>
      obtain ⟨hreadable, rfl⟩ := quoteTail_closed.mp hs
      exact ⟨hreadable, hread⟩
  · rintro ⟨hreadable, hread⟩
    exact .text (quoteTail_closed.mpr ⟨hreadable, rfl⟩) hread

/-! ## Lines -/

theorem not_mem_nodeName {c : Char} (hc : Text.isDigit c = false) (hn : c ≠ 'n') (i : Nat) : c ∉ (nodeName i).toList := by
  intro h
  rw [nodeName, String.toList_append] at h
  rcases List.mem_append.mp h with h | h
  · exact hn (by simpa using h)
  · rw [Text.isDigit_of_mem_repr (n := i) h] at hc
    cases hc

theorem not_mem_integer {c : Char} (hc : Text.isDigit c = false) (hminus : c ≠ '-') (z : Int) : c ∉ (toString z).toList := by
  intro h
  cases z with
  | ofNat n =>
    rw [Text.isDigit_of_mem_repr (n := n) h] at hc
    cases hc
  | negSucc n =>
    rw [Text.toString_negative, String.toList_append] at h
    rcases List.mem_append.mp h with h | h
    · exact hminus (by simpa using h)
    · rw [Text.isDigit_of_mem_repr h] at hc
      cases hc

/-- Labels are written without quotes and backslashes. -/
theorem not_mem_labelText {c : Char} (hc : c = '"' ∨ c = '\\') (l : Label) : c ∉ l.text.toList := by
  have hdigit : Text.isDigit c = false := by rcases hc with rfl | rfl <;> decide
  have hminus : c ≠ '-' := by rcases hc with rfl | rfl <;> decide
  have hword : ∀ w : String, '"' ∉ w.toList ∧ '\\' ∉ w.toList → c ∉ w.toList := by
    intro w hw
    rcases hc with rfl | rfl
    · exact hw.1
    · exact hw.2
  cases l with
  | load => exact hword "load" (by decide)
  | store => exact hword "store" (by decide)
  | input i =>
    show c ∉ ("in_" ++ toString (i : Int)).toList
    rw [String.toList_append, List.mem_append, not_or]
    exact ⟨hword "in_" (by decide), not_mem_integer hdigit hminus i⟩
  | output i =>
    show c ∉ ("out_" ++ toString (i : Int)).toList
    rw [String.toList_append, List.mem_append, not_or]
    exact ⟨hword "out_" (by decide), not_mem_integer hdigit hminus i⟩
  | field f =>
    show c ∉ ("σ" ++ toString f.bits ++ "@" ++ toString f.offset).toList
    simp only [String.toList_append, List.mem_append, not_or]
    exact ⟨⟨⟨hword "σ" (by decide), not_mem_integer hdigit hminus _⟩, hword "@" (by decide)⟩, not_mem_integer hdigit hminus _⟩

/-- A line with one string in it. -/
theorem reads_line {before behind s rest : List Char} {ts : List Token} (hbefore : '"' ∉ before) (hbehind : '"' ∉ behind) :
    Reads (before ++ '"' :: closed s (behind ++ rest)) (marks before ++ .text s :: (marks behind ++ ts)) ↔
      Readable s ∧ Reads rest ts := by
  rw [reads_plain hbefore, reads_string, reads_plain hbehind]

/-- The beginning of the line of a node, up to its text. -/
def nodeHead (i : Nat) : List Char := "\n  ".toList ++ (nodeName i).toList ++ " [label=".toList

/-- The beginning of the line of an edge, up to its text. -/
def edgeHead (a b : Nat) : List Char :=
  "\n  ".toList ++ (nodeName a).toList ++ " -> ".toList ++ (nodeName b).toList ++ " [label=".toList

theorem not_mem_nodeHead (i : Nat) : '"' ∉ nodeHead i := by
  simp only [nodeHead, List.mem_append, not_or]
  exact ⟨⟨by decide, not_mem_nodeName (by decide) (by decide) i⟩, by decide⟩

theorem not_mem_edgeHead (a b : Nat) : '"' ∉ edgeHead a b := by
  simp only [edgeHead, List.mem_append, not_or]
  exact ⟨⟨⟨⟨by decide, not_mem_nodeName (by decide) (by decide) a⟩, by decide⟩,
    not_mem_nodeName (by decide) (by decide) b⟩, by decide⟩

def nodeTokens (e : TypeVar × Nat) : List Token :=
  marks (nodeHead e.2) ++ .text e.1.text.toList :: marks "];".toList

def labelTokens (e : Nat × Label × Nat) : List Token :=
  marks (edgeHead e.1 e.2.2) ++ .text e.2.1.text.toList :: marks ", style=dashed, color=gray];".toList

def edgeTokens (e : Nat × Nat) : List Token :=
  marks (edgeHead e.1 e.2) ++ .text "⊑".toList :: marks "];".toList

/-- A line behind the one before it. -/
def onNextLine (line : String) : List Char := '\n' :: line.toList

section Lines

variable {rest : List Char} {ts : List Token}

theorem reads_node (e : TypeVar × Nat) : Reads (onNextLine (nodeLine e.2 e.1) ++ rest) (nodeTokens e ++ ts) ↔
    Readable e.1.text.toList ∧ Reads rest ts := by
  have hline : onNextLine (nodeLine e.2 e.1) ++ rest =
      nodeHead e.2 ++ '"' :: closed e.1.text.toList ("];".toList ++ rest) := by
    simp [onNextLine, nodeLine, nodeHead, closed, toList_escapeQuotes]
  have htokens : nodeTokens e ++ ts = marks (nodeHead e.2) ++ .text e.1.text.toList :: (marks "];".toList ++ ts) := by
    simp [nodeTokens]
  rw [hline, htokens]
  exact reads_line (not_mem_nodeHead e.2) (by decide)

/-- What is written without quotes and backslashes is not escaped and comes back. -/
theorem reads_edgeLine {a b : Nat} {s behind : List Char} (hs : '"' ∉ s) (hslash : '\\' ∉ s) (hbehind : '"' ∉ behind) :
    Reads (edgeHead a b ++ '"' :: (s ++ '"' :: (behind ++ rest))) (marks (edgeHead a b) ++ .text s :: (marks behind ++ ts)) ↔
      Reads rest ts := by
  have hclosed : s ++ '"' :: (behind ++ rest) = closed s (behind ++ rest) := by rw [closed, escaped_of_not_mem hs]
  rw [hclosed, reads_line (not_mem_edgeHead a b) hbehind]
  exact and_iff_right (readable_of_not_mem hslash)

theorem reads_label (e : Nat × Label × Nat) :
    Reads (onNextLine (labelLine e.1 e.2.1 e.2.2) ++ rest) (labelTokens e ++ ts) ↔ Reads rest ts := by
  have hline : onNextLine (labelLine e.1 e.2.1 e.2.2) ++ rest = edgeHead e.1 e.2.2 ++
      '"' :: (e.2.1.text.toList ++ '"' :: (", style=dashed, color=gray];".toList ++ rest)) := by
    simp [onNextLine, labelLine, edgeHead]
  have htokens : labelTokens e ++ ts = marks (edgeHead e.1 e.2.2) ++
      .text e.2.1.text.toList :: (marks ", style=dashed, color=gray];".toList ++ ts) := by
    simp [labelTokens]
  rw [hline, htokens]
  exact reads_edgeLine (not_mem_labelText (Or.inl rfl) _) (not_mem_labelText (Or.inr rfl) _) (by decide)

theorem reads_edge (e : Nat × Nat) : Reads (onNextLine (edgeLine e.1 e.2) ++ rest) (edgeTokens e ++ ts) ↔ Reads rest ts := by
  have hline : onNextLine (edgeLine e.1 e.2) ++ rest = edgeHead e.1 e.2 ++
      '"' :: ("⊑".toList ++ '"' :: ("];".toList ++ rest)) := by
    simp [onNextLine, edgeLine, edgeHead]
  have htokens : edgeTokens e ++ ts = marks (edgeHead e.1 e.2) ++ .text "⊑".toList :: (marks "];".toList ++ ts) := by
    simp [edgeTokens]
  rw [hline, htokens]
  exact reads_edgeLine (by decide) (by decide) (by decide)

/-- Line by line, when what a line reads as does not depend on the lines behind it. -/
theorem reads_lines {α : Type} {line : α → String} {tokens : α → List Token} {P : α → Prop}
    (h : ∀ x rest ts, Reads (onNextLine (line x) ++ rest) (tokens x ++ ts) ↔ P x ∧ Reads rest ts) (xs : List α) :
    Reads ((xs.map line).flatMap onNextLine ++ rest) (xs.flatMap tokens ++ ts) ↔ (∀ x ∈ xs, P x) ∧ Reads rest ts := by
  induction xs with
  | nil => simp
  | cons x xs ih =>
    rw [List.map_cons, List.flatMap_cons, List.flatMap_cons, List.append_assoc, List.append_assoc, h, ih,
      List.forall_mem_cons, and_assoc]

end Lines

/-! ## Drawings -/

def opening : String := "digraph ConstraintGraph \x7b"

def nodeDefaults : String := "  node [shape=box, fontname=\"monospace\", fontsize=10];"

/-- A drawing up to the line of its first node. -/
def preamble (title : String) : List Char := opening.toList ++ (titleLines title ++ [nodeDefaults]).flatMap onNextLine

/-- What a drawing says, each variable under its number, then the edges. -/
def statements (g : Graph) : List Token :=
  g.typeVars.zipIdx.flatMap nodeTokens ++ (g.labelEdges.flatMap labelTokens ++
    (g.sortedEdges.flatMap edgeTokens ++ marks (onNextLine "\x7d")))

/-- The lines behind the preamble. -/
def lines (g : Graph) : List String :=
  g.typeVars.zipIdx.map (fun e => nodeLine e.2 e.1) ++ (g.labelEdges.map (fun e => labelLine e.1 e.2.1 e.2.2) ++
    (g.sortedEdges.map (fun e => edgeLine e.1 e.2) ++ ["\x7d"]))

theorem draw_eq (g : Graph) (title : String) :
    g.draw title = "\n".intercalate (opening :: ((titleLines title ++ [nodeDefaults]) ++ g.lines)) := by
  simp only [draw, lines, nodeLines, opening, nodeDefaults, List.cons_append, List.nil_append, List.append_assoc]

theorem toList_draw (g : Graph) (title : String) : (g.draw title).toList = preamble title ++ g.lines.flatMap onNextLine := by
  have hline : (fun s : String => "\n".toList ++ s.toList) = onNextLine := by
    funext s
    simp [onNextLine]
  rw [draw_eq, Text.toList_intercalate, hline, List.flatMap_append, preamble, List.append_assoc]

/-- The lines say what they should exactly when the text of every variable is readable. -/
theorem reads_statements (g : Graph) : Reads (g.lines.flatMap onNextLine) g.statements ↔ ∀ v ∈ g.typeVars, Readable v.text.toList := by
  have hlabels : ∀ (e : Nat × Label × Nat) rest ts, Reads (onNextLine (labelLine e.1 e.2.1 e.2.2) ++ rest)
      (labelTokens e ++ ts) ↔ True ∧ Reads rest ts := by
    intro e rest ts
    rw [reads_label, true_and]
  have hedges : ∀ (e : Nat × Nat) rest ts, Reads (onNextLine (edgeLine e.1 e.2) ++ rest) (edgeTokens e ++ ts) ↔
      True ∧ Reads rest ts := by
    intro e rest ts
    rw [reads_edge, true_and]
  have hbrace : '"' ∉ onNextLine "\x7d" := by decide
  have hend : Reads (onNextLine "\x7d") (marks (onNextLine "\x7d")) := by
    have hread : Reads (onNextLine "\x7d" ++ []) (marks (onNextLine "\x7d") ++ []) := (reads_plain hbrace).mpr .done
    simpa using hread
  have hlines : g.lines.flatMap onNextLine =
      (g.typeVars.zipIdx.map fun e => nodeLine e.2 e.1).flatMap onNextLine ++
        ((g.labelEdges.map fun e => labelLine e.1 e.2.1 e.2.2).flatMap onNextLine ++
          ((g.sortedEdges.map fun e => edgeLine e.1 e.2).flatMap onNextLine ++ onNextLine "\x7d")) := by
    simp only [lines, List.flatMap_append, List.flatMap_singleton]
  rw [hlines, statements, reads_lines (fun e _ _ => reads_node e), reads_lines hlabels, reads_lines hedges]
  simp only [hend, implies_true, and_true]
  constructor
  · intro h v hv
    obtain ⟨i, hi⟩ := List.mem_iff_getElem?.mp hv
    exact h (v, i) (List.mk_mem_zipIdx_iff_getElem?.mpr hi)
  · intro h e he
    exact h e.1 (List.mem_of_getElem? (List.mk_mem_zipIdx_iff_getElem?.mp he))

/-- Behind its preamble a drawing says the graph: each variable in a string of its own, in the order
of the nodes, then the edges. It does so exactly when the text of every variable is readable, and it
never says anything beside what it says. -/
theorem draw_reads (g : Graph) (title : String) : ∃ rest, (g.draw title).toList = preamble title ++ rest ∧
    (Reads rest g.statements ↔ ∀ v ∈ g.typeVars, Readable v.text.toList) ∧
    ∀ ts us, Reads rest ts → Reads rest us → ts = us :=
  ⟨_, toList_draw g title, reads_statements g, fun _ _ h h' => h.unique h'⟩

/-- Two names, and a backslash at the end of the first. -/
def slashed : Graph := ((empty.intern ⟨"a\\", []⟩).1.intern ⟨"b", []⟩).1

/-- The first string goes on into the line of the second node. -/
theorem slashed_breaks_out : slashed.typeVars = [⟨"a\\", []⟩, ⟨"b", []⟩] ∧
    ∃ rest, (slashed.draw "").toList = preamble "" ++ rest ∧ ¬Reads rest slashed.statements ∧
      ∃ behind, rest = nodeHead 0 ++ '"' :: behind ∧
        quoteTail behind = some ("a\"];\n  n1 [label=".toList, "b\"];\n\x7d".toList) := by
  have hvars : slashed.typeVars = [⟨"a\\", []⟩, ⟨"b", []⟩] := by decide +kernel
  refine ⟨hvars, _, toList_draw slashed "", ?_, _, rfl, ?_⟩
  · rw [reads_statements, hvars]
    intro h
    obtain ⟨c, rest, he, -⟩ := h _ List.mem_cons_self [] ⟨['a'], rfl⟩
    cases he
  · decide +kernel

end Graph

end TypeRecovery
