/-
  TypeRecovery.Proofs.Text.Lines — the lines in which positions are counted, and those that are shown.

  A position is counted in the lines of a text that end at line feeds (`feedLines`), a carriage
  return before a line feed belonging to the line end. Where such a line holds other boundaries, it
  is shown in `pieces`, and the pieces of all lines are the lines that are shown. So as long as no
  line is broken, the lines that are shown are those that are counted; the first broken one is shown
  up to its first boundary; and behind it the numbers of the lines that are shown run ahead: under
  the number of a later line stands a piece of an earlier one.

  Proved:
  - `feedLines_append`: the line that a place stands in, when it does not divide a line end.
  - `getElem?_lines`: the lines that are shown are the pieces.
  - `shown_of_unbroken`, `shown_of_broken`: what is shown under the number of a line.
-/

import Mathlib.Data.List.DropRight
import TypeRecovery.Text.Lines

namespace TypeRecovery.Text

/-- The lines that end at line feeds, alone or after a carriage return. -/
def feedLines : List Char → List (List Char)
  | [] => [[]]
  | '\n' :: rest => [] :: feedLines rest
  | '\r' :: '\n' :: rest => [] :: feedLines rest
  | c :: rest => (feedLines rest).modifyHead (c :: ·)

/-- A place in a text that is not between the carriage return and the line feed of a line end. -/
def Undivided (before rest : List Char) : Prop := ¬(before.getLast? = some '\r' ∧ rest.head? = some '\n')

theorem undivided_singleton {c : Char} {rest : List Char} (h : ∀ rest', c = '\r' → rest = '\n' :: rest' → False) :
    Undivided [c] rest := by
  rintro ⟨hlast, hfeed⟩
  obtain ⟨rest', hrest⟩ := List.head?_eq_some_iff.mp hfeed
  exact h rest' (Option.some_inj.mp hlast) hrest

theorem feedLines_cons {c : Char} {rest : List Char} (hc : c ≠ '\n') (h : Undivided [c] rest) :
    feedLines (c :: rest) = (feedLines rest).modifyHead (c :: ·) := by
  rw [feedLines]
  · exact hc
  · rintro rest' rfl rfl
    exact h ⟨rfl, rfl⟩

theorem feedLines_ne_nil (cs : List Char) : feedLines cs ≠ [] := by
  fun_induction feedLines cs with
  | case1 => exact List.cons_ne_nil _ _
  | case2 => exact List.cons_ne_nil _ _
  | case3 => exact List.cons_ne_nil _ _
  | case4 c rest _ _ ih => simpa using ih

/-! ## The line of a place -/

/-- What stands behind the last line feed. -/
def lineTail (before : List Char) : List Char := before.rtakeWhile (· ≠ '\n')

theorem forall_ne_feed {before : List Char} (h : '\n' ∉ before) : ∀ c ∈ before, decide (c ≠ '\n') = true := by
  intro c hc
  rw [decide_eq_true_eq]
  rintro rfl
  exact h hc

theorem lineTail_of_not_mem {before : List Char} (h : '\n' ∉ before) : lineTail before = before :=
  List.rtakeWhile_eq_self_iff.mpr (forall_ne_feed h)

/-- Before a line feed, it does not matter what the text begins with. -/
theorem lineTail_append {before : List Char} (h : '\n' ∈ before) (first : List Char) :
    lineTail (first ++ before) = lineTail before := by
  have hstop : (before.reverse.takeWhile (· ≠ '\n')).length ≠ before.reverse.length := by
    intro hlen
    have heq := (List.takeWhile_prefix (l := before.reverse) fun c => decide (c ≠ '\n')).eq_of_length hlen
    have hfeed := List.takeWhile_eq_self_iff.mp heq '\n' (List.mem_reverse.mpr h)
    simp at hfeed
  rw [lineTail, lineTail, List.rtakeWhile, List.rtakeWhile, List.reverse_append, List.takeWhile_append, if_neg hstop]

theorem lineTail_feed (before : List Char) : lineTail ('\n' :: before) = lineTail before := by
  by_cases h : '\n' ∈ before
  · exact lineTail_append h ['\n']
  · have hall := forall_ne_feed fun hmem => h (List.mem_reverse.mp hmem)
    rw [lineTail_of_not_mem h, lineTail, List.rtakeWhile, List.reverse_cons, List.takeWhile_append_of_pos hall]
    simp

theorem lineTail_cons {c : Char} (hc : c ≠ '\n') (before : List Char) :
    lineTail (c :: before) = if '\n' ∈ before then lineTail before else c :: lineTail before := by
  split
  · rename_i h
    exact lineTail_append h [c]
  · rename_i h
    rw [lineTail_of_not_mem h]
    exact lineTail_of_not_mem (by simp [h, Ne.symm hc])

theorem Undivided.tail {c : Char} {before rest : List Char} (h : Undivided (c :: before) rest) : Undivided before rest := by
  rintro ⟨hlast, hfeed⟩
  refine h ⟨?_, hfeed⟩
  cases before with
  | nil => cases hlast
  | cons d before => rwa [List.getLast?_cons_cons]

/-- The lines before the place are as many as there are line feeds before it; its own line begins with
what stands behind the last of them. -/
theorem feedLines_append {before rest : List Char} (h : Undivided before rest) :
    ∃ init, init.length = (before.filter (· = '\n')).length ∧
      feedLines (before ++ rest) = init ++ (feedLines rest).modifyHead (lineTail before ++ ·) := by
  fun_induction feedLines before with
  | case1 => exact ⟨[], rfl, by cases hrest : feedLines rest <;> simp [hrest, lineTail]⟩
  | case2 before ih =>
    obtain ⟨init, hlen, hlines⟩ := ih h.tail
    refine ⟨[] :: init, by simp [hlen], ?_⟩
    rw [List.cons_append, feedLines, hlines, lineTail_feed]
    rfl
  | case3 before ih =>
    obtain ⟨init, hlen, hlines⟩ := ih h.tail.tail
    refine ⟨[] :: init, by simp [hlen], ?_⟩
    have htail : lineTail ('\r' :: '\n' :: before) = lineTail before :=
      (lineTail_append List.mem_cons_self ['\r']).trans (lineTail_feed before)
    rw [List.cons_append, List.cons_append, feedLines, hlines, htail]
    rfl
  | case4 c before hc hcr ih =>
    obtain ⟨init, hlen, hlines⟩ := ih h.tail
    have hc' : c ≠ '\n' := hc
    have hnext : Undivided [c] (before ++ rest) := by
      cases before with
      | nil => exact h
      | cons d before =>
        refine undivided_singleton fun rest' hlast hfeed => ?_
        obtain ⟨rfl, -⟩ := List.cons_eq_cons.mp hfeed
        exact hcr before hlast rfl
    rw [List.cons_append, feedLines_cons hc' hnext, hlines, lineTail_cons hc', List.filter_cons_of_neg (by simpa using hc')]
    cases init with
    | nil =>
      have hnone : '\n' ∉ before := fun hmem => by
        have hempty : before.filter (· = '\n') = [] := List.length_eq_zero_iff.mp hlen.symm
        exact absurd (List.filter_eq_nil_iff.mp hempty '\n' hmem) (by simp)
      exact ⟨[], hlen, by simp [hnone, Function.comp_def]⟩
    | cons first init =>
      have hsome : '\n' ∈ before := by
        by_contra hnone
        have hempty : before.filter (· = '\n') = [] :=
          List.filter_eq_nil_iff.mpr fun d hd hfeed => hnone (by simpa using (of_decide_eq_true hfeed) ▸ hd)
        rw [hempty] at hlen
        cases hlen
      exact ⟨(c :: first) :: init, by simpa using hlen, by simp [hsome]⟩

/-! ## Lines that are shown -/

/-- The parts of a line between its other boundaries. -/
def pieces (line : List Char) : List (List Char) := line.splitOnP isLineBoundary

/-- A line without other boundaries. -/
def Unbroken (line : List Char) : Prop := ∀ c ∈ line, isLineBoundary c = false

instance (line : List Char) : Decidable (Unbroken line) :=
  List.decidableBAll (fun c => isLineBoundary c = false) line

theorem pieces_cons (c : Char) (line : List Char) :
    pieces (c :: line) = if isLineBoundary c then [] :: pieces line else (pieces line).modifyHead (c :: ·) :=
  List.splitOnP_cons_eq_if_modifyHead c line

theorem exists_pieces (line : List Char) : ∃ more, pieces line = line.takeWhile (!isLineBoundary ·) :: more := by
  induction line with
  | nil => exact ⟨[], rfl⟩
  | cons c line ih =>
    obtain ⟨more, hmore⟩ := ih
    rw [pieces_cons, hmore]
    split
    · rename_i h
      exact ⟨line.takeWhile (!isLineBoundary ·) :: more, by simp [h]⟩
    · rename_i h
      exact ⟨more, by simp [h]⟩

theorem pieces_of_unbroken {line : List Char} (h : Unbroken line) : pieces line = [line] := List.splitOnP_eq_singleton h

theorem two_le_length_pieces {line : List Char} (h : ¬Unbroken line) : 2 ≤ (pieces line).length := by
  induction line with
  | nil => exact absurd (List.forall_mem_nil _) h
  | cons c line ih =>
    rw [pieces_cons]
    split
    · obtain ⟨more, hmore⟩ := exists_pieces line
      simp [hmore]
    · rename_i hc
      rw [List.length_modifyHead]
      exact ih fun hline => h (List.forall_mem_cons.mpr ⟨Bool.not_eq_true _ ▸ hc, hline⟩)

theorem length_le_pieces (ls : List (List Char)) :
    ls.length ≤ (ls.flatMap pieces).length ∧ ((∃ l ∈ ls, ¬Unbroken l) → ls.length < (ls.flatMap pieces).length) := by
  induction ls with
  | nil => simp
  | cons l ls ih =>
    obtain ⟨hle, hlt⟩ := ih
    obtain ⟨more, hmore⟩ := exists_pieces l
    have hone : 1 ≤ (pieces l).length := by simp [hmore]
    rw [List.flatMap_cons, List.length_append, List.length_cons]
    refine ⟨by omega, fun ⟨l', hl', hbroken⟩ => ?_⟩
    rcases List.mem_cons.mp hl' with rfl | hl'
    · have := two_le_length_pieces hbroken
      omega
    · have := hlt ⟨l', hl', hbroken⟩
      omega

/-- The pieces of all lines. -/
def allPieces (cs : List Char) : List (List Char) := (feedLines cs).flatMap pieces

theorem exists_allPieces (cs : List Char) : ∃ first more, allPieces cs = first :: more := by
  obtain ⟨l, ls, hls⟩ := List.exists_cons_of_ne_nil (feedLines_ne_nil cs)
  obtain ⟨more, hmore⟩ := exists_pieces l
  rw [allPieces, hls, List.flatMap_cons, hmore]
  exact ⟨_, _, rfl⟩

theorem allPieces_cons {c : Char} {rest : List Char} (h : Undivided [c] rest) : allPieces (c :: rest) =
    if isLineBoundary c then [] :: allPieces rest else (allPieces rest).modifyHead (c :: ·) := by
  by_cases hc : c = '\n'
  · subst hc
    rfl
  · obtain ⟨l, ls, hls⟩ := List.exists_cons_of_ne_nil (feedLines_ne_nil rest)
    obtain ⟨more, hmore⟩ := exists_pieces l
    rw [allPieces, allPieces, feedLines_cons hc h, hls, List.modifyHead_cons, List.flatMap_cons, List.flatMap_cons, pieces_cons,
      hmore]
    split <;> rfl

/-- The induction follows the splitting, which holds the beginning of a line in `line`. A boundary at
the very end opens no further line; there the last piece is empty, as is what is shown of no line. -/
theorem getElem?_linesFrom (line cs : List Char) (i : Nat) :
    ((linesFrom line cs)[i]?).getD [] = (((allPieces cs).modifyHead (line.reverse ++ ·))[i]?).getD [] := by
  have hnext : ∀ rest (i : Nat), (((allPieces rest).modifyHead (([] : List Char).reverse ++ ·))[i]?).getD [] =
      ((allPieces rest)[i]?).getD [] := by
    intro rest i
    obtain ⟨first, more, hmore⟩ := exists_allPieces rest
    simp [hmore]
  fun_induction linesFrom line cs generalizing i with
  | case1 line hempty =>
    rw [List.isEmpty_iff.mp hempty]
    cases i <;> rfl
  | case2 line hempty => cases i <;> simp [allPieces, feedLines, pieces]
  | case3 line rest ih =>
    show _ = ((([] :: allPieces rest).modifyHead (line.reverse ++ ·))[i]?).getD []
    cases i with
    | zero => simp
    | succ i =>
      simp only [List.modifyHead_cons, List.getElem?_cons_succ]
      rw [ih, hnext]
  | case4 line c rest hcr hc ih =>
    rw [allPieces_cons (undivided_singleton hcr), if_pos hc]
    cases i with
    | zero => simp
    | succ i =>
      simp only [List.modifyHead_cons, List.getElem?_cons_succ]
      rw [ih, hnext]
  | case5 line c rest hcr hc ih =>
    rw [allPieces_cons (undivided_singleton hcr), if_neg hc, ih, List.modifyHead_modifyHead]
    simp [Function.comp_def]

theorem getElem?_lines (cs : List Char) (i : Nat) : ((lines cs)[i]?).getD [] = ((allPieces cs)[i]?).getD [] := by
  obtain ⟨first, more, hmore⟩ := exists_allPieces cs
  rw [lines, getElem?_linesFrom, hmore]
  simp

section Shown

variable {cs : List Char} {init more : List (List Char)} {line : List Char} (h : feedLines cs = init ++ line :: more)
include h

/-- Behind unbroken lines, a line is shown under its own number, up to its first other boundary. -/
theorem shown_of_unbroken (hinit : ∀ l ∈ init, Unbroken l) :
    ((lines cs)[init.length]?).getD [] = line.takeWhile (!isLineBoundary ·) := by
  have hsame : init.flatMap pieces = init := by
    have hmap : ∀ l ∈ init, pieces l = [l] := fun l hl => pieces_of_unbroken (hinit l hl)
    rw [List.flatMap_congr hmap, List.flatMap_singleton']
  obtain ⟨rest, hrest⟩ := exists_pieces line
  rw [getElem?_lines, allPieces, h, List.flatMap_append, hsame, List.flatMap_cons, hrest]
  simp

/-- Behind a broken line, a piece of an earlier line is shown under the number of a line. -/
theorem shown_of_broken (hinit : ∃ l ∈ init, ¬Unbroken l) :
    (init.flatMap pieces)[init.length]? = some (((lines cs)[init.length]?).getD []) := by
  have hlt := (length_le_pieces init).2 hinit
  rw [getElem?_lines, allPieces, h, List.flatMap_append, List.getElem?_append_left hlt, List.getElem?_eq_getElem hlt,
    Option.getD_some]

end Shown

end TypeRecovery.Text
