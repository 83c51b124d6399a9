/-
  TypeRecovery.Proofs.Sketch.Rendering — the text of a sketch is finite and settles.

  Two rules stop a text: a sketch inside itself, and too many levels. What is drawn is a tree, whose
  leaves are primitives and numbers and whose inner nodes are sketches written out. The tree is
  drawn with a limit of levels or with none, inside the sketches that are being written. Written
  sketches stand inside each other only if they are different, and none of them is a primitive; so
  there is no deeper chain of them than the table has sketches that are no primitives. With at least
  so many levels the limit stops nothing that the other rule would not have stopped at that place.

  The drawing is the meaning of the text, not the way to it: `Draws` says when a tree is one of a
  sketch, and a sketch of a closed table has exactly one for each limit.

  Proved of a closed table:
  - `Draws.renderIn`: the text of a sketch is that of its drawing.
  - `exists_draws`: there is a drawing for every limit, and a deep one is drawn without limit.
  - `Draws.chains`: what stands inside what in a drawing.
  - `render_settles`: all of this for the sketches of the table.
-/

import TypeRecovery.Proofs.Sketch.Closed

namespace TypeRecovery

/-- What the text of a sketch shows. -/
inductive Drawing where
  | primitive (width : Amount)
  | number (id : Int)
  /-- A sketch that is written out, with a part for each of its references. -/
  | written (id : Int) (sketch : Sketch) (parts : List Drawing)
  deriving Inhabited

namespace Sketch

def isPrimitive : Sketch → Bool
  | .primitive _ => true
  | _ => false

/-- The text of a sketch around the texts of its references. -/
def spell (id : Int) : Sketch → List String → String
  | .pointer _, parts => parts.headD "" ++ "*"
  | .struct fields, parts => SketchTable.structText id (List.zipWith SketchTable.fieldText fields parts)
  | .function params _, parts => SketchTable.functionText (parts.take params.length) (parts.drop params.length)
  | .primitive width, _ => primitiveName width

end Sketch

namespace Drawing

mutual

def text : Drawing → String
  | .primitive width => Sketch.primitiveName width
  | .number id => "#" ++ toString id
  | .written id sketch parts => sketch.spell id (texts parts)

def texts : List Drawing → List String
  | [] => []
  | d :: rest => text d :: texts rest

end

theorem texts_map {α : Type} (part : α → Drawing) (xs : List α) : texts (xs.map part) = xs.map fun x => (part x).text := by
  induction xs with
  | nil => rfl
  | cons x xs ih => rw [List.map_cons, List.map_cons, texts, ih]

/-- The second drawing stands in the first, inside the sketches `above`, innermost first. -/
inductive Within (d : Drawing) : List Int → Drawing → Prop
  | here : Within d [] d
  | part {above : List Int} {id : Int} {sketch : Sketch} {parts : List Drawing} {p : Drawing} :
      Within d above (.written id sketch parts) → p ∈ parts → Within d (id :: above) p

end Drawing

namespace SketchTable

/-- A sketch of the table that is no primitive. -/
def Compound (t : SketchTable) (id : Int) : Prop := ∃ sketch, t.sketch? id = some sketch ∧ sketch.isPrimitive = false

def compounds (t : SketchTable) : Nat := (t.sketches.filter fun e => !e.2.isPrimitive).length

/-- A drawing of the sketch `id` inside the sketches `active`, with a limit of levels or none. -/
inductive Draws (t : SketchTable) : Option Nat → List Int → Int → Drawing → Prop
  | primitive {limit : Option Nat} {active : List Int} {id : Int} {width : Amount} :
      t.sketch? id = some (.primitive width) → Draws t limit active id (.primitive width)
  | again {limit : Option Nat} {active : List Int} {id : Int} :
      t.Compound id → id ∈ active → Draws t limit active id (.number id)
  | tooDeep {active : List Int} {id : Int} : t.Compound id → Draws t (some 0) active id (.number id)
  /-- Each reference is drawn one level further in. -/
  | written {limit inner : Option Nat} {active : List Int} {id : Int} {sketch : Sketch} {part : Int → Drawing} :
      limit = inner.map (· + 1) → t.sketch? id = some sketch → sketch.isPrimitive = false → id ∉ active →
      (∀ r ∈ sketch.references, Draws t inner (id :: active) r (part r)) →
      Draws t limit active id (.written id sketch (sketch.references.map part))

variable {t : SketchTable}

theorem Compound.not_primitive {id : Int} (h : t.Compound id) {width : Amount} : t.sketch? id ≠ some (.primitive width) := by
  obtain ⟨sketch, hsketch, hp⟩ := h
  rw [hsketch]
  rintro ⟨⟩
  cases hp

/-- A primitive is drawn alike everywhere. -/
theorem exists_draws_primitive {id : Int} {sketch : Sketch} (hsketch : t.sketch? id = some sketch)
    (hp : sketch.isPrimitive = true) : ∃ d, ∀ limit active, t.Draws limit active id d := by
  cases sketch with
  | primitive width => exact ⟨.primitive width, fun _ _ => .primitive hsketch⟩
  | _ => cases hp

/-! ## One drawing for one text -/

theorem mapM_eq_map {α β : Type} {f : α → Option β} {g : α → β} {xs : List α} (h : ∀ x ∈ xs, f x = some (g x)) :
    xs.mapM f = some (xs.map g) :=
  mapM_eq_some.mpr (List.forall₂_map_right_iff.mpr (List.forall₂_same.mpr h))

/-- The text of a compound sketch, when those of its references are known. -/
theorem renderIn_spell {depth : Nat} {active : List Int} {id : Int} {sketch : Sketch} {part : Int → String}
    (hsketch : t.sketch? id = some sketch) (hcompound : sketch.isPrimitive = false) (hactive : id ∉ active)
    (hpart : ∀ r ∈ sketch.references, t.renderIn depth (id :: active) r = some (part r)) :
    t.renderIn (depth + 1) active id = some (sketch.spell id (sketch.references.map part)) := by
  rw [SketchTable.renderIn]
  cases sketch with
  | primitive width => cases hcompound
  | pointer pointee =>
    have hpointee := hpart pointee List.mem_cons_self
    simp [hsketch, hactive, hpointee, Sketch.spell, Sketch.references]
  | struct fields =>
    have hfields : (fields.mapM fun f => (t.renderIn depth (id :: active) f.sketch).map (fieldText f)) =
        some (fields.map fun f => fieldText f (part f.sketch)) :=
      mapM_eq_map fun f hf => by rw [hpart f.sketch (List.mem_map_of_mem hf), Option.map_some]
    simp [hsketch, hactive, hfields, Sketch.spell, Sketch.references, List.zipWith_map_right, List.zipWith_self]
  | function params returns =>
    have hslots : ∀ slots, slots ⊆ params ++ returns →
        slots.mapM (t.renderIn depth (id :: active)) = some (slots.map part) :=
      fun slots hs => mapM_eq_map fun r hr => hpart r (hs hr)
    simp [hsketch, hactive, hslots params (List.subset_append_left _ _),
      hslots returns (List.subset_append_right _ _), Sketch.spell, Sketch.references]

theorem Draws.renderIn {limit : Option Nat} {active : List Int} {id : Int} {d : Drawing}
    (h : t.Draws limit active id d) : ∀ {depth : Nat}, limit = some depth → t.renderIn depth active id = some d.text := by
  induction h with
  | primitive hsketch =>
    intro depth _
    cases depth <;> simp [SketchTable.renderIn, hsketch, Drawing.text]
  | again hcompound hactive =>
    intro depth _
    obtain ⟨sketch, hsketch, hp⟩ := hcompound
    cases depth <;> cases sketch <;> simp_all [SketchTable.renderIn, Drawing.text, Sketch.isPrimitive]
  | tooDeep hcompound =>
    intro depth he
    obtain ⟨sketch, hsketch, hp⟩ := hcompound
    cases he
    cases sketch <;> simp_all [SketchTable.renderIn, Drawing.text, Sketch.isPrimitive]
  | @written limit inner active id sketch part hlimit hsketch hcompound hactive _ ih =>
    intro depth he
    rw [hlimit] at he
    obtain ⟨inside, rfl, rfl⟩ := Option.map_eq_some_iff.mp he
    rw [renderIn_spell hsketch hcompound hactive fun r hr => ih r hr rfl, Drawing.text, Drawing.texts_map]

theorem Draws.unique {limit : Option Nat} {active : List Int} {id : Int} {d d' : Drawing}
    (h : t.Draws limit active id d) (h' : t.Draws limit active id d') : d' = d := by
  induction h generalizing d' with
  | primitive hsketch =>
    cases h' with
    | primitive hsketch' =>
      cases hsketch.symm.trans hsketch'
      rfl
    | again hcompound _ => exact absurd hsketch hcompound.not_primitive
    | tooDeep hcompound => exact absurd hsketch hcompound.not_primitive
    | written _ hsketch' hp _ _ =>
      cases hsketch.symm.trans hsketch'
      cases hp
  | again hcompound hactive =>
    cases h' with
    | primitive hsketch' => exact absurd hsketch' hcompound.not_primitive
    | again => rfl
    | tooDeep => rfl
    | written _ _ _ hnot _ => exact absurd hactive hnot
  | tooDeep hcompound =>
    cases h' with
    | primitive hsketch' => exact absurd hsketch' hcompound.not_primitive
    | again => rfl
    | tooDeep => rfl
    | written hlimit _ _ _ _ =>
      obtain ⟨_, -, hzero⟩ := Option.map_eq_some_iff.mp hlimit.symm
      cases hzero
  | @written limit inner active id sketch part hlimit hsketch hcompound hactive _ ih =>
    cases h' with
    | primitive hsketch' =>
      cases hsketch.symm.trans hsketch'
      cases hcompound
    | again _ hin => exact absurd hin hactive
    | tooDeep =>
      obtain ⟨_, -, hzero⟩ := Option.map_eq_some_iff.mp hlimit.symm
      cases hzero
    | @written _ inner' _ _ sketch' part' hlimit' hsketch' _ _ hparts =>
      cases hsketch.symm.trans hsketch'
      have hinner : inner' = inner :=
        Option.map_injective (fun _ _ => Nat.succ.inj) (hlimit'.symm.trans hlimit)
      subst hinner
      rw [List.map_congr_left fun r hr => ih r hr (hparts r hr)]

/-! ## Enough levels -/

/-- Different compound sketches are no more than the table has. -/
theorem length_le_compounds {ids : List Int} (hn : ids.Nodup) (h : ∀ id ∈ ids, t.Compound id) :
    ids.length ≤ t.compounds := by
  have hsub : ids ⊆ (t.sketches.filter fun e => !e.2.isPrimitive).map (·.1) := by
    intro id hid
    obtain ⟨sketch, hsketch, hp⟩ := h id hid
    exact List.mem_map.mpr ⟨(id, sketch), List.mem_filter.mpr ⟨Entries.mem_of_lookup? hsketch, by simp [hp]⟩, rfl⟩
  simpa [compounds] using (hn.subperm hsub).length_le

/-- With one level for each compound sketch that is not being written yet, the limit stops nothing. -/
theorem exists_draws (ht : t.Closed) (depth : Nat) {active : List Int} {id : Int} (hid : (t.sketch? id).isSome = true)
    (hn : active.Nodup) (hactive : ∀ a ∈ active, t.Compound a) :
    ∃ d, t.Draws (some depth) active id d ∧ (t.compounds ≤ depth + active.length → t.Draws none active id d) := by
  induction depth generalizing active id with
  | zero =>
    obtain ⟨sketch, hsketch⟩ := Option.isSome_iff_exists.mp hid
    cases hp : sketch.isPrimitive with
    | true =>
      obtain ⟨d, hd⟩ := exists_draws_primitive hsketch hp
      exact ⟨d, hd _ _, fun _ => hd _ _⟩
    | false =>
      have hcompound : t.Compound id := ⟨sketch, hsketch, hp⟩
      refine ⟨_, .tooDeep hcompound, fun hle => .again hcompound ?_⟩
      -- one more compound sketch would not fit
      by_contra hnot
      have hlen := length_le_compounds (List.nodup_cons.mpr ⟨hnot, hn⟩) (List.forall_mem_cons.mpr ⟨hcompound, hactive⟩)
      rw [List.length_cons] at hlen
      omega
  | succ depth ih =>
    obtain ⟨sketch, hsketch⟩ := Option.isSome_iff_exists.mp hid
    cases hp : sketch.isPrimitive with
    | true =>
      obtain ⟨d, hd⟩ := exists_draws_primitive hsketch hp
      exact ⟨d, hd _ _, fun _ => hd _ _⟩
    | false =>
      have hcompound : t.Compound id := ⟨sketch, hsketch, hp⟩
      by_cases hin : id ∈ active
      · exact ⟨_, .again hcompound hin, fun _ => .again hcompound hin⟩
      · have hparts : ∀ r ∈ sketch.references, ∃ d, t.Draws (some depth) (id :: active) r d ∧
            (t.compounds ≤ depth + (id :: active).length → t.Draws none (id :: active) r d) :=
          fun r hr => ih (ht id sketch hsketch r hr) (List.nodup_cons.mpr ⟨hin, hn⟩)
            (List.forall_mem_cons.mpr ⟨hcompound, hactive⟩)
        choose! part hpart using hparts
        refine ⟨_, .written rfl hsketch hp hin fun r hr => (hpart r hr).1, fun hle => ?_⟩
        refine .written rfl hsketch hp hin fun r hr => (hpart r hr).2 ?_
        rw [List.length_cons]
        omega

/-! ## Sketches inside each other -/

/-- What stands in a drawing is drawn inside the sketches above it, which are different. -/
theorem Draws.within {limit : Option Nat} {active : List Int} {id : Int} {d : Drawing} (h : t.Draws limit active id d)
    (hn : active.Nodup) {above : List Int} {e : Drawing} (he : d.Within above e) :
    (above ++ active).Nodup ∧
      ∃ inner r, limit = inner.map (· + above.length) ∧ t.Draws inner (above ++ active) r e := by
  induction he with
  | here => exact ⟨hn, limit, id, by simp, h⟩
  | part _ hp ih =>
    obtain ⟨hnodup, inner, r, hlimit, hdraws⟩ := ih
    cases hdraws with
    | written hinner hsketch hcompound hnot hparts =>
      obtain ⟨x, hx, rfl⟩ := List.mem_map.mp hp
      refine ⟨List.nodup_cons.mpr ⟨hnot, hnodup⟩, _, x, ?_, hparts x hx⟩
      rw [hlimit, hinner, Option.map_map]
      congr 1
      funext n
      simp only [Function.comp_apply, List.length_cons]
      omega

/-- What stands inside what, in a drawing that nothing is around: the sketches written inside each
other are different and at most as many as the limit, a reference to one of them is its number, and
another number stands only where the limit is reached. -/
structure Chains (t : SketchTable) (limit : Option Nat) (d : Drawing) : Prop where
  nodup {above : List Int} {e : Drawing} : d.Within above e → above.Nodup
  length_le {above : List Int} {e : Drawing} {depth : Nat} : d.Within above e → limit = some depth → above.length ≤ depth
  written {above : List Int} {id : Int} {sketch : Sketch} {parts : List Drawing} :
    d.Within above (.written id sketch parts) → t.sketch? id = some sketch ∧ id ∉ above ∧
      List.Forall₂ (fun r p => r ∈ id :: above → t.Compound r → p = .number r) sketch.references parts
  number {above : List Int} {id : Int} : d.Within above (.number id) → id ∈ above ∨ limit = some above.length

theorem Draws.chains {limit : Option Nat} {id : Int} {d : Drawing} (h : t.Draws limit [] id d) : t.Chains limit d where
  nodup he := by simpa using (h.within List.nodup_nil he).1
  length_le he hlimit := by
    obtain ⟨-, inner, -, hinner, -⟩ := h.within List.nodup_nil he
    rw [hlimit] at hinner
    obtain ⟨n, -, rfl⟩ := Option.map_eq_some_iff.mp hinner.symm
    exact Nat.le_add_left _ n
  written he := by
    obtain ⟨-, inner, r, -, hdraws⟩ := h.within List.nodup_nil he
    rw [List.append_nil] at hdraws
    cases hdraws with
    | written _ hsketch hcompound hnot hparts =>
      refine ⟨hsketch, hnot, ?_⟩
      rw [List.forall₂_map_right_iff, List.forall₂_same]
      exact fun x hx hin hc => (hparts x hx).unique (.again hc hin) |>.symm
  number he := by
    obtain ⟨-, inner, r, hlimit, hdraws⟩ := h.within List.nodup_nil he
    rw [List.append_nil] at hdraws
    cases hdraws with
    | again _ hin => exact Or.inl hin
    | tooDeep _ => exact Or.inr (by simpa using hlimit)

/-- The drawings of the sketch `id`: one for each limit and one without, which is that of all limits
from the number of compound sketches on. -/
structure Settles (t : SketchTable) (id : Int) : Prop where
  drawing (limit : Option Nat) : ∃ d, t.Draws limit [] id d ∧ t.Chains limit d ∧ ∀ d', t.Draws limit [] id d' → d' = d
  text {depth : Nat} {d : Drawing} : t.Draws (some depth) [] id d → t.render? id depth = some d.text
  unlimited {depth : Nat} {d : Drawing} : t.compounds ≤ depth → t.Draws none [] id d → t.render? id depth = some d.text
  stable {depth : Nat} : t.compounds ≤ depth → t.render? id depth = t.render? id t.compounds

theorem render_settles (ht : t.Closed) {id : Int} (hid : (t.sketch? id).isSome = true) : t.Settles id := by
  have hdraws := fun depth => exists_draws ht depth hid List.nodup_nil (by simp)
  have htext : ∀ {depth d}, t.Draws (some depth) [] id d → t.render? id depth = some d.text := fun h => h.renderIn rfl
  obtain ⟨whole, hwhole⟩ : ∃ d, t.Draws none [] id d := by
    obtain ⟨d, -, hnone⟩ := hdraws t.compounds
    exact ⟨d, hnone (Nat.le_add_right _ _)⟩
  have hunlimited : ∀ {depth}, t.compounds ≤ depth → t.render? id depth = some whole.text := by
    intro depth hle
    obtain ⟨d, hd, hnone⟩ := hdraws depth
    rw [← (hnone (Nat.le_add_right_of_le hle)).unique hwhole] at hd
    exact htext hd
  refine ⟨fun limit => ?_, htext, fun hle hd => ?_, fun hle => ?_⟩
  · cases limit with
    | none => exact ⟨whole, hwhole, hwhole.chains, fun d' => hwhole.unique⟩
    | some depth =>
      obtain ⟨d, hd, -⟩ := hdraws depth
      exact ⟨d, hd, hd.chains, fun d' => hd.unique⟩
  · rw [← hd.unique hwhole]
    exact hunlimited hle
  · rw [hunlimited hle, hunlimited (Nat.le_refl _)]

/-- A list, a node of which is its content and the list, and a function on lists. -/
def lists : SketchTable where
  sketches :=
    [(0, .pointer 1), (1, .struct [⟨0, 32, 2⟩, ⟨8, 64, 0⟩]), (2, .primitive (.whole 32)), (3, .function [0, 0] [2])]
  targets := []
  reports := []

theorem lists_settles : lists.Closed ∧ lists.compounds = 3 ∧ lists.Settles 3 ∧
    lists.render? 0 3 = some "struct#1 \x7b undefined4 @0:32; #0 @8:64 \x7d*" ∧
    lists.render? 3 2 = some "undefined4 (*)(#1*, #1*)" := by
  have hclosed : lists.Closed := by
    intro id sketch hsketch
    have hmem := Entries.mem_of_lookup? hsketch
    have hall : ∀ e ∈ lists.sketches, ∀ r ∈ e.2.references, (lists.sketch? r).isSome = true := by decide
    exact hall (id, sketch) hmem
  exact ⟨hclosed, by decide, render_settles hclosed (by decide), by decide +kernel, by decide +kernel⟩

end SketchTable

end TypeRecovery
