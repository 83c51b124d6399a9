/-
  TypeRecovery.Proofs.Sketch.Steps — what a sketch says of each step from its class.

  A step by a label from a class is part of the class's sketch (`Sketch.Shows`), or a report on
  the class says why it was left out (`Loss`): its family of uses was not the chosen one, it is
  a store whose pointee is not that of the load, it is a field narrower than another at its
  offset, or the widest field of its offset which overlaps one that was placed.

  Proved: `ofClass_accounts` (every step is shown or its loss reported) and
  `ofClass_primitive` (a class with a step has no primitive sketch).
-/

import TypeRecovery.Proofs.Sketch.Uses

namespace TypeRecovery

open TypeRecovery.Partition (Tidy)

/-- The family of sketches that a use by the label asks for. -/
def Label.family : Label → String
  | .load => "pointer"
  | .store => "pointer"
  | .input _ => "function"
  | .output _ => "function"
  | .field _ => "struct"

/-- The step by a label is part of the sketch and leads to sketch `t`. -/
def Sketch.Shows : Sketch → Label → Int → Prop
  | .function params _, .input i, t => params[i]? = some t
  | .function _ returns, .output i, t => returns[i]? = some t
  | .pointer pointee, .load, t => pointee = t
  | .pointer pointee, .store, t => pointee = t
  | .struct fields, .field f, t => ⟨f.offset, f.bits, t⟩ ∈ fields
  | _, _, _ => False

namespace TypeClass

/-- `f` is the widest field of its offset by which the class leads anywhere. -/
structure WidestField (c : TypeClass) (f : Field) : Prop where
  used : ∃ d, c.target? (.field f) = some d
  bits_le {g : Field} {d : Nat} : c.target? (.field g) = some d → g.offset = f.offset → g.bits ≤ f.bits

/-- `r` reports on the class that the step by a label to sketch `t` is not part of its sketch. -/
inductive Loss (c : TypeClass) (S : Sketch) (r : Report) : Label → Int → Prop
  | family {l : Label} {t : Int} {names : List String} : r.kind = .mixedShape →
      Entries.lookup? r.evidence "families" = some (familyNames names) →
      names.head? = some S.kindName → l.family ∈ names → l.family ≠ S.kindName → Loss c S r l t
  | pointee {loaded t : Int} : S = .pointer loaded → loaded ≠ t → r.kind = .mixedShape →
      Entries.lookup? r.evidence "kept" = some (.ofInt loaded) →
      Entries.lookup? r.evidence "dropped" = some (.ofInt t) → Loss c S r .store t
  | narrower {f : Field} {t kept : Int} : f.bits < kept → c.WidestField ⟨kept, f.offset⟩ →
      r.kind = .conflictingWidth → Entries.lookup? r.evidence "byte_offset" = some (.ofInt f.offset) →
      Entries.lookup? r.evidence "kept" = some (.ofInt kept) → Loss c S r (.field f) t
  | overlapping {f : Field} {t : Int} {fields : List StructField} {p : StructField} : c.WidestField f →
      S = .struct fields → p ∈ fields → f.overlaps p.access = true → r.kind = .overlappingField →
      Entries.lookup? r.evidence "field" = some (.ofText (Label.field f).text) →
      Entries.lookup? r.evidence "overlaps_until" = some (.ofInt p.access.endOffset) → Loss c S r (.field f) t

end TypeClass

namespace Shape

theorem slots_getElem? {es : Entries Nat Nat} {i d : Nat} (h : Entries.lookup? es i = some d) (filler : Nat) :
    (slots filler es)[i]? = some (d : Int) := by
  have hi : i ∈ es.map (·.1) := List.mem_map_of_mem (f := (·.1)) (Entries.mem_of_lookup? h)
  unfold slots
  cases hmax : (es.map (·.1)).max? with
  | none => simp_all
  | some last =>
    have hle : i ≤ last := (List.max?_eq_some_iff.mp hmax).2 i hi
    have hrange : (List.range (last + 1))[i]? = some i := List.getElem?_range (Nat.lt_succ_of_le hle)
    simp [hrange, h]

/-! ## The reports -/

section Reports

variable {c : TypeClass} {u : Uses}

/-- Uses of two families are reported with the names of all, the chosen one first. -/
theorem mixed_reported {chosen other : String} (hf : u.families.head? = some chosen) (ho : other ∈ u.families)
    (hne : other ≠ chosen) : ∃ r ∈ c.mixedReports u, r.kind = .mixedShape ∧
      Entries.lookup? r.evidence "families" = some (TypeClass.familyNames u.families) := by
  unfold TypeClass.mixedReports
  split
  · rename_i first second rest h
    rw [h]
    exact ⟨_, List.mem_singleton.mpr rfl, rfl, rfl⟩
  · rename_i h
    exfalso
    rcases hu : u.families with _ | ⟨x, _ | ⟨y, rest⟩⟩
    · simp [hu] at hf
    · simp_all
    · exact h x y rest hu

theorem pointee_reported {loaded stored : Nat} (hl : u.load = some loaded) (hs : u.store = some stored)
    (hne : loaded ≠ stored) : ∃ r ∈ c.pointeeReports u, r.kind = .mixedShape ∧
      Entries.lookup? r.evidence "kept" = some (.ofInt loaded) ∧
      Entries.lookup? r.evidence "dropped" = some (.ofInt stored) := by
  simp only [TypeClass.pointeeReports, hl, hs, if_neg hne]
  exact ⟨_, List.mem_singleton.mpr rfl, rfl, rfl, rfl⟩

end Reports

/-! ## The chosen family -/

def mixed (c : TypeClass) : List Report :=
  c.mixedReports (Uses.ofClass c) ++ c.pointeeReports (Uses.ofClass c)

/-- The four shapes, each with the family that is named first. -/
theorem ofClass_cases (s : Settings) (filler : Nat) (c : TypeClass) :
    ((Uses.ofClass c).isCalled = true ∧ (Uses.ofClass c).families.head? = some "function" ∧
      ofClass s filler c =
        ⟨.function (slots filler (Uses.ofClass c).inputs) (slots filler (Uses.ofClass c).outputs), mixed c⟩) ∨
    ((Uses.ofClass c).families.head? = some "pointer" ∧
      ∃ p, (Uses.ofClass c).pointee? = some p ∧ ofClass s filler c = ⟨.pointer p, mixed c⟩) ∨
    ((Uses.ofClass c).families.head? = some "struct" ∧
      ofClass s filler c = ⟨.struct (Layout.ofFields (Uses.ofClass c).fields).placed,
        mixed c ++ (Layout.ofFields (Uses.ofClass c).fields).conflicts.map c.conflictReport⟩) ∨
    ((Uses.ofClass c).families = [] ∧ ofClass s filler c = ⟨.primitive (c.leafWidth s), mixed c⟩) := by
  unfold Uses.families ofClass mixed
  by_cases hcall : (Uses.ofClass c).isCalled = true
  · simp [hcall]
  · cases hp : (Uses.ofClass c).pointee? with
    | some p => simp [hcall, hp]
    | none =>
      by_cases he : (Uses.ofClass c).fields = []
      · simp [hcall, hp, he]
      · simp [hcall, hp, he]

/-- The family of the sketch is the first of those that the uses show. -/
theorem families_head? (s : Settings) (filler : Nat) {c : TypeClass} (hf : (Uses.ofClass c).families ≠ []) :
    (Uses.ofClass c).families.head? = some (ofClass s filler c).sketch.kindName := by
  rcases ofClass_cases s filler c with ⟨-, hh, h⟩ | ⟨hh, p, -, h⟩ | ⟨hh, h⟩ | ⟨hn, -⟩
  · rw [hh, h]; rfl
  · rw [hh, h]; rfl
  · rw [hh, h]; rfl
  · exact absurd hn hf

theorem mixed_subset_reports (s : Settings) (filler : Nat) {c : TypeClass} {r : Report} (h : r ∈ mixed c) :
    r ∈ (ofClass s filler c).reports := by
  rcases ofClass_cases s filler c with ⟨-, -, he⟩ | ⟨-, p, -, he⟩ | ⟨-, he⟩ | ⟨-, he⟩
  · rw [he]; exact h
  · rw [he]; exact h
  · rw [he]; exact List.mem_append_left _ h
  · rw [he]; exact h

section Class

variable {c : TypeClass} (hc : Tidy c.edges)
include hc

/-- A step asks for a family of sketches that the uses show. -/
theorem family_mem_families {l : Label} {d : Nat} (h : c.target? l = some d) : l.family ∈ (Uses.ofClass c).families := by
  simp only [Uses.families, List.mem_append]
  cases l with
  | load =>
    have hp : (Uses.ofClass c).pointee?.isSome = true := by simp [Uses.pointee?, Uses.load_ofClass hc, h]
    exact Or.inl (Or.inr (by simp [hp, Label.family]))
  | store =>
    have hp : (Uses.ofClass c).pointee?.isSome = true := by simp [Uses.pointee?, Uses.store_ofClass hc, h]
    exact Or.inl (Or.inr (by simp [hp, Label.family]))
  | input i =>
    have hp := (Uses.isCalled_iff hc).mpr ⟨i, d, Or.inl h⟩
    exact Or.inl (Or.inl (by simp [hp, Label.family]))
  | output i =>
    have hp := (Uses.isCalled_iff hc).mpr ⟨i, d, Or.inr h⟩
    exact Or.inl (Or.inl (by simp [hp, Label.family]))
  | field f =>
    have hp : (Uses.ofClass c).fields ≠ [] := List.ne_nil_of_mem ((Uses.mem_fields hc).mpr ⟨d, h, rfl⟩)
    exact Or.inr (by simp [hp, Label.family])

/-- A step of another family than the chosen one is reported. -/
theorem other_family_reported (s : Settings) (filler : Nat) {l : Label} {d : Nat} (h : c.target? l = some d)
    (hne : l.family ≠ (ofClass s filler c).sketch.kindName) :
    ∃ r ∈ (ofClass s filler c).reports, c.Loss (ofClass s filler c).sketch r l d := by
  have hmem := family_mem_families hc h
  have hhead := families_head? s filler (List.ne_nil_of_mem hmem)
  obtain ⟨r, hr, hkind, hnames⟩ := mixed_reported (c := c) hhead hmem hne
  exact ⟨r, mixed_subset_reports s filler (List.mem_append_left _ hr), .family hkind hnames hhead hmem hne⟩

theorem pointer_accounts {p d : Nat} (hp : (Uses.ofClass c).pointee? = some p) {l : Label}
    (h : c.target? l = some d) (hl : l.family = "pointer") :
    (Sketch.pointer p).Shows l d ∨ ∃ r ∈ mixed c, c.Loss (.pointer p) r l d := by
  rw [Uses.pointee?, Uses.load_ofClass hc, Uses.store_ofClass hc] at hp
  cases l with
  | load =>
    rw [h] at hp
    cases hp
    exact Or.inl rfl
  | store =>
    cases hload : c.target? .load with
    | none =>
      rw [hload, h] at hp
      cases hp
      exact Or.inl rfl
    | some q =>
      rw [hload] at hp
      cases hp
      by_cases hpd : p = d
      · exact Or.inl (congrArg Nat.cast hpd)
      · obtain ⟨r, hr, hkind, hkept, hdropped⟩ := pointee_reported (c := c)
          ((Uses.load_ofClass hc).trans hload) ((Uses.store_ofClass hc).trans h) hpd
        exact Or.inr ⟨r, List.mem_append_right _ hr,
          .pointee rfl (fun e => hpd (Int.ofNat_inj.mp e)) hkind hkept hdropped⟩
  | _ => simp [Label.family] at hl

theorem widestField {f : Field} (h : Layout.Widest (Uses.ofClass c).fields f) : c.WidestField f where
  used := by
    obtain ⟨t, ht⟩ := h.used
    obtain ⟨d, hd, -⟩ := (Uses.mem_fields hc).mp ht
    exact ⟨d, hd⟩
  bits_le {g d} hg ho := h.bits_le ((Uses.mem_fields hc).mpr ⟨d, hg, rfl⟩) ho

theorem struct_accounts (hpos : ∀ f d, c.target? (.field f) = some d → 0 < f.bits) {f : Field} {d : Nat}
    (h : c.target? (.field f) = some d) :
    (Sketch.struct (Layout.ofFields (Uses.ofClass c).fields).placed).Shows (.field f) d ∨
      ∃ r ∈ (Layout.ofFields (Uses.ofClass c).fields).conflicts.map c.conflictReport,
        c.Loss (.struct (Layout.ofFields (Uses.ofClass c).fields).placed) r (.field f) d := by
  have hmem : (f, (d : Int)) ∈ (Uses.ofClass c).fields := (Uses.mem_fields hc).mpr ⟨d, h, rfl⟩
  have huniq : ∀ e ∈ (Uses.ofClass c).fields, e.1 = f → e = (f, (d : Int)) := by
    rintro ⟨g, t⟩ he rfl
    obtain ⟨d', hd', rfl⟩ := (Uses.mem_fields hc).mp he
    rw [h, Option.some_inj] at hd'
    rw [hd']
  rcases Layout.ofFields_settles hmem huniq with hplaced | ⟨ws, kept, hcon, -, hlt, hwide⟩ | ⟨hwide, p, hp, hblock, hcon⟩
  · exact Or.inl hplaced
  · exact Or.inr ⟨_, List.mem_map_of_mem hcon, .narrower hlt (widestField hc hwide) rfl rfl rfl⟩
  · refine Or.inr ⟨_, List.mem_map_of_mem hcon, .overlapping (widestField hc hwide) rfl hp ?_ rfl rfl rfl⟩
    -- `p` begins before `f`, which is not empty
    have hbits := hpos f d h
    have hbegin : p.offset < f.offset := hblock.1
    simp only [Field.overlaps, Bool.and_eq_true, decide_eq_true_eq]
    refine ⟨hblock.2, ?_⟩
    show p.offset < f.offset + (f.bits + 7) / 8
    omega

/-- A step of the chosen family is part of the sketch or reported. -/
theorem chosen_family_accounts (hpos : ∀ f d, c.target? (.field f) = some d → 0 < f.bits) (s : Settings) (filler : Nat)
    {l : Label} {d : Nat} (h : c.target? l = some d) (hf : l.family = (ofClass s filler c).sketch.kindName) :
    (ofClass s filler c).sketch.Shows l d ∨
      ∃ r ∈ (ofClass s filler c).reports, c.Loss (ofClass s filler c).sketch r l d := by
  rcases ofClass_cases s filler c with ⟨-, -, he⟩ | ⟨-, p, hp, he⟩ | ⟨-, he⟩ | ⟨-, he⟩
  · rw [he] at hf ⊢
    cases l with
    | input i => exact Or.inl (slots_getElem? ((Uses.lookup?_inputs hc i).trans h) filler)
    | output i => exact Or.inl (slots_getElem? ((Uses.lookup?_outputs hc i).trans h) filler)
    | _ => simp [Label.family, Sketch.kindName] at hf
  · rw [he] at hf ⊢
    exact pointer_accounts hc hp h hf
  · rw [he] at hf ⊢
    cases l with
    | field f =>
      rcases struct_accounts hc hpos h with hs | ⟨r, hr, hloss⟩
      · exact Or.inl hs
      · exact Or.inr ⟨r, List.mem_append_right _ hr, hloss⟩
    | _ => simp [Label.family, Sketch.kindName] at hf
  · rw [he] at hf
    cases l <;> simp [Label.family, Sketch.kindName] at hf

/-- Every step from a class is part of its sketch or reported. -/
theorem ofClass_accounts (hpos : ∀ f d, c.target? (.field f) = some d → 0 < f.bits) (s : Settings) (filler : Nat)
    {l : Label} {d : Nat} (h : c.target? l = some d) :
    (ofClass s filler c).sketch.Shows l d ∨
      ∃ r ∈ (ofClass s filler c).reports, c.Loss (ofClass s filler c).sketch r l d := by
  by_cases hf : l.family = (ofClass s filler c).sketch.kindName
  · exact chosen_family_accounts hc hpos s filler h hf
  · exact Or.inr (other_family_reported hc s filler h hf)

/-- A class with a primitive sketch leads nowhere. -/
theorem ofClass_primitive (s : Settings) (filler : Nat) {w : Amount} (h : (ofClass s filler c).sketch = .primitive w)
    (l : Label) : c.target? l = none := by
  refine Option.eq_none_iff_forall_ne_some.mpr fun d hd => ?_
  rcases ofClass_cases s filler c with ⟨-, -, he⟩ | ⟨-, p, -, he⟩ | ⟨-, he⟩ | ⟨hn, -⟩
  · rw [he] at h; cases h
  · rw [he] at h; cases h
  · rw [he] at h; cases h
  · exact List.ne_nil_of_mem (family_mem_families hc hd) hn

end Class

end Shape

end TypeRecovery
