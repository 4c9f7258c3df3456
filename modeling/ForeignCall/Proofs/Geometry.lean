import ForeignCall.Proofs.Arrangement.Support

/-!
# Layouts and the words they are cut into

* `Layout.leaves`: the kinds of the scalar leaves of a layout, read off its shape.  `Layout.scalars` gives a
  leaf for each of them and no other (`Layout.kinds_of_scalars`);
* `ScalarField.InWord`: a leaf that crosses no word boundary, as any aligned leaf does
  (`ScalarField.Aligned.inWord`);
* `SysV.classify_eq_none_iff`: an aggregate is classified as one for memory by its size alone;
* `layout_geometry`: all that arranging relies on.
-/

namespace ForeignCall

variable {l : Layout} {ms : List Layout} {fields : List ScalarField} {base size alignment : Nat}
  {offsets : List Nat}

/-! ### The leaves of a shape -/

namespace Layout

mutual
/-- The kinds of the scalar leaves of a layout, in order. -/
def leaves : Layout → List Primitive
  | .value p => [p]
  | .address => [.i64]
  | .struct ms => membersLeaves ms
  | .sequence n e => (List.replicate n e.leaves).flatten
  | .padding _ => []
/-- The kinds of the scalar leaves of some members. -/
def membersLeaves : List Layout → List Primitive
  | [] => []
  | m :: ms => m.leaves ++ membersLeaves ms
end

theorem length_of_offsetsFrom {lo : Nat} (h : offsetsFrom lo ms = .ok offsets) :
    offsets.length = ms.length := by
  induction ms generalizing lo offsets with
  | nil =>
    cases h
    rfl
  | cons m ms ih =>
    obtain ⟨start, -, h⟩ := bind_eq_ok.1 h
    obtain ⟨size, -, h⟩ := bind_eq_ok.1 h
    obtain ⟨next, -, h⟩ := bind_eq_ok.1 h
    obtain ⟨rest, hrest, h⟩ := bind_eq_ok.1 h
    cases h
    rw [List.length_cons, List.length_cons, ih hrest]

mutual
theorem kinds_of_scalarsFrom : ∀ (l : Layout) {base : Nat} {fields : List ScalarField},
    l.scalarsFrom base = .ok fields → fields.map ScalarField.kind = l.leaves
  | .value p, base, fields, h => by
    cases h
    rfl
  | .address, base, fields, h => by
    cases h
    rfl
  | .struct ms, base, fields, h => by
    obtain ⟨offsets, hoffsets, h⟩ := bind_eq_ok.1 h
    exact kinds_of_membersScalars ms (length_of_offsetsFrom hoffsets) h
  | .sequence n e, base, fields, h => by
    obtain ⟨stride, -, h⟩ := bind_eq_ok.1 h
    obtain ⟨parts, hparts, h⟩ := bind_eq_ok.1 h
    cases h
    have hkinds : parts.map (List.map ScalarField.kind) = List.replicate n e.leaves := by
      refine List.eq_replicate_iff.2 ⟨?_, ?_⟩
      · rw [List.length_map, length_of_mapM hparts, List.length_range]
      · rw [List.forall_mem_map]
        intro part hpart
        obtain ⟨i, -, hi⟩ := of_mem_mapM hparts part hpart
        obtain ⟨shift, -, hi⟩ := bind_eq_ok.1 hi
        obtain ⟨start, -, hi⟩ := bind_eq_ok.1 hi
        exact kinds_of_scalarsFrom e hi
    rw [List.map_flatten, hkinds, leaves]
  | .padding n, base, fields, h => by
    cases h
    rfl
theorem kinds_of_membersScalars : ∀ (ms : List Layout) {base : Nat} {offsets : List Nat}
    {fields : List ScalarField}, offsets.length = ms.length → membersScalars base ms offsets = .ok fields →
      fields.map ScalarField.kind = membersLeaves ms
  | [], base, offsets, fields, _, h => by
    cases h
    rfl
  | m :: ms, base, [], fields, hlength, _ => by cases hlength
  | m :: ms, base, offset :: offsets, fields, hlength, h => by
    obtain ⟨start, -, h⟩ := bind_eq_ok.1 h
    obtain ⟨first, hfirst, h⟩ := bind_eq_ok.1 h
    obtain ⟨rest, hrest, h⟩ := bind_eq_ok.1 h
    cases h
    rw [List.map_append, kinds_of_scalarsFrom m hfirst,
      kinds_of_membersScalars ms (by simpa using hlength) hrest, membersLeaves]
end

/-- **Every leaf of a layout is listed**, once for each time that it occurs. -/
theorem kinds_of_scalars (h : l.scalars = .ok fields) : fields.map ScalarField.kind = l.leaves :=
  kinds_of_scalarsFrom l h

theorem exists_memberOffsets (hsize : l.byteSize = .ok size) : ∃ offsets, l.memberOffsets = .ok offsets := by
  cases l with
  | struct ms =>
    obtain ⟨last, hlast, -⟩ := bind_eq_ok.1 hsize
    exact (exists_offsetsFrom hlast).2
  | _ => exact ⟨[], rfl⟩

end Layout

/-! ### Words -/

/-- The leaf lies within one word of the aggregate. -/
def ScalarField.InWord (f : ScalarField) : Prop := f.offset / 8 = (f.offset + f.kind.byteSize - 1) / 8

/-- A leaf at a multiple of its size crosses no word boundary, since its size divides that of a word. -/
theorem ScalarField.Aligned.inWord {f : ScalarField} (h : f.Aligned alignment) : f.InWord := by
  obtain ⟨-, hoffset⟩ := h
  unfold InWord
  rcases f.kind.byteSize_cases with hsize | hsize | hsize | hsize <;> rw [hsize] at hoffset ⊢ <;> omega

/-- **Only size sends an aggregate to memory.**  The check for misaligned leaves never fails. -/
theorem SysV.classify_eq_none_iff (hsize : l.byteSize = .ok size) (hlimit : size < wordLimit) :
    classify l = .ok none ↔ l.isAggregate = true ∧ maxRegisterAggregate < size := by
  constructor
  · intro h
    have hlarge : maxRegisterAggregate < size := by
      by_contra hsmall
      obtain rfl | hpos := Nat.eq_zero_or_pos size
      · rw [classify_empty hsize] at h
        cases h
      · obtain ⟨classes, hclasses, -⟩ := classify_small hsize hlimit hpos (by omega)
        rw [hclasses] at h
        cases h
    refine ⟨?_, hlarge⟩
    cases haggregate : l.isAggregate with
    | true => rfl
    | false =>
      have hle := Layout.byteSize_le_of_not_aggregate haggregate hsize
      unfold maxRegisterAggregate at hlarge
      omega
  · rintro ⟨-, hlarge⟩
    exact classify_large hsize hlarge

/-- **The geometry of layouts is sound.**  A layout that has a size has an alignment of 1, 2, 4 or 8 that
divides the size, member offsets, and scalar leaves.  The leaves are those of its shape, in order; they
follow each other within its bytes without overlaps, each at a multiple of its own size, so that none
crosses a word boundary.  Hence an aggregate is classified as one for memory just when it has more than 16
bytes. -/
theorem layout_geometry (hsize : l.byteSize = .ok size) (hlimit : size < wordLimit) :
    (l.alignment = 1 ∨ l.alignment = 2 ∨ l.alignment = 4 ∨ l.alignment = 8) ∧ l.alignment ∣ size ∧
    (∃ offsets, l.memberOffsets = .ok offsets) ∧
    (∃ fields, l.scalars = .ok fields ∧ fields.map ScalarField.kind = l.leaves ∧
      ScalarField.Ordered 0 size fields ∧
      ∀ f ∈ fields, f.kind.byteSize ∣ f.offset ∧ f.InWord) ∧
    (SysV.classify l = .ok none ↔ l.isAggregate = true ∧ 16 < size) := by
  obtain ⟨fields, hfields⟩ := Layout.exists_scalars hsize hlimit
  refine ⟨l.alignment_cases, l.alignment_dvd_byteSize hsize, Layout.exists_memberOffsets hsize,
    ⟨fields, hfields, ?_⟩, SysV.classify_eq_none_iff hsize hlimit⟩
  refine ⟨Layout.kinds_of_scalars hfields, Layout.scalars_ordered hfields hsize, fun f hf => ?_⟩
  have haligned := Layout.scalars_aligned hfields f hf
  exact ⟨haligned.2, haligned.inWord⟩

/-- A structure in a structure, after an empty array that moves it to the next word, and before an array of
structures with padding at their ends. -/
theorem layout_geometry_nested :
    let inner : Layout := .struct [.value .i16, .value .bool]
    let l : Layout :=
      .struct [.value .i8, .sequence 0 (.value .f64), .struct [.value .f32, .padding 3], .sequence 2 inner]
    l.byteSize = .ok 24 ∧ l.alignment ∣ 24 ∧
    (∃ fields, l.scalars = .ok fields ∧ fields.map ScalarField.kind = [.i8, .f32, .i16, .bool, .i16, .bool] ∧
      ScalarField.Ordered 0 24 fields) ∧ SysV.classify l = .ok none := by
  intro inner l
  have hsize : l.byteSize = .ok 24 := by cbv
  obtain ⟨-, hdvd, -, ⟨fields, hfields, hkinds, hordered, -⟩, hmemory⟩ := layout_geometry hsize (by decide)
  exact ⟨hsize, hdvd, ⟨fields, hfields, hkinds, hordered⟩, hmemory.2 ⟨rfl, by decide⟩⟩

end ForeignCall
