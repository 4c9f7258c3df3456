import ForeignCall.Layout
import ForeignCall.Proofs.Stopping
import Mathlib.Algebra.Ring.Nat

/-!
# The geometry of layouts

* `Layout.alignment_cases`: alignments are 1, 2, 4 or 8;
* `ScalarField.Ordered`: scalar leaves that follow each other between two offsets without overlaps;
* `Layout.scalars_ordered`: so do the scalar leaves of a layout.
-/

namespace ForeignCall

variable {fields fields' : List ScalarField} {lo mid hi base size last stride : Nat} {offsets : List Nat}

theorem le_of_alignUp {a r : Nat} (h : alignUp size a = .ok r) : size ≤ r := by
  obtain ⟨raised, hraised, h⟩ := bind_eq_ok.1 h
  obtain ⟨top, htop, h⟩ := bind_eq_ok.1 h
  obtain ⟨mask, hmask, h⟩ := bind_eq_ok.1 h
  obtain ⟨-, rfl⟩ := checkedAdd_eq_ok.1 hraised
  obtain ⟨-, rfl⟩ := checkedSub_eq_ok.1 htop
  obtain ⟨hpos, rfl⟩ := checkedSub_eq_ok.1 hmask
  obtain rfl := pure_eq_ok.1 h
  have := le_clearBits_add (size + a - 1) (a - 1)
  omega

/-! ### Scalar leaves -/

/-- Scalar leaves that follow each other between two offsets. -/
def ScalarField.Ordered (lo hi : Nat) : List ScalarField → Prop
  | [] => lo ≤ hi
  | f :: fields => lo ≤ f.offset ∧ Ordered (f.offset + f.kind.byteSize) hi fields

namespace ScalarField.Ordered

theorem mono {lo' hi' : Nat} (h : Ordered lo hi fields) (hlo : lo' ≤ lo) (hhi : hi ≤ hi') :
    Ordered lo' hi' fields := by
  induction fields generalizing lo lo' with
  | nil => exact Nat.le_trans hlo (Nat.le_trans h hhi)
  | cons f fields ih => exact ⟨Nat.le_trans hlo h.1, ih h.2 (Nat.le_refl _)⟩

theorem append (h : Ordered lo mid fields) (h' : Ordered mid hi fields') :
    Ordered lo hi (fields ++ fields') := by
  induction fields generalizing lo with
  | nil => exact h'.mono h (Nat.le_refl _)
  | cons f fields ih => exact ⟨h.1, ih h.2⟩

theorem bounds (h : Ordered lo hi fields) : lo + (fields.map fun f => f.kind.byteSize).sum ≤ hi ∧
    ∀ f ∈ fields, lo ≤ f.offset ∧ f.offset + f.kind.byteSize ≤ hi := by
  induction fields generalizing lo with
  | nil => exact ⟨h, by simp⟩
  | cons f fields ih =>
    obtain ⟨hlo, hrest⟩ := h
    obtain ⟨hsum, hfields⟩ := ih hrest
    refine ⟨by simp only [List.map_cons, List.sum_cons]; omega, fun g hg => ?_⟩
    rcases List.mem_cons.1 hg with rfl | hg
    · exact ⟨hlo, by omega⟩
    · have := hfields g hg
      omega

/-- Leaves as large together as the room between the offsets leave no gap. -/
theorem cover (h : Ordered lo hi fields) (hfull : hi ≤ lo + (fields.map fun f => f.kind.byteSize).sum) {i : Nat}
    (hlo : lo ≤ i) (hhi : i < hi) : ∃ f ∈ fields, f.offset ≤ i ∧ i < f.offset + f.kind.byteSize := by
  induction fields generalizing lo with
  | nil =>
    simp only [List.map_nil, List.sum_nil] at hfull
    omega
  | cons f fields ih =>
    obtain ⟨hle, hrest⟩ := h
    have hsum := hrest.bounds.1
    simp only [List.map_cons, List.sum_cons] at hfull
    by_cases hi : i < f.offset + f.kind.byteSize
    · exact ⟨f, by simp, by omega, hi⟩
    · obtain ⟨g, hg, hgi⟩ := ih hrest (by omega) (by omega)
      exact ⟨g, by simp [hg], hgi⟩

theorem parts {f : Nat → Except Overflow (List ScalarField)} {parts : List (List ScalarField)} {start n : Nat}
    (h : (List.range' start n).mapM f = .ok parts)
    (hf : ∀ i fields, f i = .ok fields → Ordered (base + i * stride) (base + i * stride + stride) fields) :
    Ordered (base + start * stride) (base + (start + n) * stride) parts.flatten := by
  induction n generalizing start parts with
  | zero =>
    cases h
    exact Nat.le_refl _
  | succ n ih =>
    rw [List.range'_succ, List.mapM_cons] at h
    obtain ⟨part, hpart, h⟩ := bind_eq_ok.1 h
    obtain ⟨rest, hrest, h⟩ := bind_eq_ok.1 h
    cases h
    have hih := ih hrest
    rw [show start + 1 + n = start + (n + 1) by omega] at hih
    refine append (hf start part hpart) (hih.mono ?_ (Nat.le_refl _))
    rw [Nat.succ_mul]
    omega

end ScalarField.Ordered

theorem Primitive.byteSize_cases (p : Primitive) :
    p.byteSize = 1 ∨ p.byteSize = 2 ∨ p.byteSize = 4 ∨ p.byteSize = 8 := by
  cases p <;> decide

/-! ### Layouts -/

namespace Layout

mutual
theorem alignment_cases : ∀ l : Layout, l.alignment = 1 ∨ l.alignment = 2 ∨ l.alignment = 4 ∨ l.alignment = 8
  | .value p => p.byteSize_cases
  | .address => .inr (.inr (.inr rfl))
  | .struct ms => maxAlignment_cases ms
  | .sequence _ e => alignment_cases e
  | .padding _ => .inl rfl
theorem maxAlignment_cases :
    ∀ ms : List Layout, maxAlignment ms = 1 ∨ maxAlignment ms = 2 ∨ maxAlignment ms = 4 ∨ maxAlignment ms = 8
  | [] => .inl rfl
  | m :: ms => by
    have hm := alignment_cases m
    have hms := maxAlignment_cases ms
    rw [maxAlignment]
    omega
end

theorem isAggregate_of_ne {l : Layout} (hvalue : ∀ kind, l ≠ .value kind) (haddress : l ≠ .address) :
    l.isAggregate = true := by
  cases l with
  | value kind => exact absurd rfl (hvalue kind)
  | address => exact absurd rfl haddress
  | _ => rfl

theorem byteSize_le_of_not_aggregate {l : Layout} (h : l.isAggregate = false) (hsize : l.byteSize = .ok size) :
    size ≤ 8 := by
  cases l with
  | value kind =>
    cases hsize
    exact kind.byteSize_le
  | address =>
    cases hsize
    exact Nat.le_refl _
  | _ => cases h

theorem alignment_le (l : Layout) : l.alignment ≤ 8 := by
  have := l.alignment_cases
  omega

mutual
theorem scalarsFrom_ordered : ∀ (l : Layout) {base size : Nat} {fields : List ScalarField},
    l.scalarsFrom base = .ok fields → l.byteSize = .ok size → ScalarField.Ordered base (base + size) fields
  | .value p, base, size, fields, h, hsize => by
    cases h
    cases hsize
    exact ⟨Nat.le_refl _, Nat.le_refl _⟩
  | .address, base, size, fields, h, hsize => by
    cases h
    cases hsize
    exact ⟨Nat.le_refl _, Nat.le_refl _⟩
  | .struct ms, base, size, fields, h, hsize => by
    rw [scalarsFrom] at h
    rw [byteSize] at hsize
    obtain ⟨offsets, hoffsets, h⟩ := bind_eq_ok.1 h
    obtain ⟨last, hlast, hsize⟩ := bind_eq_ok.1 hsize
    have hle := le_of_alignUp hsize
    exact (membersScalars_ordered ms hoffsets hlast h).mono (Nat.le_refl _) (by omega)
  | .sequence n e, base, size, fields, h, hsize => by
    rw [scalarsFrom] at h
    rw [byteSize] at hsize
    obtain ⟨stride, hstride, hsize⟩ := bind_eq_ok.1 hsize
    obtain ⟨stride', hstride', h⟩ := bind_eq_ok.1 h
    obtain rfl := ok_unique hstride hstride'
    obtain ⟨parts, hparts, h⟩ := bind_eq_ok.1 h
    cases h
    obtain ⟨-, rfl⟩ := checkedMul_eq_ok.1 hsize
    rw [List.range_eq_range'] at hparts
    have hordered : ScalarField.Ordered (base + 0 * stride) (base + (0 + n) * stride) parts.flatten := by
      refine .parts hparts fun i part hpart => ?_
      obtain ⟨shift, hshift, hpart⟩ := bind_eq_ok.1 hpart
      obtain ⟨start, hstart, hpart⟩ := bind_eq_ok.1 hpart
      obtain ⟨-, rfl⟩ := checkedMul_eq_ok.1 hshift
      obtain ⟨-, rfl⟩ := checkedAdd_eq_ok.1 hstart
      exact scalarsFrom_ordered e hpart hstride
    rwa [Nat.zero_mul, Nat.zero_add, Nat.add_zero, Nat.mul_comm] at hordered
  | .padding n, base, size, fields, h, _ => by
    cases h
    exact Nat.le_add_right _ _
theorem membersScalars_ordered : ∀ (ms : List Layout) {base lo last : Nat} {offsets : List Nat}
    {fields : List ScalarField}, offsetsFrom lo ms = .ok offsets → membersEnd lo ms = .ok last →
      membersScalars base ms offsets = .ok fields →
      ScalarField.Ordered (base + lo) (base + last) fields
  | [], base, lo, last, offsets, fields, hoffsets, hlast, h => by
    cases hoffsets
    cases hlast
    cases h
    exact Nat.le_refl _
  | m :: ms, base, lo, last, offsets, fields, hoffsets, hlast, h => by
    rw [offsetsFrom] at hoffsets
    rw [membersEnd] at hlast
    obtain ⟨start, hstart, hoffsets⟩ := bind_eq_ok.1 hoffsets
    obtain ⟨size, hsize, hoffsets⟩ := bind_eq_ok.1 hoffsets
    obtain ⟨next, hnext, hoffsets⟩ := bind_eq_ok.1 hoffsets
    obtain ⟨rest, hrest, hoffsets⟩ := bind_eq_ok.1 hoffsets
    cases hoffsets
    simp only [hstart, hsize, hnext, ok_bind] at hlast
    obtain ⟨-, rfl⟩ := checkedAdd_eq_ok.1 hnext
    rw [membersScalars] at h
    obtain ⟨first, hfirst, h⟩ := bind_eq_ok.1 h
    obtain ⟨fields₁, hfields₁, h⟩ := bind_eq_ok.1 h
    obtain ⟨fields₂, hfields₂, h⟩ := bind_eq_ok.1 h
    cases h
    obtain ⟨-, rfl⟩ := checkedAdd_eq_ok.1 hfirst
    have hle := le_of_alignUp hstart
    have hm := (scalarsFrom_ordered m hfields₁ hsize).mono (show base + lo ≤ base + start by omega)
      (Nat.le_refl _)
    have hms := membersScalars_ordered ms hrest hlast hfields₂
    rw [← Nat.add_assoc] at hms
    exact hm.append hms
end

/-- **The scalar leaves of a layout follow each other within its bytes.** -/
theorem scalars_ordered {l : Layout} (h : l.scalars = .ok fields) (hsize : l.byteSize = .ok size) :
    ScalarField.Ordered 0 size fields := by
  have hordered := scalarsFrom_ordered l h hsize
  rwa [Nat.zero_add] at hordered

end Layout

end ForeignCall
