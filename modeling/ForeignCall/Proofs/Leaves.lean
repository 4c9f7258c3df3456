import ForeignCall.Proofs.Layout

/-!
# Where the leaves of a layout lie

* `Layout.alignment_dvd_byteSize`: the size of a layout is a multiple of its alignment;
* `Layout.exists_scalars`: a layout that has a size has scalar leaves;
* `Layout.scalars_aligned`: each of them lies at a multiple of its size, and its size divides the alignment
  of the layout.
-/

namespace ForeignCall

variable {fields : List ScalarField} {base size lo last : Nat} {offsets : List Nat} {l : Layout}

/-! ### Lists of computations -/

section Lists

variable {ε α β : Type} {f : α → Except ε β} {xs : List α} {ys : List β}

theorem exists_mapM (h : ∀ x ∈ xs, ∃ y, f x = .ok y) : ∃ ys, xs.mapM f = .ok ys := by
  induction xs with
  | nil => exact ⟨[], rfl⟩
  | cons x xs ih =>
    obtain ⟨y, hy⟩ := h x (by simp)
    obtain ⟨ys, hys⟩ := ih fun x hx => h x (List.mem_cons_of_mem _ hx)
    exact ⟨y :: ys, by rw [List.mapM_cons, hy, ok_bind, hys, ok_bind]; rfl⟩

theorem length_of_mapM (h : xs.mapM f = .ok ys) : ys.length = xs.length := by
  induction xs generalizing ys with
  | nil =>
    cases h
    rfl
  | cons x xs ih =>
    rw [List.mapM_cons] at h
    obtain ⟨y, -, h⟩ := bind_eq_ok.1 h
    obtain ⟨rest, hrest, h⟩ := bind_eq_ok.1 h
    cases h
    rw [List.length_cons, List.length_cons, ih hrest]

theorem of_mem_mapM (h : xs.mapM f = .ok ys) : ∀ y ∈ ys, ∃ x ∈ xs, f x = .ok y := by
  induction xs generalizing ys with
  | nil =>
    cases h
    simp
  | cons x xs ih =>
    rw [List.mapM_cons] at h
    obtain ⟨y, hy, h⟩ := bind_eq_ok.1 h
    obtain ⟨rest, hrest, h⟩ := bind_eq_ok.1 h
    cases h
    intro z hz
    rcases List.mem_cons.1 hz with rfl | hz
    · exact ⟨x, by simp, hy⟩
    · obtain ⟨x', hx', hfx⟩ := ih hrest z hz
      exact ⟨x', List.mem_cons_of_mem _ hx', hfx⟩

end Lists

/-! ### Alignments -/

/-- The leaf lies at a multiple of its size, which divides the alignment. -/
def ScalarField.Aligned (alignment : Nat) (f : ScalarField) : Prop :=
  f.kind.byteSize ∣ alignment ∧ f.kind.byteSize ∣ f.offset

theorem pow_dvd_of_alignUp {k r : Nat} (h : alignUp size (Nat.pow 2 k) = .ok r) : Nat.pow 2 k ∣ r := by
  obtain ⟨raised, -, h⟩ := bind_eq_ok.1 h
  obtain ⟨top, -, h⟩ := bind_eq_ok.1 h
  obtain ⟨mask, hmask, h⟩ := bind_eq_ok.1 h
  obtain ⟨-, rfl⟩ := checkedSub_eq_ok.1 hmask
  obtain rfl := pure_eq_ok.1 h
  rw [clearBits_pow]
  exact Nat.dvd_mul_left _ _

/-- Rounding up to one of the alignments of a layout gives a multiple of it. -/
theorem dvd_of_alignUp {a r : Nat} (h : alignUp size a = .ok r)
    (ha : a = 1 ∨ a = 2 ∨ a = 4 ∨ a = 8) : a ∣ r := by
  obtain ⟨k, rfl⟩ : ∃ k, a = Nat.pow 2 k := by
    rcases ha with rfl | rfl | rfl | rfl
    · exact ⟨0, rfl⟩
    · exact ⟨1, rfl⟩
    · exact ⟨2, rfl⟩
    · exact ⟨3, rfl⟩
  exact pow_dvd_of_alignUp h

namespace Layout

theorem alignment_dvd_max (l : Layout) (ms : List Layout) :
    l.alignment ∣ max l.alignment (maxAlignment ms) ∧ maxAlignment ms ∣ max l.alignment (maxAlignment ms) := by
  rcases l.alignment_cases with h | h | h | h <;> rcases maxAlignment_cases ms with h' | h' | h' | h' <;>
    rw [h, h'] <;> decide

theorem alignment_dvd_byteSize : ∀ (l : Layout) {size : Nat}, l.byteSize = .ok size → l.alignment ∣ size
  | .value p, size, h => by
    cases h
    exact Nat.dvd_refl _
  | .address, size, h => by
    cases h
    exact Nat.dvd_refl _
  | .struct ms, size, h => by
    rw [byteSize] at h
    obtain ⟨last, -, h⟩ := bind_eq_ok.1 h
    exact dvd_of_alignUp h (maxAlignment_cases ms)
  | .sequence n e, size, h => by
    rw [byteSize] at h
    obtain ⟨stride, hstride, h⟩ := bind_eq_ok.1 h
    obtain ⟨-, rfl⟩ := checkedMul_eq_ok.1 h
    exact Nat.dvd_mul_right_of_dvd (alignment_dvd_byteSize e hstride) n
  | .padding n, size, h => Nat.one_dvd _

/-! ### Leaves that exist -/

theorem exists_offsetsFrom {ms : List Layout} (h : membersEnd lo ms = .ok last) :
    lo ≤ last ∧ ∃ offsets, offsetsFrom lo ms = .ok offsets := by
  induction ms generalizing lo with
  | nil =>
    cases h
    exact ⟨Nat.le_refl _, [], rfl⟩
  | cons m ms ih =>
    rw [membersEnd] at h
    obtain ⟨start, hstart, h⟩ := bind_eq_ok.1 h
    obtain ⟨size, hsize, h⟩ := bind_eq_ok.1 h
    obtain ⟨next, hnext, h⟩ := bind_eq_ok.1 h
    obtain ⟨hle, rest, hrest⟩ := ih h
    have hstart' := le_of_alignUp hstart
    obtain ⟨-, rfl⟩ := checkedAdd_eq_ok.1 hnext
    refine ⟨by omega, start :: rest, ?_⟩
    rw [offsetsFrom, hstart, ok_bind, hsize, ok_bind, hnext, ok_bind, hrest]
    rfl

mutual
theorem exists_scalarsFrom : ∀ (l : Layout) (base : Nat) {size : Nat},
    l.byteSize = .ok size → base + size < wordLimit → ∃ fields, l.scalarsFrom base = .ok fields
  | .value p, base, size, _, _ => ⟨_, rfl⟩
  | .address, base, size, _, _ => ⟨_, rfl⟩
  | .struct ms, base, size, hsize, hlimit => by
    rw [byteSize] at hsize
    obtain ⟨last, hlast, hsize⟩ := bind_eq_ok.1 hsize
    have hle := le_of_alignUp hsize
    obtain ⟨-, offsets, hoffsets⟩ := exists_offsetsFrom hlast
    obtain ⟨fields, hfields⟩ := exists_membersScalars ms base hoffsets hlast (by omega)
    exact ⟨fields, by rw [scalarsFrom, hoffsets, ok_bind, hfields]⟩
  | .sequence n e, base, size, hsize, hlimit => by
    rw [byteSize] at hsize
    obtain ⟨stride, hstride, hsize⟩ := bind_eq_ok.1 hsize
    obtain ⟨-, rfl⟩ := checkedMul_eq_ok.1 hsize
    obtain ⟨parts, hparts⟩ : ∃ parts, (List.range n).mapM (fun i => do
        let shift ← checkedMul i stride
        let start ← checkedAdd base shift
        scalarsFrom start e) = .ok parts := by
      refine exists_mapM fun i hi => ?_
      have hlt := List.mem_range.1 hi
      have hend : i * stride + stride ≤ stride * n := by
        rw [← Nat.succ_mul, Nat.mul_comm stride]
        exact Nat.mul_le_mul_right stride hlt
      obtain ⟨fields, hfields⟩ := exists_scalarsFrom e (base + i * stride) hstride (by omega)
      refine ⟨fields, ?_⟩
      rw [checkedMul_eq_ok.2 ⟨by omega, rfl⟩, ok_bind, checkedAdd_eq_ok.2 ⟨by omega, rfl⟩, ok_bind, hfields]
    exact ⟨parts.flatten, by rw [scalarsFrom, hstride, ok_bind, hparts]; rfl⟩
  | .padding n, base, size, _, _ => ⟨_, rfl⟩
theorem exists_membersScalars : ∀ (ms : List Layout) (base : Nat) {lo last : Nat} {offsets : List Nat},
    offsetsFrom lo ms = .ok offsets → membersEnd lo ms = .ok last → base + last < wordLimit →
      ∃ fields, membersScalars base ms offsets = .ok fields
  | [], base, lo, last, offsets, hoffsets, _, _ => by
    cases hoffsets
    exact ⟨[], rfl⟩
  | m :: ms, base, lo, last, offsets, hoffsets, hlast, hlimit => by
    rw [offsetsFrom] at hoffsets
    rw [membersEnd] at hlast
    obtain ⟨start, hstart, hoffsets⟩ := bind_eq_ok.1 hoffsets
    obtain ⟨size, hsize, hoffsets⟩ := bind_eq_ok.1 hoffsets
    obtain ⟨next, hnext, hoffsets⟩ := bind_eq_ok.1 hoffsets
    obtain ⟨rest, hrest, hoffsets⟩ := bind_eq_ok.1 hoffsets
    cases hoffsets
    simp only [hstart, hsize, hnext, ok_bind] at hlast
    obtain ⟨-, rfl⟩ := checkedAdd_eq_ok.1 hnext
    have hle := (exists_offsetsFrom hlast).1
    obtain ⟨first, hfirst⟩ := exists_scalarsFrom m (base + start) hsize (by omega)
    obtain ⟨fields, hfields⟩ := exists_membersScalars ms base hrest hlast hlimit
    refine ⟨first ++ fields, ?_⟩
    rw [membersScalars, checkedAdd_eq_ok.2 ⟨by omega, rfl⟩, ok_bind, hfirst, ok_bind, hfields]
    rfl
end

/-- The layout has a size. -/
def Sized (l : Layout) : Prop := ∃ size, l.byteSize = .ok size ∧ size < wordLimit

theorem exists_scalars (hsize : l.byteSize = .ok size) (hlimit : size < wordLimit) :
    ∃ fields, l.scalars = .ok fields :=
  exists_scalarsFrom l 0 hsize (by omega)

/-! ### Leaves that are aligned -/

mutual
theorem scalarsFrom_aligned : ∀ (l : Layout) {base : Nat} {fields : List ScalarField},
    l.scalarsFrom base = .ok fields → l.alignment ∣ base → ∀ f ∈ fields, f.Aligned l.alignment
  | .value p, base, fields, h, hbase => by
    cases h
    intro f hf
    obtain rfl := List.mem_singleton.1 hf
    exact ⟨Nat.dvd_refl _, hbase⟩
  | .address, base, fields, h, hbase => by
    cases h
    intro f hf
    obtain rfl := List.mem_singleton.1 hf
    exact ⟨Nat.dvd_refl _, hbase⟩
  | .struct ms, base, fields, h, hbase => by
    rw [scalarsFrom] at h
    obtain ⟨offsets, hoffsets, h⟩ := bind_eq_ok.1 h
    exact membersScalars_aligned ms hoffsets h hbase
  | .sequence n e, base, fields, h, hbase => by
    rw [scalarsFrom] at h
    obtain ⟨stride, hstride, h⟩ := bind_eq_ok.1 h
    obtain ⟨parts, hparts, h⟩ := bind_eq_ok.1 h
    cases h
    intro f hf
    obtain ⟨part, hpart, hf⟩ := List.mem_flatten.1 hf
    obtain ⟨i, -, hi⟩ := of_mem_mapM hparts part hpart
    obtain ⟨shift, hshift, hi⟩ := bind_eq_ok.1 hi
    obtain ⟨start, hstart, hi⟩ := bind_eq_ok.1 hi
    obtain ⟨-, rfl⟩ := checkedMul_eq_ok.1 hshift
    obtain ⟨-, rfl⟩ := checkedAdd_eq_ok.1 hstart
    have hshift := Nat.dvd_mul_left_of_dvd (alignment_dvd_byteSize e hstride) i
    exact scalarsFrom_aligned e hi (Nat.dvd_add hbase hshift) f hf
  | .padding n, base, fields, h, _ => by
    cases h
    simp
theorem membersScalars_aligned : ∀ (ms : List Layout) {base lo : Nat} {offsets : List Nat}
    {fields : List ScalarField},
    offsetsFrom lo ms = .ok offsets → membersScalars base ms offsets = .ok fields → maxAlignment ms ∣ base →
      ∀ f ∈ fields, f.Aligned (maxAlignment ms)
  | [], base, lo, offsets, fields, hoffsets, h, _ => by
    cases hoffsets
    cases h
    simp
  | m :: ms, base, lo, offsets, fields, hoffsets, h, hbase => by
    rw [offsetsFrom] at hoffsets
    obtain ⟨start, hstart, hoffsets⟩ := bind_eq_ok.1 hoffsets
    obtain ⟨size, hsize, hoffsets⟩ := bind_eq_ok.1 hoffsets
    obtain ⟨next, hnext, hoffsets⟩ := bind_eq_ok.1 hoffsets
    obtain ⟨rest, hrest, hoffsets⟩ := bind_eq_ok.1 hoffsets
    cases hoffsets
    rw [membersScalars] at h
    obtain ⟨first, hfirst, h⟩ := bind_eq_ok.1 h
    obtain ⟨fields₁, hfields₁, h⟩ := bind_eq_ok.1 h
    obtain ⟨fields₂, hfields₂, h⟩ := bind_eq_ok.1 h
    cases h
    obtain ⟨-, rfl⟩ := checkedAdd_eq_ok.1 hfirst
    rw [maxAlignment] at hbase ⊢
    obtain ⟨hm, hms⟩ := alignment_dvd_max m ms
    have hfirst := Nat.dvd_add (Nat.dvd_trans hm hbase) (dvd_of_alignUp hstart m.alignment_cases)
    intro f hf
    rcases List.mem_append.1 hf with hf | hf
    · obtain ⟨hdvd, hoffset⟩ := scalarsFrom_aligned m hfields₁ hfirst f hf
      exact ⟨Nat.dvd_trans hdvd hm, hoffset⟩
    · obtain ⟨hdvd, hoffset⟩ := membersScalars_aligned ms hrest hfields₂ (Nat.dvd_trans hms hbase) f hf
      exact ⟨Nat.dvd_trans hdvd hms, hoffset⟩
end

/-- **The scalar leaves of a layout are aligned.** -/
theorem scalars_aligned (h : l.scalars = .ok fields) : ∀ f ∈ fields, f.Aligned l.alignment :=
  scalarsFrom_aligned l h (Nat.dvd_zero _)

end Layout

end ForeignCall
