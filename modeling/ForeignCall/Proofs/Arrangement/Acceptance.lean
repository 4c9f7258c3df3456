import ForeignCall.Proofs.Arrangement.Placement
import ForeignCall.Proofs.Leaves
import ForeignCall.Proofs.Verification

/-!
# The programs of a placement are accepted

* `Cursor.Gives.byteSize`: every storage that a cursor gives out holds a word;
* `Verification.run_takeApart`, `Verification.run_putTogether`: pieces inside a segment are taken out of it
  and written into it by programs that pass verification;
* `Placement.check_program`: a program of a placement that fits its layout passes the check of a builder, in
  either direction.
-/

namespace ForeignCall

variable {l : Layout} {c c' : Cursor} {p : Placement} {ps : List Piece} {ss : List Storage}
  {s : Storage} {size i : Nat} {program : Program} {carrier : Carrier} {direction : Direction}
  {unboxes asArgument : Bool}

/-! ### Storages of a word -/

theorem Cursor.Gives.byteSize (h : c.Gives ss c') (hc : c.Sound) : ∀ s ∈ ss, s.byteSize = 8 := by
  induction h with
  | nil => simp
  | cons htakes _ ih =>
    intro s hs
    rcases List.mem_cons.1 hs with rfl | hs
    · cases htakes with
      | integer => rcases hc.classes with ⟨hi, -⟩ | ⟨hi, -⟩ <;> rw [hi] <;> rfl
      | vector => rcases hc.classes with ⟨-, hv⟩ | ⟨-, hv⟩ <;> rw [hv] <;> rfl
      | stack => rfl
    · exact ih (htakes.before hc).1 s hs
  | exhaustIntegers _ ih => exact ih (exhaustIntegers_before hc).1
  | exhaustVectors _ ih => exact ih (exhaustVectors_before hc).1

theorem Cursor.Gives.isArgument (h : c.Gives ss c') (hc : c.Sound) (hclass : c.integerClass = .integerArg)
    (hclass' : c.vectorClass = .vectorArg) : ∀ s ∈ ss, s.kind.isArgument = true := by
  intro s hs
  rcases h.kind_cases hc hs with heq | heq | heq <;> rw [heq]
  · rw [hclass]
    rfl
  · rw [hclass']
    rfl
  · rfl

theorem Cursor.Gives.isReturn (h : c.Gives ss c') (hc : c.Sound) (hclass : c.integerClass = .integerRet)
    (hclass' : c.vectorClass = .vectorRet) (hstack : c'.stack = c.stack) :
    ∀ s ∈ ss, s.kind.isArgument = false := by
  intro s hs
  rcases h.kind_cases hc hs with heq | heq | heq
  · rw [heq, hclass]
    rfl
  · rw [heq, hclass']
    rfl
  · have hcount := h.countP_stack hc
    have hnone := List.countP_eq_zero.1 (show ss.countP (fun s => s.kind = .stack) = 0 by omega) s hs
    simp [heq] at hnone

/-! ### Runs of the verifier -/

namespace Verification

/-- Pieces that lie in a segment and fit their storages are taken apart by a program that passes
verification. -/
theorem run_takeApart (hsize : size < wordLimit) :
    ∀ {ps : List Piece} {i : Nat}, ps ≠ [] →
      (∀ p ∈ ps, p.offset + p.kind.byteSize ≤ size ∧ p.kind.byteSize ≤ p.storage.byteSize) →
        run unboxStep i (takeApart ps) [.segment size] = .ok []
  | [], _, hne, _ => absurd rfl hne
  | [p], i, _, hfits => by
    obtain ⟨hend, hwidth⟩ := hfits p (by simp)
    exact run_cons.2 ⟨_, unboxStep_field (by omega) hend, run_cons.2 ⟨_, unboxStep_move hwidth, run_nil.2 rfl⟩⟩
  | p :: q :: ps, i, _, hfits => by
    obtain ⟨hend, hwidth⟩ := hfits p (by simp)
    have ih : run unboxStep (i + 3) (takeApart (q :: ps)) [.segment size] = .ok [] :=
      run_takeApart hsize (by simp) fun p hp => hfits p (List.mem_cons_of_mem _ hp)
    exact run_cons.2 ⟨_, unboxStep_dup, run_cons.2 ⟨_, unboxStep_field (by omega) hend,
      run_cons.2 ⟨_, unboxStep_move hwidth, ih⟩⟩⟩

theorem run_putTogether (hsize : size < wordLimit)
    (hfits : ∀ p ∈ ps, p.offset + p.kind.byteSize ≤ size ∧ p.kind.byteSize ≤ p.storage.byteSize) :
    run boxStep i (putTogether ps) [.segment size] = .ok [.segment size] := by
  induction ps generalizing i with
  | nil => rfl
  | cons p ps ih =>
    obtain ⟨hend, hwidth⟩ := hfits p (by simp)
    have hrest : run boxStep (i + 2) (putTogether ps) [.segment size] = .ok [.segment size] :=
      ih fun p hp => hfits p (List.mem_cons_of_mem _ hp)
    exact run_cons.2 ⟨_, boxStep_move hwidth, run_cons.2 ⟨_, boxStep_field (by omega) hend, hrest⟩⟩

end Verification

open Verification

theorem verifyUnbox_of_run {shape : Shape} (hshape : Shape.ofCarrier l carrier = .ok shape)
    (hrun : run unboxStep 0 program [shape] = .ok []) : verifyUnbox program carrier l = .ok () :=
  bind_eq_ok.2 ⟨shape, lift_fault_eq_ok.2 hshape, bind_eq_ok.2 ⟨[], hrun, rfl⟩⟩

theorem verifyBox_of_run_scalar {kind : Primitive} (hrun : run boxStep 0 program [] = .ok [.scalar kind]) :
    verifyBox program (.primitive kind) l = .ok () :=
  bind_eq_ok.2 ⟨_, hrun, if_pos rfl⟩

theorem verifyBox_of_run_address (hrun : run boxStep 0 program [] = .ok [.address]) :
    verifyBox program .address l = .ok () :=
  bind_eq_ok.2 ⟨_, hrun, if_pos rfl⟩

theorem verifyBox_of_run_segment (hsize : l.byteSize = .ok size)
    (hrun : run boxStep 0 program [] = .ok [.segment size]) :
    verifyBox program .segment l = .ok () := by
  refine bind_eq_ok.2 ⟨_, hrun, ?_⟩
  dsimp only
  rw [if_pos rfl, lift_fault_eq_ok.2 hsize, ok_bind, if_pos (Nat.le_refl _)]
  rfl

/-! ### Programs of placements -/

theorem Layout.carrier_of_isAggregate (h : l.isAggregate = true) : l.carrier = .segment := eq_of_beq h

theorem verify_scalarProgram (hl : l.isAggregate = false) (hwidth : s.byteSize = 8) :
    verifyUnbox (scalarProgram l s true) l.carrier l = .ok () ∧
      verifyBox (scalarProgram l s false) l.carrier l = .ok () := by
  have hle (kind : Primitive) : kind.byteSize ≤ s.byteSize := hwidth ▸ kind.byteSize_le
  cases l with
  | value kind =>
    refine ⟨verifyUnbox_of_run rfl (run_cons.2 ⟨_, unboxStep_move (hle kind), rfl⟩), verifyBox_of_run_scalar ?_⟩
    exact run_cons.2 ⟨_, boxStep_move (hle kind), rfl⟩
  | address =>
    refine ⟨verifyUnbox_of_run rfl ?_, verifyBox_of_run_address ?_⟩
    · exact run_cons.2 ⟨_, unboxStep_boxAddress, run_cons.2 ⟨_, unboxStep_move (hle .i64), rfl⟩⟩
    · exact run_cons.2 ⟨_, boxStep_move (hle .i64), run_cons.2 ⟨_, boxStep_boxAddress, rfl⟩⟩
  | _ => cases hl

theorem verify_referenceProgram (hl : l.isAggregate = true) (hsize : l.byteSize = .ok size)
    (hwidth : s.byteSize = 8) :
    verifyUnbox [.copy size l.alignment, .baseAddress, .boxAddress, .move s .i64] l.carrier l = .ok () ∧
      verifyBox [.move s .i64, .boxAddress, .copy size l.alignment] l.carrier l = .ok () := by
  have hle : Primitive.i64.byteSize ≤ s.byteSize := hwidth ▸ Nat.le_refl _
  rw [Layout.carrier_of_isAggregate hl]
  constructor
  · refine verifyUnbox_of_run (bind_eq_ok.2 ⟨size, hsize, rfl⟩)
      (run_cons.2 ⟨_, unboxStep_copy (Nat.le_refl _), ?_⟩)
    exact run_cons.2 ⟨_, unboxStep_baseAddress,
      run_cons.2 ⟨_, unboxStep_boxAddress, run_cons.2 ⟨_, unboxStep_move hle, rfl⟩⟩⟩
  · refine verifyBox_of_run_segment hsize (run_cons.2 ⟨_, boxStep_move hle, ?_⟩)
    exact run_cons.2 ⟨_, boxStep_boxAddress, run_cons.2 ⟨_, boxStep_copy, rfl⟩⟩

/-- Pieces that tile an aggregate are taken out of it and written into it. -/
theorem verify_aggregateProgram (hl : l.isAggregate = true) (hsize : l.byteSize = .ok size)
    (hlimit : size < wordLimit) (hpos : 0 < size) (htiles : Piece.Tiles size ps)
    (hwidth : ∀ s ∈ ps.map Piece.storage, s.byteSize = 8) :
    verifyUnbox (takeApart ps) l.carrier l = .ok () ∧
      verifyBox (.allocate size l.alignment :: putTogether ps) l.carrier l = .ok () := by
  have hfits : ∀ p ∈ ps, p.offset + p.kind.byteSize ≤ size ∧ p.kind.byteSize ≤ p.storage.byteSize := by
    intro p hp
    refine ⟨htiles.end_le p hp, ?_⟩
    rw [hwidth _ (List.mem_map_of_mem hp)]
    exact p.kind.byteSize_le
  have hne : ps ≠ [] := by
    obtain ⟨p, hp, -⟩ := htiles.cover 0 hpos
    exact List.ne_nil_of_mem hp
  rw [Layout.carrier_of_isAggregate hl]
  constructor
  · exact verifyUnbox_of_run (bind_eq_ok.2 ⟨size, hsize, rfl⟩) (run_takeApart hlimit hne hfits)
  · exact verifyBox_of_run_segment hsize (run_cons.2 ⟨_, boxStep_allocate, run_putTogether hlimit hfits⟩)

namespace Placement

theorem exists_program (p : Placement) (hl : l.Sized) (unboxes : Bool) :
    ∃ program, p.program l unboxes = .ok program := by
  obtain ⟨size, hsize, -⟩ := hl
  cases p with
  | whole s => exact ⟨_, rfl⟩
  | pieces ps =>
    cases unboxes with
    | true => exact ⟨_, rfl⟩
    | false => exact ⟨_, bind_eq_ok.2 ⟨_, bind_eq_ok.2 ⟨size, hsize, rfl⟩, rfl⟩⟩
  | reference s => exact ⟨_, bind_eq_ok.2 ⟨_, bind_eq_ok.2 ⟨size, hsize, rfl⟩, rfl⟩⟩

/-- **The programs of a placement that fits its layout pass verification**, in either direction. -/
theorem verify_program (hl : l.Sized) (hcarries : p.Carries l) (hwidth : ∀ s ∈ p.storages, s.byteSize = 8)
    (hprogram : p.program l unboxes = .ok program) :
    (if unboxes then verifyUnbox else verifyBox) program l.carrier l = .ok () := by
  obtain ⟨size, hsize, hlimit⟩ := hl
  cases p with
  | whole s =>
    obtain ⟨hunbox, hbox⟩ := verify_scalarProgram (s := s) hcarries (hwidth s (by simp [storages]))
    cases hprogram
    cases unboxes with
    | true => exact hunbox
    | false => exact hbox
  | pieces ps =>
    obtain ⟨hl, size', hsize', hpos, htiles⟩ := hcarries
    obtain rfl := ok_unique hsize hsize'
    obtain ⟨hunbox, hbox⟩ := verify_aggregateProgram hl hsize hlimit hpos htiles hwidth
    cases unboxes with
    | true =>
      cases hprogram
      exact hunbox
    | false =>
      obtain ⟨allocate, hallocate, h⟩ := bind_eq_ok.1 hprogram
      obtain ⟨size', hsize', rfl⟩ := Step.allocateFor_eq_ok hallocate
      obtain rfl := ok_unique hsize hsize'
      cases h
      exact hbox
  | reference s =>
    obtain ⟨hunbox, hbox⟩ := verify_referenceProgram (s := s) hcarries hsize (hwidth s (by simp [storages]))
    obtain ⟨copy, hcopy, h⟩ := bind_eq_ok.1 hprogram
    obtain ⟨size', hsize', rfl⟩ := Step.copyOf_eq_ok hcopy
    obtain rfl := ok_unique hsize hsize'
    cases h
    cases unboxes with
    | true => exact hunbox
    | false => exact hbox

end Placement

theorem SequenceBuilder.check_eq_ok {b : Binding}
    (hverify : (if unboxes then verifyUnbox else verifyBox) b.program b.carrier b.layout = .ok ())
    (hrole : ∀ s ∈ Program.storages b.program, s.kind.isArgument = asArgument) :
    check direction unboxes asArgument b = .ok () := by
  have hfind : (Program.storages b.program).find? (fun s => s.kind.isArgument != asArgument) = none :=
    List.find?_eq_none.2 fun s hs => by simp [hrole s hs]
  unfold check
  rw [hverify]
  dsimp only
  rw [hfind]

/-- **The programs of a placement that fits its layout pass the check of a builder**, in either direction. -/
theorem Placement.check_program (direction : Direction) (hl : l.Sized) (hcarries : p.Carries l)
    (hwidth : ∀ s ∈ p.storages, s.byteSize = 8) (hrole : ∀ s ∈ p.storages, s.kind.isArgument = asArgument)
    (hprogram : p.program l unboxes = .ok program) :
    SequenceBuilder.check direction unboxes asArgument ⟨l.carrier, l, program⟩ = .ok () := by
  refine SequenceBuilder.check_eq_ok (verify_program hl hcarries hwidth hprogram) ?_
  rw [storages_program hprogram]
  exact hrole

end ForeignCall
