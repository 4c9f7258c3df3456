import ForeignCall.Proofs.Arrangement.Acceptance
import ForeignCall.Proofs.Arrangement.ScratchSize

/-!
# Which functions can be arranged

* `Convention.placeResult?_isReturn`: a result that is not in memory comes back through registers for
  results;
* `Arrangement.exists_result`, `Arrangement.arguments_decides`: the builder takes every program of a result
  and of the arguments that can be placed;
* `Convention.Supports`: the sizes of the aggregates of a function allow it;
* `arrange_decides`: an arrangement succeeds iff they do, in either direction, as long as its scratch memory
  has a size.
-/

namespace ForeignCall

variable {c : Convention} {d : Descriptor} {direction : Direction} {l : Layout} {ls : List Layout}
  {p : Placement} {cursor cursor' : Cursor} {storage : Storage} {kind : Primitive} {b : SequenceBuilder}

/-! ### Registers for results -/

theorem Cursor.isReturn_of_scalar (h : (Cursor.results c).scalar kind = .ok (storage, cursor)) :
    storage.kind.isArgument = false := by
  cases c <;> cases kind <;> cases h <;> rfl

theorem SysV.placeResult?_isReturn (h : placeResult? l = .ok (some p)) :
    ∀ s ∈ p.storages, s.kind.isArgument = false := by
  unfold placeResult? at h
  dsimp only at h
  split at h
  · obtain ⟨⟨s, next⟩, hnext, h⟩ := bind_eq_ok.1 h
    cases h
    simpa [Placement.storages] using Cursor.isReturn_of_scalar hnext
  · obtain ⟨s, hs, h⟩ := bind_eq_ok.1 h
    cases h
    rw [(Convention.storage_eq_ok (lift_fault_eq_ok.1 hs)).1]
    simp [Placement.storages, Storage.slot, StorageClass.isArgument]
  · obtain ⟨classes?, -, h⟩ := bind_eq_ok.1 h
    cases classes? with
    | none => cases h
    | some classes =>
      obtain ⟨⟨ps, next⟩, hnext, h⟩ := bind_eq_ok.1 h
      cases h
      obtain ⟨hfills, hstack⟩ := registerPieces_eq_ok hnext
      exact hfills.gives.isReturn (Cursor.results_sound _) rfl rfl hstack

theorem AArch64.placeResult?_isReturn (h : placeResult? l = .ok (some p)) :
    ∀ s ∈ p.storages, s.kind.isArgument = false := by
  unfold placeResult? at h
  dsimp only at h
  split at h
  · obtain ⟨⟨s, next⟩, hnext, h⟩ := bind_eq_ok.1 h
    cases h
    simpa [Placement.storages] using Cursor.isReturn_of_scalar hnext
  · obtain ⟨s, hs, h⟩ := bind_eq_ok.1 h
    cases h
    rw [(Convention.storage_eq_ok (lift_fault_eq_ok.1 hs)).1]
    simp [Placement.storages, Storage.slot, StorageClass.isArgument]
  · obtain ⟨⟨⟩, -, h⟩ := bind_eq_ok.1 h
    obtain ⟨homogeneous, hhomogeneous, h⟩ := bind_eq_ok.1 h
    split at h
    · next kind fields =>
      obtain ⟨ps, hps, h⟩ := bind_eq_ok.1 h
      cases h
      have hne := (homogeneous?_eq_ok hhomogeneous).2.1
      obtain ⟨last, hfills, hstack⟩ :=
        vectorResultPieces_eq_ok (c := Cursor.results .aarch64) hps hne rfl rfl rfl
      exact hfills.gives.isReturn (Cursor.results_sound _) rfl rfl hstack
    · obtain ⟨size, -, h⟩ := bind_eq_ok.1 h
      split at h
      · cases h
      · obtain ⟨⟨ps, next⟩, hps, h⟩ := bind_eq_ok.1 h
        cases h
        obtain ⟨size', -, hfills, hstack⟩ := integerPieces_eq_ok hps
        exact hfills.gives.isReturn (Cursor.results_sound _) rfl rfl hstack

/-- **A result that is not in memory comes back through registers for results.** -/
theorem Convention.placeResult?_isReturn (h : c.placeResult? l = .ok (some p)) :
    ∀ s ∈ p.storages, s.kind.isArgument = false := by
  cases c with
  | sysV => exact SysV.placeResult?_isReturn h
  | aarch64 => exact AArch64.placeResult?_isReturn h

theorem Convention.resultPointer_arguments (h : c.resultPointer (.arguments c) = .ok (storage, cursor)) :
    storage.byteSize = 8 ∧ storage.kind.isArgument = true := by
  cases c <;> cases h <;> exact ⟨rfl, rfl⟩

/-- A cursor over the storages for arguments. -/
structure Cursor.ForArguments (cursor : Cursor) : Prop where
  sound : cursor.Sound
  integerClass : cursor.integerClass = .integerArg
  vectorClass : cursor.vectorClass = .vectorArg

theorem Cursor.Gives.forArguments {ss : List Storage} (h : cursor.Gives ss cursor')
    (hcursor : cursor.ForArguments) :
    cursor'.ForArguments := by
  obtain ⟨hsound, hbefore⟩ := h.before hcursor.sound
  exact ⟨hsound, hbefore.integerClass.trans hcursor.integerClass, hbefore.vectorClass.trans hcursor.vectorClass⟩

theorem Convention.planResult_forArguments {l? : Option Layout} {plan : ResultPlan}
    (h : c.planResult l? = .ok (plan, cursor)) : cursor.ForArguments := by
  have harguments : (Cursor.arguments c).ForArguments := ⟨Cursor.arguments_sound c, rfl, rfl⟩
  rcases Convention.planResult_pointer? h with ⟨-, rfl⟩ | ⟨pointer, -, hpointer⟩
  · exact harguments
  · rcases Convention.resultPointer_eq_ok hpointer with htakes | ⟨rfl, -⟩
    · exact (Cursor.Gives.cons htakes .nil).forArguments harguments
    · exact harguments

/-! ### The builder takes what passes its check -/

namespace SequenceBuilder

variable {binding : Binding} {pointer : Program}

theorem addArgument_of_check (h : check b.direction b.direction.unboxesArguments true binding = .ok ()) :
    b.addArgument binding = .ok { b with arguments := b.arguments ++ [binding] } := by
  unfold addArgument
  rw [h]
  rfl

theorem setResult_of_check (hnone : b.result = none)
    (h : check b.direction b.direction.unboxesResult false binding = .ok ()) :
    b.setResult binding = .ok { b with result := some binding } := by
  unfold setResult
  rw [hnone, h]
  rfl

theorem markIndirect_of_check (hnone : b.indirect = none)
    (h : check b.direction b.direction.unboxesArguments true ⟨.address, .address, pointer⟩ = .ok ()) :
    b.markIndirect l pointer = .ok { b with indirect := some (pointer, l) } := by
  unfold markIndirect
  rw [hnone, h]
  rfl

theorem check_address {unboxes asArgument : Bool} (storage : Storage) (hwidth : storage.byteSize = 8)
    (hrole : storage.kind.isArgument = asArgument) :
    check direction unboxes asArgument ⟨.address, .address, scalarProgram .address storage unboxes⟩
      = .ok () := by
  have hcarries : (Placement.whole storage).Carries .address := rfl
  refine Placement.check_program direction (l := .address) (p := .whole storage)
    ⟨8, rfl, by decide⟩ hcarries ?_ ?_ rfl
  · simpa [Placement.storages] using hwidth
  · simpa [Placement.storages] using hrole

end SequenceBuilder

/-! ### Arranging results and arguments -/

namespace Arrangement

theorem exists_indirectResult (c : Convention) (l : Layout) (direction : Direction) :
    ∃ r, indirectResult c l (.arguments c) (.new direction) = .ok r := by
  obtain ⟨⟨pointer, cursor⟩, hpointer⟩ := c.exists_resultPointer
  obtain ⟨hwidth, hrole⟩ := Convention.resultPointer_arguments hpointer
  have hmark := SequenceBuilder.markIndirect_of_check (b := .new direction) (l := l) rfl
    (SequenceBuilder.check_address _ hwidth hrole)
  unfold indirectResult
  rw [hpointer, ok_bind]
  dsimp only
  rw [lift_fault_eq_ok.2 hmark, ok_bind]
  split
  · have hregister : c.storage .integerRet 0
        = .ok (Storage.slot .integerRet 0 (Convention.slotWidth .integerRet)) := by
      cases c <;> rfl
    have hset := SequenceBuilder.setResult_of_check
      (b := { SequenceBuilder.new direction with
        indirect := some (scalarProgram .address pointer direction.unboxesArguments, l) })
      rfl (SequenceBuilder.check_address (Storage.slot .integerRet 0 8) rfl rfl)
    exact ⟨_, bind_eq_ok.2 ⟨_, lift_fault_eq_ok.2 hregister, bind_eq_ok.2 ⟨_, ofBinding_eq_ok.2 hset, rfl⟩⟩⟩
  · exact ⟨_, rfl⟩

theorem exists_result (hsized : ∀ l ∈ d.result, l.Sized) (hreturnable : ∀ l ∈ d.result, l.Returnable)
    (direction : Direction) : ∃ r, result c d (.new direction) = .ok r := by
  unfold result
  dsimp only
  split
  · exact ⟨_, rfl⟩
  · next l hl =>
    obtain ⟨placement?, hplace⟩ := (c.placeResult?_decides (hsized l hl)).1 (hreturnable l hl)
    rw [hplace, ok_bind]
    cases placement? with
    | some placement =>
      obtain ⟨program, hprogram⟩ := placement.exists_program (hsized l hl) direction.unboxesResult
      obtain ⟨⟨last, hgives, -⟩, hcarries, -⟩ := Convention.placeResult?_eq_ok hplace
      have hcheck := Placement.check_program direction (hsized l hl) hcarries
        (hgives.byteSize (Cursor.results_sound c)) (Convention.placeResult?_isReturn hplace) hprogram
      have hset := SequenceBuilder.setResult_of_check (b := .new direction) rfl hcheck
      exact ⟨_, bind_eq_ok.2 ⟨_, lift_overflow_halt_eq_ok.2 hprogram,
        bind_eq_ok.2 ⟨_, ofBinding_eq_ok.2 hset, rfl⟩⟩⟩
    | none => exact exists_indirectResult c l direction

/-- A result that cannot be returned is refused alike in both directions. -/
theorem result_refuse (hsized : ∀ l ∈ d.result, l.Sized) (hreturnable : ¬ ∀ l ∈ d.result, l.Returnable) :
    ∃ cause, ∀ direction, result c d (.new direction) = refuse cause := by
  simp only [not_forall] at hreturnable
  obtain ⟨l, hl, hreturnable⟩ := hreturnable
  obtain ⟨cause, hcause⟩ := (c.placeResult?_decides (hsized l hl)).2 hreturnable
  refine ⟨cause, fun direction => ?_⟩
  unfold result
  rw [Option.mem_def.1 hl]
  dsimp only
  rw [hcause]
  rfl

/-- **Arguments are added to any builder, or refused for any builder with one error.** -/
theorem arguments_decides (hsized : ∀ l ∈ ls, l.Sized) (hcursor : cursor.ForArguments) :
    ((∀ l ∈ ls, c.Passes l) → ∀ b, ∃ b', arguments c cursor b ls = .ok b') ∧
      ((¬ ∀ l ∈ ls, c.Passes l) → ∃ cause, ∀ b, arguments c cursor b ls = refuse cause) := by
  induction ls generalizing cursor with
  | nil => exact ⟨fun _ b => ⟨b, rfl⟩, fun h => absurd (by simp) h⟩
  | cons l ls ih =>
    rw [List.forall_mem_cons] at hsized
    rw [List.forall_mem_cons]
    by_cases hpasses : c.Passes l
    · obtain ⟨⟨placement, next⟩, hplace⟩ := (Convention.place_decides (c := cursor) hsized.1).1 hpasses
      obtain ⟨hgives, hcarries⟩ := Convention.place_eq_ok hplace
      have hrole := hgives.isArgument hcursor.sound hcursor.integerClass hcursor.vectorClass
      -- The builder takes the program, so the arguments behind it decide.
      have hstep (b : SequenceBuilder) : ∃ b', arguments c cursor b (l :: ls) = arguments c next b' ls := by
        obtain ⟨program, hprogram⟩ := placement.exists_program hsized.1 b.direction.unboxesArguments
        have hadd := SequenceBuilder.addArgument_of_check (Placement.check_program b.direction hsized.1 hcarries
          (hgives.byteSize hcursor.sound) hrole hprogram)
        refine ⟨{ b with arguments := b.arguments ++ [⟨l.carrier, l, program⟩] }, ?_⟩
        rw [arguments, hplace, ok_bind]
        dsimp only
        rw [lift_overflow_halt_eq_ok.2 hprogram, ok_bind, lift_fault_eq_ok.2 hadd, ok_bind]
      obtain ⟨htotal, hrefuse⟩ := ih hsized.2 (hgives.forArguments hcursor)
      refine ⟨fun h b => ?_, fun h => ?_⟩
      · obtain ⟨b', hb'⟩ := hstep b
        rw [hb']
        exact htotal h.2 b'
      · obtain ⟨cause, hcause⟩ := hrefuse fun hls => h ⟨hpasses, hls⟩
        refine ⟨cause, fun b => ?_⟩
        obtain ⟨b', hb'⟩ := hstep b
        rw [hb', hcause]
    · refine ⟨fun h => absurd h.1 hpasses, fun _ => ?_⟩
      obtain ⟨cause, hcause⟩ := (Convention.place_decides (c := cursor) hsized.1).2 hpasses
      refine ⟨cause, fun b => ?_⟩
      rw [arguments, hcause]
      rfl

end Arrangement

/-! ### Building -/

/-- A builder is done unless the scratch memory has no size. -/
theorem SequenceBuilder.build_eq {indirect : Option IndirectResult} (h : b.indirectResult? = .ok indirect) :
    let s : CallingSequence := ⟨b.direction, b.arguments, b.result, indirect, 0⟩
    b.build = if Program.scratch s.steps < wordLimit then .ok { s with scratchSize := Program.scratch s.steps }
      else .error .add := by
  intro s
  unfold build
  rw [h, ok_bind]
  dsimp only
  rw [scratchSize_eq]
  split <;> rfl

theorem ResultPlan.Describes.exists_indirectResult? {plan : ResultPlan} (hsized : ∀ l ∈ d.result, l.Sized)
    (hplan : c.planResult d.result = .ok (plan, cursor)) (h : plan.Describes direction b.indirect b.result) :
    ∃ indirect, b.indirectResult? = .ok indirect := by
  unfold SequenceBuilder.indirectResult?
  cases plan with
  | void =>
    rw [h.1]
    exact ⟨_, rfl⟩
  | storages l placement =>
    rw [h.1]
    exact ⟨_, rfl⟩
  | memory l pointer returned =>
    obtain ⟨size, hsize, -⟩ := hsized l (Convention.planResult_layout? hplan)
    rw [h.1]
    exact ⟨_, bind_eq_ok.2 ⟨size, hsize, rfl⟩⟩

/-! ### Function shapes -/

/-- All layouts of a function have a size. -/
structure Descriptor.Sized (d : Descriptor) : Prop where
  args : ∀ l ∈ d.args, l.Sized
  result : ∀ l ∈ d.result, l.Sized

/-- The sizes of the aggregates of a function allow it under a convention. -/
structure Convention.Supports (c : Convention) (d : Descriptor) : Prop where
  args : ∀ l ∈ d.args, c.Passes l
  result : ∀ l ∈ d.result, l.Returnable

/-- A function that is supported is arranged unless its scratch memory has no size. -/
theorem arrange_of_supports (hd : d.Sized) (h : c.Supports d) (direction : Direction) :
    ∃ s, s.scratchSize = c.scratch d direction ∧
      arrange c d direction
        = if c.scratch d direction < wordLimit then .ok s else .error (.fault (.overflow .add)) := by
  obtain ⟨⟨b₁, cursor⟩, hresult⟩ := Arrangement.exists_result (c := c) hd.result h.result direction
  obtain ⟨plan, hplan, hdirection, hempty, hdescribes, -⟩ := Arrangement.result_eq_ok hresult
  obtain ⟨b, harguments⟩ :=
    (Arrangement.arguments_decides hd.args (Convention.planResult_forArguments hplan)).1 h.args b₁
  obtain ⟨placements, bindings, last, hplaced, rfl⟩ := Arrangement.arguments_eq_ok harguments
  rw [hempty, List.nil_append, hdirection] at harguments
  rw [hdirection] at hplaced
  obtain ⟨indirect, hindirect⟩ := hdescribes.exists_indirectResult? hd.result hplan
  rw [(SequenceBuilder.indirectResult?_eq_ok hindirect).1] at hdescribes
  let s : CallingSequence := ⟨direction, bindings, b₁.result, indirect, 0⟩
  have hscratch : Program.scratch s.steps = c.scratch d direction :=
    CallingSequence.scratch_steps hd.result hplan hplaced hdescribes
  have hbuild := SequenceBuilder.build_eq (b := ⟨direction, bindings, b₁.result, b₁.indirect⟩) hindirect
  refine ⟨{ s with scratchSize := c.scratch d direction }, rfl, ?_⟩
  unfold arrange
  rw [hresult, ok_bind]
  dsimp only
  rw [harguments, ok_bind, hbuild, hscratch]
  split <;> rfl

/-- A function that is not supported is refused alike in both directions. -/
theorem arrange_of_not_supports (hd : d.Sized) (h : ¬ c.Supports d) :
    ∃ cause, ∀ direction, arrange c d direction = refuse cause := by
  by_cases hreturnable : ∀ l ∈ d.result, l.Returnable
  · have hpasses : ¬ ∀ l ∈ d.args, c.Passes l := fun hargs => h ⟨hargs, hreturnable⟩
    obtain ⟨⟨b, cursor⟩, hresult⟩ := Arrangement.exists_result (c := c) hd.result hreturnable .downcall
    obtain ⟨plan, hplan, -⟩ := Arrangement.result_eq_ok hresult
    obtain ⟨cause, hcause⟩ :=
      (Arrangement.arguments_decides hd.args (Convention.planResult_forArguments hplan)).2 hpasses
    refine ⟨cause, fun direction => ?_⟩
    -- The plan leaves the same storages for the arguments in either direction.
    obtain ⟨⟨b', cursor'⟩, hresult'⟩ := Arrangement.exists_result (c := c) hd.result hreturnable direction
    obtain ⟨plan', hplan', -⟩ := Arrangement.result_eq_ok hresult'
    cases ok_unique hplan hplan'
    unfold arrange
    rw [hresult', ok_bind]
    dsimp only
    rw [hcause]
    rfl
  · obtain ⟨cause, hcause⟩ := Arrangement.result_refuse (c := c) hd.result hreturnable
    refine ⟨cause, fun direction => ?_⟩
    unfold arrange
    rw [hcause]
    rfl

/-- The programs of both directions name the same storages. -/
theorem CallingSequence.Paired.storages_programs {down up : CallingSequence} {plan : ResultPlan}
    {rs : List Route} (h : Paired c d down up plan rs) :
    down.argumentPrograms.map Program.storages = up.argumentPrograms.map Program.storages ∧
      Program.storages down.resultProgram = Program.storages up.resultProgram := by
  rw [h.argumentPrograms_down, h.argumentPrograms_up, List.map_map, List.map_map,
    h.describesDown.storages_resultProgram, h.describesUp.storages_resultProgram]
  refine ⟨List.map_congr_left fun r hr => ?_, rfl⟩
  have hsound := h.routes_sound r hr
  exact (Placement.storages_program hsound.out).trans (Placement.storages_program hsound.back).symm

/-- **Which functions can be arranged.**  A function whose layouts have sizes is arranged iff the sizes of
its aggregates allow it, whatever their fields and whatever registers are left, and refused with one error
in both directions otherwise.  No other error arises but the overflow of a sum of scratch memory that is not
a size.  Both directions name the same storages. -/
theorem arrange_decides (hd : d.Sized) :
    (c.Supports d → ∀ direction,
      (c.scratch d direction < wordLimit →
        ∃ s, arrange c d direction = .ok s ∧ s.scratchSize = c.scratch d direction) ∧
      (wordLimit ≤ c.scratch d direction → arrange c d direction = .error (.fault (.overflow .add)))) ∧
    (¬ c.Supports d → ∃ cause, ∀ direction, arrange c d direction = .error (.error (.unsupported cause))) ∧
    ∀ down up, arrange c d .downcall = .ok down → arrange c d .upcall = .ok up →
      down.argumentPrograms.map Program.storages = up.argumentPrograms.map Program.storages ∧
        Program.storages down.resultProgram = Program.storages up.resultProgram := by
  refine ⟨fun h direction => ?_, arrange_of_not_supports hd, fun down up hdown hup => ?_⟩
  · obtain ⟨s, hsize, harrange⟩ := arrange_of_supports hd h direction
    rw [harrange]
    refine ⟨fun hlimit => ⟨s, if_pos hlimit, hsize⟩, fun hlimit => if_neg (by omega)⟩
  · obtain ⟨plan, rs, hpaired⟩ := arrange_paired hdown hup
    exact hpaired.storages_programs

/-- Padding of 21 bytes has a tail of five.  One convention refuses it, in both directions; the other one
passes a copy and returns it in memory, next to three singles. -/
theorem arrange_decides_tail :
    let singles : Layout := .struct [.value .f32, .value .f32, .value .f32]
    let d : Descriptor := ⟨[.padding 21, singles], some (.padding 21)⟩
    d.Sized ∧
    (∃ cause, ∀ direction, arrange .sysV d direction = .error (.error (.unsupported cause))) ∧
    ∃ down up, arrange .aarch64 d .downcall = .ok down ∧ arrange .aarch64 d .upcall = .ok up ∧
      down.scratchSize = 21 ∧ up.scratchSize = 33 ∧
      down.argumentPrograms.map Program.storages = up.argumentPrograms.map Program.storages := by
  intro singles d
  have hsingles : singles.byteSize = .ok 12 := by cbv
  have hd : d.Sized := by
    refine ⟨?_, ?_⟩
    · simpa [d] using ⟨⟨21, rfl, by decide⟩, ⟨12, hsingles, by decide⟩⟩
    · simpa [d] using ⟨21, rfl, by decide⟩
  have hrefused : ¬ Convention.sysV.Supports d := fun h => by
    have hpasses := (h.args (.padding 21) (by simp [d]) rfl 21 rfl).2
    simp [TailFits] at hpasses
  have hsupported : Convention.aarch64.Supports d := by
    refine ⟨?_, ?_⟩
    · have hlarge : Convention.aarch64.Passes (.padding 21) := (Layout.forall_size_iff rfl rfl).2 (by decide)
      have hfits : Convention.aarch64.Passes singles := (Layout.forall_size_iff rfl hsingles).2 (by decide)
      simpa [d] using ⟨hlarge, hfits⟩
    · have hlarge : (Layout.padding 21).Returnable := (Layout.forall_size_iff rfl rfl).2 (by decide)
      simpa [d] using hlarge
  have hdown : Convention.aarch64.scratch d .downcall = 21 := by cbv
  have hup : Convention.aarch64.scratch d .upcall = 33 := by cbv
  obtain ⟨hok, -, hstorages⟩ := arrange_decides (c := .aarch64) hd
  obtain ⟨down, hdowncall, hsize⟩ := (hok hsupported .downcall).1 (hdown ▸ by decide)
  obtain ⟨up, hupcall, hsize'⟩ := (hok hsupported .upcall).1 (hup ▸ by decide)
  refine ⟨hd, (arrange_decides hd).2.1 hrefused, down, up, hdowncall, hupcall, hsize.trans hdown,
    hsize'.trans hup, ?_⟩
  exact (hstorages down up hdowncall hupcall).1

end ForeignCall
