import ForeignCall.Proofs.Arrangement.Locations
import ForeignCall.Proofs.Calls.Checking
import ForeignCall.Proofs.Transport.Results
import ForeignCall.Proofs.Verified.Boxing
import ForeignCall.Proofs.Verified.Unboxing

/-!
# Downcalls are total

* `CallingSequence.Answers`: what a call comes to after its native code has run;
* `Downcall.send_yields`, `Downcall.takeResult_answers`: the two halves of a call around its native code.
  Both rest on the verification of the programs alone, so that neither minds how many arguments there are;
* `Downcall.interpret_answers`: a whole call;
* `downcall_total`: a call of a linked handle reports wrong arguments before anything happens, and otherwise
  runs its native code once and answers.
-/

namespace ForeignCall

variable {σ φ τ : Type} {m n k : Machine σ} {c : Convention} {d : Descriptor} {s : CallingSequence}
  {plan : ResultPlan} {cursor : Cursor} {l : Layout} {v : Value} {args : List Value} {bs : List Binding}
  {buffer : Option Segment} {b : Word} {p : Program} {i length : Nat} {F : Fault → Prop}

/-! ### Arranged bindings -/

theorem Placed.bindings {unboxes : Bool} {last : Cursor} {ls : List Layout} {ps : List Placement}
    (h : Placed c unboxes cursor ls ps bs last) :
    bs.map (·.layout) = ls ∧ ∀ b ∈ bs, b.carrier = b.layout.carrier ∧
      ∀ r ∈ b.program.requests, b.layout.byteSize = .ok r.1 ∧ r.2 = b.layout.alignment := by
  refine ⟨h.layouts, ?_⟩
  induction h with
  | nil => simp
  | cons _ hprogram _ ih => exact List.forall_mem_cons.2 ⟨⟨rfl, Placement.requests_program hprogram⟩, ih⟩

theorem Binding.regular_of_verifyUnbox {b : Binding} (h : verifyUnbox b.program b.carrier b.layout = .ok ())
    (hcarrier : b.carrier = b.layout.carrier) : b.Regular := by
  refine ⟨hcarrier, fun hsegment => ?_⟩
  obtain ⟨shape, hshape, -⟩ := verifyUnbox_eq_ok h
  rw [hsegment] at hshape
  obtain ⟨size, hsize, -⟩ := bind_eq_ok.1 hshape
  exact ⟨size, hsize⟩

/-- An arranged sequence either accepts arguments that fit or reports what is wrong with them. -/
theorem arrange_checkArguments (h : arrange c d .downcall = .ok s) (args : List Value) :
    (List.Forall₂ Value.Fits args d.args ∧ s.checkArguments args = .ok ()) ∨
      ∃ e, d.Rejects args e ∧ s.checkArguments args = .error (.error e) := by
  obtain ⟨_, _, _, _, -, hplaced, -, hdirection, -⟩ := arrange_eq_ok h
  obtain ⟨hlayouts, hbindings⟩ := hplaced.bindings
  have hregular : ∀ b ∈ s.arguments, b.Regular := fun b hb =>
    Binding.regular_of_verifyUnbox ((arrange_built h).verifyUnbox_arguments hdirection b hb) (hbindings b hb).1
  exact CallingSequence.checkArguments_total hregular hlayouts args

theorem CallingSequence.hasResultProgram_of_mem {t : Storage} (h : t ∈ Program.storages s.resultProgram) :
    s.hasResultProgram = true := by
  unfold hasResultProgram
  cases hprogram : s.resultProgram with
  | nil =>
    rw [hprogram] at h
    cases h
  | cons step steps => rfl

/-- The register for the address of a result buffer. -/
def Convention.pointerRegister : Convention → Storage
  | .sysV => .slot .integerArg 0 8
  | .aarch64 => .slot .indirectResult 0 8

theorem Convention.planResult_pointer {l? : Option Layout} (h : c.planResult l? = .ok (plan, cursor)) :
    ∀ p, plan.pointer? = some p → p = c.pointerRegister := by
  intro p hp
  rcases Convention.planResult_pointer? h with ⟨hnone, -⟩ | ⟨p', hsome, hpointer⟩
  · rw [hnone] at hp
    cases hp
  · obtain rfl : p' = p := Option.some.inj (hsome.symm.trans hp)
    cases c <;> (cases hpointer; rfl)

theorem Convention.pointer_apart {l? : Option Layout} {frame : FrameLayout} {direction : Direction}
    {pointer : Storage} (hplan : c.planResult l? = .ok (plan, cursor))
    (hdescribes : plan.Describes direction (s.indirect.map fun i => (i.pointer, i.layout)) s.result)
    (hnumbers : c.Numbers (Program.storages s.argumentPrograms.flatten))
    (hframe : FrameLayout.covering c s.storages = .ok frame) (hp : plan.pointer? = some pointer) :
    ∀ t ∈ s.arguments.flatMap fun b => b.program.storages, frame.Apart t pointer := by
  rw [hdescribes.storages_argumentPrograms, hp] at hnumbers
  have hregister : pointer.kind ≠ .stack := by
    rw [Convention.planResult_pointer hplan pointer hp]
    cases c <;> decide
  intro t ht
  exact FrameLayout.withStackSlots_apart hframe (hnumbers.sameLocation_eq_false hregister t ht)

/-! ### Passing arguments -/

namespace Downcall

/-- Arguments that fit go through verified programs, whatever storages these share. -/
theorem passArguments_leadsTo (hverified : ∀ b ∈ bs, verifyUnbox b.program b.carrier b.layout = .ok ())
    (hcarrier : ∀ b ∈ bs, b.carrier = b.layout.carrier)
    (hhas : ∀ t ∈ bs.flatMap fun b => b.program.storages, m.frame.layout.Has t)
    (hserves : m.scratch.Serves F m.memory (bs.flatMap fun b => b.program.requests))
    (hargs : List.Forall₂ (fun v b => v.Fits b.layout) args bs) (hlive : ∀ t, .segment t ∈ args → t.Live m)
    (hm : m.Ready) :
    LeadsTo F (passArguments args (bs.map (·.program))) m fun _ n =>
      MovesInto (bs.flatMap fun b => b.program.storages) m n := by
  induction hargs generalizing m with
  | nil => exact .pure ((Marshals.refl hm).movesInto rfl)
  | @cons v b args bs hv _ ih =>
    rw [List.flatMap_cons] at hhas hserves ⊢
    have hpassed : LeadsTo F (Engine.unbox v b.program) m fun _ n => MovesInto b.program.storages m n ∧
        n.scratch.Serves F n.memory (bs.flatMap fun b => b.program.requests) :=
      .unbox (verifyUnbox_serves (hverified b (by simp)) hm (fun t ht => hhas t (by simp [ht])) hserves
        (hcarrier b (by simp) ▸ hv.carrier) fun t ht => ⟨(hlive t (by simp [ht])).valid, hv.length t ht⟩)
    refine .andThen hpassed ?_
    rintro ⟨⟩ n ⟨hn, hserves'⟩
    refine (ih (fun b' hb' => hverified b' (by simp [hb'])) (fun b' hb' => hcarrier b' (by simp [hb']))
      (fun t ht => ?_)
      hserves' (fun t ht => ?_) hn.marshals.ready).mono fun _ k hk => hn.trans hk
    · rw [hn.layout]
      exact hhas t (List.mem_append_right _ ht)
    · exact (hlive t (by simp [ht])).marshals hn.marshals

theorem serves_arguments (hrequests : ∀ b ∈ bs, ∀ r ∈ b.program.requests, b.layout.byteSize = .ok r.1 ∧
    r.2 = b.layout.alignment)
    (hargs : List.Forall₂ (fun v b => v.Fits b.layout) args bs) (hlive : ∀ t, .segment t ∈ args → t.Live m)
    (hm : m.Ready) :
    m.scratch.Serves (fun f => f.isExhaustion = true) m.memory (bs.flatMap fun b => b.program.requests) := by
  refine hm.serves _ ?_
  induction hargs with
  | nil => simp
  | @cons v b args bs hv _ ih =>
    rw [List.flatMap_cons, List.forall_mem_append]
    refine ⟨fun r hr => ?_, ih (fun b' hb' => hrequests b' (by simp [hb'])) fun t ht => hlive t (by simp [ht])⟩
    obtain ⟨hsize, halignment⟩ := hrequests b (by simp) r hr
    exact ⟨hv.size_lt (fun t ht => hlive t (by simp [ht])) hm hsize, halignment ▸ b.layout.alignment_le⟩

end Downcall

/-! ### Taking a result -/

open Verification in
theorem run_putTogether {next : List Shape} : ∀ {ps : List Piece} {i : Nat},
    run boxStep i (putTogether ps) [.segment length] = .ok next → next = [.segment length]
  | [], _, h => (run_nil.1 h).symm
  | p :: ps, i, h => by
    obtain ⟨middle, hmove, h⟩ := run_cons.1 h
    obtain ⟨last, hfield, h⟩ := run_cons.1 h
    obtain rfl : middle = [.scalar p.kind, .segment length] := boxStep_eq_ok hmove
    obtain ⟨length', rest, hstack, -, rfl⟩ := boxStep_eq_ok hfield
    cases hstack
    exact run_putTogether h

open Verification in
/-- A segment that a placement gives back has exactly the size of the layout. -/
theorem Placement.byteSize_of_run {placement : Placement} (hp : placement.program l false = .ok p)
    (h : run boxStep i p [] = .ok [.segment length]) : l.byteSize = .ok length := by
  cases placement with
  | whole s =>
    cases hp
    unfold scalarProgram at h
    split at h
    · obtain ⟨middle, hmove, h⟩ := run_cons.1 h
      obtain rfl : middle = [.scalar _] := boxStep_eq_ok hmove
      cases run_nil.1 h
    · obtain ⟨middle, hmove, h⟩ := run_cons.1 h
      obtain rfl : middle = [.scalar .i64] := boxStep_eq_ok hmove
      obtain ⟨last, hbox, h⟩ := run_cons.1 h
      obtain ⟨rest, -, rfl⟩ := boxStep_eq_ok hbox
      cases run_nil.1 h
  | pieces ps =>
    obtain ⟨allocate, hallocate, hp⟩ := bind_eq_ok.1 hp
    cases hp
    obtain ⟨size, hsize, rfl⟩ := Step.allocateFor_eq_ok hallocate
    obtain ⟨middle, hstep, h⟩ := run_cons.1 h
    obtain rfl : middle = [.segment size] := boxStep_eq_ok hstep
    cases run_putTogether h
    exact hsize
  | reference r =>
    obtain ⟨copy, hcopy, hp⟩ := bind_eq_ok.1 hp
    cases hp
    obtain ⟨size, hsize, rfl⟩ := Step.copyOf_eq_ok hcopy
    obtain ⟨_, -, h⟩ := run_cons.1 h
    obtain ⟨_, -, h⟩ := run_cons.1 h
    obtain ⟨last, hstep, h⟩ := run_cons.1 h
    obtain ⟨rest, -, rfl⟩ := boxStep_eq_ok hstep
    cases run_nil.1 h
    exact hsize

namespace Downcall

/-- A segment of the arena is handed out as a copy in memory of its own. -/
theorem detach_owns (hm : m.Ready)
    (hv : ∀ t, v = .segment t → ∃ length, t.InScratch m.scratch m.memory length) :
    Yields (detach v) m fun w n => n.frame = m.frame ∧ n.world = m.world ∧ w.carrier? = v.carrier? ∧
      ∀ t, w = .segment t → t.scope = .owned ∧ ∃ s, v = .segment s ∧ t.length = s.length := by
  cases v with
  | segment t =>
    obtain ⟨length, ht⟩ := hv t rfl
    have hlength := ht.length
    have hend := ht.end_le
    refine .bind (.toOwned hm.memory (ht.valid hm).alive (fun i hi => by omega) ?_)
    rintro copy memory hscope hlength' -
    refine .pure ⟨rfl, rfl, rfl, fun t' ht' => ?_⟩
    cases ht'
    exact ⟨hscope, t, rfl, hlength'⟩
  | _ => exact .pure ⟨rfl, rfl, rfl, by simp⟩

end Downcall

/-- What a call gives back: what carries the result, `void` for none.  An aggregate has exactly its size and
lies in memory that outlives the call. -/
structure CallingSequence.Returned (d : Descriptor) (s : CallingSequence) (v : Value) : Prop where
  carrier : v.carrier? = s.resultCarrier
  void : s.resultCarrier = none → v = .void
  owned : ∀ t, v = .segment t → t.scope = .owned ∧ ∃ l, d.result = some l ∧ l.byteSize = .ok t.length

/-- What a call comes to, given the frame that its native code was sent and the frame received from it.  An
error of the native code is passed on.  Under the System V convention native code has to hand the address of
a result buffer back, and it is an error if it does not. -/
inductive CallingSequence.Answers (c : Convention) (d : Descriptor) (s : CallingSequence) (name : String)
    (sent received : Frame) : Except NativeError Unit → Except CallError Value → Prop
  | failed (e : NativeError) : Answers c d s name sent received (.error e) (.error (.native e))
  | value {v : Value} : s.Returned d v →
    (c = .sysV → s.isIndirect = true → ∃ t, v = .segment t ∧ t.address = sent.wordAt (.slot .integerArg 0 8) ∧
      t.address = received.wordAt (.slot .integerRet 0 8)) → Answers c d s name sent received (.ok ()) (.ok v)
  | wrongAddress : c = .sysV → s.isIndirect = true →
    received.wordAt (.slot .integerRet 0 8) ≠ sent.wordAt (.slot .integerArg 0 8) →
    Answers c d s name sent received (.ok ()) (.error (.native ⟨name ++ " returned "
      ++ (Value.address (received.wordAt (.slot .integerRet 0 8))).text ++ " instead of its result buffer "
      ++ wordText (sent.wordAt (.slot .integerArg 0 8))⟩))

namespace Downcall

/-- A result in storages is put together by a verified program and handed out in memory of its own. -/
theorem takeResult_storages {placement : Placement} {sent : Frame} (hd : d.result = some l)
    (hcarrier : s.resultCarrier = some l.carrier)
    (hdescribes : (ResultPlan.storages l placement).Describes .downcall (s.indirect.map fun i =>
      (i.pointer, i.layout)) s.result)
    (hreturns : placement.Returns l (Cursor.results c))
    (hverified : ∀ b ∈ s.result, verifyBox b.program b.carrier b.layout = .ok ()) (hm : m.Ready)
    (hhas : ∀ t ∈ placement.storages, m.frame.layout.Has t) (name : String) :
    Yields (takeResult name s c.returnsResultAddress none) m fun r n =>
      n.frame = m.frame ∧ n.world = m.world ∧
        s.Answers c d name sent m.frame (.ok ()) (r.mapError .native) := by
  have hprogram := hdescribes.resultProgram_storages
  have haccepted : verifyBox s.resultProgram l.carrier l = .ok () := by
    obtain ⟨-, program, hprogram', hresult⟩ := hdescribes
    rw [ok_unique hprogram hprogram']
    exact hverified _ hresult
  have hserves := hm.serves s.resultProgram.requests fun r hr => by
    obtain ⟨hsize, halignment⟩ := Placement.requests_program hprogram r hr
    have hle := hreturns.size_le _ hsize
    have hlimit : 40 < wordLimit := by decide
    exact ⟨by omega, halignment ▸ l.alignment_le⟩
  rw [← Placement.storages_program hprogram] at hhas
  have hbox : Yields (Engine.box s.resultProgram) m fun v n => v.carrier? = some l.carrier ∧ Boxes m n ∧
      ∀ t, v = .segment t → ∃ length, l.byteSize = .ok length ∧ t.InScratch n.scratch n.memory length := by
    refine .box (.of_leadsTo ((verifyBox_leadsTo haccepted hm hhas hserves).mono ?_))
    rintro _ n ⟨v, rfl, hv, hboxes, hsegment⟩
    refine ⟨v, rfl, hv, hboxes, fun t ht => ?_⟩
    obtain ⟨_, length, -, -, hrun, hscratch⟩ := hsegment t ht
    exact ⟨length, Placement.byteSize_of_run hprogram hrun, hscratch⟩
  refine .andThen hbox ?_
  rintro v n ⟨hv, hboxes, hsegment⟩
  refine .andThen (detach_owns hboxes.evolves.sound fun t ht => (hsegment t ht).imp fun _ h => h.2) ?_
  rintro w k ⟨hframe, hworld, hw, howned⟩
  refine .pure ⟨hframe.trans hboxes.frame, hworld.trans hboxes.world, .value ⟨?_, ?_, fun t ht => ?_⟩ ?_⟩
  · rw [hw, hv, hcarrier]
  · rw [hcarrier]
    exact fun h => by cases h
  · obtain ⟨hscope, t', ht', hlength⟩ := howned t ht
    obtain ⟨length, hsize, hscratch⟩ := hsegment t' ht'
    exact ⟨hscope, l, hd, by rw [hlength, hscratch.length, hsize]⟩
  · intro _ hindirect
    rw [hdescribes.isIndirect] at hindirect
    cases hindirect

/-- The buffer of a result in memory is the result.  Whether native code has to return its address is up to the
convention. -/
theorem takeResult_memory {pointer : Storage} {returned : Option Storage} {t : Segment} {sent : Frame}
    (hd : d.result = some l) (hl : l.isAggregate = true) (hcarrier : s.resultCarrier = some l.carrier)
    (hdescribes : (ResultPlan.memory l pointer returned).Describes .downcall (s.indirect.map fun i =>
      (i.pointer, i.layout))
      s.result)
    (hreturned : returned.isSome = c.returnsResultAddress)
    (hregister : ∀ r ∈ returned, c.storage .integerRet 0 = .ok r) (hhas : ∀ r ∈ returned, m.frame.layout.Has r)
    (hscope : t.scope = .owned)
    (hsize : l.byteSize = .ok t.length) (hsent : c = .sysV → sent.wordAt (.slot .integerArg 0 8) = t.address)
    (name : String) :
    Yields (takeResult name s c.returnsResultAddress (some t)) m fun r n =>
      n.frame = m.frame ∧ n.world = m.world ∧
        s.Answers c d name sent m.frame (.ok ()) (r.mapError .native) := by
  have hsegment : l.carrier = .segment := by simpa [Layout.isAggregate] using hl
  have hresult : s.Returned d (.segment t) := by
    refine ⟨by rw [hcarrier, hsegment]; rfl, fun h => ?_, fun t' ht' => ?_⟩
    · rw [hcarrier] at h
      cases h
    · cases ht'
      exact ⟨hscope, l, hd, hsize⟩
  have hprogram := hdescribes.resultProgram_memory
  unfold takeResult
  cases c with
  | aarch64 =>
    obtain rfl : returned = none := Option.not_isSome_iff_eq_none.1 (Bool.eq_false_iff.1 hreturned)
    rw [hprogram]
    exact .pure ⟨rfl, rfl, .value hresult (fun h => by cases h)⟩
  | sysV =>
    obtain ⟨r, rfl⟩ := Option.isSome_iff_exists.1 hreturned
    obtain rfl : r = .slot .integerRet 0 8 := (Convention.storage_eq_ok (hregister r rfl)).1
    have hindirect : s.isIndirect = true := hdescribes.isIndirect
    rw [hprogram]
    refine .bind (.boxPointer (hhas _ rfl) fun log => ?_)
    dsimp only
    rw [← hsent rfl]
    by_cases hword : m.frame.wordAt (.slot .integerRet 0 8) = sent.wordAt (.slot .integerArg 0 8)
    · rw [if_neg (by simpa [Value.asAddress?, Convention.returnsResultAddress] using hword)]
      exact .pure ⟨rfl, rfl, .value hresult fun _ _ => ⟨t, rfl, (hsent rfl).symm, by rw [hword, hsent rfl]⟩⟩
    · rw [if_pos (by simpa [Value.asAddress?, Convention.returnsResultAddress] using hword)]
      exact .pure ⟨rfl, rfl, .wrongAddress rfl hindirect hword⟩

theorem takeResult_answers (sent : Frame) (hplan : c.planResult d.result = .ok (plan, cursor))
    (hdescribes : plan.Describes .downcall (s.indirect.map fun i => (i.pointer, i.layout)) s.result)
    (hverified : ∀ b ∈ s.result, verifyBox b.program b.carrier b.layout = .ok ()) (hm : m.Ready)
    (hhas : ∀ t ∈ plan.resultStorages, m.frame.layout.Has t) (hbuffer : plan.Awaits buffer b)
    (hsent : ∀ p, plan.pointer? = some p → sent.wordAt p = b) (name : String) :
    Yields (takeResult name s c.returnsResultAddress buffer) m fun r n =>
      n.frame = m.frame ∧ n.world = m.world ∧
        s.Answers c d name sent m.frame (.ok ()) (r.mapError .native) := by
  have hcarrier := hdescribes.resultCarrier hplan
  have hregister := Convention.planResult_pointer hplan
  cases hd : d.result with
  | none =>
    rw [hd] at hplan hcarrier
    cases hplan
    obtain rfl := hbuffer
    have hprogram : s.resultProgram = [] := by
      unfold CallingSequence.resultProgram
      rw [hdescribes.2]
    have hdirect : s.isIndirect = false := hdescribes.isIndirect
    unfold takeResult
    rw [hprogram, Engine.box_nil]
    refine .pure ⟨rfl, rfl, .value ⟨hcarrier.symm, fun _ => rfl, by simp⟩ fun _ hindirect => ?_⟩
    rw [hdirect] at hindirect
    cases hindirect
  | some l =>
    rw [hd] at hplan hcarrier
    rcases Convention.planResult_eq_ok hplan with
      ⟨p, rfl, hreturns⟩ | ⟨pointer, returned, rfl, hl, hreturned, hstorage⟩
    · obtain rfl := hbuffer
      exact takeResult_storages hd hcarrier hdescribes hreturns hverified hm hhas name
    · obtain ⟨t, rfl, rfl, hscope, hsize⟩ := hbuffer
      refine takeResult_memory hd hl hcarrier hdescribes hreturned hstorage (fun r hr =>
        hhas r (Option.mem_toList.2 hr)) hscope
        hsize ?_ name
      rintro rfl
      rw [← hsent pointer rfl, hregister pointer rfl]
      rfl

/-- Until native code runs, a call moves its arguments into the frame.  The address of a result buffer stays
in its register meanwhile. -/
theorem send_yields {α : Type} {placements : List Placement} {last : Cursor}
    (hs : arrange c d .downcall = .ok s) (hplan : c.planResult d.result = .ok (plan, cursor))
    (hplaced : Placed c true cursor d.args placements s.arguments last)
    (hdescribes : plan.Describes .downcall (s.indirect.map fun i => (i.pointer, i.layout)) s.result)
    (hdirection : s.direction = .downcall) (hsize : ∀ i ∈ s.indirect, i.layout.byteSize = .ok i.size)
    (hlayout : FrameLayout.covering c s.storages = .ok m.frame.layout) (hm : m.Ready)
    (hargs : List.Forall₂ Value.Fits args d.args) (hlive : ∀ t, .segment t ∈ args → t.Live m)
    {rest : Option Segment → Engine σ α} {Q : α → Machine σ → Prop}
    (hrest : ∀ buffer b n, Marshals m n → n.frame.layout = m.frame.layout → plan.Awaits buffer b →
      (∀ p, plan.pointer? = some p → n.frame.wordAt p = b) → Yields (rest buffer) n Q) :
    Yields (do let buffer ← passResultBuffer s; passArguments args s.userPrograms; rest buffer) m Q := by
  obtain ⟨hlayouts, hbindings⟩ := hplaced.bindings
  rw [← hlayouts, List.forall₂_map_right_iff] at hargs
  have hhas := arrange_has hs hlayout
  rw [CallingSequence.steps, Program.storages_append, hdescribes.storages_argumentPrograms] at hhas
  refine .andThen (passResultBuffer_yields hdescribes hsize hm fun p hp => hhas p (by simp [hp])) ?_
  rintro buffer n ⟨hn, b, hbuffer, hpointer⟩
  have hhas' : ∀ t ∈ s.arguments.flatMap fun b => b.program.storages, n.frame.layout.Has t := by
    intro t ht
    rw [hn.layout]
    exact hhas t (List.mem_append_left _ (List.mem_append_right _ ht))
  have hlive' : ∀ t, .segment t ∈ args → t.Live n := fun t ht => (hlive t ht).marshals hn.marshals
  have hserves := serves_arguments (fun b hb => (hbindings b hb).2) hargs hlive' hn.marshals.ready
  refine .andThen (.of_leadsTo (passArguments_leadsTo ((arrange_built hs).verifyUnbox_arguments hdirection)
    (fun b hb => (hbindings b hb).1) hhas' hserves hargs hlive' hn.marshals.ready)) ?_
  rintro ⟨⟩ k hk
  refine hrest buffer b k (hn.trans hk).marshals (hn.trans hk).layout hbuffer fun p hp => ?_
  rw [hk.words p fun t ht => ?_, hpointer p hp]
  rw [hn.layout]
  exact Convention.pointer_apart hplan hdescribes (arrange_numbers hs).1 hlayout hp t ht

/-- **An interpreted call is total.**  It sends its native code a frame, once, and answers with what this
comes to. -/
theorem interpret_answers (hs : arrange c d .downcall = .ok s)
    (hlayout : FrameLayout.covering c s.storages = .ok m.frame.layout) (hm : m.memory.Sound)
    (hargs : List.Forall₂ Value.Fits args d.args)
    (hlive : ∀ t, .segment t ∈ args → t.Valid m.memory ∧ m.memory.Reserved t.address.toNat t.length)
    {native : Native σ} (hkeeps : s.hasResultProgram = true → native.KeepsLayout m.frame.layout)
    (hnative : ∀ k, k.frame.layout = m.frame.layout → k.memory.Sound →
      Yields native k fun _ k' => k.memory.Extends k'.memory) (name : String) :
    Yields (interpret name s c.returnsResultAddress native args) m fun r n => ∃ k outcome k',
      native k = .ok outcome k' ∧ k.world = m.world ∧ k.frame.layout = m.frame.layout ∧ n.world = k'.world ∧
        n.frame = k'.frame ∧ s.Answers c d name k.frame k'.frame outcome (r.mapError .native) := by
  obtain ⟨plan, cursor, placements, last, hplan, hplaced, hdescribes, hdirection, hsize⟩ := arrange_eq_ok hs
  have hhas := arrange_has hs hlayout
  rw [CallingSequence.steps, Program.storages_append, hdescribes.storages_resultProgram] at hhas
  have hready : Machine.Ready { m with scratch := Scratch.new s.scratchSize } := Scratch.new_sound hm _
  have hlive' : ∀ t, .segment t ∈ args → t.Live { m with scratch := Scratch.new s.scratchSize } := fun t ht =>
    (hlive t ht).1.live (m := { m with scratch := Scratch.new s.scratchSize }) (hlive t ht).2 rfl
  unfold interpret
  refine .withScratch (P := fun r n => ∃ k outcome k', native k = .ok outcome k' ∧ k.world = m.world ∧
    k.frame.layout = m.frame.layout ∧ n.world = k'.world ∧ n.frame = k'.frame ∧
      s.Answers c d name k.frame k'.frame outcome (r.mapError .native)) ?_ fun _ _ h => h
  refine send_yields (m := { m with scratch := Scratch.new s.scratchSize }) hs hplan hplaced hdescribes
    hdirection hsize hlayout
    hready hargs hlive' ?_
  intro buffer b n hn hframe hbuffer hpointer
  have hcalled := hnative { n with scratch := Scratch.closed, log := #[] } hframe hn.ready.memory
  refine .record (.bind (.native hcalled.and_ok ?_))
  rintro outcome k' ⟨hrun, hextends⟩
  cases outcome with
  | error e => exact .pure ⟨_, _, _, hrun, hn.world, hframe, rfl, rfl, .failed e⟩
  | ok _ =>
    have hready' (log) : Machine.Ready { k' with scratch := n.scratch, log := log } :=
      Scratch.Sound.extends hn.ready hextends
    refine (takeResult_answers n.frame hplan hdescribes
      ((arrange_built hs).verifyBox_result hdirection) (hready' _)
      (fun t ht => ?_) hbuffer hpointer name).mono ?_
    · have hprogram := CallingSequence.hasResultProgram_of_mem (hdescribes.storages_resultProgram ▸ ht)
      rw [show k'.frame.layout = m.frame.layout from
        hkeeps hprogram { n with scratch := Scratch.closed, log := #[] } k' hframe hrun]
      exact hhas t (List.mem_append_right _ ht)
    · rintro r i ⟨hi, hworld, hanswers⟩
      exact ⟨_, _, _, hrun, hn.world, hframe, hworld, hi, hanswers⟩

end Downcall

/-! ### Linked handles -/

theorem NativeFunction.call_extends {run : φ → Native σ} {f : NativeFunction φ}
    (h : Yields (run f.code) k fun _ k' => k.memory.Extends k'.memory) :
    Yields (f.call run) k fun _ k' => k.memory.Extends k'.memory := by
  refine .andThen h ?_
  rintro outcome k' hk'
  cases outcome with
  | error e => exact .record (.pure hk')
  | ok _ => exact .pure hk'

namespace DowncallHandle

variable {h : DowncallHandle φ} {run : φ → Native σ}

theorem invoke_of_rejected {e : CallError} (hcheck : h.sequence.checkArguments args = .error (.error e))
    (run : φ → Native σ) (m : Machine σ) : h.invoke run args m = .ok (.error e) m := by
  unfold invoke interpret checked
  rw [hcheck]
  cases h.direct <;> rfl

theorem interpret_of_accepted (hcheck : h.sequence.checkArguments args = .ok ())
    {Q : Except CallError Value → Machine σ → Prop}
    (hcall : Yields (Downcall.interpret h.name h.sequence h.returnsResultAddress (h.native.call run) args) m
      fun r n => Q (r.mapError .native) n) :
    Yields (h.interpret run args) m Q := by
  unfold interpret checked
  rw [hcheck]
  exact .bind (.pure (.andThen hcall fun r n hr => .pure hr))

end DowncallHandle

/-- **A downcall is total.**  Arguments that do not fit their layouts are rejected with an error about their
number or about the first of them that does not fit, and nothing happens.  For arguments that fit, the
native code of a linked handle is run once, on a frame of the layout of the handle, and the call answers
with what this comes to.  The frame stays as the native code left it. -/
theorem downcall_total {settings : Settings} {j j' : Linkage φ τ} {symbol : Symbol} {h : DowncallHandle φ}
    (hj : j.Reachable c settings) (hdown : Linking.downcall symbol d j = .ok h j') {run : φ → Native σ}
    (hkeeps : h.sequence.hasResultProgram = true → (run h.native.code).KeepsLayout h.layout)
    (hnative : ∀ k, k.frame.layout = h.layout → k.memory.Sound →
      Yields (run h.native.code) k fun _ k' => k.memory.Extends k'.memory)
    (hlayout : m.frame.layout = h.layout) (hm : m.memory.Sound)
    (hlive : ∀ t, .segment t ∈ args → t.Valid m.memory ∧ m.memory.Reserved t.address.toNat t.length) :
    (¬ List.Forall₂ Value.Fits args d.args → ∃ e, d.Rejects args e ∧ h.invoke run args m = .ok (.error e) m) ∧
    (List.Forall₂ Value.Fits args d.args → Yields (h.invoke run args) m fun r n => ∃ k outcome k',
      run h.native.code k = .ok outcome k' ∧ k.world = m.world ∧ k.frame.layout = h.layout ∧
        n.world = k'.world ∧ n.frame = k'.frame ∧
        h.sequence.Answers c d h.name k.frame k'.frame outcome r) := by
  have hh := hj.handle_linked hdown
  rcases arrange_checkArguments hh.sequence args with ⟨hfits, hcheck⟩ | ⟨e, hrejects, hcheck⟩
  · refine ⟨fun hnot => absurd hfits hnot, fun _ => ?_⟩
    -- What is claimed shows in the frame and the world of the machine, so interpreting the call shows it too.
    let shown (r : Except CallError Value) (w : View σ) : Prop := ∃ k outcome k',
      run h.native.code k = .ok outcome k' ∧ k.world = m.world ∧ k.frame.layout = h.layout ∧
        w.world = k'.world ∧ w.frame = k'.frame ∧
        h.sequence.Answers c d h.name k.frame k'.frame outcome r
    have hinterpret : Yields (h.interpret run args) m fun r n => shown r n.view := by
      refine DowncallHandle.interpret_of_accepted hcheck ?_
      have hframe := hh.layout
      rw [← hlayout] at hframe hnative
      rw [hh.returnsResultAddress]
      refine (Downcall.interpret_answers hh.sequence hframe hm hfits hlive
        (fun hprogram => NativeFunction.keepsLayout (hlayout ▸ hkeeps hprogram)) (fun k hk hk' =>
          NativeFunction.call_extends (hnative k hk hk')) h.name).mono ?_
      rintro r n ⟨k, outcome, k', hrun, hworld, hk, hn, hn', hanswers⟩
      obtain ⟨i, hcode, hview⟩ := NativeFunction.call_eq_ok hrun
      obtain ⟨hiframe, -, hiworld⟩ := Machine.view_eq_iff.1 hview
      exact ⟨k, outcome, i, hcode, hworld, hk.trans hlayout, hn.trans hiworld.symm, hn'.trans hiframe.symm,
        hiframe ▸ hanswers⟩
    exact .of_observe (hh.observe_invoke hkeeps args hlayout) hinterpret
  · exact ⟨fun _ => ⟨e, hrejects, DowncallHandle.invoke_of_rejected hcheck run m⟩,
      fun hfits => absurd hfits hrejects.not_fits⟩

/-- A function on System V with a result in memory, which hands the address of the buffer back. -/
theorem downcall_total_in_memory :
    let d : Descriptor := ⟨[.value .i8], some (.padding 24)⟩
    let symbol : Symbol := ⟨"make", BitVec.ofNat 64 Registry.firstAddress⟩
    let j : Linkage Unit Unit := ⟨.new .sysV .everything, (Registry.empty.define "make" ()).2, #[]⟩
    let s : CallingSequence := ⟨.downcall, [⟨.primitive .i8, .value .i8, [.move (.slot .integerArg 1 8) .i8]⟩],
      some ⟨.address, .address, [.move (.slot .integerRet 0 8) .i64, .boxAddress]⟩,
      some ⟨[.boxAddress, .move (.slot .integerArg 0 8) .i64], .padding 24, 24⟩, 0⟩
    let l : FrameLayout :=
      ⟨[⟨0, 6, 8⟩, ⟨48, 8, 8⟩, ⟨112, 0, 8⟩, ⟨112, 0, 8⟩, ⟨112, 2, 8⟩, ⟨128, 2, 8⟩, ⟨144, 2, 16⟩], 176⟩
    let h : DowncallHandle Unit := ⟨"make", s, l, ⟨"make", ()⟩, none, true⟩
    let run : Unit → Native Unit := fun _ m =>
      .ok (.ok ()) { m with frame := m.frame.setWord 112 (m.frame.wordAt (.slot .integerArg 0 8)) }
    let m : Machine Unit := ⟨⟨l, Array.replicate l.wordCount 0, Array.size_replicate⟩, .empty, .closed, #[], ()⟩
    (∃ j', Linking.downcall symbol d j = .ok h j') ∧
      (∃ e, d.Rejects [.i64 5] e ∧ h.invoke run [.i64 5] m = .ok (.error e) m) ∧
      ∃ t n, h.invoke run [.i8 5] m = .ok (.ok (.segment t)) n ∧ t.scope = .owned ∧ t.length = 24 := by
  intro d symbol j s l h run m
  obtain ⟨j', hrun⟩ : ∃ j', Linking.downcall symbol d j = .ok h j' :=
    Linking.downcall_of_compiles rfl rfl (FrameLayout.covering_sysV (by decide)) rfl ⟨_, rfl⟩
  have hkeeps : s.hasResultProgram = true → (run ()).KeepsLayout l := by
    intro _ k n hk hcode
    cases hcode
    exact hk
  have hnative : ∀ k : Machine Unit, k.frame.layout = l → k.memory.Sound →
      Yields (run ()) k fun _ k' => k.memory.Extends k'.memory := fun k _ hk => .of_ok rfl (.refl hk)
  have hm : m.memory.Sound := ⟨by decide, by simp [m, Memory.empty]⟩
  refine ⟨⟨j', hrun⟩, (downcall_total (.new _ _) hrun hkeeps hnative rfl hm (by simp)).1 fun hfits => ?_, ?_⟩
  · cases (List.forall₂_cons.1 hfits).1.carrier
  · have hfits : List.Forall₂ Value.Fits [.i8 5] d.args := .cons ⟨rfl, by simp⟩ .nil
    have hanswers := (downcall_total (.new _ _) hrun hkeeps hnative rfl hm (by simp)).2 hfits
    obtain ⟨v, n, hinvoke⟩ :=
      Engine.exists_value_of_observe (x := h.invoke run [.i8 5]) (m := m) (by decide +kernel)
    obtain ⟨k, outcome, k', hcode, -, hk, -, -, hanswers⟩ := hanswers.at_ok hinvoke
    cases hcode
    cases hanswers with
    | value hreturned _ =>
      obtain ⟨t, rfl⟩ := Value.carrier?_eq_segment.1 hreturned.carrier
      obtain ⟨hscope, _, hd, hsize⟩ := hreturned.owned t rfl
      cases hd
      exact ⟨t, n, hinvoke, hscope, (ok_unique hsize rfl)⟩

/-- Three doubles on AArch64, returned by native code that succeeds and puts a frame of another convention
in the place of its own.  The register of the last double is not part of that frame, and the call faults. -/
theorem replaced_frame_faults :
    let doubles : Layout := .struct [.value .f64, .value .f64, .value .f64]
    let register (i : Nat) : Storage := .slot .vectorRet i 8
    let symbol : Symbol := ⟨"replace", BitVec.ofNat 64 Registry.firstAddress⟩
    let j : Linkage Unit Unit := ⟨.new .aarch64 .everything, (Registry.empty.define "replace" ()).2, #[]⟩
    let s : CallingSequence :=
      ⟨.downcall, [], some ⟨.segment, doubles, [.allocate 24 8, .move (register 0) .f64, .field 0 .f64,
      .move (register 1) .f64, .field 8 .f64, .move (register 2) .f64, .field 16 .f64]⟩, none, 24⟩
    let l : FrameLayout :=
      ⟨[⟨0, 8, 8⟩, ⟨64, 8, 8⟩, ⟨128, 0, 8⟩, ⟨128, 1, 8⟩, ⟨136, 2, 8⟩, ⟨152, 4, 8⟩, ⟨184, 0, 16⟩], 184⟩
    let other : FrameLayout :=
      ⟨[⟨0, 6, 8⟩, ⟨48, 8, 8⟩, ⟨112, 0, 8⟩, ⟨112, 0, 8⟩, ⟨112, 2, 8⟩, ⟨128, 2, 8⟩, ⟨144, 2, 16⟩], 176⟩
    let h : DowncallHandle Unit := ⟨"replace", s, l, ⟨"replace", ()⟩, none, false⟩
    let frame (l : FrameLayout) : Frame := ⟨l, Array.replicate l.wordCount 0, Array.size_replicate⟩
    let run : Unit → Native Unit := fun _ m => .ok (.ok ()) { m with frame := frame other }
    FrameLayout.covering .sysV [] = .ok other ∧
      (∃ j', Linking.downcall symbol ⟨[], some doubles⟩ j = .ok h j') ∧
      ∃ n, h.invoke run [] ⟨frame l, .empty, .closed, #[], ()⟩ = .error (.outsideFrame (register 2)) n := by
  intro doubles register symbol j s l other h frame run
  exact ⟨by cbv, Linking.downcall_of_compiles rfl rfl (FrameLayout.covering_aarch64 (by decide)) rfl ⟨_, rfl⟩,
    Engine.exists_error_of_observe (by decide +kernel)⟩

end ForeignCall
