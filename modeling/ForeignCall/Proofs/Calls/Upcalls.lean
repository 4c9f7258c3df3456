import ForeignCall.Proofs.Calls.Delivery
import ForeignCall.Proofs.DirectCall.Agreement

/-!
# Upcalls are total and fail atomically

* `Value.Received`: what a target receives for a layout, and `Upcall.takeArguments_leadsTo`: verified
  programs put such values together;
* `Target.Responds`: what is asked of a target;
* `CallingSequence.Completes`: what an upcall comes to after its target has answered, and
  `Upcall.complete_leadsTo`: it does come to that;
* `Upcall.interpret_leadsTo`: an interpreted upcall;
* `upcall_total`: an upcall of a linked handler calls its target once and completes.  A result that is not
  accepted leaves the frame and memory as they are.
-/

namespace ForeignCall

variable {σ φ τ : Type} {m n k : Machine σ} {F : Fault → Prop} {c : Convention} {d : Descriptor}
  {s : CallingSequence} {cursor last : Cursor} {l : Layout} {v : Value} {bs : List Binding}

/-! ### What a target receives -/

/-- What a target receives for a layout: what carries it, and for an aggregate a live segment of exactly its
size. -/
structure Value.Received (l : Layout) (memory : Memory) (v : Value) : Prop where
  carrier : v.carrier? = some l.carrier
  segment : ∀ t, v = .segment t → l.byteSize = .ok t.length ∧ t.Valid memory

/-- A value that was put together for a layout: what carries it, and for an aggregate scratch memory of its
size. -/
structure Value.Boxed (l : Layout) (m : Machine σ) (v : Value) : Prop where
  carrier : v.carrier? = some l.carrier
  segment : ∀ t, v = .segment t → ∃ length, l.byteSize = .ok length ∧ t.InScratch m.scratch m.memory length

namespace Value.Boxed

theorem boxes (h : v.Boxed l m) (hboxes : Boxes m n) : v.Boxed l n :=
  ⟨h.carrier, fun t ht => (h.segment t ht).imp fun _ hlength => ⟨hlength.1, hboxes.inScratch hlength.2⟩⟩

theorem received (h : v.Boxed l m) (hm : m.Ready) : v.Received l m.memory := by
  refine ⟨h.carrier, fun t ht => ?_⟩
  obtain ⟨length, hsize, hscratch⟩ := h.segment t ht
  exact ⟨hscratch.length ▸ hsize, hscratch.valid hm⟩

end Value.Boxed

theorem Placed.exists_program {unboxes : Bool} {ls : List Layout} {ps : List Placement}
    (h : Placed c unboxes cursor ls ps bs last) :
    ∀ b ∈ bs, ∃ p : Placement, p.program b.layout unboxes = .ok b.program := by
  induction h with
  | nil => simp
  | cons _ hprogram _ ih =>
    intro b hb
    rcases List.mem_cons.1 hb with rfl | hb
    · exact ⟨_, hprogram⟩
    · exact ih b hb

/-- Verified programs of placements put the arguments together, whatever storages they share. -/
theorem Upcall.takeArguments_leadsTo (hverified : ∀ b ∈ bs, verifyBox b.program b.carrier b.layout = .ok ())
    (hcarrier : ∀ b ∈ bs, b.carrier = b.layout.carrier)
    (hprogram : ∀ b ∈ bs, ∃ p : Placement, p.program b.layout false = .ok b.program) (hm : m.Ready)
    (hhas : ∀ t ∈ bs.flatMap fun b => b.program.storages, m.frame.layout.Has t)
    (hserves : m.scratch.Serves F m.memory (bs.flatMap fun b => b.program.requests)) :
    LeadsTo F (takeArguments (bs.map (·.program))) m fun args n =>
      List.Forall₂ (fun l v => v.Boxed l n) (bs.map (·.layout)) args ∧ Boxes m n := by
  induction bs generalizing m with
  | nil => exact .pure ⟨.nil, .refl hm⟩
  | cons b bs ih =>
    rw [List.flatMap_cons] at hhas hserves
    have hbox : LeadsTo F (Engine.box b.program) m fun v n => v.Boxed b.layout n ∧ Boxes m n ∧
        n.scratch.Serves F n.memory (bs.flatMap fun b => b.program.requests) := by
      refine .box ((verifyBox_serves (hverified b (by simp)) hm (fun t ht => hhas t (by simp [ht]))
        hserves).mono ?_)
      rintro _ n ⟨⟨v, rfl, hv, hboxes, hsegment⟩, hserves'⟩
      refine ⟨v, rfl, ⟨hcarrier b (by simp) ▸ hv, fun t ht => ?_⟩, hboxes, hserves'⟩
      obtain ⟨p, hp⟩ := hprogram b (by simp)
      obtain ⟨_, length, -, -, hrun, hscratch⟩ := hsegment t ht
      exact ⟨length, p.byteSize_of_run hp hrun, hscratch⟩
    refine .andThen hbox ?_
    rintro v n ⟨hv, hboxes, hserves'⟩
    refine .andThen (ih (fun b' hb' => hverified b' (by simp [hb'])) (fun b' hb' => hcarrier b' (by simp [hb']))
      (fun b' hb' => hprogram b' (by simp [hb'])) hboxes.evolves.sound (fun t ht => ?_) hserves') ?_
    · rw [hboxes.frame]
      exact hhas t (List.mem_append_right _ ht)
    · rintro args k ⟨hargs, hrest⟩
      exact .pure ⟨.cons (hv.boxes hrest) hargs, hboxes.trans hrest⟩

/-! ### What a target does -/

/-- Called on values for the arguments of a function, in the world of `m` and after the allocations of a
call, the target does not fault, keeps what is allocated, and returns only segments that are alive. -/
def Target.Responds (d : Descriptor) (m : Machine σ) (target : Target σ) : Prop :=
  ∀ args k, List.Forall₂ (fun l v => v.Received l k.memory) d.args args → k.world = m.world →
    m.memory.Extends k.memory →
    ∃ outcome k', target args k = .ok outcome k' ∧ k.memory.Extends k'.memory ∧
      ∀ t, outcome = .ok (.segment t) → t.Valid k'.memory

/-! ### What an upcall comes to -/

/-- What an upcall comes to, given the outcome of its target and the bytes that the target left in memory.
A target that fails, and a result that is not accepted, are errors, and change neither the frame nor
memory.  A result that is accepted is delivered. -/
inductive CallingSequence.Completes (c : Convention) (d : Descriptor) (s : CallingSequence)
    (before after : Frame) (left bytes : Nat → Byte) : Except String Value → Except CallError Unit → Prop
  | failed (message : String) : after = before → bytes = left →
    Completes c d s before after left bytes (.error message) (.error (.target message))
  | rejected {v : Value} : ¬ d.Accepts v → after = before → bytes = left →
    Completes c d s before after left bytes (.ok v)
      (.error (.resultType (d.result.map Layout.carrier) v.carrier?))
  | delivered {v : Value} :
      d.Accepts v → s.Delivers d (before.wordAt c.pointerRegister) before after left bytes →
    Completes c d s before after left bytes (.ok v) (.ok ())

/-- An upcall on the machine `m` called its target once, on values for the arguments, and completed with
what shows in `w`. -/
def CallingSequence.Settles (c : Convention) (d : Descriptor) (s : CallingSequence) (target : Target σ)
    (m : Machine σ) (r : Except CallError Unit) (w : View σ) : Prop :=
  ∃ args k outcome k', List.Forall₂ (fun l v => v.Received l k.memory) d.args args ∧ k.world = m.world ∧
    target args k = .ok outcome k' ∧ w.world = k'.world ∧
      s.Completes c d m.frame w.frame k'.memory.bytes w.memory.bytes outcome r

namespace Upcall

theorem complete_leadsTo (hs : arrange c d .upcall = .ok s)
    (hlayout : FrameLayout.covering c s.storages = .ok m.frame.layout) (hm : m.Ready)
    {outcome : Except String Value} (hvalid : ∀ t, outcome = .ok (.segment t) → t.Valid m.memory) :
    LeadsTo F (do
        match outcome with
        | .error message => return .error (.target message)
        | .ok v =>
          match ← Engine.outcome (checkResult s v) with
          | .error e => return .error e
          | .ok () =>
            deliver s (s.indirect.map fun i => .global (m.frame.wordAt c.pointerRegister) i.size) v
            return .ok ()) m fun r n =>
      n.world = m.world ∧ s.Completes c d m.frame n.frame m.memory.bytes n.memory.bytes outcome r := by
  obtain ⟨plan, cursor, _, _, hplan, -, hdescribes, hdirection, hsize⟩ := arrange_eq_ok hs
  have hhas := arrange_has hs hlayout
  rw [CallingSequence.steps, Program.storages_append] at hhas
  cases outcome with
  | error message => exact .pure ⟨rfl, .failed message rfl rfl⟩
  | ok v =>
    rcases hdescribes.checkResult_total hplan hsize v with ⟨haccepts, hcheck⟩ | ⟨hnot, hcheck⟩
    · dsimp only
      rw [hcheck]
      refine .bind (.pure (.andThen (deliver_leadsTo hplan hdescribes hsize
        ((arrange_built hs).verifyUnbox_result hdirection) hm (fun t ht =>
          hhas t (List.mem_append_right _ ht)) haccepts
        fun t ht => hvalid t (ht ▸ rfl)) ?_))
      rintro ⟨⟩ n ⟨hworld, hdelivers⟩
      exact .pure ⟨hworld, .delivered haccepts hdelivers⟩
    · dsimp only
      rw [hcheck]
      exact .bind (.pure (.pure ⟨rfl, .rejected hnot rfl rfl⟩))

/-- **An interpreted upcall** calls its target once and completes, as long as the arena serves the programs
of its arguments. -/
theorem interpret_leadsTo (hs : arrange c d .upcall = .ok s)
    (hlayout : FrameLayout.covering c s.storages = .ok m.frame.layout) (hm : m.memory.Sound)
    (hserves : (Scratch.new s.scratchSize).Serves F m.memory (s.arguments.flatMap fun b => b.program.requests))
    {target : Target σ} (htarget : target.Responds d m) :
    LeadsTo F (interpret s target) m fun r n => s.Settles c d target m r n.view := by
  obtain ⟨plan, cursor, placements, last, hplan, hplaced, hdescribes, hdirection, hsize⟩ := arrange_eq_ok hs
  obtain ⟨hlayouts, hbindings⟩ := hplaced.bindings
  have hhas := arrange_has hs hlayout
  rw [CallingSequence.steps, Program.storages_append, hdescribes.storages_argumentPrograms] at hhas
  have hready : Machine.Ready { m with scratch := Scratch.new s.scratchSize } := Scratch.new_sound hm _
  unfold interpret
  refine .withScratch (P := fun r n => s.Settles c d target m r n.view) ?_ ?_
  · refine .andThen (takeResultBuffer_leadsTo (b := m.frame.wordAt c.pointerRegister) hdescribes hsize
      fun p hp => ?_) ?_
    · exact ⟨hhas p (by simp [hp]), congrArg m.frame.wordAt (Convention.planResult_pointer hplan p hp)⟩
    rintro buffer _ ⟨⟨log, rfl⟩, rfl⟩
    refine .andThen (takeArguments_leadsTo ((arrange_built hs).verifyBox_arguments hdirection)
      (fun b hb => (hbindings b hb).1) hplaced.exists_program hready (fun t ht => ?_) hserves) ?_
    · exact hhas t (List.mem_append_left _ (List.mem_append_right _ ht))
    rintro args n ⟨hargs, hboxes⟩
    rw [hlayouts] at hargs
    have hframe : n.frame = m.frame := hboxes.frame
    rw [← hframe] at hlayout ⊢
    have hreceived := hargs.imp fun _ _ hv => hv.received hboxes.evolves.sound
    let start : Machine σ := { n with frame := Frame.empty, scratch := Scratch.closed, log := #[] }
    obtain ⟨response, left, hcall, hextends, hvalid⟩ :=
      htarget args start hreceived hboxes.world hboxes.evolves.extends
    refine .record (.bind (.managed (P := fun r i => r = response ∧ i = left) (.of_ok hcall ⟨rfl, rfl⟩) ?_))
    rintro outcome k' ⟨rfl, rfl⟩
    have hready' := Scratch.Sound.extends hboxes.evolves.sound hextends
    refine (complete_leadsTo (m := { k' with frame := n.frame, scratch := n.scratch, log := _ })
      hs hlayout hready' hvalid).mono ?_
    rintro r i ⟨hworld, hcompletes⟩
    exact ⟨args, start, outcome, k', hreceived, hboxes.world, hcall, hworld, hframe ▸ hcompletes⟩
  · rintro r n ⟨args, k, outcome, k', hargs, hworld, hcall, hleft, hcompletes⟩
    refine ⟨args, k, outcome, k', hargs, hworld, hcall, hleft, ?_⟩
    show s.Completes c d m.frame n.frame k'.memory.bytes (Engine.closeScratch n).memory.bytes outcome r
    rw [Engine.closeScratch_bytes]
    exact hcompletes

end Upcall

/-! ### Linked handlers -/

/-- **An upcall is total and fails atomically.**  A linked handler that is invoked on a frame of its layout
calls its target once, on values for the arguments of the function, and does not fault unless memory is
exhausted.  It reports the failure of its target, and a result that does not carry and cover the layout of
the result; then the frame and memory are as the target left them.  Any other result is delivered: it
changes the words of the storages of the result program and the buffer at the result pointer, and nothing
else.  Memory can be read and written at every address, so that nothing is asked of the pointers in the
frame; an argument only has to leave eight bytes of the address space, as all that lie in memory do. -/
theorem upcall_total {settings : Settings} {j j' : Linkage φ τ} {target : τ} {stub : UpcallStub τ}
    (hj : j.Reachable c settings) (hup : Linking.upcall target d j = .ok stub j') {run : τ → Target σ}
    (htarget : (run target).Responds d m) (hlayout : m.frame.layout = stub.handler.layout) (hm : m.memory.Sound)
    (hsize : ∀ l ∈ d.args, ∀ size, l.byteSize = .ok size → size + 8 < wordLimit) :
    Yields (stub.handler.invoke run) m fun r n =>
      stub.handler.sequence.Settles c d (run target) m r n.view := by
  have hh := hj.handler_linked hup
  obtain ⟨_, _, _, _, -, hplaced, -⟩ := arrange_eq_ok hh.sequence
  obtain ⟨hlayouts, hbindings⟩ := hplaced.bindings
  have hserves := (Scratch.new_sound hm stub.handler.sequence.scratchSize).serves
    (stub.handler.sequence.arguments.flatMap fun b => b.program.requests) fun r hr => by
      obtain ⟨b, hb, hr⟩ := List.mem_flatMap.1 hr
      obtain ⟨hrequest, halignment⟩ := (hbindings b hb).2 r hr
      exact ⟨hsize b.layout (hlayouts ▸ List.mem_map_of_mem hb) r.1 hrequest,
        halignment ▸ b.layout.alignment_le⟩
  have hframe := hh.layout
  rw [← hlayout] at hframe
  have hinterpret : Yields (stub.handler.interpret run) m fun r n =>
      stub.handler.sequence.Settles c d (run target) m r n.view := by
    unfold UpcallHandler.interpret
    rw [hh.target]
    exact .of_leadsTo (Upcall.interpret_leadsTo hh.sequence hframe hm hserves htarget)
  exact .of_observe (hh.observe_invoke run hlayout) hinterpret

/-- A function on AArch64 whose argument comes by reference and whose result goes to memory.  One target
returns its argument, the other one a segment that is too short. -/
theorem upcall_total_in_memory :
    let d : Descriptor := ⟨[.padding 24], some (.padding 24)⟩
    let j : Linkage Unit Bool := ⟨.new .aarch64 .everything, .empty, #[]⟩
    let s : CallingSequence :=
      ⟨.upcall, [⟨.segment, .padding 24, [.move (.slot .integerArg 0 8) .i64, .boxAddress, .copy 24 1]⟩], none,
        some ⟨[.move (.slot .indirectResult 0 8) .i64, .boxAddress], .padding 24, 24⟩, 24⟩
    let l : FrameLayout :=
      ⟨[⟨0, 8, 8⟩, ⟨64, 8, 8⟩, ⟨128, 0, 8⟩, ⟨128, 1, 8⟩, ⟨136, 2, 8⟩, ⟨152, 4, 8⟩, ⟨184, 0, 16⟩], 184⟩
    let h (echoes : Bool) : UpcallHandler Bool := ⟨s, l, echoes, none⟩
    let run : Bool → Target Unit := fun echoes args => return match echoes, args with
      | true, [v] => .ok v
      | _, _ => .ok (.segment (Segment.global 4096 8))
    let m : Machine Unit :=
      ⟨⟨l, Array.replicate l.wordCount 8192, Array.size_replicate⟩, .empty, .closed, #[], ()⟩
    (∀ echoes, ∃ stub j', Linking.upcall echoes d j = .ok stub j' ∧ stub.handler = h echoes) ∧
      (∃ n, (h true).invoke run m = .ok (.ok ()) n) ∧
      ∃ n, (h false).invoke run m = .ok (.error (.resultType (some .segment) (some .segment))) n ∧
        n.frame = m.frame := by
  intro d j s l h run m
  have hlinked (echoes : Bool) : ∃ stub j', Linking.upcall echoes d j = .ok stub j' ∧
      stub.handler = h echoes := by
    obtain ⟨j', hrun⟩ : ∃ j', Linking.upcall echoes d j
        = .ok ⟨BitVec.ofNat 64 Registry.firstAddress, h echoes⟩ j' :=
      Linking.upcall_of_compiles rfl rfl (FrameLayout.covering_aarch64 (by decide)) ⟨_, rfl⟩
    exact ⟨_, j', hrun, rfl⟩
  have hresponds (echoes : Bool) : (run echoes).Responds d m := by
    intro args k hargs _ hextends
    obtain ⟨v, rest, hv, hrest, rfl⟩ := List.forall₂_cons_left_iff.1 hargs
    obtain rfl := List.forall₂_nil_left_iff.1 hrest
    cases echoes with
    | true =>
      refine ⟨.ok v, k, rfl, .refl hextends.sound, fun t ht => ?_⟩
      cases ht
      exact (hv.segment t rfl).2
    | false =>
      refine ⟨_, k, rfl, .refl hextends.sound, fun t ht => ?_⟩
      cases ht
      exact ⟨rfl, by decide⟩
  have hm : m.memory.Sound := ⟨by decide, by simp [m, Memory.empty]⟩
  have hsize : ∀ l ∈ d.args, ∀ size, l.byteSize = .ok size → size + 8 < wordLimit := by
    intro l hl size hsize
    obtain rfl := List.mem_singleton.1 hl
    obtain rfl : size = 24 := ok_unique hsize rfl
    decide
  have hsettles (echoes : Bool) : ∃ r n, (h echoes).invoke run m = .ok r n ∧
      s.Settles .aarch64 d (run echoes) m r n.view := by
    obtain ⟨stub, j', hrun, hstub⟩ := hlinked echoes
    have hcall := upcall_total (.new _ _) hrun (hresponds echoes) (by rw [hstub]) hm hsize
    obtain ⟨r, hr, -⟩ :=
      exists_ok_of_any (x := (Engine.observe ((h echoes).invoke run) m).1) (p := fun _ => true)
        (by cases echoes <;> decide +kernel)
    obtain ⟨n, hinvoke⟩ := Engine.exists_of_observe hr
    rw [hstub] at hcall
    exact ⟨r, n, hinvoke, hcall.at_ok hinvoke⟩
  refine ⟨hlinked, ?_, ?_⟩
  · obtain ⟨r, n, hinvoke, args, k, outcome, k', hargs, -, hcall, -, hcompletes⟩ := hsettles true
    obtain ⟨v, rest, hv, hrest, rfl⟩ := List.forall₂_cons_left_iff.1 hargs
    obtain rfl := List.forall₂_nil_left_iff.1 hrest
    cases hcall
    have haccepts : d.Accepts v := ⟨hv.carrier, fun t ht => ⟨_, (hv.segment t ht).1, Nat.le_refl _⟩⟩
    cases hcompletes with
    | rejected hnot _ _ => exact absurd haccepts hnot
    | delivered _ _ => exact ⟨n, hinvoke⟩
  · obtain ⟨r, n, hinvoke, args, k, outcome, k', hargs, -, hcall, -, hcompletes⟩ := hsettles false
    cases hcall
    cases hcompletes with
    | rejected _ hframe _ => exact ⟨n, hinvoke, hframe⟩
    | delivered haccepts _ =>
      obtain ⟨size, hsize, hle⟩ := haccepts.length _ rfl
      obtain rfl : size = 24 := ok_unique hsize rfl
      exact absurd hle (by decide)

end ForeignCall
