import ForeignCall.Proofs.Transport.Marshalling
import ForeignCall.Proofs.Verified.Shapes

/-!
# Verified boxing

* `Boxes m n`: `n` comes from `m` by putting values together in scratch memory;
* `Interpreter.boxStep_leadsTo`: a step that verification accepts finds its operands, and leaves values of
  the verified shapes.  Every segment among them was handed out by the arena and has exactly the verified
  length; `Interpreter.runBox_leadsTo` is the induction over a program;
* `verifyBox_sound`: an accepted program gives one value of its carrier.
-/

namespace ForeignCall

variable {σ : Type} {m n k : Machine σ} {F : Fault → Prop} {p : Program} {step : Step}
  {shapes next : List Shape} {stack : List Value} {requests : List (Nat × Nat)} {c : Carrier}
  {l : Layout} {i : Nat}

/-- `n` comes from `m` by putting values together: the arena has evolved and kept its chunks. -/
structure Boxes (m n : Machine σ) : Prop where
  frame : n.frame = m.frame
  world : n.world = m.world
  evolves : m.scratch.Evolves m.memory n.scratch n.memory
  kept : ∀ b ∈ m.scratch.chunks.map Chunk.base, b ∈ n.scratch.chunks.map Chunk.base

namespace Boxes

theorem refl (hm : m.Ready) : Boxes m m := ⟨rfl, rfl, hm.evolves_refl, fun _ hb => hb⟩

theorem trans (h : Boxes m n) (h' : Boxes n k) : Boxes m k :=
  ⟨h'.frame.trans h.frame, h'.world.trans h.world, h.evolves.trans h'.evolves,
    fun b hb => h'.kept b (h.kept b hb)⟩

theorem record (e : LogEvent) (h : Boxes { m with log := m.log.push e } n) : Boxes m n :=
  ⟨h.frame, h.world, h.evolves, h.kept⟩

theorem of_fills {t : Segment} (h : Fills t m n) (hm : m.Ready) : Boxes m n := by
  refine ⟨h.frame, h.world, h.evolves hm, fun b hb => ?_⟩
  rwa [h.scratch]

theorem inScratch {t : Segment} {length : Nat} (h : Boxes m n) (ht : t.InScratch m.scratch m.memory length) :
    t.InScratch n.scratch n.memory length :=
  ht.mono h.kept h.evolves.top_le

theorem forall₂ (h : Boxes m n)
    (hstack : List.Forall₂ (Shape.Admits (Segment.InScratch m.scratch m.memory)) shapes stack) :
    List.Forall₂ (Shape.Admits (Segment.InScratch n.scratch n.memory)) shapes stack :=
  hstack.imp fun _ _ hv => hv.mono fun _ _ => h.inScratch

end Boxes

namespace Interpreter

/-- **A step that is accepted finds its operands.**  It leaves values of the verified shapes. -/
theorem boxStep_leadsTo (h : Verification.boxStep shapes step = .ok next) (hm : m.Ready)
    (hhas : ∀ s ∈ step.storage?, m.frame.layout.Has s)
    (hserves : m.scratch.Serves F m.memory (step.request?.toList ++ requests))
    (hstack : List.Forall₂ (Shape.Admits (Segment.InScratch m.scratch m.memory)) shapes stack) :
    LeadsTo F (boxStep step stack) m fun stack' n =>
      List.Forall₂ (Shape.Admits (Segment.InScratch n.scratch n.memory)) next stack' ∧ Boxes m n ∧
        n.scratch.Serves F n.memory requests := by
  have heffect := Verification.boxStep_eq_ok h
  have hstays : Boxes m m := .refl hm
  cases step with
  | move storage kind =>
    obtain rfl : next = .scalar kind :: shapes := heffect
    refine .bind (.of_ok (Engine.readStorage_eq (hhas storage rfl)) (.pure ?_))
    exact ⟨.cons (kind.primitive?_decode _) hstack, hstays, hserves⟩
  | field offset kind =>
    obtain ⟨length, shapes, rfl, hle, rfl⟩ := heffect
    obtain ⟨v, _, hv, htail, rfl⟩ := List.forall₂_cons_left_iff.1 hstack
    obtain ⟨_, stack, ⟨s, rfl, hs⟩, hrest, rfl⟩ := List.forall₂_cons_left_iff.1 htail
    have hend : offset + kind.byteSize ≤ s.length := hs.length ▸ hle
    refine .bind (.of_ok (Engine.lift_eq_ok.2 ⟨pop_eq_ok.2 rfl, rfl⟩) ?_)
    refine .bind (.of_ok (Engine.lift_eq_ok.2 ⟨popSegment_eq_ok.2 rfl, rfl⟩) ?_)
    refine .bind (.of_ok (Engine.setField_eq (hs.valid hm) hv hend) (.pure ?_))
    have hboxes := Boxes.of_fills (Fills.store (m := m) hend (Segment.fieldBits v) m.log) hm
    exact ⟨.cons ⟨s, rfl, hboxes.inScratch hs⟩ (hboxes.forall₂ hrest), hboxes, hserves.congr rfl⟩
  | copy size alignment =>
    obtain ⟨shapes, rfl, rfl⟩ := heffect
    obtain ⟨_, stack, ⟨a, rfl⟩, hrest, rfl⟩ := List.forall₂_cons_left_iff.1 hstack
    refine .bind
      (.of_ok (Engine.lift_eq_ok.2 ⟨popAddress_eq_ok.2 rfl, rfl⟩) (.andThen (.allocateScratch hm hserves) ?_))
    rintro t k ⟨hframe, hworld, hgranted, hout, hserves⟩
    have hlength : size ≤ t.length := Nat.le_of_eq hgranted.length.symm
    refine .bind (.of_ok (Engine.copySegment_eq hgranted.alive rfl hlength) (.pure ?_))
    have hfilled := Boxes.of_fills (Fills.copy (m := k) a.toNat hlength) hgranted.evolves.sound
    have hboxes := Boxes.trans ⟨hframe, hworld, hgranted.evolves, hout.kept⟩ hfilled
    exact ⟨.cons ⟨t, rfl, hfilled.inScratch (hgranted.inScratch hout)⟩ (hboxes.forall₂ hrest), hboxes,
      hserves.congr rfl⟩
  | allocate size alignment =>
    obtain rfl : next = .segment size :: shapes := heffect
    refine .andThen (.allocateScratch hm hserves) ?_
    rintro t k ⟨hframe, hworld, hgranted, hout, hserves⟩
    have hboxes : Boxes m k := ⟨hframe, hworld, hgranted.evolves, hout.kept⟩
    exact .pure ⟨.cons ⟨t, rfl, hgranted.inScratch hout⟩ (hboxes.forall₂ hstack), hboxes, hserves⟩
  | boxAddress =>
    obtain ⟨shapes, rfl, rfl⟩ := heffect
    obtain ⟨v, stack, hv, hrest, rfl⟩ := List.forall₂_cons_left_iff.1 hstack
    obtain ⟨x, rfl⟩ : ∃ x, v = .i64 x := by
      cases v <;> cases hv
      exact ⟨_, rfl⟩
    refine .bind (.of_ok (Engine.lift_eq_ok.2 ⟨popAddressBits_eq_ok.2 rfl, rfl⟩) (.pure ?_))
    exact ⟨.cons ⟨x, rfl⟩ hrest, hstays, hserves⟩
  | baseAddress =>
    obtain ⟨length, shapes, rfl, rfl⟩ := heffect
    obtain ⟨_, stack, ⟨s, rfl, hs⟩, hrest, rfl⟩ := List.forall₂_cons_left_iff.1 hstack
    refine .bind (.of_ok (Engine.lift_eq_ok.2 ⟨popSegment_eq_ok.2 rfl, rfl⟩) (.pure ?_))
    exact ⟨.cons ⟨_, rfl⟩ hrest, hstays, hserves⟩
  | dup =>
    obtain ⟨top, shapes, rfl, rfl⟩ := heffect
    obtain ⟨v, stack, hv, hrest, rfl⟩ := List.forall₂_cons_left_iff.1 hstack
    refine .of_ok (Engine.lift_eq_ok.2 ⟨dup_eq_ok.2 ⟨v, stack, rfl, rfl⟩, rfl⟩) ?_
    exact ⟨.cons hv (.cons hv hrest), hstays, hserves⟩

theorem runBox_leadsTo (h : Verification.run Verification.boxStep i p shapes = .ok next) (hm : m.Ready)
    (hhas : ∀ s ∈ p.storages, m.frame.layout.Has s)
    (hserves : m.scratch.Serves F m.memory (p.requests ++ requests))
    (hstack : List.Forall₂ (Shape.Admits (Segment.InScratch m.scratch m.memory)) shapes stack) :
    LeadsTo F (run .boxStep boxStep p stack) m fun stack' n =>
      List.Forall₂ (Shape.Admits (Segment.InScratch n.scratch n.memory)) next stack' ∧ Boxes m n ∧
        n.scratch.Serves F n.memory requests := by
  induction p generalizing i shapes stack m with
  | nil =>
    obtain rfl := Verification.run_nil.1 h
    exact .pure ⟨hstack, .refl hm, hserves⟩
  | cons step p ih =>
    obtain ⟨middle, hstep, hrun⟩ := Verification.run_cons.1 h
    rw [Program.storages_cons] at hhas
    rw [Program.requests_cons, List.append_assoc] at hserves
    refine .record (.andThen (boxStep_leadsTo hstep hm (fun s hs => hhas s ?_) hserves hstack) ?_)
    · exact List.mem_append_left _ (by simpa using hs)
    rintro stack' k ⟨hstack', hboxes, hserves'⟩
    replace hboxes := hboxes.record
    refine (ih hrun hboxes.evolves.sound (fun s hs => ?_) hserves' hstack').mono ?_
    · rw [hboxes.frame]
      exact hhas s (by simp [hs])
    · rintro last n ⟨hlast, hrest, hserves''⟩
      exact ⟨hlast, hboxes.trans hrest, hserves''⟩

end Interpreter

/-- An accepted program puts one value of the verified shape together, and leaves the arena to serve what
comes next. -/
theorem verifyBox_serves (h : verifyBox p c l = .ok ()) (hm : m.Ready)
    (hhas : ∀ s ∈ p.storages, m.frame.layout.Has s)
    (hserves : m.scratch.Serves F m.memory (p.requests ++ requests)) :
    LeadsTo F (Interpreter.run .boxStep Interpreter.boxStep p []) m fun stack n =>
      (∃ v, stack = [v] ∧ v.carrier? = some c ∧ Boxes m n ∧ ∀ s, v = .segment s → ∃ size length,
        l.byteSize = .ok size ∧ size ≤ length ∧
          Verification.run Verification.boxStep 0 p [] = .ok [.segment length] ∧
          s.InScratch n.scratch n.memory length) ∧ n.scratch.Serves F n.memory requests := by
  obtain ⟨shape, hrun, hcarrier, hlength⟩ := verifyBox_eq_ok h
  refine (Interpreter.runBox_leadsTo hrun hm hhas hserves .nil).mono ?_
  rintro stack n ⟨hstack, hboxes, hserves'⟩
  obtain ⟨v, rest, hv, hrest, rfl⟩ := List.forall₂_cons_left_iff.1 hstack
  obtain rfl := List.forall₂_nil_left_iff.1 hrest
  refine ⟨⟨v, rfl, hcarrier ▸ hv.carrier, hboxes, ?_⟩, hserves'⟩
  rintro s rfl
  obtain ⟨length, rfl, hs⟩ := hv.eq_segment
  obtain ⟨size, hsize, hle⟩ := hlength length rfl
  exact ⟨size, length, hsize, hle, hrun, hs⟩

theorem verifyBox_leadsTo (h : verifyBox p c l = .ok ()) (hm : m.Ready)
    (hhas : ∀ s ∈ p.storages, m.frame.layout.Has s) (hserves : m.scratch.Serves F m.memory p.requests) :
    LeadsTo F (Interpreter.run .boxStep Interpreter.boxStep p []) m fun stack n =>
      ∃ v, stack = [v] ∧ v.carrier? = some c ∧ Boxes m n ∧ ∀ s, v = .segment s → ∃ size length,
        l.byteSize = .ok size ∧ size ≤ length ∧
          Verification.run Verification.boxStep 0 p [] = .ok [.segment length] ∧
          s.InScratch n.scratch n.memory length := by
  rw [← List.append_nil p.requests] at hserves
  exact (verifyBox_serves h hm hhas hserves).mono fun _ _ h => h.1

/-- **Verification of boxing is sound.**  An accepted program gives exactly one value of its carrier.  If
that is a segment, it lies in scratch memory of the call, is alive and covers the layout.  A copy takes its
bytes from wherever the address says, all of which can be read. -/
theorem verifyBox_sound (p : Program) (c : Carrier) (l : Layout) (h : verifyBox p c l = .ok ()) (m : Machine σ)
    (hm : m.Ready) (hhas : ∀ s ∈ p.storages, m.frame.layout.Has s)
    (hserves : m.scratch.Serves (fun _ => False) m.memory p.requests) :
    ∃ v n, Interpreter.run .boxStep Interpreter.boxStep p [] m = .ok [v] n ∧ Engine.box p m = .ok v n ∧
      v.carrier? = some c ∧ ∀ s, v = .segment s → ∃ size, l.byteSize = .ok size ∧ size ≤ s.length ∧
        s.isAlive n.memory = true ∧ ∃ chunk ∈ n.scratch.chunks, s.scope = .scratch chunk.base := by
  obtain ⟨_, n, hrun, v, rfl, hcarrier, hboxes, hsegment⟩ := (verifyBox_leadsTo h hm hhas hserves).exists_ok
  refine ⟨v, n, hrun, Engine.bind_eq_ok.2 ⟨[v], n, hrun, rfl⟩, hcarrier, fun s hs => ?_⟩
  obtain ⟨size, length, hsize, hle, -, hscratch⟩ := hsegment s hs
  exact ⟨size, hsize, hscratch.length ▸ hle, (hscratch.valid hboxes.evolves.sound).alive, hscratch.scope⟩

/-- Two words are put together in a new segment. -/
theorem verifyBox_sound_fields :
    let l : Layout := .struct [.value .i32, .value .i32]
    let p : Program :=
      [.allocate 8 4, .move (.slot .integerRet 0 8) .i32, .field 0 .i32, .move (.slot .integerRet 1 8) .i32,
      .field 4 .i32]
    let frame : FrameLayout :=
      ⟨[⟨0, 6, 8⟩, ⟨48, 8, 8⟩, ⟨112, 0, 8⟩, ⟨112, 0, 8⟩, ⟨112, 2, 8⟩, ⟨128, 2, 8⟩, ⟨144, 2, 16⟩], 176⟩
    let m : Machine Unit :=
      ⟨⟨frame, Array.replicate frame.wordCount 7, Array.size_replicate⟩, .empty, .new 64, #[], ()⟩
    verifyBox p .segment l = .ok () ∧ ∃ s n, Engine.box p m = .ok (.segment s) n ∧ 8 ≤ s.length ∧
      s.isAlive n.memory = true := by
  intro l p frame m
  have haccepted : verifyBox p .segment l = .ok () := by cbv
  have hm : m.Ready := Scratch.new_sound ⟨by decide, by simp [m, Memory.empty]⟩ 64
  have hhas : ∀ t ∈ p.storages, m.frame.layout.Has t := by
    intro t ht
    obtain rfl | rfl : t = .slot .integerRet 0 8 ∨ t = .slot .integerRet 1 8 := by
      simpa [p, Program.storages, Step.storage?, eq_comm] using ht
    · exact ⟨112, rfl, by decide⟩
    · exact ⟨120, rfl, by decide⟩
  have hserves : m.scratch.Serves (fun _ => False) m.memory p.requests := by
    obtain ⟨r, hr, -⟩ := exists_ok_of_any (x := m.scratch.allocate m.memory 8 4) (p := fun _ => true) (by cbv)
    show m.scratch.Serves (fun _ => False) m.memory [(8, 4)]
    unfold Scratch.Serves
    rw [hr]
    trivial
  obtain ⟨v, n, -, hbox, hcarrier, hsegment⟩ := verifyBox_sound p .segment l haccepted m hm hhas hserves
  obtain ⟨s, rfl⟩ := Value.carrier?_eq_segment.1 hcarrier
  obtain ⟨size, hsize, hle, halive, -⟩ := hsegment s rfl
  obtain rfl : size = 8 := ok_unique hsize (by cbv)
  exact ⟨haccepted, s, n, hbox, hle, halive⟩

end ForeignCall
