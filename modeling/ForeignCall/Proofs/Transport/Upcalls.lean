import ForeignCall.Proofs.Calls.Checking
import ForeignCall.Proofs.Memory.Ownership
import ForeignCall.Proofs.Transport.Arguments

/-!
# An upcall hands a result over

* `ResultPlan.Delivers`: a value has reached the place that a plan has for it;
* `ResultPlan.Describes.checkResult_total`: an arranged upcall checks its result against the layout of its
  descriptor;
* `Upcall.interpret_yields`: an upcall whose arguments are held by the storages of its frame gives them to
  its target and delivers what the target returns.
-/

namespace ForeignCall

variable {σ : Type} {m n : Machine σ} {m₀ : Memory} {c : Convention} {d : Descriptor}
  {down up : CallingSequence} {plan : ResultPlan} {rs : List Route} {l : Layout} {v : Value} {b : Word}
  {args : List Value}

/-- The value, with the bytes that its segment has in the memory `m₀`, has reached its place: the storages
of the result, or the buffer at `b`. -/
def ResultPlan.Delivers (v : Value) (m₀ : Memory) (b : Word) (m : Machine σ) : ResultPlan → Prop
  | .void => v = .void
  | .storages l placement => (∀ s, placement ≠ .reference s) ∧ placement.Holds l v m₀ m
  | .memory l _ returned => (∃ s size, v = .segment s ∧ l.byteSize = .ok size ∧
      ∀ i < size, m.memory.bytes (b.toNat + i) = m₀.bytes (s.address.toNat + i)) ∧
        ∀ r ∈ returned, m.frame.wordAt r = b

/-- From `m` to `n` a value that has been returned reached its place. -/
structure ResultPlan.Delivered (plan : ResultPlan) (l : Layout) (returned : Value → Machine σ → Prop) (b : Word)
    (m n : Machine σ) : Prop where
  layout : n.frame.layout = m.frame.layout
  memory : m.memory.Extends n.memory
  result : ∃ v k, returned v k ∧ v.Fits l ∧ plan.Delivers v k.memory b n

/-- Whether a value has reached its place is seen in the frame and in the bytes of memory. -/
theorem ResultPlan.Delivers.congr (h : plan.Delivers v m₀ b m) (hframe : n.frame = m.frame)
    (hbytes : n.memory.bytes = m.memory.bytes) : plan.Delivers v m₀ b n := by
  cases plan with
  | void => exact h
  | storages l placement =>
    refine ⟨h.1, ?_⟩
    cases placement with
    | reference r => exact absurd rfl (h.1 r)
    | whole s => cases l <;> simpa only [Delivers, Placement.Holds, hframe] using h.2
    | pieces ps => simpa only [Delivers, Placement.Holds, hframe] using h.2
  | memory l pointer returned => simpa only [Delivers, hframe, hbytes] using h

theorem Marshals.grows (h : Marshals m n) (hscratch : m.scratch.chunks = []) : m.memory.Grows n.memory :=
  ⟨h.evolves.extends, fun a ha => h.bytes a fun hspare => ha ((Scratch.spare_iff hscratch).1 hspare)⟩

/-! ### What a plan says about a sequence -/

namespace ResultPlan.Describes

variable {s : CallingSequence} {direction : Direction}

theorem indirect_eq (h : plan.Describes direction (s.indirect.map fun i => (i.pointer, i.layout)) s.result)
    (hsize : ∀ i ∈ s.indirect, i.layout.byteSize = .ok i.size) : match plan with
    | .memory l pointer _ => ∃ size, l.byteSize = .ok size ∧
        s.indirect = some ⟨scalarProgram .address pointer direction.unboxesArguments, l, size⟩
    | _ => s.indirect = none := by
  cases plan with
  | memory l pointer returned =>
    obtain ⟨⟨pointer', l', size⟩, hi, heq⟩ := Option.map_eq_some_iff.1 h.1
    cases heq
    exact ⟨size, hsize _ hi, hi⟩
  | _ => exact Option.map_eq_none_iff.1 h.1

theorem resultCarrier {l? : Option Layout} {cursor : Cursor}
    (h : plan.Describes direction (s.indirect.map fun i => (i.pointer, i.layout)) s.result)
    (hplan : c.planResult l? = .ok (plan, cursor)) : s.resultCarrier = l?.map Layout.carrier := by
  unfold CallingSequence.resultCarrier CallingSequence.signature
  rw [h.isIndirect]
  cases l? with
  | none =>
    cases hplan
    rw [h.2]
    rfl
  | some l =>
    rcases Convention.planResult_eq_ok hplan with ⟨p, rfl, -⟩ | ⟨pointer, returned, rfl, hl, -, -⟩
    · obtain ⟨-, program, -, hresult⟩ := h
      rw [hresult]
      rfl
    · have hcarrier : l.carrier = .segment := by simpa [Layout.isAggregate] using hl
      rw [Option.map_some, hcarrier]
      rfl

theorem descriptor_result {l? : Option Layout} {cursor : Cursor}
    (h : plan.Describes direction (s.indirect.map fun i => (i.pointer, i.layout)) s.result)
    (hplan : c.planResult l? = .ok (plan, cursor)) (hsize : ∀ i ∈ s.indirect, i.layout.byteSize = .ok i.size) :
    s.descriptor.result = l? := by
  unfold CallingSequence.descriptor
  cases l? with
  | none =>
    cases hplan
    rw [h.indirect_eq hsize, h.2]
    rfl
  | some l =>
    rcases Convention.planResult_eq_ok hplan with ⟨p, rfl, -⟩ | ⟨pointer, returned, rfl, -⟩
    · have hdirect : s.indirect = none := h.indirect_eq hsize
      obtain ⟨-, program, -, hresult⟩ := h
      rw [hdirect, hresult]
      rfl
    · obtain ⟨size, -, hindirect⟩ := h.indirect_eq hsize
      rw [hindirect]

theorem exists_size {l : Layout} {direction : Direction}
    (h : plan.Describes direction (s.indirect.map fun i => (i.pointer, i.layout)) s.result)
    (hplan : c.planResult (some l) = .ok (plan, cursor))
    (hsize : ∀ i ∈ s.indirect, i.layout.byteSize = .ok i.size) :
    ∃ size, l.byteSize = .ok size := by
  rcases Convention.planResult_eq_ok hplan with ⟨p, rfl, hp⟩ | ⟨pointer, returned, rfl, -⟩
  · have hcarries := hp.carries
    cases p with
    | whole storage =>
      cases l with
      | value kind => exact ⟨_, rfl⟩
      | address => exact ⟨_, rfl⟩
      | _ => cases hcarries
    | pieces ps =>
      obtain ⟨-, size, hsize, -⟩ := hcarries
      exact ⟨size, hsize⟩
    | reference storage => exact absurd rfl (hp.ne_reference storage)
  · obtain ⟨size, hsize, -⟩ := h.indirect_eq hsize
    exact ⟨size, hsize⟩

theorem checkResult_total {cursor : Cursor}
    (h : plan.Describes .upcall (s.indirect.map fun i => (i.pointer, i.layout)) s.result)
    (hplan : c.planResult d.result = .ok (plan, cursor))
    (hsize : ∀ i ∈ s.indirect, i.layout.byteSize = .ok i.size) (v : Value) :
    (d.Accepts v ∧ Upcall.checkResult s v = .ok ()) ∨
      (¬ d.Accepts v ∧
        Upcall.checkResult s v = .error (.error (.resultType (d.result.map Layout.carrier) v.carrier?))) := by
  have hlayout := h.descriptor_result hplan hsize
  obtain ⟨size, hlength, hl⟩ : ∃ size, s.resultLength = .ok size ∧ ∀ l ∈ d.result, l.byteSize = .ok size := by
    unfold CallingSequence.resultLength
    rw [hlayout]
    cases hd : d.result with
    | none => exact ⟨0, rfl, by simp⟩
    | some l =>
      rw [hd] at hplan
      obtain ⟨size, hbytes⟩ := h.exists_size hplan hsize
      exact ⟨size, hbytes, by simpa using hbytes⟩
  exact Upcall.checkResult_total (h.resultCarrier hplan) hlength hl v

end ResultPlan.Describes

namespace Upcall

theorem checkResult_eq_ok (hpaired : CallingSequence.Paired c d down up plan rs) (hd : d.result = some l)
    (hv : v.Fits l) :
    checkResult up v = .ok () := by
  obtain ⟨cursor, hplan⟩ := hpaired.planned
  rcases hpaired.describesUp.checkResult_total hplan hpaired.sizeUp v with ⟨-, hcheck⟩ | ⟨hnot, -⟩
  · exact hcheck
  · exact absurd ((Descriptor.accepts_iff hd).2 hv) hnot

theorem takeResultBuffer_leadsTo {F : Fault → Prop} {s : CallingSequence}
    (hdescribes : plan.Describes .upcall (s.indirect.map fun i => (i.pointer, i.layout)) s.result)
    (hsize : ∀ i ∈ s.indirect, i.layout.byteSize = .ok i.size)
    (hpointer : ∀ p, plan.pointer? = some p → m.frame.layout.Has p ∧ m.frame.wordAt p = b) :
    LeadsTo F (takeResultBuffer s) m fun buffer n => (∃ log, n = { m with log := log }) ∧
      buffer = s.indirect.map fun i => Segment.global b i.size := by
  have hindirect := hdescribes.indirect_eq hsize
  unfold takeResultBuffer
  cases plan with
  | memory l pointer returned =>
    obtain ⟨size, -, hindirect⟩ := hindirect
    obtain ⟨hhas, hword⟩ := hpointer pointer rfl
    rw [hindirect]
    refine .bind (.boxPointer hhas fun log => ?_)
    rw [hword]
    exact .pure ⟨⟨log, rfl⟩, rfl⟩
  | _ =>
    rw [hindirect]
    exact .pure ⟨⟨m.log, rfl⟩, rfl⟩

theorem passResult_yields {Q : Unit → Machine σ → Prop} (hne : up.resultProgram ≠ [])
    (h : Yields (Engine.unbox v up.resultProgram) m Q) : Yields (passResult up v) m Q := by
  unfold passResult CallingSequence.hasResultProgram
  rwa [List.isEmpty_eq_false_iff.2 hne, Bool.not_false, if_pos rfl]

/-- A value that covers the layout of the result reaches its place. -/
theorem deliver_yields (hpaired : CallingSequence.Paired c d down up plan rs) (hd : d.result = some l)
    (hm : m.memory.Sound) (hss : m.frame.layout.Separates plan.resultStorages) (hv : v.Fits l)
    (hvalid : ∀ s, v = .segment s → s.Valid m.memory) :
    Yields (deliver up (up.indirect.map fun i => .global b i.size) v) m fun _ n => n.scratch = m.scratch ∧
      n.world = m.world ∧ n.frame.layout = m.frame.layout ∧ m.memory.Extends n.memory ∧
        plan.Delivers v m.memory b n := by
  have hindirect := hpaired.describesUp.indirect_eq hpaired.sizeUp
  have hdescribes := hpaired.describesUp
  rcases hpaired.result_cases hd with ⟨p, rfl, hp⟩ | ⟨pointer, returned, rfl, hl, -⟩
  · have hprogram := hdescribes.resultProgram_storages
    rw [hindirect]
    refine passResult_yields (fun hnil => hp.carries.storages_ne_nil ?_) ?_
    · rw [← Placement.storages_program hprogram, hnil]
      rfl
    · refine (p.unbox_writes hprogram hp.carries hss hp.ne_reference hv hvalid).mono ?_
      rintro ⟨⟩ n ⟨hn, hholds⟩
      refine ⟨hn.scratch, hn.world, hn.layout, ?_, hp.ne_reference, hholds⟩
      rw [hn.memory]
      exact .refl hm
  · obtain ⟨size, hsize, hindirect⟩ := hindirect
    obtain ⟨s, size', rfl, hsize', hle⟩ := hv.segment hl
    obtain rfl := ok_unique hsize hsize'
    rw [hindirect]
    have halive := (hvalid s rfl).alive
    refine .bind (.takeSegment halive hle (.bind (.copySegment rfl halive (Nat.le_refl _) ?_)))
    have hcopied : ∀ i < size, (m.memory.copy b.toNat s.address.toNat size).bytes (b.toNat + i)
        = m.memory.bytes (s.address.toNat + i) := by
      intro i hi
      rw [Memory.bytes_copy, if_pos (by omega), show b.toNat + i - b.toNat = i by omega]
    have hextends := hm.copy b.toNat s.address.toNat size
    have hprogram := hdescribes.resultProgram_memory
    cases returned with
    | none =>
      unfold passResult CallingSequence.hasResultProgram
      rw [hprogram]
      exact .pure ⟨rfl, rfl, rfl, hextends, ⟨s, size, rfl, hsize, hcopied⟩, by simp⟩
    | some r =>
      have hne : up.resultProgram ≠ [] := by
        rw [hprogram]
        exact List.cons_ne_nil _ _
      refine passResult_yields hne ?_
      rw [hprogram]
      refine .unboxPointer (hss.has r (by simp [ResultPlan.resultStorages])) fun n hn hword => ?_
      refine ⟨hn.scratch, hn.world, hn.layout, ?_, ⟨s, size, rfl, hsize, ?_⟩, fun r' hr' => ?_⟩
      · rw [hn.memory]
        exact hextends
      · rw [hn.memory]
        exact hcopied
      · cases hr'
        exact hword

/-- What the target of an upcall may do: it returns a value that covers the layout of the result, and extends
memory.  The value and the machine on which it returns have the property `returned`. -/
def Returns (l : Layout) (returned : Value → Machine σ → Prop) (target : Engine σ (Except String Value))
    (m : Machine σ) : Prop :=
  Yields target m fun r n => ∃ v, r = .ok v ∧ v.Fits l ∧ (∀ s, v = .segment s → s.Valid n.memory) ∧
    m.memory.Extends n.memory ∧ returned v n

/-- **An upcall gives its arguments to its target and delivers what the target returns.**  Its arguments are
held by the storages of its frame, and the address of a result buffer is in the storage for it. -/
theorem interpret_yields (hpaired : CallingSequence.Paired c d down up plan rs) (hd : d.result = some l)
    (hm : m.memory.Sound) (hhas : ∀ s ∈ (plan.routes rs).flatMap Route.storages, m.frame.layout.Has s)
    (hss : m.frame.layout.Separates plan.resultStorages)
    (hpointer : ∀ p, plan.pointer? = some p → m.frame.wordAt p = b)
    (hheld : List.Forall₂ (fun v r => r.placement.Holds r.layout v m₀ m) args rs)
    (hsize : ∀ r ∈ rs, ∀ size, r.layout.byteSize = .ok size → size + 8 < wordLimit)
    {target : Target σ} {returned : Value → Machine σ → Prop}
    (htarget : ∀ args' k, k.world = m.world → m.memory.Grows k.memory →
      List.Forall₂ (fun e v' => e.2.Arrives e.1 m₀ v' k.memory) (d.args.zip args) args' →
      Returns l returned (target args') k) :
    Yields (interpret up target) m fun r n => r = .ok () ∧ plan.Delivered l returned b m n := by
  unfold interpret
  refine .withScratch (P := fun r n => r = .ok () ∧ n.Ready ∧
    (∀ chunk ∈ n.scratch.chunks, m.memory.top ≤ chunk.base) ∧
    plan.Delivered l returned b m n) ?_ ?_
  · have hready : Machine.Ready { m with scratch := Scratch.new up.scratchSize } := Scratch.new_sound hm _
    have hargs : ∀ s ∈ rs.flatMap Route.storages, m.frame.layout.Has s := by
      intro s hs
      refine hhas s ?_
      rw [plan.storages_routes rs]
      exact List.mem_append_right _ hs
    refine .andThen (takeResultBuffer_leadsTo (b := b) hpaired.describesUp hpaired.sizeUp
      fun p hp => ⟨hhas p ?_, hpointer p hp⟩) ?_
    · rw [plan.storages_routes rs, hp]
      exact List.mem_cons_self
    rintro buffer n₁ ⟨⟨log, hn₁⟩, rfl⟩
    have h₁ : Marshals { m with scratch := Scratch.new up.scratchSize } n₁ := hn₁ ▸ .withLog hready log
    have hframe₁ : n₁.frame = m.frame := hn₁ ▸ rfl
    rw [hpaired.userPrograms_up]
    have hheld₁ : List.Forall₂ (fun v r => r.placement.Holds r.layout v m₀ n₁) args rs :=
      hheld.imp fun v r h => Placement.Holds.marshals (m := { m with scratch := Scratch.new up.scratchSize })
        (h.inNewScratch rfl rfl rfl) h₁ fun s _ => by rw [hframe₁]
    refine .andThen (takeArguments_yields hheld₁ hpaired.sound (by rwa [hframe₁]) h₁.ready hsize) ?_
    rintro args' n₂ ⟨h₂, hframe₂, hcopies⟩
    have hmarshals := h₁.trans h₂
    have hframe : n₂.frame = m.frame := hframe₂.trans hframe₁
    -- The chunks of the call lie above all memory of before, so closing the arena touches none of that.
    have hchunks : ∀ chunk ∈ n₂.scratch.chunks, m.memory.top ≤ chunk.base := by
      intro chunk hchunk
      rcases hmarshals.evolves.chunks chunk hchunk with hbase | hbase
      · simp [Scratch.new] at hbase
      · exact hbase
    rw [← hpaired.layouts] at hcopies
    refine .record (.bind (.managed (htarget args' _ hmarshals.world (hmarshals.grows rfl)
      (hcopies.imp fun e v' h => h.arrives)) ?_))
    rintro _ i ⟨v, rfl, hv, hvalid, hextends, hreturned⟩
    dsimp only at hextends ⊢
    rw [checkResult_eq_ok hpaired hd hv]
    rw [← hframe] at hss
    refine .bind (.pure (.andThen (deliver_yields hpaired hd hextends.sound hss hv hvalid) ?_))
    rintro ⟨⟩ n₃ ⟨hscratch, -, hlayout, hdelivered, hdelivers⟩
    have hwhole := hextends.trans hdelivered
    refine .pure ⟨rfl, ?_, ?_, hlayout.trans (by rw [hframe]), hmarshals.evolves.extends.trans hwhole, v, i,
      hreturned, hv, hdelivers⟩
    · unfold Machine.Ready
      rw [hscratch]
      exact Scratch.Sound.extends hmarshals.ready hwhole
    · rw [hscratch]
      exact hchunks
  · rintro _ n ⟨rfl, hready, hchunks, hlayout, hextends, v, k, hreturned, hfits, hdelivers⟩
    refine ⟨rfl, ?_, Engine.closeScratch_extends hready hextends hchunks, v, k, hreturned, hfits, ?_⟩
    · show (Engine.closeScratch n).frame.layout = m.frame.layout
      rw [Engine.closeScratch_frame, hlayout]
    · exact hdelivers.congr (Engine.closeScratch_frame n) (Engine.closeScratch_bytes n)

end Upcall

end ForeignCall
