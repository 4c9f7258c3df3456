import ForeignCall.Proofs.Calls.Totality
import ForeignCall.Proofs.Transport.Upcalls

/-!
# Where the result of a target goes

* `Engine.unbox_writes`: a program that asks for no scratch memory writes its storages and nothing else;
* `CallingSequence.Delivers`: delivering a result changes nothing but the storages of the result program and
  the caller's buffer;
* `Upcall.deliver_leadsTo`: a result that is accepted is delivered so, without a fault.
-/

namespace ForeignCall

variable {σ : Type} {m n : Machine σ} {F : Fault → Prop} {c : Convention} {d : Descriptor}
  {s : CallingSequence} {plan : ResultPlan} {cursor : Cursor} {v : Value} {a : Word} {p : Program}
  {step : Step} {stack stack' : List Value}

namespace ResultPlan.Describes

theorem requests_resultProgram {l? : Option Layout} (hplan : c.planResult l? = .ok (plan, cursor))
    (h : plan.Describes .upcall (s.indirect.map fun i => (i.pointer, i.layout)) s.result) :
    Program.requests s.resultProgram = [] := by
  cases plan with
  | void =>
    rw [CallingSequence.resultProgram, h.2]
    rfl
  | storages l placement =>
    cases l? with
    | none => cases hplan
    | some l' =>
      rcases Convention.planResult_eq_ok hplan with ⟨p, hp, hreturns⟩ | ⟨pointer, returned, hmemory, -⟩
      · cases hp
        exact Placement.requests_unboxing hreturns.ne_reference h.resultProgram_storages
      · cases hmemory
  | memory l pointer returned =>
    rw [h.resultProgram_memory]
    cases returned with
    | none => rfl
    | some r => exact Placement.requests_scalarProgram .address r Direction.upcall.unboxesResult

end ResultPlan.Describes

/-! ### Programs that write their storages only -/

/-- A step that asks for no scratch memory writes its storage and nothing else. -/
theorem Interpreter.unboxStep_writes (h : unboxStep step stack m = .ok stack' n)
    (hrequest : step.request? = none) :
    Writes step.storage?.toList m n := by
  cases step with
  | move storage kind =>
    obtain ⟨⟨w, rest⟩, _, hpop, h⟩ := Engine.bind_eq_ok.1 h
    obtain ⟨⟨⟩, _, hwrite, h⟩ := Engine.bind_eq_ok.1 h
    cases h
    obtain ⟨-, rfl⟩ := Engine.lift_eq_ok.1 hpop
    obtain ⟨o, ho, rfl, -⟩ := Engine.of_writeStorage_eq_ok hwrite
    exact .setWord ho
  | field offset kind =>
    obtain ⟨⟨t, rest⟩, _, hpop, h⟩ := Engine.bind_eq_ok.1 h
    obtain ⟨v, _, hget, h⟩ := Engine.bind_eq_ok.1 h
    cases h
    obtain ⟨-, rfl⟩ := Engine.lift_eq_ok.1 hpop
    obtain ⟨-, rfl⟩ := Engine.lift_eq_ok.1 hget
    exact .refl _
  | copy size alignment => cases hrequest
  | allocate size alignment => cases hrequest
  | boxAddress =>
    obtain ⟨⟨a, rest⟩, _, hpop, h⟩ := Engine.bind_eq_ok.1 h
    cases h
    obtain ⟨-, rfl⟩ := Engine.lift_eq_ok.1 hpop
    exact .refl _
  | baseAddress =>
    obtain ⟨⟨t, rest⟩, _, hpop, h⟩ := Engine.bind_eq_ok.1 h
    cases h
    obtain ⟨-, rfl⟩ := Engine.lift_eq_ok.1 hpop
    exact .refl _
  | dup =>
    obtain ⟨-, rfl⟩ := Engine.lift_eq_ok.1 h
    exact .refl _

theorem Interpreter.runUnbox_writes (h : run .unboxStep unboxStep p stack m = .ok stack' n)
    (hrequests : p.requests = []) :
    Writes p.storages m n := by
  induction p generalizing stack m with
  | nil =>
    cases h
    exact .refl _
  | cons step p ih =>
    rw [Program.requests_cons, List.append_eq_nil_iff, Option.toList_eq_nil_iff] at hrequests
    obtain ⟨⟨⟩, _, hrecord, h⟩ := Engine.bind_eq_ok.1 h
    cases hrecord
    obtain ⟨middle, k, hstep, h⟩ := Engine.bind_eq_ok.1 h
    rw [Program.storages_cons]
    exact ((unboxStep_writes hstep hrequests.1).record _).trans (ih h hrequests.2)

/-- **A program that asks for no scratch memory writes its storages and nothing else.** -/
theorem Engine.unbox_writes (h : Engine.unbox v p m = .ok () n) (hrequests : p.requests = []) :
    Writes p.storages m n := by
  obtain ⟨stack, _, hrun, hfinish⟩ := Engine.bind_eq_ok.1 h
  obtain ⟨-, rfl⟩ := Engine.lift_eq_ok.1 hfinish
  exact Interpreter.runUnbox_writes hrun hrequests

/-! ### Delivering -/

namespace CallingSequence

/-- The byte is part of the buffer at `a` that the caller reserved for a result in memory. -/
def Buffers (d : Descriptor) (s : CallingSequence) (a : Word) (byte : Nat) : Prop :=
  s.isIndirect = true ∧ ∃ l size, d.result = some l ∧ l.byteSize = .ok size ∧ a.toNat ≤ byte ∧
    byte < a.toNat + size

/-- From a frame and memory to the next, nothing has changed but the words of the storages of the result
program and the buffer at `a`. -/
structure Delivers (d : Descriptor) (s : CallingSequence) (a : Word) (before after : Frame)
    (left bytes : Nat → Byte) : Prop where
  layout : after.layout = before.layout
  words : ∀ i, (∀ t ∈ Program.storages s.resultProgram, ¬ before.layout.WordOf t i) →
    after.words[i]? = before.words[i]?
  bytes : ∀ byte, ¬ s.Buffers d a byte → bytes byte = left byte

end CallingSequence

namespace Upcall

theorem passResult_leadsTo (hverified : ∀ b ∈ s.result, verifyUnbox b.program b.carrier b.layout = .ok ())
    (hrequests : Program.requests s.resultProgram = []) (hm : m.Ready)
    (hhas : ∀ t ∈ Program.storages s.resultProgram, m.frame.layout.Has t)
    (hv : ∀ b ∈ s.result, v.carrier? = some b.carrier ∧
      ∀ t, v = .segment t → t.Valid m.memory ∧ ∃ size, b.layout.byteSize = .ok size ∧ size ≤ t.length) :
    LeadsTo F (passResult s v) m fun _ n => Writes (Program.storages s.resultProgram) m n := by
  unfold passResult CallingSequence.hasResultProgram
  cases hresult : s.result with
  | none =>
    have hprogram : s.resultProgram = [] := by rw [CallingSequence.resultProgram, hresult]
    rw [hprogram]
    exact .pure (.refl m)
  | some b =>
    have hprogram : s.resultProgram = b.program := by rw [CallingSequence.resultProgram, hresult]
    rw [hprogram] at hrequests hhas ⊢
    obtain ⟨hcarrier, hsegment⟩ := hv b hresult
    split
    · have hserves : m.scratch.Serves F m.memory b.program.requests := by
        rw [hrequests]
        trivial
      have hunbox : LeadsTo F (Engine.unbox v b.program) m fun _ _ => True :=
        .unbox ((verifyUnbox_leadsTo (hverified b hresult) hm hhas hserves hcarrier hsegment).mono
          fun _ _ h => ⟨h.1, trivial⟩)
      exact hunbox.and_ok.mono fun _ _ h => Engine.unbox_writes h.1 hrequests
    · next hempty =>
      obtain hnil : b.program = [] := by simpa using hempty
      rw [hnil]
      exact .pure (.refl m)

/-- **A result that is accepted is delivered without a fault.** -/
theorem deliver_leadsTo (hplan : c.planResult d.result = .ok (plan, cursor))
    (hdescribes : plan.Describes .upcall (s.indirect.map fun i => (i.pointer, i.layout)) s.result)
    (hsize : ∀ i ∈ s.indirect, i.layout.byteSize = .ok i.size)
    (hverified : ∀ b ∈ s.result, verifyUnbox b.program b.carrier b.layout = .ok ()) (hm : m.Ready)
    (hhas : ∀ t ∈ Program.storages s.resultProgram, m.frame.layout.Has t) (hv : d.Accepts v)
    (hvalid : ∀ t, v = .segment t → t.Valid m.memory) :
    LeadsTo F (deliver s (s.indirect.map fun i => .global a i.size) v) m fun _ n => n.world = m.world ∧
      s.Delivers d a m.frame n.frame m.memory.bytes n.memory.bytes := by
  have hrequests := hdescribes.requests_resultProgram hplan
  cases plan with
  | void =>
    rw [hdescribes.indirect_eq hsize]
    refine (passResult_leadsTo hverified hrequests hm hhas fun b hb => ?_).mono fun _ n hn => ?_
    · rw [hdescribes.2] at hb
      cases hb
    · exact ⟨hn.world, hn.layout, hn.others, fun _ _ => by rw [hn.memory]⟩
  | storages l placement =>
    have hresult : d.result = some l := Convention.planResult_layout? hplan
    replace hv := (Descriptor.accepts_iff hresult).1 hv
    rw [hdescribes.indirect_eq hsize]
    refine (passResult_leadsTo hverified hrequests hm hhas fun b hb => ?_).mono fun _ n hn => ?_
    · obtain ⟨-, program, -, hbinding⟩ := hdescribes
      rw [hbinding] at hb
      cases hb
      exact ⟨hv.carrier, fun t ht => ⟨hvalid t ht, hv.length t ht⟩⟩
    · exact ⟨hn.world, hn.layout, hn.others, fun _ _ => by rw [hn.memory]⟩
  | memory l pointer returned =>
    have hresult : d.result = some l := Convention.planResult_layout? hplan
    have hindirect := hdescribes.isIndirect
    obtain ⟨size, hbyteSize, hbuffer⟩ := hdescribes.indirect_eq hsize
    have hl : l.isAggregate = true := by
      rw [hresult] at hplan
      rcases Convention.planResult_eq_ok hplan with ⟨p, hp, -⟩ | ⟨pointer', returned', heq, hl, -⟩
      · cases hp
      · exact hl
    replace hv := (Descriptor.accepts_iff hresult).1 hv
    obtain ⟨t, size', rfl, hsize', hle⟩ := hv.segment hl
    obtain rfl := ok_unique hbyteSize hsize'
    have halive := (hvalid t rfl).alive
    rw [hbuffer]
    refine .bind
      (.of_ok (Engine.takeSegment_eq halive hle)
        (.bind (.of_ok (Engine.copySegment_eq rfl halive (Nat.le_refl _)) ?_)))
    have hready : Machine.Ready { m with memory := m.memory.copy a.toNat t.address.toNat size } :=
      Scratch.Sound.extends hm (hm.memory.copy _ _ _)
    refine (passResult_leadsTo hverified hrequests hready hhas fun b hb => ?_).mono fun _ n hn => ?_
    · obtain ⟨r, -, rfl⟩ := Option.map_eq_some_iff.1 (hdescribes.2 ▸ hb)
      exact ⟨rfl, by simp⟩
    · refine ⟨hn.world, hn.layout, hn.others, fun byte hbyte => ?_⟩
      rw [hn.memory]
      refine (Memory.bytes_copy ..).trans (if_neg fun hinside => hbyte ?_)
      exact ⟨hindirect, l, size, hresult, hbyteSize, hinside⟩

end Upcall

end ForeignCall
