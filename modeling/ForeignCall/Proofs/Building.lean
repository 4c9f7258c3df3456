import ForeignCall.CallingSequence
import ForeignCall.Proofs.Stopping

/-!
# What a builder guarantees

* `SequenceBuilder.Reachable`: the builders that some calls of the builder's functions lead to;
* `SequenceBuilder.Verified`: every binding so far has passed `SequenceBuilder.check`.  Each function keeps
  this;
* `CallingSequence.Built`: the sequences that come out of reachable builders, and
  `CallingSequence.Verified`, what holds of their bindings.
-/

namespace ForeignCall

namespace SequenceBuilder

/-- The builders that some calls of the builder's functions lead to. -/
inductive Reachable : SequenceBuilder → Prop
  | new (direction : Direction) : Reachable (.new direction)
  | addArgument {s s' b} : Reachable s → s.addArgument b = .ok s' → Reachable s'
  | setResult {s s' b} : Reachable s → s.setResult b = .ok s' → Reachable s'
  | markIndirect {s s' l p} : Reachable s → s.markIndirect l p = .ok s' → Reachable s'

/-- Every binding has passed the check of its side and its role. -/
structure Verified (s : SequenceBuilder) : Prop where
  arguments : ∀ b ∈ s.arguments, check s.direction s.direction.unboxesArguments true b = .ok ()
  result : ∀ b ∈ s.result, check s.direction s.direction.unboxesResult false b = .ok ()
  pointer : ∀ p l, s.indirect = some (p, l) →
    check s.direction s.direction.unboxesArguments true ⟨.address, .address, p⟩ = .ok ()

variable {s s' : SequenceBuilder} {b : Binding} {l : Layout} {p : Program} {direction : Direction}
  {asArgument : Bool}

/-! ### Single calls -/

theorem addArgument_eq_ok (h : s.addArgument b = .ok s') :
    check s.direction s.direction.unboxesArguments true b = .ok () ∧
      s' = { s with arguments := s.arguments ++ [b] } := by
  obtain ⟨⟨⟩, hcheck, h⟩ := bind_eq_ok.1 h
  exact ⟨hcheck, (pure_eq_ok.1 h).symm⟩

theorem setResult_eq_ok (h : s.setResult b = .ok s') :
    s.result = none ∧ check s.direction s.direction.unboxesResult false b = .ok () ∧
      s' = { s with result := some b } := by
  unfold setResult at h
  split at h
  · simp at h
  · next hresult =>
    obtain ⟨⟨⟩, hcheck, h⟩ := bind_eq_ok.1 h
    exact ⟨by simpa using hresult, lift_fault_eq_ok.1 hcheck, (pure_eq_ok.1 h).symm⟩

theorem markIndirect_eq_ok (h : s.markIndirect l p = .ok s') :
    s.indirect = none ∧ check s.direction s.direction.unboxesArguments true ⟨.address, .address, p⟩ = .ok () ∧
      s' = { s with indirect := some (p, l) } := by
  unfold markIndirect at h
  split at h
  · simp at h
  · next hindirect =>
    obtain ⟨⟨⟩, hcheck, h⟩ := bind_eq_ok.1 h
    exact ⟨by simpa using hindirect, hcheck, (pure_eq_ok.1 h).symm⟩

theorem verifyUnbox_of_check (h : check direction true asArgument b = .ok ()) :
    verifyUnbox b.program b.carrier b.layout = .ok () := by
  unfold check at h
  split at h
  · cases h
  · cases h
  · assumption

theorem verifyBox_of_check (h : check direction false asArgument b = .ok ()) :
    verifyBox b.program b.carrier b.layout = .ok () := by
  unfold check at h
  split at h
  · cases h
  · cases h
  · assumption

/-! ### Runs of calls -/

/-- Each function of the builder checks what it adds and keeps the rest. -/
theorem Reachable.verified (h : s.Reachable) : s.Verified := by
  induction h with
  | new direction =>
    exact ⟨by simp [SequenceBuilder.new], by simp [SequenceBuilder.new], by simp [SequenceBuilder.new]⟩
  | addArgument _ hadd ih =>
    obtain ⟨hcheck, rfl⟩ := addArgument_eq_ok hadd
    refine ⟨fun b hb => ?_, ih.result, ih.pointer⟩
    rcases List.mem_append.1 hb with hb | hb
    · exact ih.arguments b hb
    · rw [List.mem_singleton.1 hb]
      exact hcheck
  | setResult _ hset ih =>
    obtain ⟨-, hcheck, rfl⟩ := setResult_eq_ok hset
    refine ⟨ih.arguments, fun b hb => ?_, ih.pointer⟩
    rw [← Option.mem_some_iff.1 hb]
    exact hcheck
  | markIndirect _ hmark ih =>
    obtain ⟨-, hcheck, rfl⟩ := markIndirect_eq_ok hmark
    refine ⟨ih.arguments, ih.result, fun p l hp => ?_⟩
    cases hp
    exact hcheck

end SequenceBuilder

namespace CallingSequence

/-- The sequences that can be put together with a builder. -/
def Built (s : CallingSequence) : Prop := ∃ b : SequenceBuilder, b.Reachable ∧ b.build = .ok s

open SequenceBuilder in
/-- Every binding of the sequence has passed the check of its side and its role. -/
structure Verified (s : CallingSequence) : Prop where
  arguments : ∀ b ∈ s.arguments, check s.direction s.direction.unboxesArguments true b = .ok ()
  result : ∀ b ∈ s.result, check s.direction s.direction.unboxesResult false b = .ok ()
  pointer : ∀ i ∈ s.indirect,
    check s.direction s.direction.unboxesArguments true ⟨.address, .address, i.pointer⟩ = .ok ()

end CallingSequence

theorem SequenceBuilder.build_eq_ok {b : SequenceBuilder} {s : CallingSequence} (h : b.build = .ok s) :
    s.direction = b.direction ∧ s.arguments = b.arguments ∧ s.result = b.result ∧
      b.indirectResult? = .ok s.indirect ∧ scratchSize s.steps = .ok s.scratchSize := by
  obtain ⟨indirect, hindirect, h⟩ := bind_eq_ok.1 h
  obtain ⟨size, hsize, h⟩ := bind_eq_ok.1 h
  cases h
  exact ⟨rfl, rfl, rfl, hindirect, hsize⟩

theorem SequenceBuilder.indirectResult?_eq_ok {b : SequenceBuilder} {indirect : Option IndirectResult}
    (h : b.indirectResult? = .ok indirect) :
    b.indirect = indirect.map (fun i => (i.pointer, i.layout)) ∧
      ∀ i ∈ indirect, i.layout.byteSize = .ok i.size := by
  unfold indirectResult? at h
  split at h
  · next pointer l hb =>
    obtain ⟨size, hsize, h⟩ := bind_eq_ok.1 h
    cases h
    refine ⟨hb, fun i hi => ?_⟩
    cases hi
    exact hsize
  · next hb =>
    cases h
    exact ⟨hb, by simp⟩

namespace CallingSequence.Built

variable {s : CallingSequence}

theorem verified (h : s.Built) : s.Verified := by
  obtain ⟨b, hb, hbuild⟩ := h
  obtain ⟨hdirection, harguments, hresult, hindirect, -⟩ := SequenceBuilder.build_eq_ok hbuild
  have hv := hb.verified
  refine ⟨?_, ?_, ?_⟩
  · rw [hdirection, harguments]
    exact hv.arguments
  · rw [hdirection, hresult]
    exact hv.result
  · intro i hi
    rw [hdirection]
    refine hv.pointer _ i.layout ?_
    rw [(SequenceBuilder.indirectResult?_eq_ok hindirect).1, Option.mem_def.1 hi]
    rfl

/-! A downcall takes its arguments apart and puts its result together; an upcall does the reverse. -/

theorem verifyUnbox_arguments (h : s.Built) (hdirection : s.direction = .downcall) :
    ∀ b ∈ s.arguments, verifyUnbox b.program b.carrier b.layout = .ok () :=
  fun b hb => SequenceBuilder.verifyUnbox_of_check (hdirection ▸ h.verified.arguments b hb)

theorem verifyBox_result (h : s.Built) (hdirection : s.direction = .downcall) :
    ∀ b ∈ s.result, verifyBox b.program b.carrier b.layout = .ok () :=
  fun b hb => SequenceBuilder.verifyBox_of_check (hdirection ▸ h.verified.result b hb)

theorem verifyBox_arguments (h : s.Built) (hdirection : s.direction = .upcall) :
    ∀ b ∈ s.arguments, verifyBox b.program b.carrier b.layout = .ok () :=
  fun b hb => SequenceBuilder.verifyBox_of_check (hdirection ▸ h.verified.arguments b hb)

theorem verifyUnbox_result (h : s.Built) (hdirection : s.direction = .upcall) :
    ∀ b ∈ s.result, verifyUnbox b.program b.carrier b.layout = .ok () :=
  fun b hb => SequenceBuilder.verifyUnbox_of_check (hdirection ▸ h.verified.result b hb)

end CallingSequence.Built

end ForeignCall
