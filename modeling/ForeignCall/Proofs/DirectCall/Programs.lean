import ForeignCall.DirectCall
import ForeignCall.Interpreter
import ForeignCall.Proofs.Engine.Simulation
import ForeignCall.Proofs.Verification
import Mathlib.Data.List.Basic

/-!
# Compiled programs do what interpreting them does

* `Sink.put_simulates`: moving a value through the filters of a compiled unboxing program is interpreting
  that program;
* `Source.get_simulates`: fetching a value through a compiled boxing program is interpreting that program.

A program that compiles leaves no choice of a stack: every step takes the only value on it and pushes one.
For unboxing this is the induction over the filters.  For boxing the shapes show more: after an address no
further address step is accepted, so that a compiled source has at most one.
-/

namespace ForeignCall

open Verification DirectCall

variable {σ : Type} {l : FrameLayout} {position : ProgramPosition} {layout : Layout} {c : Carrier} {p : Program}
  {storage : Storage} {kind : Primitive} {offset i : Nat} {shape : Shape} {v : Value}

theorem DirectCall.report_eq_ok {α : Type} {x : Except Ineligible α} {a : α} :
    DirectCall.report x = .ok a ↔ x = .ok a := by
  cases x <;> simp [DirectCall.report]

/-! ### Sinks -/

theorem Sink.put_cons (f : Filter) (fs : List Filter) (v : Value) :
    (Sink.put ⟨f :: fs, offset, kind⟩ v : Engine σ Unit) = f.apply v >>= Sink.put ⟨fs, offset, kind⟩ := by
  simp only [Sink.put, Filter.applyAll, bind_assoc]
  rfl

/-- A filter does what its step does to the only value on the stack. -/
theorem Filter.apply_simulates {step : Step} {f : Filter} {next : List Shape}
    (hf : filter position step = .ok f) (hstep : unboxStep [shape] step = .ok next)
    (hv : v.carrier? = some shape.carrier) :
    ∃ shape', next = [shape'] ∧
      Simulates l (fun w stack => stack = [w] ∧ w.carrier? = some shape'.carrier)
        (f.apply v : Engine σ Value) (Interpreter.unboxStep step [v]) := by
  have heffect := unboxStep_eq_ok hstep
  cases step with
  | field offset kind =>
    cases hf
    obtain ⟨length, rest, hstack, -, rfl⟩ := heffect
    obtain ⟨rfl, rfl⟩ := List.cons_eq_cons.1 hstack
    obtain ⟨s, rfl⟩ := Value.carrier?_eq_segment.1 hv
    refine ⟨.scalar kind, rfl, ?_⟩
    refine (Simulates.getField s kind offset).map_right ?_
    rintro w _ ⟨rfl, hw⟩
    exact ⟨rfl, Value.carrier?_eq_primitive.2 hw⟩
  | baseAddress =>
    cases hf
    obtain ⟨length, rest, hstack, rfl⟩ := heffect
    obtain ⟨rfl, rfl⟩ := List.cons_eq_cons.1 hstack
    obtain ⟨s, rfl⟩ := Value.carrier?_eq_segment.1 hv
    exact ⟨.address, rfl, .pure ⟨rfl, rfl⟩⟩
  | boxAddress =>
    cases hf
    obtain ⟨rest, hstack, rfl⟩ := heffect
    obtain ⟨rfl, rfl⟩ := List.cons_eq_cons.1 hstack
    obtain ⟨a, rfl⟩ := Value.carrier?_eq_address.1 hv
    exact ⟨.scalar .i64, rfl, .pure ⟨rfl, rfl⟩⟩
  | _ => cases hf

theorem Sink.put_nil_simulates (ho : l.offset storage = .ok offset)
    (hstep : unboxStep [shape] (.move storage kind) = .ok []) (hv : v.carrier? = some shape.carrier) :
    Simulates l Eq (Sink.put ⟨[], offset, kind⟩ v : Engine σ Unit) (Engine.unbox v [.move storage kind]) := by
  obtain ⟨rfl, -⟩ := List.cons_eq_cons.1 (unboxStep_eq_ok hstep)
  have hkind : v.primitive? = some kind := Value.carrier?_eq_primitive.1 hv
  have hbits : Interpreter.popSlotBits (.move storage kind) kind [v] = kind.encode v >>=
      fun w => pure (w, []) := by
    simp [Interpreter.popSlotBits, Interpreter.pop, hkind, Value.slotBits]
  simp only [Sink.put, Filter.applyAll, Engine.unbox, Interpreter.run, Interpreter.unboxStep,
    pure_bind, bind_assoc, hbits, Engine.lift_bind]
  refine .record_right (.bind (.lift _) ?_)
  rintro w _ ⟨rfl, -⟩
  refine (Simulates.writeStorage ho w).map_right fun _ _ _ => rfl

/-- A sink runs like its program, which ends with its move. -/
theorem Sink.put_simulates_run {fs : List Filter} (ho : l.offset storage = .ok offset)
    (hfs : DirectCall.filters position p = .ok fs)
    (hrun : run unboxStep i (p ++ [.move storage kind]) [shape] = .ok [])
    (hv : v.carrier? = some shape.carrier) :
    Simulates l Eq (Sink.put ⟨fs, offset, kind⟩ v : Engine σ Unit)
      (Engine.unbox v (p ++ [.move storage kind])) := by
  -- The stack holds one value before each step, since no filter has a step that pushes.
  induction p generalizing fs shape v i with
  | nil =>
    cases hfs
    obtain ⟨next, hstep, hrun⟩ := run_cons.1 hrun
    rw [run_nil] at hrun
    exact put_nil_simulates ho (hrun ▸ hstep) hv
  | cons step p ih =>
    obtain ⟨later, hlater, hfs⟩ := bind_eq_ok.1 hfs
    obtain ⟨f, hf, hfs⟩ := bind_eq_ok.1 hfs
    cases hfs
    obtain ⟨next, hstep, hrun⟩ := run_cons.1 hrun
    obtain ⟨shape', rfl, happly⟩ := Filter.apply_simulates hf hstep hv
    rw [put_cons]
    simp only [List.cons_append, Engine.unbox, Interpreter.run, bind_assoc]
    refine .record_right (happly.bind ?_)
    rintro w _ ⟨rfl, hw⟩
    exact ih hlater hrun hw

/-- **Moving a value through a compiled program is interpreting the program.** -/
theorem Sink.put_simulates {s : Sink} (hp : verifyUnbox p c layout = .ok ())
    (hs : DirectCall.sink l position p = .ok s) (hv : v.carrier? = some c) : Simulates l Eq
    (s.put v : Engine σ Unit) (Engine.unbox v p) := by
  obtain ⟨shape, hshape, hrun⟩ := verifyUnbox_eq_ok hp
  rw [← Shape.carrier_ofCarrier hshape] at hv
  unfold DirectCall.sink at hs
  split at hs
  · cases hs
  · next storage kind hlast =>
    obtain ⟨offset, ho, hs⟩ := bind_eq_ok.1 hs
    obtain ⟨fs, hfs, hs⟩ := bind_eq_ok.1 hs
    cases hs
    have hsplit : p.dropLast ++ [.move storage kind] = p := List.dropLast_append_getLast? _ hlast
    rw [← hsplit] at hrun ⊢
    exact put_simulates_run (lift_fault_eq_ok.1 ho) (report_eq_ok.1 hfs) hrun hv
  · cases hs

/-! ### Sources -/

/-- Address steps on a single scalar: there is none, or one that turns bits into an address. -/
theorem addresses_cases {rest : Program} {n : Nat} (hn : addresses position rest = .ok n)
    (hrun : run boxStep i rest [.scalar kind] = .ok [shape]) :
    (rest = [] ∧ n = 0 ∧ shape = .scalar kind) ∨
      (rest = [.boxAddress] ∧ n = 1 ∧ kind = .i64 ∧ shape = .address) := by
  match rest, hn with
  | [], hn =>
    cases hn
    cases run_nil.1 hrun
    exact .inl ⟨rfl, rfl, rfl⟩
  | .boxAddress :: rest, hn =>
    obtain ⟨n', hn', hn⟩ := bind_eq_ok.1 hn
    cases hn
    obtain ⟨next, hstep, hrun⟩ := run_cons.1 hrun
    obtain ⟨_, hstack, rfl⟩ := boxStep_eq_ok hstep
    cases hstack
    match rest, hn' with
    | [], hn' =>
      cases hn'
      cases run_nil.1 hrun
      exact .inr ⟨rfl, rfl, rfl, rfl⟩
    | .boxAddress :: _, _ =>
      -- A second address step would find an address where it needs bits.
      obtain ⟨next, hstep, -⟩ := run_cons.1 hrun
      obtain ⟨_, hstack, -⟩ := boxStep_eq_ok hstep
      cases hstack

/-- **A compiled boxing program is a move, after which at most one step turns bits into an address.** -/
theorem source_cases {s : Source} (hp : verifyBox p c layout = .ok ()) (hs : source l position p = .ok s) :
    ∃ storage, l.offset storage = .ok s.offset ∧
      ((p = [.move storage s.kind] ∧ s.addresses = 0 ∧ c = .primitive s.kind) ∨
        (p = [.move storage .i64, .boxAddress] ∧ s.kind = .i64 ∧ s.addresses = 1 ∧ c = .address)) := by
  obtain ⟨shape, hrun, hshape, -⟩ := verifyBox_eq_ok hp
  unfold source at hs
  split at hs
  · cases hs
  · next storage kind rest =>
    obtain ⟨offset, ho, hs⟩ := bind_eq_ok.1 hs
    obtain ⟨n, hn, hs⟩ := bind_eq_ok.1 hs
    cases hs
    obtain ⟨next, hstep, hrun⟩ := run_cons.1 hrun
    obtain rfl : next = [.scalar kind] := boxStep_eq_ok hstep
    refine ⟨storage, lift_fault_eq_ok.1 ho, ?_⟩
    obtain ⟨rfl, rfl, rfl⟩ | ⟨rfl, rfl, rfl, rfl⟩ := addresses_cases (report_eq_ok.1 hn) hrun
    · exact .inl ⟨rfl, rfl, hshape.symm⟩
    · exact .inr ⟨rfl, rfl, rfl, hshape.symm⟩
  · cases hs

/-- **Fetching a value through a compiled program is interpreting the program.** -/
theorem Source.get_simulates {s : Source} (hp : verifyBox p c layout = .ok ())
    (hs : DirectCall.source l position p = .ok s) :
    Simulates l (fun v w => v = w ∧ v.carrier? = some c) (s.get : Engine σ Value) (Engine.box p) := by
  obtain ⟨offset, kind, n⟩ := s
  obtain ⟨storage, ho, ⟨rfl, rfl, rfl⟩ | ⟨rfl, rfl, rfl, rfl⟩⟩ := source_cases hp hs
  · simp only [get, Engine.box, Interpreter.run, Interpreter.boxStep, pure_bind, bind_assoc]
    refine .record_right (.bind (.readStorage ho) ?_)
    rintro w _ rfl
    exact .pure ⟨rfl, Value.carrier?_eq_primitive.2 (kind.primitive?_decode w)⟩
  · simp only [get, Engine.box, Interpreter.run, Interpreter.boxStep, pure_bind, bind_assoc]
    refine .record_right (.bind (.readStorage ho) ?_)
    rintro w _ rfl
    exact .record_right (.pure ⟨rfl, rfl⟩)

end ForeignCall
