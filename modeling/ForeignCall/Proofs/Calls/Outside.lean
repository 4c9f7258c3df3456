import ForeignCall.Proofs.Calls.Footprint
import ForeignCall.Registry
import Mathlib.Order.Defs.Unbundled

/-!
# The state of the code outside

A call has no hand in the state of the code outside: it changes only while that code runs.

* `Engine.Moves R x`: however the computation `x` ends, it has moved that state along the relation `R`.
  There is a rule for each way to put computations together, for every `R` that goes with doing nothing and
  with one step after the other;
* `NativeFunction.call_finishes`, `NativeFunction.call_moves`: calling a native function gives what its code
  gives, and moves the state as its code does;
* `UpcallHandler.invoke_moves`, `Registry.callUpcall_moves`: an upcall moves it as its target does.
-/

namespace ForeignCall

variable {φ τ σ α β : Type} {R : σ → σ → Prop}

/-- However `x` ends, the state of the code outside has moved along the relation. -/
def Engine.Moves (R : σ → σ → Prop) (x : Engine σ α) : Prop := ∀ m, Ends x m fun _ n => R m.world n.world

namespace Engine.Moves

variable {x : Engine σ α}

theorem get {f : Machine σ → Engine σ α} (h : ∀ m, Moves R (f m)) : Moves R (MonadState.get >>= f) :=
  fun m => .get (h m m)

theorem withScratch {size : Nat} (h : Moves R x) : Moves R (Engine.withScratch size x) := fun _ =>
  .withScratch (h _) fun _ _ hn => hn

theorem managed (h : Moves R x) : Moves R (Engine.managed x) := fun _ => .managed (h _) fun _ _ hn => hn

variable [IsPreorder σ R]

theorem bind {f : α → Engine σ β} (h : Moves R x) (hf : ∀ a, Moves R (f a)) : Moves R (x >>= f) := fun m =>
  (h m).andThen (fun a n hn => (hf a n).mono fun _ _ hk => trans_of R hn hk) fun _ _ hn => hn

theorem of_world (h : ∀ m, Ends x m fun _ n => n.world = m.world) : Moves R x := by
  intro m
  refine (h m).mono fun _ n hn => ?_
  rw [hn]
  exact refl_of R m.world

theorem of_same (h : ∀ m, Ends x m fun _ n => n = m) : Moves R x :=
  of_world fun m => (h m).mono fun _ _ hn => by rw [hn]

theorem of_footprint {ss : List Storage} {requests : List (Nat × Nat)}
    {Q : Machine σ → List Segment → α → Machine σ → Prop} (h : ∀ m, Ends x m (Footprint ss requests (Q m) m)) :
    Moves R x :=
  of_world fun m => (h m).mono fun _ _ ⟨_, _, hn, _⟩ => hn.world

theorem pure {a : α} : Moves R (Pure.pure a : Engine σ α) := of_world fun _ => .pure rfl

theorem throw {f : Fault} : Moves R (MonadExceptOf.throw f : Engine σ α) := of_world fun _ => rfl

theorem lift {x : Except Fault α} : Moves R (liftM x : Engine σ α) := of_world fun _ => .lift rfl

theorem outcome {ε : Type} {x : Except (Halt Fault ε) α} : Moves R (Engine.outcome x) :=
  of_world fun _ => .outcome fun _ => rfl

theorem update {f : Machine σ → Machine σ} (h : ∀ m, (f m).world = m.world) :
    Moves R (modify f : Engine σ Unit) :=
  of_world fun m => h m

end Engine.Moves

/-! ### Interpreted upcalls -/

section Moves

variable [IsPreorder σ R]

open Engine (Moves)

theorem Upcall.deliver_moves (s : CallingSequence) (buffer : Option Segment) (v : Value) :
    Moves R (deliver s buffer v) := by
  have hpass : ∀ v, Moves R (passResult s v) := by
    intro v
    unfold passResult
    split
    · exact .of_footprint (Engine.unbox_footprint v _)
    · exact .pure
  unfold deliver
  split
  · exact hpass _
  · next b returned =>
    have hcopy : ∀ t, Moves R (Engine.copySegment b t) := fun t =>
      .of_world fun m => (Engine.copySegment_fills b t m).mono fun _ _ h => h.world
    exact .bind (.of_same (Engine.takeSegment_same returned b.length)) fun t => .bind (hcopy t) fun _ => hpass _
  · exact .throw

theorem Upcall.interpret_moves {target : Target σ} (h : ∀ args, Moves R (target args)) (s : CallingSequence) :
    Moves R (interpret s target) := by
  rw [interpret_eq]
  refine .withScratch (.bind (.of_footprint (receive_footprint s)) fun received =>
    .bind (.managed (h received.2)) fun r => ?_)
  split
  · exact .pure
  · refine .bind .outcome fun checked => ?_
    split
    · exact .pure
    · exact .bind (deliver_moves s received.1 _) fun _ => .pure

/-! ### Compiled upcalls -/

theorem Source.get_moves (s : Source) : Moves R s.get :=
  .bind (.get fun _ => .lift) fun _ => .lift

theorem Source.getAll_moves (ss : List Source) : Moves R (getAll ss) := by
  induction ss with
  | nil => exact .pure
  | cons s ss ih => exact .bind s.get_moves fun _ => .bind ih fun _ => .pure

theorem Filter.applyAll_moves (fs : List Filter) (v : Value) : Moves R (applyAll fs v) := by
  induction fs generalizing v with
  | nil => exact .pure
  | cons f fs ih =>
    refine .bind ?_ fun v => ih v
    unfold apply
    split
    · exact .get fun _ => .lift
    · exact .pure
    · exact .pure
    · exact .throw
    · exact .throw
    · exact .throw

theorem Sink.put_moves (s : Sink) (v : Value) : Moves R (s.put v) :=
  .bind (Filter.applyAll_moves s.filters v) fun _ => .bind .lift fun _ =>
    .get fun _ => .bind .lift fun _ => .update fun _ => rfl

theorem DirectUpcall.invoke_moves {target : Target σ} (h : ∀ args, Moves R (target args)) (d : DirectUpcall) :
    Moves R (d.invoke target) := by
  refine .bind (Source.getAll_moves d.arguments) fun args => .bind (.managed (h args)) fun r => ?_
  split
  · exact .pure
  · split
    · exact .pure
    · refine .bind ?_ fun _ => .pure
      unfold Sink.putResult
      split
      · exact Sink.put_moves _ _
      · exact .pure

end Moves

/-! ### Calls through a registry -/

/-- **Calling a native function gives what its code gives.**  Only a failure is recorded in addition. -/
theorem NativeFunction.call_finishes {run : φ → Native σ} {f : NativeFunction φ} {m n : Machine σ}
    {answer : Except Fault (Except NativeError Unit)} (h : Engine.Finishes (run f.code) m answer n) :
    ∃ log, Engine.Finishes (f.call run) m answer { n with log := log } := by
  cases answer with
  | error fault =>
    refine ⟨n.log, ?_⟩
    unfold call Engine.Finishes
    rw [Engine.bind_apply, show run f.code m = _ from h]
  | ok answer =>
    cases answer with
    | error e =>
      refine ⟨n.log.push (.nativeFailed f.name e), ?_⟩
      unfold call Engine.Finishes
      rw [Engine.bind_apply, show run f.code m = _ from h]
      rfl
    | ok done =>
      refine ⟨n.log, ?_⟩
      unfold call Engine.Finishes
      rw [Engine.bind_apply, show run f.code m = _ from h]
      rfl

section Moves

variable [IsPreorder σ R]

open Engine (Moves)

/-- **Calling a native function does to the state of the code outside what its code does.** -/
theorem NativeFunction.call_moves {run : φ → Native σ} {f : NativeFunction φ} (h : Moves R (run f.code)) :
    Moves R (f.call run) := by
  refine .bind h fun r => ?_
  split
  · exact .bind (.update fun _ => rfl) fun _ => .pure
  · exact .pure

/-- **An upcall does to the state of the code outside what its target does.** -/
theorem UpcallHandler.invoke_moves {run : τ → Target σ} {handler : UpcallHandler τ}
    (h : ∀ args, Moves R (run handler.target args)) : Moves R (handler.invoke run) := by
  unfold invoke
  split
  · exact DirectUpcall.invoke_moves h _
  · exact Upcall.interpret_moves h handler.sequence

/-- **So does a call through an entry point.** -/
theorem Registry.callUpcall_moves {run : τ → Target σ} (h : ∀ target args, Moves R (run target args))
    (r : Registry φ τ) (entry : Word) : Moves R
    (r.callUpcall run entry) := by
  unfold callUpcall
  split
  · exact .pure
  · next e he =>
    have hbuffer : Moves R (hasResultBuffer e : Engine σ Bool) := by
      unfold hasResultBuffer
      dsimp only
      generalize (if e.isIndirect = true then _ else none) = pointer
      cases pointer with
      | none => exact .pure
      | some storage =>
        have hread : Moves R (Engine.readStorage storage) := .of_same (Engine.readStorage_same storage)
        exact .bind hread fun _ => .pure
    refine .bind hbuffer fun passed => ?_
    split
    · exact .bind (UpcallHandler.invoke_moves (h e.handler.target)) fun _ => .pure
    · exact .pure

end Moves

end ForeignCall
