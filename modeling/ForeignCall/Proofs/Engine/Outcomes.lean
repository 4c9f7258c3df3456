import ForeignCall.Proofs.Engine.Simulation

/-!
# Whatever the outcome

`Ends x m Q`: started on the machine `m`, the computation `x` gives a value or a fault and leaves a machine,
which have the property `Q` together.  So `Q` says what holds of a run that stops halfway, too.  There is a
rule for each way to put computations together.
-/

namespace ForeignCall

variable {σ α β : Type} {m n : Machine σ}

/-- Started on the machine `m`, the computation comes to the outcome and leaves the machine `n`. -/
def Engine.Finishes (x : Engine σ α) (m : Machine σ) : Except Fault α → Machine σ → Prop
  | .ok a, n => x m = .ok a n
  | .error f, n => x m = .error f n

/-- The outcome of `x`, be it a value or a fault, and the machine that is left have the property. -/
def Ends (x : Engine σ α) (m : Machine σ) (Q : Except Fault α → Machine σ → Prop) : Prop :=
  match x m with
  | .ok a n => Q (.ok a) n
  | .error f n => Q (.error f) n

namespace Ends

variable {x : Engine σ α} {Q P : Except Fault α → Machine σ → Prop}

theorem mono (h : Ends x m P) (hPQ : ∀ r n, P r n → Q r n) : Ends x m Q := by
  unfold Ends at h ⊢
  cases hx : x m with
  | ok a n =>
    rw [hx] at h
    exact hPQ _ n h
  | error f n =>
    rw [hx] at h
    exact hPQ _ n h

theorem pure {a : α} (h : Q (.ok a) m) : Ends (pure a : Engine σ α) m Q := h

theorem outcome {ε : Type} {x : Except (Halt Fault ε) α} {Q : Except Fault (Except ε α) → Machine σ → Prop}
    (h : ∀ r, Q r m) : Ends (Engine.outcome x) m Q := by
  unfold Engine.outcome
  split <;> exact h _

theorem lift {x : Except Fault α} (h : Q x m) : Ends (liftM x : Engine σ α) m Q := by
  cases x <;> exact h

theorem lift_ok {x : Except Fault α} (hok : ∀ a, x = .ok a → Q (.ok a) m)
    (herror : ∀ e, x = .error e → Q (.error e) m) :
    Ends (liftM x : Engine σ α) m Q := by
  cases x with
  | ok a => exact hok a rfl
  | error e => exact herror e rfl

theorem of_finishes (h : ∀ r n, Engine.Finishes x m r n → Q r n) : Ends x m Q := by
  unfold Ends
  cases hx : x m with
  | ok a n => exact h (.ok a) n hx
  | error f n => exact h (.error f) n hx

theorem finishes {r : Except Fault α} (h : Ends x m Q) (hx : Engine.Finishes x m r n) : Q r n := by
  unfold Ends at h
  cases r with
  | ok a => rwa [show x m = .ok a n from hx] at h
  | error f => rwa [show x m = .error f n from hx] at h

theorem of_ok {a : α} (h : Ends x m Q) (hx : x m = .ok a n) : Q (.ok a) n := h.finishes (r := .ok a) hx

theorem of_error {e : Fault} (h : Ends x m Q) (hx : x m = .error e n) : Q (.error e) n :=
  h.finishes (r := .error e) hx

theorem bind_of {f : α → Engine σ β} {R : Except Fault β → Machine σ → Prop}
    (hok : ∀ a n, x m = .ok a n → Ends (f a) n R) (herror : ∀ e n, x m = .error e n → R (.error e) n) : Ends
    (x >>= f) m R := by
  unfold Ends at hok ⊢
  rw [Engine.bind_apply]
  cases hx : x m with
  | ok a n => exact hok a n hx
  | error e n => exact herror e n hx

theorem andThen {f : α → Engine σ β} {R : Except Fault β → Machine σ → Prop} (h : Ends x m Q)
    (hok : ∀ a n, Q (.ok a) n → Ends (f a) n R) (herror : ∀ e n, Q (.error e) n → R (.error e) n) :
    Ends (x >>= f) m R :=
  bind_of (fun a n hx => hok a n (h.of_ok hx)) fun e n hx => herror e n (h.of_error hx)

theorem lift_bind {x : Except Fault α} {f : α → Engine σ β} {R : Except Fault β → Machine σ → Prop}
    (hok : ∀ a, x = .ok a → Ends (f a) m R) (herror : ∀ e, x = .error e → R (.error e) m) :
    Ends (liftM x >>= f) m R :=
  andThen (lift (Q := fun r n => r = x ∧ n = m) ⟨rfl, rfl⟩) (fun a _ h => h.2 ▸ hok a h.1.symm)
    fun e _ h => h.2 ▸ herror e h.1.symm

theorem record {e : LogEvent} {y : Engine σ α} (h : Ends y { m with log := m.log.push e } Q) :
    Ends (Engine.record e >>= fun _ => y) m Q := h

theorem get {f : Machine σ → Engine σ α} (h : Ends (f m) m Q) : Ends (MonadState.get >>= f) m Q := h

/-! ### Code in a context of its own -/

theorem withScratch {capacity : Nat} (h : Ends x { m with scratch := Scratch.new capacity } P)
    (hP : ∀ r n, P r n → Q r { Engine.closeScratch n with scratch := m.scratch }) :
    Ends (Engine.withScratch capacity x) m Q := by
  unfold Ends Engine.withScratch at *
  cases hx : x { m with scratch := Scratch.new capacity } with
  | ok a n =>
    rw [hx] at h
    exact hP _ n h
  | error f n =>
    rw [hx] at h
    exact hP _ n h

theorem native (h : Ends x { m with scratch := Scratch.closed, log := #[] } P)
    (hP : ∀ r n, P r n → Q r { n with scratch := m.scratch, log := m.log ++ n.log }) :
    Ends (Engine.native x) m Q := by
  unfold Ends Engine.native at *
  cases hx : x { m with scratch := Scratch.closed, log := #[] } with
  | ok a n =>
    rw [hx] at h
    exact hP _ n h
  | error f n =>
    rw [hx] at h
    exact hP _ n h

theorem managed (h : Ends x { m with frame := Frame.empty, scratch := Scratch.closed, log := #[] } P)
    (hP : ∀ r n, P r n → Q r { n with frame := m.frame, scratch := m.scratch, log := m.log ++ n.log }) :
    Ends (Engine.managed x) m Q := by
  unfold Ends Engine.managed at *
  cases hx : x { m with frame := Frame.empty, scratch := Scratch.closed, log := #[] } with
  | ok a n =>
    rw [hx] at h
    exact hP _ n h
  | error f n =>
    rw [hx] at h
    exact hP _ n h

end Ends

end ForeignCall
