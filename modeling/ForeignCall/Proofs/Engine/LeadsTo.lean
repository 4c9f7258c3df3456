import ForeignCall.Proofs.Engine.Simulation

/-!
# What computations lead to

`LeadsTo F x m Q`: started on the machine `m`, the computation `x` gives a value and a machine with the
property `Q`, unless it ends in a fault of `F`.  With no fault in `F` it succeeds (`LeadsTo.exists_ok`).
There is a rule for each way to put computations together.
-/

namespace ForeignCall

variable {σ α β : Type} {m n : Machine σ} {F : Fault → Prop}

/-- `x` gives a value and a machine with the property, unless it ends in a fault of `F`. -/
def LeadsTo (F : Fault → Prop) (x : Engine σ α) (m : Machine σ) (Q : α → Machine σ → Prop) : Prop :=
  match x m with
  | .ok a n => Q a n
  | .error f _ => F f

namespace LeadsTo

variable {x : Engine σ α} {Q P : α → Machine σ → Prop}

theorem pure {a : α} (h : Q a m) : LeadsTo F (pure a : Engine σ α) m Q := h

theorem of_ok {a : α} (hx : x m = .ok a n) (h : Q a n) : LeadsTo F x m Q := by
  unfold LeadsTo
  rw [hx]
  exact h

theorem mono (h : LeadsTo F x m P) (hPQ : ∀ a n, P a n → Q a n) : LeadsTo F x m Q := by
  unfold LeadsTo at h ⊢
  cases hx : x m with
  | ok a n =>
    rw [hx] at h
    exact hPQ a n h
  | error e n =>
    rw [hx] at h
    exact h

theorem bind {f : α → Engine σ β} {R : β → Machine σ → Prop}
    (h : LeadsTo F x m fun a n => LeadsTo F (f a) n R) :
    LeadsTo F (x >>= f) m R := by
  unfold LeadsTo at h ⊢
  rw [Engine.bind_apply]
  cases hx : x m with
  | ok a n =>
    rw [hx] at h
    exact h
  | error e n =>
    rw [hx] at h
    exact h

theorem andThen {f : α → Engine σ β} {R : β → Machine σ → Prop} (h : LeadsTo F x m Q)
    (hf : ∀ a n, Q a n → LeadsTo F (f a) n R) : LeadsTo F (x >>= f) m R :=
  bind (h.mono hf)

theorem record {e : LogEvent} {y : Engine σ α} (h : LeadsTo F y { m with log := m.log.push e } Q) :
    LeadsTo F (Engine.record e >>= fun _ => y) m Q := h

theorem recordChunk (size alignment : Nat) (m : Machine σ) :
    LeadsTo F (Engine.recordChunk size alignment) m fun _ n => ∃ log, n = { m with log := log } := by
  unfold Engine.recordChunk
  refine bind (of_ok (Engine.get_apply m) ?_)
  split
  · exact of_ok (Engine.record_apply m _) ⟨_, rfl⟩
  · exact pure ⟨m.log, rfl⟩

theorem and_ok (h : LeadsTo F x m Q) : LeadsTo F x m fun a n => x m = .ok a n ∧ Q a n := by
  unfold LeadsTo at h ⊢
  cases hx : x m with
  | ok a n =>
    rw [hx] at h
    exact ⟨rfl, h⟩
  | error f n =>
    rw [hx] at h
    exact h

/-- Computations that show the same lead to the same, as far as it shows. -/
theorem of_observe {y : Engine σ α} {P : α → View σ → Prop} (h : Engine.observe x m = Engine.observe y n)
    (hy : LeadsTo F y n fun a k => P a k.view) : LeadsTo F x m fun a k => P a k.view := by
  unfold LeadsTo at hy ⊢
  unfold Engine.observe at h
  cases hx : x m <;> cases hy' : y n <;> simp_all

/-! ### Code in a context of its own -/

theorem withScratch {capacity : Nat} {P : α → Machine σ → Prop}
    (h : LeadsTo F x { m with scratch := Scratch.new capacity } P)
    (hP : ∀ a n, P a n → Q a { Engine.closeScratch n with scratch := m.scratch }) :
    LeadsTo F (Engine.withScratch capacity x) m Q := by
  unfold LeadsTo Engine.withScratch at *
  cases hx : x { m with scratch := Scratch.new capacity } with
  | ok a n =>
    rw [hx] at h
    exact hP a n h
  | error e n =>
    rw [hx] at h
    exact h

theorem native {P : α → Machine σ → Prop} (h : LeadsTo F x { m with scratch := Scratch.closed, log := #[] } P)
    (hP : ∀ a n, P a n → Q a { n with scratch := m.scratch, log := m.log ++ n.log }) :
    LeadsTo F (Engine.native x) m Q := by
  unfold LeadsTo Engine.native at *
  cases hx : x { m with scratch := Scratch.closed, log := #[] } with
  | ok a n =>
    rw [hx] at h
    exact hP a n h
  | error e n =>
    rw [hx] at h
    exact h

theorem managed {P : α → Machine σ → Prop}
    (h : LeadsTo F x { m with frame := Frame.empty, scratch := Scratch.closed, log := #[] } P)
    (hP : ∀ a n, P a n → Q a { n with frame := m.frame, scratch := m.scratch, log := m.log ++ n.log }) :
    LeadsTo F (Engine.managed x) m Q := by
  unfold LeadsTo Engine.managed at *
  cases hx : x { m with frame := Frame.empty, scratch := Scratch.closed, log := #[] } with
  | ok a n =>
    rw [hx] at h
    exact hP a n h
  | error e n =>
    rw [hx] at h
    exact h

theorem exists_ok (h : LeadsTo (fun _ => False) x m Q) : ∃ a n, x m = .ok a n ∧ Q a n := by
  unfold LeadsTo at h
  cases hx : x m with
  | ok a n =>
    rw [hx] at h
    exact ⟨a, n, rfl, h⟩
  | error e n =>
    rw [hx] at h
    exact h.elim

end LeadsTo

end ForeignCall
