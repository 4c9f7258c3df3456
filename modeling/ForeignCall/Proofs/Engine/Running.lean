import ForeignCall.Engine

/-!
# What engine computations do to a machine

One equation for each way to put computations together: the result on a machine, in terms of the results of
its parts.
-/

namespace ForeignCall.Engine

variable {σ α β : Type} (m : Machine σ)

theorem pure_apply (a : α) : (pure a : Engine σ α) m = .ok a m := rfl

theorem bind_apply (x : Engine σ α) (f : α → Engine σ β) :
    (x >>= f) m = match x m with
      | .ok a n => f a n
      | .error e n => .error e n := by
  cases h : x m <;> simp [bind, EStateM.bind, h]

theorem get_apply : (get : Engine σ (Machine σ)) m = .ok m m := rfl

theorem lift_ok (a : α) : (liftM (Except.ok a : Except Fault α) : Engine σ α) m = .ok a m := rfl

theorem lift_bind (x : Except Fault α) (f : α → Except Fault β) :
    (liftM (x >>= f) : Engine σ β) = liftM x >>= fun a => liftM (f a) := by
  cases x <;> rfl

/-- A sequence of two computations gives a value iff both do. -/
theorem bind_eq_ok {x : Engine σ α} {f : α → Engine σ β} {m n : Machine σ} {b : β} :
    (x >>= f) m = .ok b n ↔ ∃ a k, x m = .ok a k ∧ f a k = .ok b n := by
  rw [bind_apply]
  cases x m with
  | ok a k => exact ⟨fun h => ⟨a, k, rfl, h⟩, fun ⟨a', k', hx, h⟩ => by cases hx; exact h⟩
  | error f k => simp

theorem lift_eq_ok {x : Except Fault α} {m n : Machine σ} {a : α} :
    (liftM x : Engine σ α) m = .ok a n ↔ x = .ok a ∧ m = n := by
  cases x with
  | ok b => rw [lift_ok, EStateM.Result.ok.injEq, Except.ok.injEq]
  | error f =>
    constructor
    · intro h
      cases h
    · rintro ⟨h, -⟩
      cases h

theorem record_apply (e : LogEvent) :
    (record e : Engine σ Unit) m = .ok () { m with log := m.log.push e } := rfl

theorem get_bind_apply (f : Machine σ → Engine σ β) : (get >>= f) m = f m m := rfl

end ForeignCall.Engine
