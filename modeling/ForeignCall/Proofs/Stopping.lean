import ForeignCall.Fault

/-!
# Computations that run to their end

A computation of sizes, of faults or of errors ends with a value exactly when each of its parts does.
`bind_eq_ok` takes a sequence apart; the other laws see through the liftings between overflows, faults and
errors.
-/

namespace ForeignCall

section Stopping

variable {φ ε α β : Type}

/-- A sequence of two computations gives a value iff both do. -/
theorem bind_eq_ok {x : Except ε α} {f : α → Except ε β} {b : β} :
    x >>= f = .ok b ↔ ∃ a, x = .ok a ∧ f a = .ok b := by
  cases x with
  | error e => simp [bind, Except.bind]
  | ok a => simp [bind, Except.bind]

theorem bind_eq_error {x : Except ε α} {f : α → Except ε β} {e : ε} :
    x >>= f = .error e ↔ x = .error e ∨ ∃ a, x = .ok a ∧ f a = .error e := by
  cases x with
  | ok a => simp [bind, Except.bind]
  | error e => simp [bind, Except.bind]

theorem bind_ne_error {x : Except ε α} {f : α → Except ε β} {e : ε} (hx : x ≠ .error e)
    (hf : ∀ a, x = .ok a → f a ≠ .error e) : x >>= f ≠ .error e := by
  rw [Ne, bind_eq_error, not_or]
  exact ⟨hx, fun ⟨a, ha, h⟩ => hf a ha h⟩

theorem ok_unique {x : Except ε α} {a b : α} (h : x = .ok a) (h' : x = .ok b) : a = b :=
  Except.ok.inj (h.symm.trans h')

theorem exists_ok_of_any {x : Except ε α} {p : α → Bool} (h : x.toOption.any p = true) :
    ∃ a, x = .ok a ∧ p a = true := by
  cases x with
  | ok a => exact ⟨a, rfl, h⟩
  | error e => cases h

@[simp] theorem ok_bind (a : α) (f : α → Except ε β) : (.ok a : Except ε α) >>= f = f a := rfl

@[simp] theorem pure_eq_ok {a b : α} : (pure a : Except ε α) = .ok b ↔ a = b := by
  simp [pure, Except.pure]

@[simp] theorem throw_eq_ok {e : ε} {a : α} : (throw e : Except ε α) = .ok a ↔ False := by
  simp [throw, throwThe, MonadExceptOf.throw]

@[simp] theorem Halt.fail_eq_ok {e : ε} {a : α} : (Halt.fail e : Except (Halt φ ε) α) = .ok a ↔ False := by
  simp [Halt.fail]

@[simp] theorem Halt.ofFault_eq_ok {x : Except φ α} {a : α} :
    (Halt.ofFault x : Except (Halt φ ε) α) = .ok a ↔ x = .ok a := by
  cases x <;> simp [Halt.ofFault]

@[simp] theorem Fault.ofOverflow_eq_ok {x : Except Overflow α} {a : α} :
    (Fault.ofOverflow x : Except Fault α) = .ok a ↔ x = .ok a := by
  cases x <;> simp [Fault.ofOverflow]

@[simp] theorem Halt.ofOverflow_eq_ok {x : Except (Halt Overflow ε) α} {a : α} :
    (Halt.ofOverflow x : Except (Halt Fault ε) α) = .ok a ↔ x = .ok a := by
  cases x with
  | ok a => simp [Halt.ofOverflow]
  | error e => cases e <;> simp [Halt.ofOverflow]

/-! ### Liftings -/

@[simp] theorem lift_overflow_eq_ok {x : Except Overflow α} {a : α} :
    (liftM x : Except Fault α) = .ok a ↔ x = .ok a := Fault.ofOverflow_eq_ok

@[simp] theorem lift_fault_eq_ok {x : Except φ α} {a : α} :
    (liftM x : Except (Halt φ ε) α) = .ok a ↔ x = .ok a := Halt.ofFault_eq_ok

@[simp] theorem lift_halt_eq_ok {x : Except (Halt Overflow ε) α} {a : α} :
    (liftM x : Except (Halt Fault ε) α) = .ok a ↔ x = .ok a := Halt.ofOverflow_eq_ok

@[simp] theorem lift_overflow_halt_eq_ok {x : Except Overflow α} {a : α} :
    (liftM x : Except (Halt Fault ε) α) = .ok a ↔ x = .ok a :=
  Halt.ofOverflow_eq_ok.trans Halt.ofFault_eq_ok

end Stopping

end ForeignCall
