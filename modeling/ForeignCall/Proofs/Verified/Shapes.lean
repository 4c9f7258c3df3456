import ForeignCall.Interpreter
import ForeignCall.Proofs.Stopping
import ForeignCall.Proofs.Verification
import Mathlib.Data.List.Forall2

/-!
# Values of a shape

* `Shape.Admits`: a value has a shape.  What is known about a segment and the length that verification
  tracks is a parameter of it;
* the operands that the steps of the interpreter find, and the shapes that they can have.
-/

namespace ForeignCall

variable {P Q : Segment → Nat → Prop} {shape : Shape} {shapes : List Shape} {v : Value}
  {stack rest : List Value} {kind : Primitive} {c : Carrier} {l : Layout}

/-- The value has the shape, where `P` relates a segment to the length in its shape. -/
def Shape.Admits (P : Segment → Nat → Prop) : Shape → Value → Prop
  | .scalar kind, v => v.primitive? = some kind
  | .address, v => ∃ a, v = .address a
  | .segment n, v => ∃ s, v = .segment s ∧ P s n

namespace Shape.Admits

theorem carrier (h : shape.Admits P v) : v.carrier? = some shape.carrier := by
  cases shape with
  | scalar kind => exact Value.carrier?_eq_primitive.2 h
  | address => exact Value.carrier?_eq_address.2 h
  | segment n => exact Value.carrier?_eq_segment.2 (h.imp fun _ hs => hs.1)

theorem mono (h : shape.Admits P v) (hPQ : ∀ s n, P s n → Q s n) : shape.Admits Q v := by
  cases shape with
  | segment n =>
    obtain ⟨s, rfl, hs⟩ := h
    exact ⟨s, rfl, hPQ s n hs⟩
  | _ => exact h

theorem eq_scalar (h : shape.Admits P v) (hv : v.primitive? = some kind) : shape = .scalar kind := by
  cases shape with
  | scalar kind' => exact congrArg Shape.scalar (Option.some.inj (h.symm.trans hv))
  | address =>
    obtain ⟨a, rfl⟩ := h
    cases hv
  | segment n =>
    obtain ⟨s, rfl, -⟩ := h
    cases hv

theorem eq_address {a : Word} (h : shape.Admits P (.address a)) : shape = .address := by
  cases shape with
  | scalar kind => cases h
  | address => rfl
  | segment n =>
    obtain ⟨s, hs, -⟩ := h
    cases hs

theorem eq_segment {s : Segment} (h : shape.Admits P (.segment s)) : ∃ n, shape = .segment n ∧ P s n := by
  cases shape with
  | scalar kind => cases h
  | address =>
    obtain ⟨a, ha⟩ := h
    cases ha
  | segment n =>
    obtain ⟨t, ht, hP⟩ := h
    cases ht
    exact ⟨n, rfl, hP⟩

end Shape.Admits

theorem Shape.exists_admits (hv : v.carrier? = some c)
    (hP : ∀ s, v = .segment s → ∃ n, l.byteSize = .ok n ∧ P s n) :
    ∃ shape, Shape.ofCarrier l c = .ok shape ∧ shape.Admits P v := by
  cases c with
  | primitive kind => exact ⟨_, rfl, Value.carrier?_eq_primitive.1 hv⟩
  | address => exact ⟨_, rfl, Value.carrier?_eq_address.1 hv⟩
  | segment =>
    obtain ⟨s, rfl⟩ := Value.carrier?_eq_segment.1 hv
    obtain ⟨n, hn, hs⟩ := hP s rfl
    exact ⟨_, bind_eq_ok.2 ⟨n, hn, rfl⟩, s, rfl, hs⟩

/-! ### Operands -/

namespace Interpreter

variable {step : Step}

theorem pop_eq_ok : pop step stack = .ok (v, rest) ↔ stack = v :: rest := by
  cases stack <;> simp [pop]

theorem popSegment_eq_ok {s : Segment} :
    popSegment step stack = .ok (s, rest) ↔ stack = .segment s :: rest := by
  unfold popSegment
  rw [bind_eq_ok]
  constructor
  · rintro ⟨⟨v, tail⟩, hpop, h⟩
    rw [pop_eq_ok.1 hpop]
    cases v <;> simp_all
  · rintro rfl
    exact ⟨_, pop_eq_ok.2 rfl, rfl⟩

theorem popAddress_eq_ok {a : Word} : popAddress step stack = .ok (a, rest) ↔ stack = .address a :: rest := by
  unfold popAddress
  rw [bind_eq_ok]
  constructor
  · rintro ⟨⟨v, tail⟩, hpop, h⟩
    rw [pop_eq_ok.1 hpop]
    cases v <;> simp_all
  · rintro rfl
    exact ⟨_, pop_eq_ok.2 rfl, rfl⟩

theorem popAddressBits_eq_ok {x : Word} :
    popAddressBits step stack = .ok (x, rest) ↔ stack = .i64 x :: rest := by
  unfold popAddressBits
  rw [bind_eq_ok]
  constructor
  · rintro ⟨⟨v, tail⟩, hpop, h⟩
    rw [pop_eq_ok.1 hpop]
    cases v <;> simp_all
  · rintro rfl
    exact ⟨_, pop_eq_ok.2 rfl, rfl⟩

theorem popSlotBits_eq_ok {w : Word} : popSlotBits step kind stack = .ok (w, rest) ↔
    ∃ v, stack = v :: rest ∧ v.primitive? = some kind ∧ kind.encode v = .ok w := by
  have hslot {v : Value} (hv : v.primitive? = some kind) : v.slotBits = kind.encode v := by
    unfold Value.slotBits
    rw [hv]
  unfold popSlotBits
  rw [bind_eq_ok]
  constructor
  · rintro ⟨⟨v, tail⟩, hpop, h⟩
    dsimp only at h
    split at h
    · next hv =>
      obtain ⟨w', hw, h⟩ := bind_eq_ok.1 h
      cases h
      exact ⟨v, pop_eq_ok.1 hpop, hv, hslot hv ▸ hw⟩
    · simp at h
  · rintro ⟨v, rfl, hv, hw⟩
    refine ⟨_, pop_eq_ok.2 rfl, ?_⟩
    dsimp only
    rw [if_pos hv]
    exact bind_eq_ok.2 ⟨w, (hslot hv).trans hw, rfl⟩

theorem dup_eq_ok {next : List Value} : dup step stack = .ok next ↔ ∃ v rest, stack = v :: rest ∧
    next = v :: v :: rest := by
  unfold dup
  rw [bind_eq_ok]
  constructor
  · rintro ⟨⟨v, rest⟩, hpop, h⟩
    exact ⟨v, rest, pop_eq_ok.1 hpop, (pure_eq_ok.1 h).symm⟩
  · rintro ⟨v, rest, rfl, rfl⟩
    exact ⟨_, pop_eq_ok.2 rfl, rfl⟩

end Interpreter

end ForeignCall
