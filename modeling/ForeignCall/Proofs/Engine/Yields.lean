import ForeignCall.Proofs.Engine.Access
import ForeignCall.Proofs.Memory.Requests

/-!
# What computations lead to as long as there is memory

`Yields x m Q`: started on the machine `m`, the computation `x` gives a value and a machine with the
property `Q`, unless memory is exhausted.  There is a rule for each way to put computations together and for
each primitive of the engine.
-/

namespace ForeignCall

variable {σ α β : Type} {m n k : Machine σ}

/-- `x` gives a value and a machine with the property, unless memory is exhausted. -/
def Yields (x : Engine σ α) (m : Machine σ) (Q : α → Machine σ → Prop) : Prop :=
  match x m with
  | .ok a n => Q a n
  | .error f _ => f.isExhaustion = true

namespace Yields

variable {x : Engine σ α} {Q : α → Machine σ → Prop}

/-! ### Putting computations together -/

theorem of_leadsTo (h : LeadsTo (fun f => f.isExhaustion = true) x m Q) : Yields x m Q := h

theorem pure {a : α} (h : Q a m) : Yields (pure a : Engine σ α) m Q := h

theorem of_ok {a : α} (hx : x m = .ok a n) (h : Q a n) : Yields x m Q := LeadsTo.of_ok hx h

theorem bind {f : α → Engine σ β} {P : β → Machine σ → Prop} (h : Yields x m fun a n => Yields (f a) n P) :
    Yields (x >>= f) m P := LeadsTo.bind h

theorem mono {P : α → Machine σ → Prop} (h : Yields x m P) (hPQ : ∀ a n, P a n → Q a n) : Yields x m Q :=
  LeadsTo.mono h hPQ

theorem and_ok (h : Yields x m Q) : Yields x m fun a n => x m = .ok a n ∧ Q a n := LeadsTo.and_ok h

theorem at_ok {a : α} (h : Yields x m Q) (hx : x m = .ok a n) : Q a n := by
  unfold Yields at h
  rwa [hx] at h

theorem andThen {f : α → Engine σ β} {P : β → Machine σ → Prop} (h : Yields x m Q)
    (hf : ∀ a n, Q a n → Yields (f a) n P) : Yields (x >>= f) m P :=
  bind (h.mono hf)

theorem lift {x : Except Fault α} {P : α → Prop} (h : Gives x P) (hP : ∀ a, P a → Q a m) :
    Yields (liftM x : Engine σ α) m Q := by
  cases x with
  | ok a => exact hP a h
  | error e => exact h

theorem record {e : LogEvent} {y : Engine σ α} (h : Yields y { m with log := m.log.push e } Q) :
    Yields (Engine.record e >>= fun _ => y) m Q := h

theorem of_observe {y : Engine σ α} {P : α → View σ → Prop} (h : Engine.observe x m = Engine.observe y n)
    (hy : Yields y n fun a k => P a k.view) : Yields x m fun a k => P a k.view := LeadsTo.of_observe h hy

/-! ### Code in a context of its own -/

theorem withScratch {capacity : Nat} {P : α → Machine σ → Prop}
    (h : Yields x { m with scratch := Scratch.new capacity } P)
    (hP : ∀ a n, P a n → Q a { Engine.closeScratch n with scratch := m.scratch }) :
    Yields (Engine.withScratch capacity x) m Q := LeadsTo.withScratch h hP

theorem native {P : α → Machine σ → Prop} (h : Yields x { m with scratch := Scratch.closed, log := #[] } P)
    (hP : ∀ a n, P a n → Q a { n with scratch := m.scratch, log := m.log ++ n.log }) :
    Yields (Engine.native x) m Q := LeadsTo.native h hP

theorem managed {P : α → Machine σ → Prop}
    (h : Yields x { m with frame := Frame.empty, scratch := Scratch.closed, log := #[] } P)
    (hP : ∀ a n, P a n → Q a { n with frame := m.frame, scratch := m.scratch, log := m.log ++ n.log }) :
    Yields (Engine.managed x) m Q := LeadsTo.managed h hP

end Yields

/-! ### Memory -/

namespace Yields

variable {s t : Segment} {kind : Primitive} {v : Value} {offset size alignment : Nat}

theorem getField {Q : Value → Machine σ → Prop} (hs : s.Valid m.memory)
    (hlength : offset + kind.byteSize ≤ s.length) (h : Q (m.memory.field kind (s.address.toNat + offset)) m) :
    Yields (Engine.getField s kind offset) m Q :=
  of_ok (Engine.getField_eq hs hlength) h

theorem setField {Q : Unit → Machine σ → Prop} (hs : s.Valid m.memory) (hv : v.primitive? = some kind)
    (hlength : offset + kind.byteSize ≤ s.length)
    (h : Q () { m with
      memory := m.memory.store (s.address.toNat + offset) kind.byteSize (Segment.fieldBits v) }) :
    Yields (Engine.setField s offset v) m Q :=
  of_ok (Engine.setField_eq hs hv hlength) h

theorem takeSegment {Q : Segment → Machine σ → Prop} (hs : s.isAlive m.memory = true)
    (hlength : size ≤ s.length) (h : Q { s with length := size } m) : Yields
    (Engine.takeSegment s size) m Q :=
  of_ok (Engine.takeSegment_eq hs hlength) h

theorem copySegment {Q : Unit → Machine σ → Prop} (hs : s.isAlive m.memory = true)
    (ht : t.isAlive m.memory = true) (hlength : t.length ≤ s.length)
    (h : Q () { m with memory := m.memory.copy s.address.toNat t.address.toNat t.length }) :
    Yields (Engine.copySegment s t) m Q :=
  of_ok (Engine.copySegment_eq hs ht hlength) h

theorem allocateScratch (hm : m.scratch.Sound m.memory) (hsize : size + 8 < wordLimit)
    (halignment : alignment ≤ 8) :
    Yields (Engine.allocateScratch size alignment) m fun t n =>
      n.frame = m.frame ∧ n.world = m.world ∧ m.scratch.Granted m.memory size t n.scratch n.memory := by
  have hserves := hm.serves [(size, alignment)] (by simpa using ⟨hsize, halignment⟩)
  refine mono (LeadsTo.allocateScratch hm hserves) ?_
  rintro t n ⟨hframe, hworld, hgranted, -⟩
  exact ⟨hframe, hworld, hgranted⟩

end Yields

end ForeignCall
