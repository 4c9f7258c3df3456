import ForeignCall.Proofs.Memory.Encoding
import ForeignCall.Proofs.Memory.Issues

/-!
# Segments as views of memory

Segments may overlap, so what an access does is said of addresses.

* `Span`: the bytes that an access asks for, `Span.Refused`: when it does not get them;
* `Access`: the accesses with their spans.  `Access.outcome`: an access faults if one of its spans is
  refused, which changes nothing, and succeeds otherwise;
* `Engine.copyOut`: a detached copy step by step, so that what a fault leaves behind can be seen
  (`Engine.toOwned_eq_copyOut`, `Engine.copyOut_outcome`, `Engine.copyOut_failed`);
* `Memory.ChangesOnly`: nothing but a span has changed, which no read of other bytes can see
  (`Memory.ChangesOnly.sameOutside`).  `Segment.set_changes`, `Segment.copyFrom_changes`: what writes do.
-/

namespace ForeignCall

variable {σ α : Type} {k n : Machine σ} {m m' : Memory} {s t : Segment} {kind : Primitive} {v : Value}
  {w : Word} {a offset size : Nat}

/-! ### Spans -/

/-- The bytes that an access asks for: `size` of them from an offset of a segment on. -/
structure Span where
  segment : Segment
  offset : Nat
  size : Nat

namespace Span

variable {r r' : Span}

/-- The address is that of one of the bytes. -/
def Holds (r : Span) (a : Nat) : Prop :=
  r.segment.address.toNat + r.offset ≤ a ∧ a < r.segment.address.toNat + r.offset + r.size

/-- No byte is in both, whatever their segments are. -/
def Apart (r r' : Span) : Prop := ∀ a, r.Holds a → ¬ r'.Holds a

/-- The segment is dead, or the bytes do not all lie in it. -/
def Refused (r : Span) (m : Memory) : Prop := r.segment.isAlive m = false ∨ r.segment.length < r.offset + r.size

theorem not_refused : ¬ r.Refused m ↔ r.segment.isAlive m = true ∧ r.offset + r.size ≤ r.segment.length := by
  unfold Refused
  rw [not_or, Bool.not_eq_false, Nat.not_lt]

theorem Refused.check (h : r.Refused m) : ∃ f, r.segment.check m r.offset r.size = .error f := by
  cases hcheck : r.segment.check m r.offset r.size with
  | ok _ => exact absurd h (not_refused.2 (Segment.check_eq_ok.1 hcheck))
  | error f => exact ⟨f, rfl⟩

end Span

/-! ### Accesses -/

namespace Engine

/-- All the bytes of a segment. -/
def readBytes (s : Segment) : Engine σ (List Byte) := do s.bytes (← get).memory

/-- A detached copy of a segment: memory is reserved for it before the segment is looked at. -/
def copyOut (s : Segment) : Engine σ Segment := do
  let copy ← allocateOwned s.length Segment.ownedAlignment
  copySegment copy s
  return copy

end Engine

/-- The accesses through segments, each with the bytes that it asks for. -/
inductive Access : {α : Type} → Engine σ α → List Span → Prop
  | get (s : Segment) (kind : Primitive) (offset : Nat) :
      Access (Engine.getField s kind offset) [⟨s, offset, kind.byteSize⟩]
  | set (s : Segment) (offset : Nat) {v : Value} {kind : Primitive} (hv : v.primitive? = some kind) :
      Access (Engine.setField s offset v) [⟨s, offset, kind.byteSize⟩]
  | take (s : Segment) (length : Nat) : Access (Engine.takeSegment s length) [⟨s, 0, length⟩]
  | bytes (s : Segment) : Access (Engine.readBytes s) [⟨s, 0, s.length⟩]
  | copy (target source : Segment) :
      Access (Engine.copySegment target source) [⟨source, 0, source.length⟩, ⟨target, 0, source.length⟩]

theorem Access.outcome_of_check {x : Engine σ α} {r : Span}
    (hrefused : ∀ f, r.segment.check k.memory r.offset r.size = .error f → x k = .error f k)
    (hallowed : r.segment.isAlive k.memory = true → r.offset + r.size ≤ r.segment.length →
      ∃ a n, x k = .ok a n) :
    ((∃ r' ∈ [r], r'.Refused k.memory) ∧ ∃ f, x k = .error f k) ∨
      (∀ r' ∈ [r], ¬ r'.Refused k.memory) ∧ ∃ a n, x k = .ok a n := by
  by_cases hr : r.Refused k.memory
  · obtain ⟨f, hf⟩ := hr.check
    exact .inl ⟨⟨r, List.mem_singleton_self r, hr⟩, f, hrefused f hf⟩
  · obtain ⟨halive, hlength⟩ := Span.not_refused.1 hr
    exact .inr ⟨by simpa using hr, hallowed halive hlength⟩

/-- **An access faults iff one of its spans is refused**, and then nothing has changed. -/
theorem Access.outcome {x : Engine σ α} {rs : List Span} (h : Access x rs)
    (hend : ∀ r ∈ rs, r.segment.address.toNat + r.segment.length ≤ wordLimit) (k : Machine σ) :
    ((∃ r ∈ rs, r.Refused k.memory) ∧ ∃ f, x k = .error f k) ∨
      (∀ r ∈ rs, ¬ r.Refused k.memory) ∧ ∃ a n, x k = .ok a n := by
  cases h with
  | get s kind offset =>
    refine outcome_of_check (fun f hf => ?_) fun halive hlength => ?_
    · unfold Engine.getField Segment.get
      rw [Engine.get_bind_apply, hf]
      rfl
    · exact ⟨_, _, Engine.getField_eq ⟨halive, hend _ (List.mem_singleton_self _)⟩ hlength⟩
  | set s offset hv =>
    refine outcome_of_check (fun f hf => ?_) fun halive hlength => ?_
    · unfold Engine.setField Segment.set
      rw [Engine.get_bind_apply, hv]
      dsimp only
      rw [hf]
      rfl
    · exact ⟨_, _, Engine.setField_eq ⟨halive, hend _ (List.mem_singleton_self _)⟩ hv hlength⟩
  | take s length =>
    refine outcome_of_check (fun f hf => ?_) fun halive hlength => ?_
    · unfold Engine.takeSegment Segment.take
      rw [Engine.get_bind_apply, hf]
      rfl
    · exact ⟨_, _, Engine.takeSegment_eq halive (by simpa using hlength)⟩
  | bytes s =>
    refine outcome_of_check (fun f hf => ?_) fun halive _ => ?_
    · unfold Engine.readBytes Segment.bytes
      rw [Engine.get_bind_apply, hf]
      rfl
    · refine ⟨k.memory.range s.address.toNat s.length, k, ?_⟩
      unfold Engine.readBytes
      rw [Engine.get_bind_apply, Segment.bytes_eq halive, Engine.lift_ok]
  | copy target source =>
    -- The source is checked before the target.
    by_cases hsource : Span.Refused ⟨source, 0, source.length⟩ k.memory
    · obtain ⟨f, hf⟩ := hsource.check
      refine .inl ⟨⟨_, List.mem_cons_self, hsource⟩, f, ?_⟩
      unfold Engine.copySegment Segment.copyFrom
      rw [Engine.get_bind_apply, hf]
      rfl
    · obtain ⟨halive, hlength⟩ := Span.not_refused.1 hsource
      by_cases htarget : Span.Refused ⟨target, 0, source.length⟩ k.memory
      · obtain ⟨f, hf⟩ := htarget.check
        refine .inl ⟨⟨_, List.mem_cons_of_mem _ (List.mem_singleton_self _), htarget⟩, f, ?_⟩
        unfold Engine.copySegment Segment.copyFrom
        rw [Engine.get_bind_apply, Segment.check_eq_ok.2 ⟨halive, hlength⟩, ok_bind, hf]
        rfl
      · obtain ⟨halive', hlength'⟩ := Span.not_refused.1 htarget
        exact .inr ⟨by simp [hsource, htarget], _, _,
          Engine.copySegment_eq halive' halive (by simpa using hlength')⟩

/-! ### Detached copies -/

namespace Engine

theorem copyOut_apply (s : Segment) (k : Machine σ) :
    copyOut s k = match Segment.allocate k.memory s.length Segment.ownedAlignment with
      | .error f => .error f k
      | .ok (copy, m) =>
        match copy.copyFrom m s with
        | .error f => .error f { k with memory := m }
        | .ok m' => .ok copy { k with memory := m' } := by
  unfold copyOut allocateOwned
  rw [bind_apply, get_bind_apply]
  cases Segment.allocate k.memory s.length Segment.ownedAlignment with
  | error f => rfl
  | ok r =>
    show (copySegment r.1 s >>= fun _ => pure r.1) { k with memory := r.2 } = _
    unfold copySegment
    rw [bind_apply, get_bind_apply]
    dsimp only
    cases r.1.copyFrom r.2 s <;> rfl

/-- **A detached copy is the result of the one step by step**, except that a fault forgets the memory that
was reserved. -/
theorem toOwned_eq_copyOut (s : Segment) (k : Machine σ) :
    toOwned s k = match copyOut s k with
      | .ok copy n => .ok copy n
      | .error f _ => .error f k := by
  rw [copyOut_apply]
  unfold toOwned Segment.toOwned
  rw [get_bind_apply]
  cases Segment.allocate k.memory s.length Segment.ownedAlignment with
  | error f => rfl
  | ok r =>
    dsimp only
    rw [ok_bind]
    cases r.1.copyFrom r.2 s <;> rfl

/-- **A detached copy faults iff the segment is dead**, if there is memory for it. -/
theorem copyOut_outcome {copy : Segment}
    (h : Segment.allocate k.memory s.length Segment.ownedAlignment = .ok (copy, m)) :
    (Span.Refused ⟨s, 0, s.length⟩ k.memory ∧ ∃ f n, copyOut s k = .error f n) ∨
      ¬ Span.Refused ⟨s, 0, s.length⟩ k.memory ∧ ∃ n, copyOut s k = .ok copy n := by
  obtain ⟨hscope, hlength, hreleased, -⟩ := Segment.of_allocate_eq_ok h
  have halive : s.isAlive m = s.isAlive k.memory := Segment.isAlive_congr hreleased s
  rw [copyOut_apply, h]
  dsimp only
  by_cases hr : Span.Refused ⟨s, 0, s.length⟩ k.memory
  · have hr' : Span.Refused ⟨s, 0, s.length⟩ m := by rwa [Span.Refused, halive]
    obtain ⟨f, hf⟩ := hr'.check
    refine .inl ⟨hr, f, { k with memory := m }, ?_⟩
    unfold Segment.copyFrom
    rw [hf]
    rfl
  · obtain ⟨hs, -⟩ := Span.not_refused.1 hr
    refine .inr ⟨hr, { k with memory := m.copy copy.address.toNat s.address.toNat s.length }, ?_⟩
    rw [Segment.copyFrom_eq (Segment.isAlive_of_owned hscope) (halive.trans hs) (Nat.le_of_eq hlength.symm)]

/-- A detached copy that faults has changed nothing that was reserved, and nothing where no allocation
reaches. -/
theorem copyOut_failed {f : Fault} (h : copyOut s k = .error f n) (ha : k.memory.Reserved a 1) :
    n.memory.bytes a = k.memory.bytes a := by
  rw [copyOut_apply] at h
  split at h
  · cases h
    rfl
  · next copy m hallocate =>
    obtain ⟨⟨base, m'⟩, hreserve, hallocate⟩ := ForeignCall.bind_eq_ok.1 hallocate
    cases hallocate
    split at h
    · cases h
      exact Memory.bytes_of_reserve hreserve ha
    · cases h

end Engine

/-! ### Changes -/

/-- Nothing but the bytes of a span has changed. -/
structure Memory.ChangesOnly (m : Memory) (r : Span) (m' : Memory) : Prop where
  bytes : ∀ a, ¬ r.Holds a → m'.bytes a = m.bytes a
  top : m'.top = m.top
  released : m'.released = m.released

/-- No read of bytes outside of a span sees a difference, through whichever segment it goes. -/
structure Memory.SameOutside (m : Memory) (r : Span) (m' : Memory) : Prop where
  get : ∀ s kind offset, Span.Apart ⟨s, offset, kind.byteSize⟩ r → s.get m' kind offset = s.get m kind offset
  bytes : ∀ s, Span.Apart ⟨s, 0, s.length⟩ r → s.bytes m' = s.bytes m
  take : ∀ (s : Segment) n, s.take m' n = s.take m n

theorem Segment.bytes_congr (hreleased : m'.released = m.released)
    (hbytes : ∀ i < s.length, m'.bytes (s.address.toNat + i) = m.bytes (s.address.toNat + i)) :
    s.bytes m' = s.bytes m := by
  have hrange : m'.range s.address.toNat s.length = m.range s.address.toNat s.length :=
    List.map_congr_left fun i hi => hbytes i (List.mem_range.1 hi)
  unfold bytes check
  rw [isAlive_congr hreleased, hrange]

namespace Memory.ChangesOnly

variable {r : Span}

theorem check (h : m.ChangesOnly r m') (s : Segment) : s.check m' = s.check m := by
  funext offset size
  unfold Segment.check
  rw [Segment.isAlive_congr h.released]

/-- **No field apart from the bytes that changed can tell the difference**, through whichever segment it is
read. -/
theorem get (h : m.ChangesOnly r m') (hapart : Span.Apart ⟨s, offset, kind.byteSize⟩ r) :
    s.get m' kind offset = s.get m kind offset := by
  unfold Segment.get
  rw [h.check]
  cases s.check m offset kind.byteSize with
  | error f => rfl
  | ok _ =>
    cases hposition : s.position offset with
    | error f => rfl
    | ok b =>
      obtain ⟨-, rfl⟩ := Segment.position_eq_ok.1 hposition
      refine congrArg Except.ok (field_congr fun i hi => h.bytes _ (hapart _ ⟨?_, ?_⟩))
      · exact Nat.le_add_right _ _
      · exact Nat.add_lt_add_left hi _

theorem segment_bytes (h : m.ChangesOnly r m') (hapart : Span.Apart ⟨s, 0, s.length⟩ r) :
    s.bytes m' = s.bytes m := by
  refine Segment.bytes_congr h.released fun i hi => h.bytes _ (hapart _ ⟨Nat.le_add_right _ _, ?_⟩)
  dsimp only
  omega

theorem sameOutside (h : m.ChangesOnly r m') : m.SameOutside r m' := by
  refine ⟨fun _ _ _ => h.get, fun _ => h.segment_bytes, fun s n => ?_⟩
  unfold Segment.take
  rw [h.check]

end Memory.ChangesOnly

namespace Segment

/-- **A scalar that is stored changes the bytes of its field alone**, and is read back. -/
theorem set_changes (h : s.set m offset v = .ok m') :
    ∃ kind, v.primitive? = some kind ∧ m.ChangesOnly ⟨s, offset, kind.byteSize⟩ m' ∧
      s.get m' kind offset = .ok v := by
  obtain ⟨kind, hkind, ⟨halive, hlimit⟩, hlength, rfl⟩ := of_set_eq_ok h
  refine ⟨kind, hkind, ⟨fun a ha => if_neg ha, rfl, rfl⟩, ?_⟩
  have halive' : s.isAlive (m.store (s.address.toNat + offset) kind.byteSize (fieldBits v)) = true := halive
  rw [get, check_eq_ok.2 ⟨halive', hlength⟩, ok_bind, position_eq hlimit, ok_bind, Memory.field_store hkind]
  rfl

/-- **A copy fills the start of the segment with what the other one held**, also if they overlap, and
changes nothing else. -/
theorem copyFrom_changes (h : s.copyFrom m t = .ok m') :
    m.ChangesOnly ⟨s, 0, t.length⟩ m' ∧ ∃ p, s.take m' t.length = .ok p ∧ p.bytes m' = t.bytes m := by
  obtain ⟨⟨hs, ht⟩, hlength, rfl⟩ := of_copyFrom_eq_ok h
  refine ⟨⟨fun a ha => if_neg ha, rfl, rfl⟩, _, take_eq hs hlength, ?_⟩
  rw [bytes_eq ht, bytes_eq (s := { s with length := t.length }) (m := m.copy _ _ _) hs]
  refine congrArg Except.ok (List.map_congr_left fun i hi => ?_)
  have hlt : i < t.length := List.mem_range.1 hi
  dsimp only
  rw [Memory.bytes_copy, if_pos (by omega), Nat.add_sub_cancel_left]

end Segment

end ForeignCall
