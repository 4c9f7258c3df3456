import ForeignCall.Proofs.Engine.Running
import ForeignCall.Proofs.Frame
import ForeignCall.Proofs.Memory.Segment

/-!
# Accesses that succeed

One equation for each access of the engine to memory and to the frame.  Within the bounds of a segment, and
to a storage of the frame, an access does what its name says and nothing else.
-/

namespace ForeignCall.Engine

variable {σ : Type} {m : Machine σ} {s t : Segment} {storage : Storage} {kind : Primitive} {v : Value}
  {w : Word} {offset size : Nat}

/-! ### Memory -/

theorem getField_eq (hs : s.Valid m.memory) (hlength : offset + kind.byteSize ≤ s.length) :
    getField s kind offset m = .ok (m.memory.field kind (s.address.toNat + offset)) m := by
  unfold getField
  rw [get_bind_apply, Segment.get_eq hs hlength, lift_ok]

theorem setField_eq (hs : s.Valid m.memory) (hv : v.primitive? = some kind)
    (hlength : offset + kind.byteSize ≤ s.length) :
    setField s offset v m =
      .ok () { m with
        memory := m.memory.store (s.address.toNat + offset) kind.byteSize (Segment.fieldBits v) } := by
  unfold setField
  rw [get_bind_apply, Segment.set_eq hs hv hlength]
  rfl

theorem of_setField_eq_ok {n : Machine σ} (h : setField s offset v m = .ok () n) :
    ∃ kind, v.primitive? = some kind ∧ offset + kind.byteSize ≤ s.length := by
  unfold setField at h
  rw [get_bind_apply] at h
  obtain ⟨memory, _, hset, -⟩ := bind_eq_ok.1 h
  obtain ⟨kind, hkind, -, hlength, -⟩ := Segment.of_set_eq_ok (lift_eq_ok.1 hset).1
  exact ⟨kind, hkind, hlength⟩

theorem takeSegment_eq (hs : s.isAlive m.memory = true) (hlength : size ≤ s.length) :
    takeSegment s size m = .ok { s with length := size } m := by
  unfold takeSegment
  rw [get_bind_apply, Segment.take_eq hs hlength, lift_ok]

theorem copySegment_eq (hs : s.isAlive m.memory = true) (ht : t.isAlive m.memory = true)
    (hlength : t.length ≤ s.length) :
    copySegment s t m = .ok () { m with memory := m.memory.copy s.address.toNat t.address.toNat t.length } := by
  unfold copySegment
  rw [get_bind_apply, Segment.copyFrom_eq hs ht hlength]
  rfl

/-! ### Frames -/

theorem readStorage_eq (hs : m.frame.layout.Has storage) :
    readStorage storage m = .ok (m.frame.wordAt storage) m := by
  unfold readStorage
  rw [get_bind_apply, Frame.read_eq hs, lift_ok]

theorem writeStorage_eq (ho : m.frame.layout.offset? storage = some offset)
    (hlt : offset / wordSize < m.frame.layout.wordCount) :
    writeStorage storage w m = .ok () { m with frame := m.frame.setWord offset w } := by
  have hword : offset / wordSize < m.frame.words.size := by rwa [m.frame.size_words]
  have hoffset : m.frame.layout.offset storage = .ok offset := by
    unfold FrameLayout.offset
    rw [ho]
  have hcheck : m.frame.checkWord offset = .ok () := if_pos hword
  unfold writeStorage writeWord
  rw [get_bind_apply, hoffset, bind_apply, lift_ok]
  dsimp only
  rw [get_bind_apply, hcheck]
  rfl

theorem of_writeStorage_eq_ok {n : Machine σ} (h : writeStorage storage w m = .ok () n) :
    ∃ o, m.frame.layout.offset? storage = some o ∧ n = { m with frame := m.frame.setWord o w } ∧
      n.frame.wordAt storage = w := by
  unfold writeStorage at h
  rw [get_bind_apply] at h
  obtain ⟨o, _, hrun, h⟩ := bind_eq_ok.1 h
  obtain ⟨hoffset, rfl⟩ := lift_eq_ok.1 hrun
  unfold writeWord at h
  rw [get_bind_apply] at h
  obtain ⟨⟨⟩, _, hcheck, h⟩ := bind_eq_ok.1 h
  obtain ⟨hcheck, rfl⟩ := lift_eq_ok.1 hcheck
  cases h
  have ho := FrameLayout.of_offset_eq_ok hoffset
  have hlt : o / wordSize < m.frame.words.size := by
    by_contra hge
    unfold Frame.checkWord at hcheck
    rw [if_neg hge] at hcheck
    cases hcheck
  exact ⟨o, ho, rfl, Frame.wordAt_setWord ho (m.frame.size_words ▸ hlt)⟩

end ForeignCall.Engine
