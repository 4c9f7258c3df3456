import ForeignCall.Proofs.Transport.Unboxing

/-!
# Boxing through a placement

`Placement.box_yields`: the program of a placement rebuilds the value that its storages hold, and writes
nothing but new scratch memory.  `putTogether_yields` is the induction over the pieces of an aggregate: each
piece fills its bytes, and the pieces together leave no gap.
-/

namespace ForeignCall

variable {σ : Type} {m : Machine σ} {s : Storage} {kind : Primitive} {v : Value} {t : Segment}
  {offset size alignment : Nat} {p : Program} {stack : List Value} {Q : List Value → Machine σ → Prop}

theorem LeadsTo.box {F : Fault → Prop} {Q : Value → Machine σ → Prop}
    (h : LeadsTo F (Interpreter.run .boxStep Interpreter.boxStep p []) m fun stack n =>
      ∃ v, stack = [v] ∧ Q v n) :
    LeadsTo F (Engine.box p) m Q := by
  refine andThen h ?_
  rintro _ n ⟨v, rfl, hQ⟩
  exact hQ

namespace Yields

/-! ### Single steps -/

theorem readStorage {Q : Word → Machine σ → Prop} (hs : m.frame.layout.Has s) (h : Q (m.frame.wordAt s) m) :
    Yields (Engine.readStorage s) m Q := of_ok (Engine.readStorage_eq hs) h

theorem boxMove (hs : m.frame.layout.Has s)
    (h : ∀ log, Yields (Interpreter.run .boxStep Interpreter.boxStep p
      (kind.decode (m.frame.wordAt s) :: stack))
      { m with log := log } Q) :
    Yields (Interpreter.run .boxStep Interpreter.boxStep (.move s kind :: p) stack) m Q :=
  run_cons (bind (readStorage hs (pure (h _))))

theorem boxField (ht : t.Valid m.memory) (hv : v.primitive? = some kind)
    (hlength : offset + kind.byteSize ≤ t.length)
    (h : ∀ log, Yields (Interpreter.run .boxStep Interpreter.boxStep p (.segment t :: stack))
      { m with
        memory := m.memory.store (t.address.toNat + offset) kind.byteSize (Segment.fieldBits v), log := log }
      Q) :
    Yields (Interpreter.run .boxStep Interpreter.boxStep (.field offset kind :: p)
      (v :: .segment t :: stack)) m Q :=
  run_cons (bind (of_ok (Engine.lift_ok _ _) (bind (of_ok (Engine.lift_ok _ _)
    (bind (setField ht hv hlength (pure (h _))))))))

theorem boxAddress {a : Word}
    (h : ∀ log, Yields (Interpreter.run .boxStep Interpreter.boxStep p (.address a :: stack))
      { m with log := log } Q) :
    Yields (Interpreter.run .boxStep Interpreter.boxStep (.boxAddress :: p) (.i64 a :: stack)) m Q :=
  run_cons (bind (of_ok (Engine.lift_ok _ _) (pure (h _))))

theorem boxAllocate (hm : m.Ready) (hsize : size + 8 < wordLimit) (halignment : alignment ≤ 8)
    (h : ∀ n t, n.frame = m.frame → n.world = m.world → m.scratch.Granted m.memory size t n.scratch n.memory →
      Yields (Interpreter.run .boxStep Interpreter.boxStep p (.segment t :: stack)) n Q) :
    Yields (Interpreter.run .boxStep Interpreter.boxStep (.allocate size alignment :: p) stack) m Q := by
  refine run_cons (andThen (allocateScratch hm hsize halignment) ?_)
  rintro t n ⟨hframe, hworld, hgranted⟩
  exact pure (h n t hframe hworld hgranted)

theorem boxCopy {a : Word} (hm : m.Ready) (hsize : size + 8 < wordLimit) (halignment : alignment ≤ 8)
    (hsettled : m.Settled a.toNat size)
    (h : ∀ n t, Marshals m n → n.frame = m.frame → t.length = size → t.isAlive n.memory = true →
      n.Settled t.address.toNat size →
      (∀ i < size, n.memory.bytes (t.address.toNat + i) = m.memory.bytes (a.toNat + i)) →
      Yields (Interpreter.run .boxStep Interpreter.boxStep p (.segment t :: stack)) n Q) :
    Yields (Interpreter.run .boxStep Interpreter.boxStep (.copy size alignment :: p)
      (.address a :: stack)) m Q := by
  refine run_cons (bind (of_ok (Engine.lift_ok _ _) (andThen (allocateScratch hm hsize halignment) ?_)))
  rintro t n ⟨hframe, hworld, hgranted⟩
  refine bind (copyToScratch (m := m) hgranted hframe hworld rfl rfl hsettled ?_)
  exact fun k hk hframe halive hsettled _ hbytes =>
    pure (h k t hk hframe hgranted.length halive hsettled hbytes)

theorem box {Q : Value → Machine σ → Prop}
    (h : Yields (Interpreter.run .boxStep Interpreter.boxStep p []) m fun stack n => ∃ v, stack = [v] ∧ Q v n) :
    Yields (Engine.box p) m Q := LeadsTo.box h

end Yields

theorem LeadsTo.boxPointer {F : Fault → Prop} {Q : Value → Machine σ → Prop} (hs : m.frame.layout.Has s)
    (h : ∀ log, Q (.address (m.frame.wordAt s)) { m with log := log }) :
    LeadsTo F (Engine.box (scalarProgram .address s false)) m Q := by
  refine .bind (.record (.bind (.bind (.of_ok (Engine.readStorage_eq hs) (.pure (.record (.bind ?_)))))))
  exact .bind (.of_ok (Engine.lift_ok _ _) (.pure (h _)))

theorem Yields.boxPointer {Q : Value → Machine σ → Prop} (hs : m.frame.layout.Has s)
    (h : ∀ log, Q (.address (m.frame.wordAt s)) { m with log := log }) :
    Yields (Engine.box (scalarProgram .address s false)) m Q := LeadsTo.boxPointer hs h

/-! ### Programs of placements -/

/-- Putting pieces together gives the bytes that they cover to the segment, and changes no others. -/
theorem putTogether_yields {ps : List Piece} {m₀ : Memory} {a : Nat} (ht : t.Valid m.memory)
    (hle : ∀ p ∈ ps, p.offset + p.kind.byteSize ≤ t.length) (hne : ∀ p ∈ ps, p.kind ≠ .bool)
    (hhas : ∀ p ∈ ps, m.frame.layout.Has p.storage)
    (hwords : ∀ p ∈ ps, p.kind.decode (m.frame.wordAt p.storage) = m₀.field p.kind (a + p.offset)) :
    Yields (Interpreter.run .boxStep Interpreter.boxStep (putTogether ps) [.segment t]) m fun stack n =>
      stack = [.segment t] ∧ Fills t m n ∧
        (∀ i, (∃ p ∈ ps, p.Covers i) → n.memory.bytes (t.address.toNat + i) = m₀.bytes (a + i)) ∧
        ∀ i, (∀ p ∈ ps, ¬ p.Covers i) →
          n.memory.bytes (t.address.toNat + i) = m.memory.bytes (t.address.toNat + i) := by
  induction ps generalizing m with
  | nil => exact .pure ⟨rfl, .refl t m, by simp, fun _ _ => rfl⟩
  | cons p ps ih =>
    have hp := hle p (by simp)
    refine .boxMove (hhas p (by simp)) fun _ => ?_
    rw [hwords p (by simp)]
    refine .boxField ht Memory.primitive?_field hp fun log => ?_
    rw [Memory.fieldBits_field (hne p (by simp))]
    have hfills := Fills.store (m := m) hp (m₀.load (a + p.offset) p.kind.byteSize) log
    have hn : ∀ i, p.Covers i → (m.memory.store (t.address.toNat + p.offset) p.kind.byteSize
        (m₀.load (a + p.offset) p.kind.byteSize)).bytes (t.address.toNat + i) = m₀.bytes (a + i) := by
      rintro i ⟨hle, hlt⟩
      have hi : (m.memory.store (t.address.toNat + p.offset) p.kind.byteSize
          (m₀.load (a + p.offset) p.kind.byteSize)).bytes (t.address.toNat + p.offset + (i - p.offset))
          = m₀.bytes (a + p.offset + (i - p.offset)) := Memory.bytes_store_load (by omega)
      rwa [show t.address.toNat + p.offset + (i - p.offset) = t.address.toNat + i by omega,
        show a + p.offset + (i - p.offset) = a + i by omega] at hi
    refine (ih (hfills.valid ht) (fun q hq => hle q (by simp [hq]))
      (fun q hq => hne q (by simp [hq])) (fun q hq => hhas q (by simp [hq]))
      (fun q hq => hwords q (by simp [hq]))).mono ?_
    rintro stack k ⟨rfl, hk, hcovered, hkept⟩
    refine ⟨rfl, hfills.trans hk, fun i hi => ?_, fun i hi => ?_⟩
    · -- A later piece may cover the byte too, and then it writes what is there.
      by_cases hrest : ∃ q ∈ ps, q.Covers i
      · exact hcovered i hrest
      · rw [hkept i fun q hq hqi => hrest ⟨q, hq, hqi⟩]
        obtain ⟨q, hq, hqi⟩ := hi
        rcases List.mem_cons.1 hq with rfl | hq
        · exact hn i hqi
        · exact absurd ⟨q, hq, hqi⟩ hrest
    · have hpi := hi p (by simp)
      rw [hkept i fun q hq => hi q (by simp [hq])]
      dsimp only
      rw [Memory.bytes_store, if_neg]
      rintro ⟨hle, hlt⟩
      exact hpi ⟨by omega, by omega⟩

variable {l : Layout} {placement : Placement} {m₀ : Memory}

/-- **Boxing gives back the value that the storages of a placement hold.** -/
theorem Placement.box_yields (hp : placement.program l false = .ok p) (hcarries : placement.Carries l)
    (hhas : ∀ s ∈ placement.storages, m.frame.layout.Has s) (halignment : l.alignment ≤ 8)
    (hsize : ∀ size, l.byteSize = .ok size → size + 8 < wordLimit) (hm : m.Ready)
    (hv : placement.Holds l v m₀ m) :
    Yields (Engine.box p) m fun v' n => Marshals m n ∧ n.frame = m.frame ∧ v.IsCopy l v' m₀ n := by
  cases placement with
  | whole s =>
    have hs := hhas s (by simp [storages])
    cases hp
    cases l with
    | value kind =>
      rw [show v = kind.decode (m.frame.wordAt s) from hv.symm]
      refine .box (.boxMove hs fun log => .pure ⟨_, rfl, .withLog hm log, rfl, Value.isCopy_self ?_ _ _⟩)
      exact fun segment heq => by cases heq ▸ kind.primitive?_decode (m.frame.wordAt s)
    | address =>
      rw [show v = .address (m.frame.wordAt s) from hv.symm]
      exact .box (.boxMove hs fun _ => .boxAddress fun log => .pure ⟨_, rfl, .withLog hm log, rfl, rfl⟩)
    | _ => cases hcarries
  | pieces ps =>
    obtain ⟨haggregate, size, hbyteSize, -, htiles⟩ := hcarries
    obtain ⟨s, rfl, hwords⟩ := hv
    obtain ⟨allocate, hallocate, hp⟩ := bind_eq_ok.1 hp
    cases hp
    obtain ⟨size', hsize', rfl⟩ := Step.allocateFor_eq_ok hallocate
    obtain rfl : size = size' := ok_unique hbyteSize hsize'
    refine .box (.boxAllocate hm (hsize size hbyteSize) halignment fun n t hframe hworld hgranted => ?_)
    have hlength := hgranted.length
    rw [← hframe] at hwords hhas
    refine (putTogether_yields hgranted.valid (fun p hp => hlength ▸ htiles.end_le p hp) htiles.kind_ne
      (fun p hp => hhas p.storage (List.mem_map_of_mem hp)) hwords).mono ?_
    rintro stack k ⟨rfl, hfills, hcovered, -⟩
    refine ⟨_, rfl, hfills.marshals hworld hgranted, hfills.frame.trans hframe, t, size, rfl,
      hbyteSize, hlength, (hfills.isAlive t).trans hgranted.alive, hfills.settled hgranted,
        fun i hi => hcovered i (htiles.cover i hi)⟩
  | reference r =>
    obtain ⟨s, size, rfl, hbyteSize, hsettled, -, hbytes⟩ := hv
    obtain ⟨copy, hcopy, hp⟩ := bind_eq_ok.1 hp
    cases hp
    obtain ⟨size', hsize', rfl⟩ := Step.copyOf_eq_ok hcopy
    obtain rfl : size = size' := ok_unique hbyteSize hsize'
    refine .box (.boxMove (hhas r (by simp [storages])) fun _ => .boxAddress fun _ => ?_)
    refine .boxCopy hm (hsize size hbyteSize) halignment hsettled
      fun n t hn hframe hlength halive hsettled hcopied => ?_
    refine .pure ⟨_, rfl, ⟨hn.world, hn.evolves, hn.bytes⟩, hframe, t, size, rfl, hbyteSize, hlength,
      halive, hsettled, ?_⟩
    exact fun i hi => (hcopied i hi).trans (hbytes i hi)

end ForeignCall
