import ForeignCall.Proofs.Transport.Marshalling
import ForeignCall.Proofs.Verified.Shapes

/-!
# Unboxing through a placement

`Placement.unbox_yields`: the program of a placement moves a value into its storages, where the value is
then held, and writes nothing else.  Only an aggregate that travels by reference needs scratch memory
(`Placement.unbox_writes`).  The rules for single steps come first, in the order of a program;
`takeApart_yields` is the induction over the pieces of an aggregate.
-/

namespace ForeignCall

variable {σ : Type} {m : Machine σ} {s : Storage} {w : Word} {kind : Primitive} {v : Value} {segment : Segment}
  {offset size alignment : Nat} {p : Program} {stack : List Value} {event : Step → LogEvent}
  {effect : Step → List Value → Engine σ (List Value)} {Q : List Value → Machine σ → Prop}

theorem LeadsTo.unbox {F : Fault → Prop} {Q : Unit → Machine σ → Prop}
    (h : LeadsTo F (Interpreter.run .unboxStep Interpreter.unboxStep p [v]) m fun stack n =>
      stack = [] ∧ Q () n) :
    LeadsTo F (Engine.unbox v p) m Q := by
  refine andThen h ?_
  rintro _ n ⟨rfl, hQ⟩
  exact hQ

namespace Yields

theorem writeStorage {Q : Unit → Machine σ → Prop} (hs : m.frame.layout.Has s)
    (h : ∀ n, Writes [s] m n → n.frame.wordAt s = w → Q () n) : Yields (Engine.writeStorage s w) m Q := by
  obtain ⟨o, ho, hlt⟩ := hs
  exact of_ok (Engine.writeStorage_eq ho hlt) (h _ (.setWord ho) (Frame.wordAt_setWord ho hlt))

/-! ### Single steps -/

theorem run_cons {step : Step}
    (h : Yields (effect step stack) { m with log := m.log.push (event step) } fun next n =>
      Yields (Interpreter.run event effect p next) n Q) :
    Yields (Interpreter.run event effect (step :: p) stack) m Q := record (bind h)

theorem unboxMove (hs : m.frame.layout.Has s) (hv : v.primitive? = some kind)
    (h : ∀ n, Writes [s] m n → kind.decode (n.frame.wordAt s) = v →
      Yields (Interpreter.run .unboxStep Interpreter.unboxStep p stack) n Q) :
    Yields (Interpreter.run .unboxStep Interpreter.unboxStep (.move s kind :: p) (v :: stack)) m Q := by
  obtain ⟨w, hw⟩ := Primitive.exists_encode hv
  have hbits : Interpreter.popSlotBits (.move s kind) kind (v :: stack) = .ok (w, stack) :=
    Interpreter.popSlotBits_eq_ok.2 ⟨v, rfl, hv, hw⟩
  refine run_cons ?_
  simp only [Interpreter.unboxStep, hbits]
  refine bind (of_ok (Engine.lift_ok _ _) (bind (writeStorage hs fun n hn hword => pure ?_)))
  exact h n (.record _ hn) (hword ▸ Primitive.decode_encode hw)

theorem unboxField (hs : segment.Valid m.memory) (hlength : offset + kind.byteSize ≤ segment.length)
    (h : ∀ n, Writes [] m n →
      Yields (Interpreter.run .unboxStep Interpreter.unboxStep p
        (m.memory.field kind (segment.address.toNat + offset) :: stack)) n Q) :
    Yields (Interpreter.run .unboxStep Interpreter.unboxStep (.field offset kind :: p)
      (.segment segment :: stack)) m Q :=
  run_cons (bind (of_ok (Engine.lift_ok _ _) (bind (getField hs hlength (pure (h _ (.record _ (.refl _))))))))

theorem unboxDup
    (h : ∀ n, Writes [] m n →
      Yields (Interpreter.run .unboxStep Interpreter.unboxStep p (v :: v :: stack)) n Q) :
    Yields (Interpreter.run .unboxStep Interpreter.unboxStep (.dup :: p) (v :: stack)) m Q :=
  run_cons (of_ok (Engine.lift_ok _ _) (h _ (.record _ (.refl _))))

theorem unboxAddress {a : Word}
    (h : ∀ n, Writes [] m n →
      Yields (Interpreter.run .unboxStep Interpreter.unboxStep p (.i64 a :: stack)) n Q) :
    Yields (Interpreter.run .unboxStep Interpreter.unboxStep (.boxAddress :: p) (.address a :: stack)) m Q :=
  run_cons (bind (of_ok (Engine.lift_ok _ _) (pure (h _ (.record _ (.refl _))))))

theorem unboxBase
    (h : ∀ n, Writes [] m n →
      Yields (Interpreter.run .unboxStep Interpreter.unboxStep p (.address segment.address :: stack)) n Q) :
    Yields (Interpreter.run .unboxStep Interpreter.unboxStep (.baseAddress :: p)
      (.segment segment :: stack)) m Q :=
  run_cons (bind (of_ok (Engine.lift_ok _ _) (pure (h _ (.record _ (.refl _))))))

theorem copyToScratch {Q : Unit → Machine σ → Prop} {t : Segment} {n : Machine σ}
    (hgranted : m.scratch.Granted m.memory size t n.scratch n.memory) (hframe : n.frame = m.frame)
    (hworld : n.world = m.world) (halive : segment.isAlive n.memory = true) (hlength : segment.length = size)
    (hsettled : m.Settled segment.address.toNat size)
    (h : ∀ k, Marshals m k → k.frame = m.frame → t.isAlive k.memory = true → k.Settled t.address.toNat size →
      k.memory.Reserved t.address.toNat size →
      (∀ i < size, k.memory.bytes (t.address.toNat + i) = m.memory.bytes (segment.address.toNat + i)) →
      Q () k) :
    Yields (Engine.copySegment t segment) n Q := by
  refine copySegment hgranted.alive halive (Nat.le_of_eq (hlength.trans hgranted.length.symm)) ?_
  have hfits : segment.length ≤ t.length := by rw [hlength, hgranted.length]
  have hfills := Fills.copy (m := n) segment.address.toNat hfits
  refine h _ (hfills.marshals hworld hgranted) hframe hgranted.alive (hfills.settled hgranted) ?_ fun i hi => ?_
  · have := hgranted.end_lt_top
    exact .inl (by dsimp only [Memory.copy]; omega)
  · dsimp only
    rw [Memory.bytes_copy, hlength, if_pos (by omega), show t.address.toNat + i - t.address.toNat = i by omega,
      hgranted.bytes _ (hsettled i hi)]

theorem unboxCopy (hm : m.Ready) (hs : segment.Live m) (hlength : size ≤ segment.length)
    (halignment : alignment ≤ 8) (h : ∀ n t, Marshals m n → n.frame = m.frame → n.Settled t.address.toNat size →
      n.memory.Reserved t.address.toNat size →
      (∀ i < size, n.memory.bytes (t.address.toNat + i) = m.memory.bytes (segment.address.toNat + i)) →
      Yields (Interpreter.run .unboxStep Interpreter.unboxStep p (.segment t :: stack)) n Q) :
    Yields (Interpreter.run .unboxStep Interpreter.unboxStep (.copy size alignment :: p)
      (.segment segment :: stack)) m Q := by
  have hlt := hs.length_lt hm
  refine run_cons (bind (of_ok (Engine.lift_ok _ _) ?_))
  refine andThen (allocateScratch hm (by omega) halignment) ?_
  rintro t n ⟨hframe, hworld, hgranted⟩
  have halive : segment.isAlive n.memory = true :=
    (Segment.isAlive_congr hgranted.evolves.released segment).trans hs.valid.alive
  refine bind (takeSegment halive hlength (bind ?_))
  refine copyToScratch (m := m) hgranted hframe hworld halive rfl (fun i hi => hs.settled i (by omega)) ?_
  exact fun k hk hframe _ hsettled hreserved hbytes => pure (h k t hk hframe hsettled hreserved hbytes)

theorem unbox {Q : Unit → Machine σ → Prop}
    (h : Yields (Interpreter.run .unboxStep Interpreter.unboxStep p [v]) m fun stack n => stack = [] ∧ Q () n) :
    Yields (Engine.unbox v p) m Q := LeadsTo.unbox h

theorem unboxPointer {Q : Unit → Machine σ → Prop} {a : Word} (hs : m.frame.layout.Has s)
    (h : ∀ n, Writes [s] m n → n.frame.wordAt s = a → Q () n) :
    Yields (Engine.unbox (.address a) (scalarProgram .address s true)) m Q := by
  refine unbox (unboxAddress fun n₁ h₁ => unboxMove (h₁.layout ▸ hs) rfl fun n hn hword => pure ⟨rfl, ?_⟩)
  exact h n (h₁.trans hn) (Value.i64.inj hword)

end Yields

/-! ### Programs of placements -/

/-- Taking an aggregate apart puts each piece into its storage. -/
theorem takeApart_yields {ps : List Piece} (hne : ps ≠ []) (hs : segment.Valid m.memory)
    (hle : ∀ p ∈ ps, p.offset + p.kind.byteSize ≤ segment.length)
    (hhas : ∀ p ∈ ps, m.frame.layout.Has p.storage)
    (hapart : (ps.map Piece.storage).Pairwise m.frame.layout.Apart) :
    Yields (Interpreter.run .unboxStep Interpreter.unboxStep (takeApart ps) [.segment segment]) m fun stack n =>
      stack = [] ∧ Writes (ps.map Piece.storage) m n ∧
        ∀ p ∈ ps, p.kind.decode (n.frame.wordAt p.storage)
          = m.memory.field p.kind (segment.address.toNat + p.offset) := by
  induction ps generalizing m with
  | nil => exact absurd rfl hne
  | cons p ps ih =>
    have hp := hle p (by simp)
    have hhasp := hhas p (by simp)
    rw [List.map_cons, List.pairwise_cons] at hapart
    cases ps with
    | nil =>
      refine .unboxField hs hp fun n hn => .unboxMove (hn.layout ▸ hhasp) Memory.primitive?_field
        fun k hk hword => ?_
      refine .pure ⟨rfl, hn.trans hk, fun q hq => ?_⟩
      rw [List.mem_singleton.1 hq]
      exact hword
    | cons q rest =>
      -- A piece that is not the last works on a second reference, so the segment stays for the rest.
      refine .unboxDup fun n₁ h₁ => .unboxField (h₁.memory ▸ hs) hp fun n₂ h₂ => ?_
      have h₁₂ := h₁.trans h₂
      refine .unboxMove (h₁₂.layout ▸ hhasp) Memory.primitive?_field fun n hn hword => ?_
      have hwrites := h₁₂.trans hn
      rw [← hwrites.layout] at hapart
      refine (ih (by simp) (hwrites.memory ▸ hs) (fun r hr => hle r (by simp [hr]))
        (fun r hr => hwrites.layout ▸ hhas r (by simp [hr])) hapart.2).mono ?_
      rintro stack k ⟨rfl, hk, hwords⟩
      refine ⟨rfl, hwrites.trans hk, fun r hr => ?_⟩
      rcases List.mem_cons.1 hr with rfl | hr
      · rw [hk.words r.storage fun s hs => (hapart.1 s hs).symm, hword, h₁.memory]
      · rw [hwords r hr, hwrites.memory]

variable {l : Layout} {placement : Placement}

/-- Unboxing a value into storages of its own writes them and nothing else. -/
theorem Placement.unbox_writes (hp : placement.program l true = .ok p) (hcarries : placement.Carries l)
    (hss : m.frame.layout.Separates placement.storages) (hne : ∀ s, placement ≠ .reference s) (hv : v.Fits l)
    (hvalid : ∀ segment, v = .segment segment → segment.Valid m.memory) :
    Yields (Engine.unbox v p) m fun _ n => Writes placement.storages m n ∧ placement.Holds l v m.memory n := by
  cases placement with
  | whole s =>
    have hs := hss.has s (by simp [storages])
    cases hp
    cases l with
    | value kind =>
      have hkind : v.primitive? = some kind := Value.carrier?_eq_primitive.1 hv.carrier
      exact .unbox (.unboxMove hs hkind fun n hn hword => .pure ⟨rfl, hn, hword⟩)
    | address =>
      obtain ⟨a, rfl⟩ := Value.carrier?_eq_address.1 hv.carrier
      refine .unbox (.unboxAddress fun n₁ h₁ => .unboxMove (h₁.layout ▸ hs) rfl fun n hn hword => ?_)
      exact .pure ⟨rfl, h₁.trans hn, congrArg Value.address (Value.i64.inj hword)⟩
    | _ => cases hcarries
  | pieces ps =>
    obtain ⟨haggregate, size, hsize, hpos, htiles⟩ := hcarries
    obtain ⟨segment, size', rfl, hsize', hle⟩ := hv.segment haggregate
    obtain rfl : size = size' := ok_unique hsize hsize'
    cases hp
    have hne : ps ≠ [] := by
      obtain ⟨p, hp, -⟩ := htiles.cover 0 hpos
      exact List.ne_nil_of_mem hp
    refine .unbox ((takeApart_yields hne (hvalid segment rfl)
      (fun p hp => Nat.le_trans (htiles.end_le p hp) hle)
      (fun p hp => hss.has p.storage (List.mem_map_of_mem hp)) hss.apart).mono ?_)
    rintro stack n ⟨rfl, hn, hwords⟩
    exact ⟨rfl, hn, segment, rfl, hwords⟩
  | reference r => exact absurd rfl (hne r)

/-- **Unboxing a value moves it into the storages of its placement, where it is held.** -/
theorem Placement.unbox_yields (hp : placement.program l true = .ok p) (hcarries : placement.Carries l)
    (hss : m.frame.layout.Separates placement.storages) (halignment : l.alignment ≤ 8) (hm : m.Ready)
    (hv : v.Fits l) (hlive : ∀ segment, v = .segment segment → segment.Live m) :
    Yields (Engine.unbox v p) m fun _ n => MovesInto placement.storages m n ∧
      placement.Holds l v m.memory n := by
  have hown (hne : ∀ s, placement ≠ .reference s) :
      Yields (Engine.unbox v p) m fun _ n => MovesInto placement.storages m n ∧
        placement.Holds l v m.memory n :=
    (placement.unbox_writes hp hcarries hss hne hv fun s hs => (hlive s hs).valid).mono
      fun _ n h => ⟨h.1.movesInto hm, h.2⟩
  cases placement with
  | whole s => exact hown (by simp)
  | pieces ps => exact hown (by simp)
  | reference r =>
    have hr := hss.has r (by simp [storages])
    obtain ⟨copy, hcopy, hp⟩ := bind_eq_ok.1 hp
    cases hp
    obtain ⟨size, hsize, rfl⟩ := Step.copyOf_eq_ok hcopy
    obtain ⟨segment, size', rfl, hsize', hle⟩ := hv.segment hcarries
    obtain rfl : size = size' := ok_unique hsize hsize'
    refine .unbox (.unboxCopy hm (hlive segment rfl) hle halignment
      fun n₁ t h₁ hframe hsettled hreserved hbytes => ?_)
    refine .unboxBase fun n₂ h₂ => .unboxAddress fun n₃ h₃ => .unboxMove ?_ rfl fun n h₄ hword => ?_
    · rw [h₃.layout, h₂.layout, hframe]
      exact hr
    · have hwrites := (h₂.trans h₃).trans h₄
      refine .pure ⟨rfl, (h₁.movesInto hframe).trans (hwrites.movesInto h₁.ready), segment, size,
        rfl, hsize, ?_⟩
      have hword : n.frame.wordAt r = t.address := Value.i64.inj hword
      have hmarshals := hwrites.marshals h₁.ready
      rw [hword]
      refine ⟨hmarshals.settled hsettled, hreserved.mono hmarshals.evolves.top_le, fun i hi => ?_⟩
      rw [hmarshals.bytes_settled hsettled hi, hbytes i hi]

end ForeignCall
